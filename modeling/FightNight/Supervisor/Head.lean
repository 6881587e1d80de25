import FightNight.Supervisor.Rewind

/-!
# The position in memory

The database keeps the position of its last log in memory, which decides which logs `AddLog`
accepts.  `Rewind` and `Resume` open what they have left of the store, but opening an empty store
returns early and leaves the old position: the database then refuses logs that it would accept
after a restart (`rewind_leaves_stale_head`).  In every run whose rewinds leave a log, the
position in memory is that of the store (`head_follows_store`).
-/

namespace FightNight.Supervisor

open Run DB

namespace DB

/-- Whether a rewind to `headBlockNum` leaves at least one log: the first log belongs to a block
to keep, and it does not execute a message or the second log belongs to a block to keep too. -/
def leavesALog (headBlockNum : UInt64) (db : DB) : Bool :=
  match db.newIterator 0 with
  | .error _ => false
  | .ok i =>
    match db.nextLog i with
    | (_, .error _) => false
    | (i, .ok (first, _)) =>
      first.blockNum ≤ headBlockNum &&
        (!i.hasExecMsg ||
          match db.nextLog i with
          | (_, .error _) => false
          | (_, .ok (second, _)) => second.blockNum ≤ headBlockNum)

/-- An operation does not empty a store that has logs: a rewind has nothing to delete or leaves
a log, and so does the rewind of `Resume` to the block before the last checkpoint. -/
def Op.leavesALog : Op → DB → Bool
  | .rewind headBlockNum, db => db.latestBlockNum ≤ headBlockNum || db.leavesALog headBlockNum
  | .resume, db =>
    match db.closestBlockInfo 18446744073709551615 with
    | .error _ => true
    | .ok (checkPointBlock, _) => db.leavesALog (checkPointBlock - 1)
  | _, _ => true

end DB

/-! ## Rewinds that leave a log -/

variable {headBlockNum : UInt64} {logs : List LogRecord} {db db' : DB}

lemma Stores.leavesALog {first : LogRecord} {rest : List LogRecord}
    (h : Stores db (first :: rest)) (hleaves : db.leavesALog headBlockNum = true) :
    first.blockNum ≤ headBlockNum ∧
      (first.execMsg = none ∨ ∃ second ∈ rest.head?, second.blockNum ≤ headBlockNum) := by
  have hlog : LogAt db 0 ⟨0, 0⟩ first rest := @logAt db [] rest first h
  obtain ⟨c, hiter, hnext⟩ := h.newIterator (owner_first first rest (zero_mul 256))
  have hzero : ((0 : ℕ) : ℤ) * searchCheckpointFrequency = 0 := zero_mul _
  rw [hzero] at hiter
  rw [DB.leavesALog, hiter] at hleaves
  simp only [hnext, Bool.and_eq_true, decide_eq_true_eq] at hleaves
  obtain ⟨hfirst, hsecond⟩ := hleaves
  refine ⟨hfirst, ?_⟩
  cases hmsg : first.execMsg with
  | none => exact Or.inl rfl
  | some msg =>
    refine Or.inr ?_
    cases rest with
    | nil =>
      obtain ⟨j, hj, -⟩ := hlog.nextLog_end
      rw [endOf, hj] at hsecond
      simp [afterLog, hmsg] at hsecond
    | cons second rest =>
      refine ⟨second, rfl, ?_⟩
      rw [endOf, hlog.nextLog_after] at hsecond
      simp only [afterLog, hmsg] at hsecond
      exact of_decide_eq_true hsecond

/-- A rewind that leaves a log according to the first two logs leaves one. -/
theorem RewindsTo.ne_nil {zs ys kept : List LogRecord} {y : LogRecord}
    (hrew : RewindsTo db logs zs headBlockNum kept) (hcut : Cut headBlockNum logs zs y ys)
    (h : Stores db logs) (hhead : headBlockNum < db.latestBlockNum)
    (hleaves : db.leavesALog headBlockNum = true) : kept ≠ [] := by
  cases logs with
  | nil =>
    have hsplit := hcut.split
    simp at hsplit
  | cons first rest =>
    obtain ⟨hfirst, hsecond⟩ := h.leavesALog hleaves
    have hcons : first :: rest = [] ++ first :: rest := rfl
    obtain ⟨ws, hzs, hrest⟩ := hcut.mem_kept hcons hfirst
    cases hrew with
    | nothing hnil =>
      cases hnil.symm.trans hzs
    | checkpoint _ howner hr =>
      -- The first log to delete is not the first log of the store.
      rintro rfl
      have hsplit := howner.split
      cases hsplit
      exact UInt64.not_lt.mpr hfirst (lt_of_next_block hhead hr)
    | @last us u hlast _ =>
      cases hmsg : u.execMsg with
      | none => simp [hzs]
      | some msg =>
        rintro hnil
        simp only [Option.isSome_some, if_true] at hnil
        -- The first log would be the only one to keep, although the second one is to be kept.
        rw [hnil, hzs] at hlast
        cases hlast
        rcases hsecond with hnone | ⟨second, hmem, hle⟩
        · rw [hmsg] at hnone
          cases hnone
        · rw [hrest] at hmem
          cases hmem
          exact UInt64.not_lt.mpr hle (hcut.dropped y List.mem_cons_self)

/-! ## Runs -/

lemma Holds.rewind_holds (h : Holds db logs)
    (hleaves : db.latestBlockNum ≤ headBlockNum ∨ db.leavesALog headBlockNum = true)
    (hrew : db.rewind headBlockNum = .ok db') : ∃ logs', Holds db' logs' := by
  by_cases hhead : db.latestBlockNum ≤ headBlockNum
  · rw [rewind_of_le hhead] at hrew
    cases hrew
    exact ⟨logs, h⟩
  · have hlt : headBlockNum < db.latestBlockNum := UInt64.not_le.mp hhead
    obtain ⟨zs, y, ys, kept, hcut, hkept, db'', hres, hsto, hctx⟩ := h.exists_rewind hlt
    cases hrew.symm.trans hres
    have hne := hkept.ne_nil hcut h.toStores hlt (hleaves.resolve_left hhead)
    refine ⟨kept, hsto, ?_⟩
    rw [hctx]
    cases kept with
    | nil => exact absurd rfl hne
    | cons r rs => rfl

/-- One operation that does not empty the store keeps the position in memory right. -/
theorem exec_holds {op : Op} (h : ∃ logs, Holds db logs) (hleaves : op.leavesALog db = true)
    (hexec : exec op db = .ok db') : ∃ logs, Holds db' logs := by
  obtain ⟨logs, h⟩ := h
  cases op with
  | addLog r => exact ⟨_, h.addLog hexec⟩
  | rewind headBlockNum =>
    change (decide (db.latestBlockNum ≤ headBlockNum) || db.leavesALog headBlockNum) = true
      at hleaves
    rw [Bool.or_eq_true, decide_eq_true_eq] at hleaves
    exact h.rewind_holds hleaves hexec
  | resume =>
    change db.resume = .ok db' at hexec
    rw [resume] at hexec
    change (match db.closestBlockInfo 18446744073709551615 with
      | .error _ => true
      | .ok (checkPointBlock, _) => db.leavesALog (checkPointBlock - 1)) = true at hleaves
    cases hinfo : db.closestBlockInfo 18446744073709551615 with
    | error e =>
      simp only [hinfo] at hexec
      split at hexec
      · cases hexec
        exact ⟨logs, h⟩
      · cases hexec
    | ok info =>
      simp only [hinfo] at hexec hleaves
      split at hexec
      · cases hexec
        exact ⟨logs, h⟩
      · exact h.rewind_holds (Or.inr hleaves) (wrapError_eq_ok.mp hexec)
  | reopen =>
    have hopen : newFromEntryStore db.store = .ok db' := hexec
    rw [h.newFromEntryStore] at hopen
    cases hopen
    exact ⟨logs, h⟩

/-- After a run in which no operation empties the store, closing and opening the database changes
nothing.  In particular the first log of any block is accepted when the store is empty. -/
theorem head_follows_store {ops : List Op}
    (hmeet : Run.AllMeet exec (fun op db => op.leavesALog db = true) ops empty) :
    newFromEntryStore (runAll exec ops empty).store = .ok (runAll exec ops empty) ∧
    ((runAll exec ops empty).store = [] → ∀ r : LogRecord, r.blockNum ≠ 0 →
      r.logIdx = 0 → (∀ msg ∈ r.execMsg, ¬(1 : UInt32) <<< 24 < msg.logIdx) →
      ∃ db', (runAll exec ops empty).addLog r = .ok db') := by
  obtain ⟨logs, h⟩ := runAll_inv_of_allMeet
    (fun op db db' hdb hop hexec => exec_holds hdb hop hexec) ⟨[], holds_empty⟩ hmeet
  refine ⟨h.newFromEntryStore, ?_⟩
  intro hnil r hblock hidx hlink
  have hhead := h.head_eq
  rw [h.logs_eq_nil hnil] at hhead
  have hfol : Follows 0 ⟨0, 0⟩ r := by
    refine ⟨hblock, Or.inr ⟨?_, hidx⟩, Or.inl rfl, hlink⟩
    exact UInt64.pos_iff_ne_zero.mpr hblock
  refine ⟨_, addLog_eq_ok.mpr ⟨?_, rfl⟩⟩
  rwa [hnil, hhead]

/-- A rewind to a block before the first log, and a resume, empty the store of three logs.  The
position in memory stays at block 52, whereas opening the store gives that of an empty database; the
first log of block 20 is refused. -/
theorem rewind_leaves_stale_head :
    (runAll exec rewindOps empty).rewind 10 = .ok ⟨[], ⟨52, 0⟩⟩ ∧
    (runAll exec rewindOps empty).resume = .ok ⟨[], ⟨52, 0⟩⟩ ∧
    newFromEntryStore [] = .ok ⟨[], ⟨0, 0⟩⟩ ∧
    (mk [] ⟨52, 0⟩).addLog (sampleLog 20 0 none) =
      .error (.wrap "adding block %v, head block: %v" .logOutOfOrder) ∧
    ((mk [] ⟨0, 0⟩).addLog (sampleLog 20 0 none)).isOk = true := by
  decide

/-- The theorem after a rewind that leaves one log: opening the database changes nothing. -/
theorem head_follows_store_sample :
    newFromEntryStore (runAll exec (rewindOps ++ [.rewind 50]) empty).store =
      .ok (runAll exec (rewindOps ++ [.rewind 50]) empty) := by
  have hmeet : AllMeet exec (fun op db => op.leavesALog db = true)
      (rewindOps ++ [.rewind 50]) empty := by
    decide
  exact (head_follows_store hmeet).1

end FightNight.Supervisor
