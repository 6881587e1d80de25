import FightNight.Supervisor.Refinement

/-!
# Rewinding

`Rewind` looks for the last log of the blocks to keep, deletes every entry after its initiating
event and opens the rest.  Opening deletes trailing entries that cannot be the last ones, such as
an initiating event that announces an executing message: when the last log to keep executes a
message, it is lost.  It survives when a search checkpoint of the first log to delete stands in
the store, because then the entries are cut there (`rewind_keeps_iff`).
-/

namespace FightNight.Supervisor

open Option Run List DB

/-! ## Truncation -/

variable {headBlockNum latest : UInt64} {kept logs os rs us xs ys zs : List LogRecord} {db db' : DB}
  {o r u y : LogRecord} {pre : LogContext} {c : SearchCheckpoint} {i : Iterator} {k n q : ℕ}

/-- Deleting everything from the entry `q` on and opening the rest keeps the logs before the one
that the entry belongs to. -/
theorem Stores.truncateTo (h : Stores db logs) (howner : Owner logs q xs r ys) :
    db.truncateTo (q - 1) =
      .ok ⟨(layout xs).map Item.encode, headContext db.lastEntryContext xs⟩ := by
  obtain ⟨front, x, hitems, -, hfront⟩ := logItems_final (endOf 0 xs) (headContext ⟨0, 0⟩ xs) r
  have hlt := howner.lt
  rw [← length_logItems, hitems, length_append, length_singleton] at hlt
  have hle := howner.le
  have hstore : EntryStore.truncate (q - 1) db.store =
      (layout xs ++ front.take (q - endOf 0 xs)).map Item.encode := by
    have hq : ((q : ℤ) - 1 + 1).toNat = q := by omega
    have hlen := length_layout xs
    rw [EntryStore.truncate, hq, h.store_eq, howner.split, layout, layoutFrom_append, layoutFrom,
      hitems, ← map_take]
    congr 1
    change ((layout xs) ++ _).take q = _
    rw [take_append, take_of_length_le (by omega), hlen, append_assoc,
      take_append_of_le_length (by omega)]
  have hjunk : ∀ y ∈ front.take (q - endOf 0 xs), y.isFinal = false :=
    fun y hy => hfront y (mem_of_mem_take hy)
  have hacc : Accepts 0 ⟨0, 0⟩ xs := by
    have hall := h.accepts
    rw [howner.split] at hall
    exact (accepts_append.mp hall).1
  have hinit := @init_layout { db with store := EntryStore.truncate (q - 1) db.store } xs _
    hacc hstore hjunk
  rw [DB.truncateTo, hinit]
  rfl

/-! ## The blocks to keep -/

lemma Accepts.block_le (h : Accepts n pre logs) : ∀ r ∈ logs, pre.blockNum ≤ r.blockNum := by
  induction logs generalizing n pre with
  | nil =>
    intro r hr
    cases hr
  | cons s rs ih =>
    have hs : pre.blockNum ≤ s.blockNum := by
      rcases h.1.order with ⟨hblock, -⟩ | ⟨hblock, -⟩
      · exact UInt64.le_of_eq hblock.symm
      · exact UInt64.le_of_lt hblock
    intro r hr
    rcases mem_cons.mp hr with rfl | hmem
    · exact hs
    · exact UInt64.le_trans hs (ih h.2 r hmem)

/-- The logs `zs` of the blocks up to `headBlockNum` come first; `y` is the first log of a later
block. -/
structure Cut (headBlockNum : UInt64) (logs zs : List LogRecord) (y : LogRecord)
    (ys : List LogRecord) : Prop where
  split : logs = zs ++ y :: ys
  kept : ∀ z ∈ zs, z.blockNum ≤ headBlockNum
  dropped : ∀ s ∈ y :: ys, headBlockNum < s.blockNum

lemma Accepts.exists_cut (h : Accepts n pre logs) (hpre : pre.blockNum ≤ headBlockNum)
    (hhead : headBlockNum < (headContext pre logs).blockNum) :
    ∃ zs y ys, Cut headBlockNum logs zs y ys := by
  induction logs generalizing n pre with
  | nil => exact absurd hhead (UInt64.not_lt.mpr hpre)
  | cons r rs ih =>
    by_cases hr : r.blockNum ≤ headBlockNum
    · obtain ⟨zs, y, ys, hsplit, hkept, hdropped⟩ := ih h.2 hr hhead
      refine ⟨r :: zs, y, ys, by rw [hsplit, cons_append], ?_, hdropped⟩
      intro z hz
      rcases mem_cons.mp hz with rfl | hmem
      · exact hr
      · exact hkept z hmem
    · have hlt : headBlockNum < r.blockNum := UInt64.not_le.mp hr
      refine ⟨[], r, rs, rfl, fun z hz => (not_mem_nil hz).elim, ?_⟩
      intro s hs
      rcases mem_cons.mp hs with rfl | hmem
      · exact hlt
      · exact UInt64.lt_of_lt_of_le hlt (h.2.block_le s hmem)

lemma Cut.unique (h : Cut headBlockNum logs zs y ys) (hsplit : logs = xs ++ r :: rs)
    (hxs : ∀ x ∈ xs, x.blockNum ≤ headBlockNum) (hr : headBlockNum < r.blockNum) : xs = zs := by
  rw [h.split] at hsplit
  rcases append_eq_append_iff.mp hsplit with ⟨ws, hws, hrest⟩ | ⟨ws, hws, hrest⟩
  · cases ws with
    | nil => simpa using hws
    | cons w ws =>
      cases hrest
      have hy := hxs y (by simp [hws])
      exact absurd (h.dropped y mem_cons_self) (UInt64.not_lt.mpr hy)
  · cases ws with
    | nil => simpa using hws.symm
    | cons w ws =>
      cases hrest
      have hr' := h.kept r (by simp [hws])
      exact absurd hr (UInt64.not_lt.mpr hr')

lemma Cut.filter_eq (h : Cut headBlockNum logs zs y ys) :
    logs.filter (fun r => r.blockNum ≤ headBlockNum) = zs := by
  have hzs : zs.filter (fun r => r.blockNum ≤ headBlockNum) = zs :=
    filter_eq_self.mpr fun z hz => decide_eq_true (h.kept z hz)
  have hys : (y :: ys).filter (fun r => r.blockNum ≤ headBlockNum) = [] :=
    filter_eq_nil_iff.mpr fun s hs => by simpa using h.dropped s hs
  rw [h.split, filter_append, hzs, hys, append_nil]

/-! ## The scan for the last log to keep -/

/-- A round of the scan that reads a log to keep: its initiating event is kept. -/
theorem rewindLoop_keep (hi : db.nextLog i = (afterLog n r, .ok (r.context, r.logHash)))
    (hr : r.blockNum ≤ headBlockNum) (rounds : ℕ) (idx : ℤ) :
    db.rewindLoop headBlockNum (rounds + 1) idx i =
      db.rewindLoop headBlockNum rounds (initIdx n) (afterLog n r) := by
  have hidx : (afterLog n r).nextEntryIdx - 1 = initIdx n := by
    rw [afterLog]
    push_cast
    omega
  have hblock : ¬headBlockNum < r.context.blockNum := UInt64.not_lt.mpr hr
  rw [rewindLoop, hi]
  simp only [hblock, if_false, hidx]

lemma rewindLoop_stop {j : Iterator} (hi : db.nextLog i = (j, .ok (r.context, r.logHash)))
    (hr : headBlockNum < r.blockNum) (rounds : ℕ) (idx : ℤ) :
    db.rewindLoop headBlockNum (rounds + 1) idx i = .ok (some idx) := by
  have hblock : headBlockNum < r.context.blockNum := hr
  rw [rewindLoop, hi]
  simp only [hblock, if_true]

lemma LogAt.rewindLoop (h : LogAt db n pre r (zs ++ y :: ys)) (hr : r.blockNum ≤ headBlockNum)
    (hzs : ∀ z ∈ zs, z.blockNum ≤ headBlockNum) (hy : headBlockNum < y.blockNum) {rounds : ℕ}
    (hrnd : (zs ++ y :: ys).length < rounds)
    (hi : db.nextLog i = (afterLog n r, .ok (r.context, r.logHash))) (idx : ℤ) :
    ∃ us u, r :: zs = us ++ [u] ∧
      db.rewindLoop headBlockNum rounds idx i = .ok (some (initIdx (endOf n us))) := by
  induction zs generalizing n pre r rounds i idx with
  | nil =>
    obtain ⟨rounds, rfl⟩ : ∃ k, rounds = k + 2 := ⟨rounds - 2, by simp at hrnd; omega⟩
    refine ⟨[], r, rfl, ?_⟩
    rw [rewindLoop_keep hi hr, rewindLoop_stop h.nextLog_after hy]
    rfl
  | cons z zs ih =>
    obtain ⟨rounds, rfl⟩ : ∃ k, rounds = k + 1 := ⟨rounds - 1, by simp at hrnd; omega⟩
    have hz : z.blockNum ≤ headBlockNum := hzs z mem_cons_self
    obtain ⟨us, u, husu, hloop⟩ := ih h.next hz (fun w hw => hzs w (mem_cons_of_mem _ hw))
      (by simpa using hrnd) h.nextLog_after (initIdx n)
    refine ⟨r :: us, u, by rw [husu, cons_append], ?_⟩
    rw [rewindLoop_keep hi hr, hloop]
    rfl

/-! ## What a rewind keeps -/

lemma before_next_iff (h : headBlockNum < latest) :
    before c (headBlockNum + 1) 0 = true ↔ c.blockNum ≤ headBlockNum := by
  rw [before]
  grind

lemma Stores.rewind_checkpoint (h : Stores db logs) (hhead : headBlockNum < db.latestBlockNum)
    (howner : Owner logs (k * 256) xs r ys) (hr : headBlockNum < r.blockNum)
    (hsearch : db.searchCheckpoint (headBlockNum + 1) 0 = .ok (k * searchCheckpointFrequency)) :
    db.rewind headBlockNum =
      .ok ⟨(layout xs).map Item.encode, headContext db.lastEntryContext xs⟩ := by
  have hlog := (howner.split ▸ h).logAt
  obtain ⟨c, hiter, hnext⟩ := h.newIterator howner
  have hnot : ¬db.lastEntryContext.blockNum ≤ headBlockNum := UInt64.not_le.mpr hhead
  rw [rewind, if_neg hnot, hsearch]
  simp only [hiter, wrapError_ok, Except.ok_bind, hlog.length_lt_unread, rewindLoop_stop hnext hr]
  exact h.truncateTo howner

/-- The entry after the initiating event of a log belongs to the log when it executes a message,
and to the next log otherwise. -/
theorem owner_after_init {us ys : List LogRecord} {u y : LogRecord} :
    ∃ r rs, Owner (us ++ u :: y :: ys) (initIdx (endOf 0 us) + 1)
      (if u.execMsg.isSome then us else us ++ [u]) r rs := by
  have hinit := (initIdx_lt_endIdx (endOf 0 us) u).1
  cases hmsg : u.execMsg with
  | none =>
    have hend : endIdx (endOf 0 us) u = initIdx (endOf 0 us) + 1 := by
      rw [endIdx, execItems, hmsg]
      rfl
    have hnext := initIdx_lt_endIdx (initIdx (endOf 0 us) + 1) y
    refine ⟨y, ys, by simp, ?_, ?_⟩
    · simp [endOf_append, endOf, hend]
    · simp only [isSome_none, Bool.false_eq_true, if_false, endOf_append, endOf, hend]
      omega
  | some msg =>
    refine ⟨u, y :: ys, by simp, ?_, ?_⟩
    · grind
    · simp only [isSome_some, if_true, endIdx, execItems, hmsg, length_append, length_singleton]
      omega

lemma Cut.mem_kept (h : Cut headBlockNum logs zs y ys) (hsplit : logs = xs ++ o :: os)
    (ho : o.blockNum ≤ headBlockNum) : ∃ ws, zs = xs ++ o :: ws ∧ os = ws ++ y :: ys := by
  have hnot : o ∉ y :: ys := fun hmem => UInt64.not_lt.mpr ho (h.dropped o hmem)
  rw [h.split] at hsplit
  rcases append_eq_append_iff.mp hsplit with ⟨ws, -, hrest⟩ | ⟨ws, hws, hrest⟩
  · grind
  · cases ws with
    | nil =>
      rw [nil_append] at hrest
      rw [← hrest] at hnot
      exact absurd mem_cons_self hnot
    | cons w ws =>
      cases hrest
      exact ⟨ws, hws, rfl⟩

/-- When the search finds a checkpoint of a log to keep, everything after the initiating event of
the last log `u` to keep is deleted; opening deletes that event as well when it announces an
executing message. -/
theorem Stores.rewind_scan (h : Stores db logs) (hhead : headBlockNum < db.latestBlockNum)
    (howner : Owner logs (k * 256) xs o os) (ho : o.blockNum ≤ headBlockNum)
    (hcut : Cut headBlockNum logs zs y ys)
    (hsearch : db.searchCheckpoint (headBlockNum + 1) 0 = .ok (k * searchCheckpointFrequency)) :
    ∃ us u, zs = us ++ [u] ∧ db.rewind headBlockNum =
      .ok ⟨(layout (if u.execMsg.isSome then us else zs)).map Item.encode,
        headContext db.lastEntryContext (if u.execMsg.isSome then us else zs)⟩ := by
  have hlog := (howner.split ▸ h).logAt
  obtain ⟨c, hiter, hnext⟩ := h.newIterator howner
  obtain ⟨ws, hzs, rfl⟩ := hcut.mem_kept howner.split ho
  have hrnd := Nat.lt_succ_of_le hlog.length_le_unread
  rw [Nat.succ_eq_add_one, ← hlog.length_lt_unread c] at hrnd
  have hws : ∀ w ∈ ws, w.blockNum ≤ headBlockNum := fun w hw => hcut.kept w (by simp [hzs, hw])
  obtain ⟨us, u, husu, hloop⟩ := hlog.rewindLoop ho hws (hcut.dropped y mem_cons_self)
    hrnd hnext (k * searchCheckpointFrequency - 1)
  have hlast : zs = (xs ++ us) ++ [u] := by rw [hzs, husu, append_assoc]
  refine ⟨xs ++ us, u, hlast, ?_⟩
  obtain ⟨r, rs, hafter⟩ := @owner_after_init (xs ++ us) ys u y
  have hsplit : logs = (xs ++ us) ++ u :: y :: ys := by
    rw [hcut.split, hlast, append_assoc]
    rfl
  rw [← hsplit, ← hlast] at hafter
  have htrunc := h.truncateTo hafter
  have hidx : ((initIdx (endOf 0 (xs ++ us)) + 1 : ℕ) : ℤ) - 1 =
      initIdx (endOf (endOf 0 xs) us) := by
    rw [endOf_append]
    omega
  rw [hidx] at htrunc
  have hnot : ¬db.lastEntryContext.blockNum ≤ headBlockNum := UInt64.not_le.mpr hhead
  rw [rewind, if_neg hnot, hsearch]
  simp only [hiter, wrapError_ok, Except.ok_bind, hloop]
  exact htrunc

lemma Owner.key_le {xs' ys' : List LogRecord} {r' : LogRecord} {q' : ℕ} (h : Owner logs q xs r ys)
    (h' : Owner logs q' xs' r' ys') (hsorted : Ascending logs) (hq : q ≤ q') :
    r.context.key ≤ r'.context.key := by
  have hsplit : xs ++ r :: ys = xs' ++ r' :: ys' := h.split.symm.trans h'.split
  rcases append_eq_append_iff.mp hsplit with ⟨ws, -, hrest⟩ | ⟨ws, hws, hrest⟩
  · cases ws with
    | nil =>
      cases hrest
      exact le_refl _
    | cons w ws =>
      cases hrest
      rw [h.split] at hsorted
      have hpair := (pairwise_append.mp hsorted).2.1
      exact le_of_lt ((pairwise_cons.mp hpair).1 r' (by simp))
  · cases ws with
    | nil =>
      cases hrest
      exact le_refl _
    | cons w ws =>
      -- The log `r'` would end before `r` begins.
      cases hrest
      have hle := h.le
      have hlt := h'.lt
      have hend := length_le_endOf (endIdx (endOf 0 xs') r') ws
      rw [hws, endOf_append, endOf] at hle
      omega

/-- What remains of the logs after a rewind, where `zs` are those to keep: nothing when there are
none; the logs before the first log of the next block when a checkpoint of it is found; otherwise
`zs`, without its last log when that executes a message. -/
inductive RewindsTo (db : DB) (logs zs : List LogRecord) (headBlockNum : UInt64) :
    List LogRecord → Prop where
  | nothing (hzs : zs = []) : RewindsTo db logs zs headBlockNum []
  | checkpoint {k : ℕ} {kept rs : List LogRecord} {r : LogRecord} (hzs : zs ≠ [])
      (howner : Owner logs (k * 256) kept r rs) (hr : r.context = ⟨headBlockNum + 1, 0⟩) :
      RewindsTo db logs zs headBlockNum kept
  | last {us : List LogRecord} {u : LogRecord} (hzs : zs = us ++ [u])
      (hnone : Ascending logs → ∀ (m : ℕ) (c : SearchCheckpoint),
        db.readSearchCheckpoint (m * searchCheckpointFrequency) = .ok c →
        c.context ≠ ⟨headBlockNum + 1, 0⟩) :
      RewindsTo db logs zs headBlockNum (if u.execMsg.isSome then us else zs)

/-- The search without a result at its target has no checkpoint there, in ascending order. -/
theorem Stores.no_checkpoint (h : Stores db logs) (hsorted : Ascending logs) {blockNum : UInt64}
    {logIdx : UInt32} {prev : SearchCheckpoint}
    (hprev : db.readSearchCheckpoint ((k - 1 : ℕ) * searchCheckpointFrequency) = .ok prev)
    (hpre : before prev blockNum logIdx = true)
    (hat : ∀ c, db.readSearchCheckpoint (k * searchCheckpointFrequency) = .ok c →
      before c blockNum logIdx = false ∧ c.context ≠ ⟨blockNum, logIdx⟩)
    (m : ℕ) (hc : db.readSearchCheckpoint (m * searchCheckpointFrequency) = .ok c) :
    c.context ≠ ⟨blockNum, logIdx⟩ := by
  intro htgt
  obtain ⟨xs, r, ys, howner, rfl⟩ := h.owner_of_checkpoint hc
  obtain ⟨xs', r', ys', howner', rfl⟩ := h.owner_of_checkpoint hprev
  have hlt := before_iff.mp hpre
  rw [← htgt, LogRecord.context_checkpoint, LogRecord.context_checkpoint] at hlt
  rcases lt_or_ge m k with hmk | hkm
  · have hle := howner.key_le howner' hsorted (by omega)
    omega
  · -- The checkpoint `k` can be read, and it carries a position up to the target.
    have hle := Nat.mul_le_mul_right 256 hkm
    have hend := lt_of_le_of_lt hle (h.checkpoint_lt hc)
    obtain ⟨xs'', r'', ys'', howner''⟩ := exists_owner hend
    obtain ⟨hnot, hne⟩ := hat _ (h.readSearchCheckpoint howner'')
    have hkeys := howner''.key_le howner hsorted hle
    have hge := mt before_iff.mpr (Bool.not_eq_true _ ▸ hnot)
    have hkey := mt LogContext.key_inj.mp hne
    rw [← htgt, LogRecord.context_checkpoint, LogRecord.context_checkpoint] at hge hkey
    omega

/-- A log at the first position of the next block is to be deleted.  The number of that block does
not overflow, since there is a later block than `headBlockNum`. -/
theorem lt_of_next_block (hhead : headBlockNum < latest) (hr : r.context = ⟨headBlockNum + 1, 0⟩) :
    headBlockNum < r.blockNum := by
  have hblock : r.blockNum = headBlockNum + 1 := congrArg LogContext.blockNum hr
  grind

/-- When no checkpoint stands before the next block, there are no logs to keep, since the first log
has a checkpoint: everything is deleted. -/
theorem Stores.rewind_nothing {first : LogRecord} {rest : List LogRecord}
    (h : Stores db (first :: rest)) (hhead : headBlockNum < db.latestBlockNum)
    (hcut : Cut headBlockNum (first :: rest) zs y ys) (hstops : StopsAt db (headBlockNum + 1) 0 0) :
    zs = [] ∧ db.rewind headBlockNum = .ok ⟨[], db.lastEntryContext⟩ := by
  have howner : Owner (first :: rest) (0 * 256) [] first rest := owner_first first rest (zero_mul 256)
  have hread := h.readSearchCheckpoint howner
  have hblock : headBlockNum < first.blockNum := by
    rcases hstops.2 with ⟨c, hc, hctx, -⟩ | ⟨hat, -⟩
    · cases hread.symm.trans hc
      exact lt_of_next_block hhead hctx
    · have hnot := (hat _ hread).1
      rw [← Bool.not_eq_true, before_next_iff hhead] at hnot
      exact UInt64.not_le.mp hnot
  refine ⟨(hcut.unique howner.split (by simp) hblock).symm, ?_⟩
  rcases hstops.2 with ⟨c, hc, hctx, hsearch⟩ | ⟨-, hsearch⟩
  · exact h.rewind_checkpoint hhead howner hblock hsearch
  · have hnot : ¬db.lastEntryContext.blockNum ≤ headBlockNum := UInt64.not_le.mpr hhead
    rw [rewind, if_neg hnot, hsearch]
    rfl

lemma Stores.rewind (h : Stores db logs) (hhead : headBlockNum < db.latestBlockNum)
    (hcut : Cut headBlockNum logs zs y ys) :
    ∃ kept, RewindsTo db logs zs headBlockNum kept ∧ db.rewind headBlockNum =
      .ok ⟨(layout kept).map Item.encode, headContext db.lastEntryContext kept⟩ := by
  have hne : db.store ≠ [] := by
    intro hnil
    have hsplit := hcut.split
    rw [h.logs_eq_nil hnil] at hsplit
    exact append_ne_nil_of_right_ne_nil _ (cons_ne_nil _ _) hsplit.symm
  obtain ⟨k, hstops⟩ := h.searchCheckpoint hne (headBlockNum + 1) 0
  by_cases hk : k = 0
  · obtain ⟨first, rest, rfl⟩ := h.exists_cons hne
    rw [hk] at hstops
    obtain ⟨hzs, hrew⟩ := h.rewind_nothing hhead hcut hstops
    exact ⟨[], .nothing hzs, hrew⟩
  · obtain ⟨hprev, hres⟩ := hstops
    obtain ⟨prev, hread, hpre⟩ := hprev.resolve_left hk
    obtain ⟨xs, o, os, howner, rfl⟩ := h.owner_of_checkpoint hread
    have ho : o.blockNum ≤ headBlockNum := (before_next_iff hhead).mp hpre
    rcases hres with ⟨c, hc, hctx, hsearch⟩ | ⟨hat, hsearch⟩
    · obtain ⟨kept, r, rs, hkept, rfl⟩ := h.owner_of_checkpoint hc
      obtain ⟨ws, hzs, -⟩ := hcut.mem_kept howner.split ho
      have hzsne : zs ≠ [] := by simp [hzs]
      exact ⟨kept, .checkpoint hzsne hkept hctx,
        h.rewind_checkpoint hhead hkept (lt_of_next_block hhead hctx) hsearch⟩
    · rw [if_neg hk] at hsearch
      obtain ⟨us, u, hzs, hrew⟩ := h.rewind_scan hhead howner ho hcut hsearch
      refine ⟨_, .last hzs ?_, hrew⟩
      intro hsorted m c hc
      exact h.no_checkpoint hsorted hread hpre hat m hc

lemma RewindsTo.accepts (h : RewindsTo db logs zs headBlockNum kept)
    (hcut : Cut headBlockNum logs zs y ys) (hlogs : Accepts 0 ⟨0, 0⟩ logs) :
    Accepts 0 ⟨0, 0⟩ kept := by
  have hzs : Accepts 0 ⟨0, 0⟩ zs := by
    rw [hcut.split] at hlogs
    exact (accepts_append.mp hlogs).1
  cases h with
  | nothing => trivial
  | checkpoint _ howner =>
    rw [howner.split] at hlogs
    exact (accepts_append.mp hlogs).1
  | last hlast =>
    split
    · rw [hlast] at hzs
      exact (accepts_append.mp hzs).1
    · exact hzs

/-! ## Lookups after a rewind -/

/-- The rewind loses no log: nothing is to be deleted, or the last log to keep does not execute a
message, or a search checkpoint carries the position of the first log of the next block. -/
def RewindSafe (db : DB) (logs : List LogRecord) (headBlockNum : UInt64) : Prop :=
  db.latestBlockNum ≤ headBlockNum ∨
  (∀ r ∈ (logs.filter fun r => r.blockNum ≤ headBlockNum).getLast?, r.execMsg = none) ∨
  ∃ (k : ℕ) (c : SearchCheckpoint),
    db.readSearchCheckpoint (k * searchCheckpointFrequency) = .ok c ∧
    c.context = ⟨headBlockNum + 1, 0⟩

/-- The logs of the blocks to keep are found as before, and those of later blocks are not
found. -/
def KeepsExactly (db db' : DB) (headBlockNum : UInt64) : Prop :=
  ∀ (blockNum : UInt64) (logIdx : UInt32),
    (blockNum ≤ headBlockNum →
      db'.executes blockNum logIdx = db.executes blockNum logIdx ∧
      ∀ logHash, db'.contains blockNum logIdx logHash = db.contains blockNum logIdx logHash) ∧
    (headBlockNum < blockNum →
      db'.executes blockNum logIdx = .error .notFound ∧
      ∀ logHash, db'.contains blockNum logIdx logHash = .ok false)

lemma Cut.recorded_eq (h : Cut headBlockNum logs zs y ys) {c : LogContext} :
    recorded zs c = if c.blockNum ≤ headBlockNum then recorded logs c else none := by
  split
  · rename_i hle
    rw [h.split, recorded_append_left]
    intro r hr heq
    have hlt := h.dropped r hr
    rw [← heq] at hle
    exact UInt64.not_lt.mpr hle hlt
  · rename_i hgt
    apply recorded_eq_none.mpr
    intro r hr heq
    rw [← heq] at hgt
    exact hgt (h.kept r hr)

lemma Stores.keepsExactly (h : Stores db logs) (h' : Stores db' zs) (hsorted : Ascending logs)
    (hzs : Ascending zs) (hrecorded : ∀ c : LogContext, recorded zs c =
      if c.blockNum ≤ headBlockNum then recorded logs c else none) :
    KeepsExactly db db' headBlockNum := by
  intro blockNum logIdx
  have hrec := hrecorded ⟨blockNum, logIdx⟩
  constructor
  · intro hle
    rw [if_pos hle] at hrec
    refine ⟨?_, fun logHash => ?_⟩
    · rw [h.executes hsorted, h'.executes hzs, hrec]
    · rw [h.contains hsorted, h'.contains hzs, hrec]
  · intro hlt
    rw [if_neg (UInt64.not_le.mpr hlt)] at hrec
    refine ⟨?_, fun logHash => ?_⟩
    · rw [h'.executes hzs, hrec]
    · rw [h'.contains hzs, hrec]
      rfl

lemma Accepts.block_le_head (h : Accepts n pre logs) :
    pre.blockNum ≤ (headContext pre logs).blockNum ∧
      ∀ r ∈ logs, r.blockNum ≤ (headContext pre logs).blockNum := by
  induction logs generalizing n pre with
  | nil => exact ⟨UInt64.le_refl _, fun r hr => (not_mem_nil hr).elim⟩
  | cons s rs ih =>
    obtain ⟨hs, hrs⟩ := ih h.2
    have hpre := h.block_le s mem_cons_self
    refine ⟨UInt64.le_trans hpre hs, ?_⟩
    intro r hr
    rcases mem_cons.mp hr with rfl | hmem
    · exact hs
    · exact hrs r hmem

/-- The logs before a log that is the first one of the next block are those of the blocks up to
it, in ascending order. -/
theorem Cut.eq_of_checkpoint (h : Cut headBlockNum logs zs y ys) (hhead : headBlockNum < latest)
    (hsorted : Ascending logs) (howner : Owner logs q kept r rs)
    (hr : r.context = ⟨headBlockNum + 1, 0⟩) : kept = zs := by
  have hblock : r.blockNum = headBlockNum + 1 := congrArg LogContext.blockNum hr
  have hidx : r.logIdx = 0 := congrArg LogContext.logIdx hr
  apply h.unique howner.split
  · intro x hx
    rw [howner.split] at hsorted
    have hlt := (pairwise_append.mp hsorted).2.2 x hx r mem_cons_self
    rw [LogContext.key_lt_iff] at hlt
    simp only [LogRecord.context, hidx] at hlt
    grind
  · exact lt_of_next_block hhead hr

lemma not_keepsExactly (h : Stores db logs) (h' : Stores db' us) (hsorted : Ascending logs)
    (hsplit : logs = us ++ u :: ys) (hu : u.blockNum ≤ headBlockNum) :
    ¬KeepsExactly db db' headBlockNum := by
  intro hkeeps
  have hexec := ((hkeeps u.blockNum u.logIdx).1 hu).1
  obtain ⟨hus, -, hlt⟩ := pairwise_append.mp (hsplit ▸ hsorted)
  have hnone := (h'.executes_notFound_iff hus u.blockNum u.logIdx).mpr fun r hr heq => by
    have hru := hlt r hr u mem_cons_self
    rw [heq] at hru
    exact lt_irrefl _ hru
  exact (h.executes_notFound_iff hsorted _ _).mp (hexec.symm.trans hnone) u (by simp [hsplit]) rfl

lemma Holds.keepsExactly_self (h : Holds db logs) (hsorted : Ascending logs)
    (hhead : db.latestBlockNum ≤ headBlockNum) : KeepsExactly db db headBlockNum := by
  apply h.keepsExactly h.toStores hsorted hsorted
  intro c
  split
  · rfl
  · rename_i hgt
    apply recorded_eq_none.mpr
    intro r hr heq
    have hle := h.accepts.block_le_head.2 r hr
    rw [← h.head_eq] at hle
    rw [← heq] at hgt
    exact hgt (UInt64.le_trans hle hhead)

lemma rewind_of_le (h : db.latestBlockNum ≤ headBlockNum) :
    db.rewind headBlockNum = .ok db := if_pos h

lemma Holds.exists_rewind (h : Holds db logs) (hhead : headBlockNum < db.latestBlockNum) :
    ∃ zs y ys kept, Cut headBlockNum logs zs y ys ∧ RewindsTo db logs zs headBlockNum kept ∧
      ∃ db', db.rewind headBlockNum = .ok db' ∧ Stores db' kept ∧
        db'.lastEntryContext = headContext db.lastEntryContext kept := by
  have hlatest := hhead
  rw [latestBlockNum, h.head_eq] at hlatest
  obtain ⟨zs, y, ys, hcut⟩ := h.accepts.exists_cut UInt64.zero_le hlatest
  obtain ⟨kept, hkept, hres⟩ := h.rewind hhead hcut
  exact ⟨zs, y, ys, kept, hcut, hkept, _, hres, ⟨rfl, hkept.accepts hcut h.accepts⟩, rfl⟩

/-- A rewind is not safe when the last log to keep executes a message and no checkpoint carries the
first position of the next block. -/
theorem not_rewindSafe (hhead : headBlockNum < db.latestBlockNum)
    (hfilt : logs.filter (fun r => r.blockNum ≤ headBlockNum) = us ++ [u])
    (hmsg : u.execMsg ≠ none) (hnone : ∀ (m : ℕ) (c : SearchCheckpoint),
      db.readSearchCheckpoint (m * searchCheckpointFrequency) = .ok c →
      c.context ≠ ⟨headBlockNum + 1, 0⟩) :
    ¬RewindSafe db logs headBlockNum := by
  rintro (hle | hexec | ⟨k, c, hread, hctx⟩)
  · exact UInt64.not_lt.mpr hle hhead
  · exact hmsg (hexec u (by simp [hfilt]))
  · exact hnone k c hread hctx

/-- A rewind of ascending logs keeps exactly the logs to keep if and only if it is safe. -/
theorem Holds.keepsExactly_iff (h : Holds db logs) (hsorted : Ascending logs)
    (hrew : db.rewind headBlockNum = .ok db') :
    KeepsExactly db db' headBlockNum ↔ RewindSafe db logs headBlockNum := by
  by_cases hhead : db.latestBlockNum ≤ headBlockNum
  · rw [rewind_of_le hhead] at hrew
    cases hrew
    exact iff_of_true (h.keepsExactly_self hsorted hhead) (Or.inl hhead)
  · have hlt : headBlockNum < db.latestBlockNum := UInt64.not_le.mp hhead
    obtain ⟨zs, y, ys, kept, hcut, hkept, db'', hres, hsto, -⟩ := h.exists_rewind hlt
    cases hrew.symm.trans hres
    have hzs : Ascending zs := by
      rw [hcut.split] at hsorted
      exact (pairwise_append.mp hsorted).1
    -- Nothing is lost when all logs to keep are kept.
    have hall : kept = zs → KeepsExactly db db' headBlockNum := by
      rintro rfl
      exact h.keepsExactly hsto hsorted hzs fun c => hcut.recorded_eq
    have hfilt := hcut.filter_eq
    cases hkept with
    | nothing hnil =>
      refine iff_of_true (hall hnil.symm) (Or.inr (Or.inl ?_))
      simp [hfilt, hnil]
    | checkpoint hne howner hr =>
      exact iff_of_true (hall (hcut.eq_of_checkpoint hlt hsorted howner hr))
        (Or.inr (Or.inr ⟨_, _, h.readSearchCheckpoint howner, hr⟩))
    | @last us u hlast hnone =>
      have hu : u.blockNum ≤ headBlockNum := hcut.kept u (by simp [hlast])
      rw [hlast] at hfilt
      cases hmsg : u.execMsg with
      | none =>
        refine iff_of_true (hall (by simp [hmsg])) (Or.inr (Or.inl ?_))
        simp [hfilt, hmsg]
      | some msg =>
        simp only [hmsg] at hsto
        have hsplit : logs = us ++ u :: y :: ys := by simp [hcut.split, hlast]
        exact iff_of_false (not_keepsExactly h.toStores hsto hsorted hsplit hu)
          (not_rewindSafe hlt hfilt (by simp [hmsg]) (hnone hsorted))

/-- After any run of `AddLog` calls without an overflow, a rewind keeps exactly the logs of the
blocks up to the given one if and only if it is safe. -/
theorem rewind_keeps_iff {ops : List Op} (hops : ∀ op ∈ ops, ∃ r, op = .addLog r)
    (hmeet : Run.AllMeet exec NoOverflow ops empty) {headBlockNum : UInt64} {db' : DB}
    (hrewind : (runAll exec ops empty).rewind headBlockNum = .ok db') :
    KeepsExactly (runAll exec ops empty) db' headBlockNum ↔
      RewindSafe (runAll exec ops empty) (accepted ops empty) headBlockNum := by
  have hadds : ∀ op ∈ ops, op.Adds := by
    intro op hop
    obtain ⟨r, rfl⟩ := hops op hop
    trivial
  have hholds := run_holds hadds holds_empty
  have hsorted := run_ascending hadds holds_empty Pairwise.nil hmeet
  exact hholds.keepsExactly_iff hsorted hrewind

/-- Three blocks with one log each, the second of which executes a message. -/
def rewindOps : List Op :=
  [.addLog (sampleLog 50 0 none), .addLog (sampleLog 51 0 (some sampleMessage)),
    .addLog (sampleLog 52 0 none)]

/-- A rewind to block 51 loses the log of block 51. -/
theorem rewind_loses_log :
    (runAll exec rewindOps empty).executes 51 0 = .ok sampleMessage ∧
    ((runAll exec rewindOps empty).rewind 51).map (fun db => db.executes 51 0) =
      .ok (.error .notFound) := by
  decide

/-- The theorem at a rewind of the same logs to block 50, which is safe. -/
theorem rewind_keeps_iff_sample :
    ∃ db', (runAll exec rewindOps empty).rewind 50 = .ok db' ∧
      KeepsExactly (runAll exec rewindOps empty) db' 50 := by
  have hops : ∀ op ∈ rewindOps, ∃ r, op = .addLog r := by simp [rewindOps]
  have hmeet : AllMeet exec NoOverflow rewindOps empty := by decide
  have hrew : ((runAll exec rewindOps empty).rewind 50).isOk = true := by
    decide
  cases hres : (runAll exec rewindOps empty).rewind 50 with
  | error e =>
    rw [hres] at hrew
    cases hrew
  | ok db' =>
    refine ⟨db', rfl, (rewind_keeps_iff hops hmeet hres).mpr (Or.inr (Or.inl ?_))⟩
    decide

end FightNight.Supervisor
