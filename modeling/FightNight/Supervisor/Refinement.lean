import FightNight.Library.Run
import FightNight.Supervisor.Search

/-!
# The database as an ordered map

Seen from outside, the database is a map from positions to logs: after any sequence of `AddLog`
calls, with the database closed and opened again in between, `Executes` and `Contains` answer with
the log that was accepted at a position (`lookups_refine_map`).

This needs that no position is accepted twice.  In a block that has `2 ^ 32` logs, `AddLog`
accepts a second log with index 0 (`overflow_breaks_lookup`).
-/

namespace FightNight.Supervisor

open Run DB List

namespace DB

/-- The logs that the `AddLog` calls of a run have added, in the order of the calls. -/
def accepted : List Op → DB → List LogRecord
  | [], _ => []
  | op :: ops, db =>
    let rest := accepted ops (attempt exec op db)
    match op, exec op db with
    | .addLog r, .ok _ => r :: rest
    | _, _ => rest

attribute [simp] accepted.eq_1

/-- An `AddLog` call does not add the log index 0 after the log index `2 ^ 32 - 1` of the same
block. -/
def NoOverflow : Op → DB → Prop
  | .addLog r, db => r.logIdx = 0 → db.lastEntryContext ≠ ⟨r.blockNum, 4294967295⟩
  | _, _ => True

instance : ∀ (op : Op) (db : DB), Decidable (NoOverflow op db)
  | .addLog _, _ => inferInstanceAs (Decidable (_ → _))
  | .rewind _, _ => isTrue trivial
  | .resume, _ => isTrue trivial
  | .reopen, _ => isTrue trivial

/-- Operations that add logs or close and open the database. -/
def Op.Adds : Op → Prop
  | .addLog _ => True
  | .reopen => True
  | _ => False

end DB

/-! ## Ascending positions -/

variable {logs : List LogRecord} {db : DB} {r : LogRecord} {ops : List Op} {op : Op}

lemma Follows.key_lt {n : ℕ} {pre : LogContext} (h : Follows n pre r)
    (hover : r.logIdx = 0 → pre ≠ ⟨r.blockNum, 4294967295⟩) : pre.key < r.context.key := by
  rw [LogContext.key_lt_iff]
  rcases h.order with ⟨hblock, hidx⟩ | ⟨hblock, -⟩
  · have hmax : pre.logIdx ≠ 4294967295 := by
      intro hmax
      apply hover
      · rw [hidx, hmax]
        rfl
      · rw [hblock, ← hmax]
    have hlt : pre.logIdx < r.logIdx := by grind
    exact Or.inr ⟨hblock.symm, hlt⟩
  · exact Or.inl hblock

lemma Ascending.append {logs : List LogRecord} (h : Ascending logs) {r : LogRecord}
    {pre : LogContext} (hr : (headContext pre logs).key < r.context.key) :
    Ascending (logs ++ [r]) := by
  apply pairwise_append.mpr
  refine ⟨h, pairwise_singleton _ _, ?_⟩
  intro s hs t ht
  cases mem_singleton.mp ht
  rcases eq_nil_or_concat logs with rfl | ⟨front, last, rfl⟩
  · cases hs
  · rw [concat_eq_append] at h hs hr
    rw [headContext_append_singleton] at hr
    -- The log is the last one, or it stands before the last one.
    rcases mem_append.mp hs with hfront | hlast
    · have hlt := (pairwise_append.mp h).2.2 s hfront last mem_cons_self
      omega
    · cases mem_singleton.mp hlast
      exact hr

/-! ## Runs -/

namespace DB

lemma accepted_cons (op : Op) (ops : List Op) (db : DB) :
    accepted (op :: ops) db = accepted [op] db ++ accepted ops (attempt exec op db) := by
  simp only [accepted]
  split <;> rfl

lemma accepted_append (xs ys : List Op) (db : DB) :
    accepted (xs ++ ys) db = accepted xs db ++ accepted ys (runAll exec xs db) := by
  induction xs generalizing db with
  | nil => rfl
  | cons op ops ih =>
    rw [cons_append, accepted_cons, ih, accepted_cons op ops, append_assoc, runAll_cons]

variable {db : DB}

lemma accepted_addLog {r : LogRecord} {db' : DB} (h : db.addLog r = .ok db') :
    attempt exec (.addLog r) db = db' ∧ accepted [.addLog r] db = [r] := by
  have hexec : exec (.addLog r) db = .ok db' := h
  refine ⟨attempt_of_ok _ hexec, ?_⟩
  simp only [accepted, hexec]

lemma accepted_addLog_error {r : LogRecord} {e : DBError} (h : db.addLog r = .error e) :
    attempt exec (.addLog r) db = db ∧ accepted [.addLog r] db = [] := by
  have hexec : exec (.addLog r) db = .error e := h
  simp only [attempt, accepted, hexec, and_self]

end DB

lemma attempt_holds (hop : op.Adds) (h : Holds db logs) :
    Holds (attempt exec op db) (logs ++ accepted [op] db) := by
  cases op with
  | addLog r =>
    cases hadd : db.addLog r with
    | error e =>
      obtain ⟨hatt, hacc⟩ := accepted_addLog_error hadd
      rwa [hatt, hacc, append_nil]
    | ok db' =>
      obtain ⟨hatt, hacc⟩ := accepted_addLog hadd
      rw [hatt, hacc]
      exact h.addLog hadd
  | reopen =>
    have hopen : exec .reopen db = .ok db := h.newFromEntryStore
    rw [attempt_of_ok _ hopen]
    simpa [accepted] using h
  | rewind headBlockNum => exact hop.elim
  | resume => exact hop.elim

lemma attempt_ascending (h : Holds db logs) (hsorted : Ascending logs)
    (hover : NoOverflow op db) : Ascending (logs ++ accepted [op] db) := by
  cases op with
  | addLog r =>
    cases hadd : db.addLog r with
    | error e =>
      rwa [(accepted_addLog_error hadd).2, append_nil]
    | ok db' =>
      rw [(accepted_addLog hadd).2]
      have hfol := (addLog_eq_ok.mp hadd).1
      have hlt := hfol.key_lt hover
      rw [h.head_eq] at hlt
      exact hsorted.append hlt
  | reopen | rewind _ | resume => simpa [accepted] using hsorted

lemma run_holds (hops : ∀ op ∈ ops, op.Adds) (h : Holds db logs) :
    Holds (runAll exec ops db) (logs ++ accepted ops db) := by
  induction ops generalizing db logs with
  | nil => simpa [accepted] using h
  | cons op ops ih =>
    have hstep := attempt_holds (hops op mem_cons_self) h
    have hrest := ih (fun o ho => hops o (mem_cons_of_mem _ ho)) hstep
    rwa [accepted_cons, ← append_assoc]

lemma run_ascending (hops : ∀ op ∈ ops, op.Adds) (h : Holds db logs) (hsorted : Ascending logs)
    (hmeet : Run.AllMeet exec NoOverflow ops db) :
    Ascending (logs ++ accepted ops db) := by
  induction ops generalizing db logs with
  | nil => simpa [accepted] using hsorted
  | cons op ops ih =>
    obtain ⟨hop, hmeet⟩ := hmeet
    have hstep := attempt_holds (hops op mem_cons_self) h
    have hasc := attempt_ascending h hsorted hop
    have hrest := ih (fun o ho => hops o (mem_cons_of_mem _ ho)) hstep hasc hmeet
    rwa [accepted_cons, ← append_assoc]

lemma mem_ops_of_accepted (h : r ∈ accepted ops db) : .addLog r ∈ ops := by
  induction ops generalizing db with
  | nil => cases h
  | cons op ops ih =>
    rw [accepted_cons] at h
    rcases mem_append.mp h with hop | hrest
    · simp only [accepted] at hop
      split at hop
      · cases mem_singleton.mp hop
        exact mem_cons_self
      · cases hop
    · exact mem_cons_of_mem _ (ih hrest)

lemma LogRecord.executing_eq (h : ∀ msg ∈ r.execMsg, msg.logIdx.toNat < 2 ^ 24) :
    r.executing = r.execMsg.getD .empty := by
  rw [executing]
  cases hmsg : r.execMsg with
  | none => rfl
  | some msg =>
    have hlt : msg.logIdx.toNat < 2 ^ 24 := h msg hmsg
    rw [Option.map_some, ExecutingMessage.stored_of_lt hlt]

lemma Stores.executes_notFound_iff (h : Stores db logs) (hsorted : Ascending logs)
    (blockNum : UInt64) (logIdx : UInt32) :
    db.executes blockNum logIdx = .error .notFound ↔
      ∀ r ∈ logs, r.context ≠ ⟨blockNum, logIdx⟩ := by
  rw [h.executes hsorted, ← recorded_eq_none]
  cases recorded logs ⟨blockNum, logIdx⟩ with
  | none => simp
  | some r => simp

lemma Stores.contains_false_iff (h : Stores db logs) (hsorted : Ascending logs)
    (blockNum : UInt64) (logIdx : UInt32) :
    (∀ logHash, db.contains blockNum logIdx logHash = .ok false) ↔
      ∀ r ∈ logs, r.context ≠ ⟨blockNum, logIdx⟩ := by
  have hcont := h.contains hsorted blockNum logIdx
  rw [← recorded_eq_none]
  cases hrec : recorded logs ⟨blockNum, logIdx⟩ with
  | none =>
    simp only [hrec] at hcont
    simpa using hcont
  | some r =>
    simp only [hrec] at hcont
    simp only [reduceCtorEq, iff_false, not_forall]
    refine ⟨r.logHash, ?_⟩
    rw [hcont]
    simp

/-! ## The database is a map -/

/-- After any run of `AddLog` calls and reopenings without an overflow: at a position with an
accepted log, `Executes` returns its message and `Contains` compares with its hash; both report that
there is no log exactly at the other positions. -/
theorem lookups_refine_map {ops : List Op} (hops : ∀ op ∈ ops, op = .reopen ∨
      ∃ r, op = .addLog r ∧ ∀ msg ∈ r.execMsg, msg.logIdx.toNat < 2 ^ 24)
    (hmeet : Run.AllMeet exec NoOverflow ops empty) (blockNum : UInt64) (logIdx : UInt32) :
    (∀ r ∈ accepted ops empty, r.context = ⟨blockNum, logIdx⟩ →
      (runAll exec ops empty).executes blockNum logIdx = .ok (r.execMsg.getD .empty) ∧
      ∀ logHash, (runAll exec ops empty).contains blockNum logIdx logHash =
        .ok (decide (r.logHash = logHash))) ∧
    ((runAll exec ops empty).executes blockNum logIdx = .error .notFound ↔
      ∀ r ∈ accepted ops empty, r.context ≠ ⟨blockNum, logIdx⟩) ∧
    ((∀ logHash, (runAll exec ops empty).contains blockNum logIdx logHash =
        .ok false) ↔
      ∀ r ∈ accepted ops empty, r.context ≠ ⟨blockNum, logIdx⟩) := by
  have hadds : ∀ op ∈ ops, op.Adds := by
    intro op hop
    rcases hops op hop with rfl | ⟨r, rfl, -⟩ <;> trivial
  have hholds := run_holds hadds holds_empty
  have hsorted := run_ascending hadds holds_empty Pairwise.nil hmeet
  refine ⟨?_, hholds.executes_notFound_iff hsorted blockNum logIdx,
    hholds.contains_false_iff hsorted blockNum logIdx⟩
  intro r hr hctx
  have hrec := hsorted.recorded_of_mem hr
  rw [hctx] at hrec
  have hexec := hholds.executes hsorted blockNum logIdx
  have hcont := hholds.contains hsorted blockNum logIdx
  simp only [hrec] at hexec hcont
  refine ⟨?_, hcont⟩
  rw [hexec, LogRecord.executing_eq]
  rcases hops _ (mem_ops_of_accepted hr) with hreopen | ⟨s, hs, hmsg⟩
  · cases hreopen
  · cases hs
    exact hmsg

def sampleLog (blockNum : UInt64) (logIdx : UInt32) (execMsg : Option ExecutingMessage) :
    LogRecord :=
  ⟨.zero, ⟨replicate 32 0, length_zeros32⟩, blockNum, 0, logIdx, execMsg⟩

def sampleMessage : ExecutingMessage := ⟨1, 2, 3, 4, .zero⟩

/-- Two logs of block 50, a call that is out of order, and a reopening. -/
def sampleOps : List Op :=
  [.addLog (sampleLog 50 0 none), .addLog (sampleLog 50 1 (some sampleMessage)),
    .addLog (sampleLog 50 1 none), .reopen]

/-- The theorem after the sample operations: the second log executes its message, and there is
no third one. -/
theorem lookups_refine_map_sample :
    (runAll exec sampleOps empty).executes 50 1 = .ok sampleMessage ∧
    (runAll exec sampleOps empty).executes 50 2 = .error .notFound := by
  have hops : ∀ op ∈ sampleOps, op = .reopen ∨
      ∃ r, op = .addLog r ∧ ∀ msg ∈ r.execMsg, msg.logIdx.toNat < 2 ^ 24 := by
    simp [sampleOps, sampleLog, sampleMessage]
  have hmeet : AllMeet exec NoOverflow sampleOps empty := by decide
  have hacc : accepted sampleOps empty =
      [sampleLog 50 0 none, sampleLog 50 1 (some sampleMessage)] := by
    decide
  constructor
  · refine ((lookups_refine_map hops hmeet 50 1).1 (sampleLog 50 1 (some sampleMessage)) ?_ rfl).1
    rw [hacc]
    simp
  · apply (lookups_refine_map hops hmeet 50 2).2.1.mpr
    decide

/-! ## Overflow of the log index -/

/-- A log of block 1, with the hash and the index of its number. -/
def numberedLog (k : ℕ) : LogRecord :=
  { sampleLog 1 (UInt32.ofNat k) none with
    logHash := ⟨replicate 20 (if k = 0 then 0 else 1), rfl⟩ }

/-- The calls that add `n` logs to block 1. -/
def numberedOps (n : ℕ) : List Op := (List.range n).map fun k => .addLog (numberedLog k)

/-- Each of these logs can follow the ones before it: the index of a log is the 32-bit
successor of the last one, also when it overflows. -/
theorem numberedLog_follows (n k : ℕ) :
    Follows n (headContext ⟨0, 0⟩ ((range k).map numberedLog)) (numberedLog k) := by
  cases k with
  | zero =>
    exact ⟨by decide, Or.inr (by decide), Or.inr (by decide), by simp [numberedLog, sampleLog]⟩
  | succ k =>
    rw [range_succ, map_append, map_singleton, headContext_append_singleton]
    refine ⟨?_, Or.inl ⟨rfl, ?_⟩, Or.inr ?_, by simp [numberedLog, sampleLog]⟩
    · change (1 : UInt64) ≠ 0
      decide
    · exact UInt32.ofNat_add k 1
    · change ¬(255 : UInt64) < 1 - 1
      decide

lemma numberedOps_succ (n : ℕ) :
    numberedOps (n + 1) = numberedOps n ++ [.addLog (numberedLog n)] := by
  simp [numberedOps, range_succ]

lemma addLog_numberedLog {n : ℕ} (h : accepted (numberedOps n) empty = (range n).map numberedLog) :
    Holds (runAll exec (numberedOps n) empty) ((range n).map numberedLog) ∧
      ∃ db, (runAll exec (numberedOps n) empty).addLog (numberedLog n) = .ok db := by
  have hadds : ∀ op ∈ numberedOps n, op.Adds := by
    intro op hop
    obtain ⟨k, -, rfl⟩ := mem_map.mp hop
    trivial
  have hholds := run_holds hadds holds_empty
  rw [h, nil_append] at hholds
  have hfol := numberedLog_follows (runAll exec (numberedOps n) empty).store.length n
  rw [← hholds.head_eq] at hfol
  exact ⟨hholds, _, addLog_eq_ok.mpr ⟨hfol, rfl⟩⟩

lemma accepted_numberedOps (n : ℕ) :
    accepted (numberedOps n) empty = (range n).map numberedLog := by
  induction n with
  | zero => rfl
  | succ n ih =>
    obtain ⟨-, db, hadd⟩ := addLog_numberedLog ih
    rw [numberedOps_succ, accepted_append, ih, (accepted_addLog hadd).2, range_succ, map_append,
      map_singleton]

/-- After `2 ^ 32 + 1` logs in block 1, two logs with different hashes are accepted at the
position `(1, 0)`, and `Contains` is wrong about one of them. -/
theorem overflow_breaks_lookup :
    (∀ op ∈ numberedOps (2 ^ 32 + 1), ∃ r, op = .addLog r ∧ r.execMsg = none) ∧
    ¬∀ r ∈ accepted (numberedOps (2 ^ 32 + 1)) empty, r.context = ⟨1, 0⟩ → ∀ logHash,
      (runAll exec (numberedOps (2 ^ 32 + 1)) empty).contains 1 0 logHash =
        .ok (decide (r.logHash = logHash)) := by
  refine ⟨?_, ?_⟩
  · intro op hop
    obtain ⟨k, -, rfl⟩ := mem_map.mp hop
    exact ⟨_, rfl, rfl⟩
  · intro hall
    rw [accepted_numberedOps] at hall
    have hmem : ∀ k < 2 ^ 32 + 1, numberedLog k ∈ (range (2 ^ 32 + 1)).map numberedLog :=
      fun k hk => mem_map_of_mem (mem_range.mpr hk)
    have hfirst := hall _ (hmem 0 (by decide)) (by decide) (numberedLog 0).logHash
    have hsecond := hall _ (hmem (2 ^ 32) (by decide)) (by decide) (numberedLog 0).logHash
    rw [hfirst] at hsecond
    revert hsecond
    decide

end FightNight.Supervisor
