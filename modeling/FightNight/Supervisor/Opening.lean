import FightNight.Supervisor.Iteration

/-!
# Opening a database

Opening a database whose store is a layout, followed by entries that cannot be the last ones,
removes these entries and finds the position of the last log (`init_layout`).  On an empty store
it returns early and leaves the position in memory as it was.
-/

namespace FightNight.Supervisor

open FightNight.Except EntryStore Item List

/-! ## Trimming -/

/-- An item that can be the last one of a store. -/
def Item.isFinal : Item → Bool
  | .check _ => true
  | .initiating evt => !evt.hasExecMsg
  | _ => false

@[simp] lemma validFinal_encode (item : Item) : DB.validFinal item.encode = item.isFinal := by
  cases item with
  | initiating evt =>
    have hdec : newInitiatingEventFromEntry (initiating evt).encode = .ok evt :=
      newInitiatingEventFromEntry_encode evt
    simp only [DB.validFinal, hdec]
    rfl
  | _ => rfl

lemma dueItems_not_final (n : ℕ) (r : LogRecord) : ∀ x ∈ dueItems n r, x.isFinal = false := by
  intro x hx
  unfold dueItems checkpointItems at hx
  split at hx
  · simp only [mem_cons, not_mem_nil, or_false] at hx
    rcases hx with rfl | rfl <;> rfl
  · cases hx

lemma logItems_final (n : ℕ) (pre : LogContext) (r : LogRecord) :
    ∃ xs x, logItems n pre r = xs ++ [x] ∧ x.isFinal = true ∧ ∀ y ∈ xs, y.isFinal = false := by
  unfold logItems execItems
  cases hmsg : r.execMsg with
  | none =>
    exact ⟨_, _, by rw [append_nil], by simp [isFinal, initEvent, hmsg], dueItems_not_final n r⟩
  | some msg =>
    refine ⟨_, _, (append_assoc _ _ _).symm, rfl, ?_⟩
    intro y hy
    simp only [mem_append, mem_singleton] at hy
    rcases hy with (hy | rfl) | (hy | rfl) | hy
    · exact dueItems_not_final _ _ y hy
    · simp [isFinal, initEvent, hmsg]
    · exact dueItems_not_final _ _ y hy
    · rfl
    · exact dueItems_not_final _ _ y hy

lemma layout_final (logs : List LogRecord) :
    layout logs = [] ∨ ∃ xs x, layout logs = xs ++ [x] ∧ x.isFinal = true := by
  rcases eq_nil_or_concat logs with rfl | ⟨rs, r, rfl⟩
  · exact Or.inl rfl
  · obtain ⟨xs, x, hxs, hx, -⟩ := logItems_final (endOf 0 rs) (headContext ⟨0, 0⟩ rs) r
    refine Or.inr ⟨layout rs ++ xs, x, ?_, hx⟩
    simp only [layout, concat_eq_append, layoutFrom_append, layoutFrom, append_nil, hxs,
      append_assoc]

variable {db : DB} {junk xs : List Item}

lemma read_items (xs : List Item) (x : Item) (ys : List Item)
    (h : db.store = (xs ++ x :: ys).map encode) :
    read db.store xs.length = .ok x.encode := by
  have hat : At db 0 (xs ++ x :: ys) := ⟨by rw [drop_zero, h], Nat.zero_le _⟩
  exact hat.read_append (by simp)

/-- Trimming walks back over entries that cannot be the last ones. -/
theorem trimLoop_eq (hstore : db.store = (xs ++ junk).map encode)
    (hxs : xs = [] ∨ ∃ ys y, xs = ys ++ [y] ∧ y.isFinal = true)
    (hjunk : ∀ x ∈ junk, x.isFinal = false) {k : ℕ} (hk : k ≤ junk.length) :
    DB.trimLoop db.store (xs.length + k) = .ok ((xs.length : ℤ) - 1) := by
  induction k with
  | zero =>
    rcases hxs with rfl | ⟨ys, y, rfl, hy⟩
    · rfl
    · have hread := read_items ys y junk (by simpa using hstore)
      simp only [length_append, length_singleton, DB.trimLoop, hread,
        wrapError_ok, ok_bind, validFinal_encode, hy]
      push_cast
      rw [Int.add_sub_cancel]
  | succ k ih =>
    obtain ⟨front, x, rest, hsplit, hfront⟩ :
        ∃ front x rest, junk = front ++ x :: rest ∧ front.length = k :=
      ⟨junk.take k, junk[k], junk.drop (k + 1), by simp, by rw [length_take]; omega⟩
    have hread : read db.store ((xs.length + k : ℕ) : ℤ) = .ok x.encode := by
      have hitems := read_items (xs ++ front) x rest (by rw [hstore, hsplit, append_assoc])
      rwa [length_append, hfront] at hitems
    have hx : x.isFinal = false := hjunk x (by simp [hsplit])
    rw [← add_assoc, DB.trimLoop, hread]
    simp only [wrapError_ok, ok_bind, validFinal_encode, hx]
    exact ih (by omega)

lemma trimInvalidTrailingEntries_eq (hstore : db.store = (xs ++ junk).map encode)
    (hxs : xs = [] ∨ ∃ ys y, xs = ys ++ [y] ∧ y.isFinal = true)
    (hjunk : ∀ x ∈ junk, x.isFinal = false) :
    db.trimInvalidTrailingEntries = .ok { db with store := xs.map encode } := by
  have hlen : db.store.length = xs.length + junk.length := by simp [hstore]
  have htrim := trimLoop_eq hstore hxs hjunk (le_refl junk.length)
  rw [DB.trimInvalidTrailingEntries, hlen, htrim]
  simp only [ok_bind, DB.lastEntryIdx, lastEntryIdx, hlen]
  cases junk with
  | nil =>
    rw [append_nil] at hstore
    simp only [length_nil, add_zero, lt_irrefl, if_false, ← hstore]
  | cons x junk =>
    rw [truncate, hstore]
    simp

/-! ## Finding the last position -/

lemma LogAt.readToEnd {n : ℕ} {pre : LogContext} {r : LogRecord} {rs : List LogRecord}
    (h : LogAt db n pre r rs) {rounds : ℕ} (hrnd : rs.length ≤ rounds) :
    ∃ i, db.readToEnd rounds (afterLog n r) = .ok i ∧ i.current = headContext r.context rs := by
  induction rounds generalizing n pre r rs with
  | zero =>
    have hnil : rs = [] := length_eq_zero_iff.mp (Nat.le_zero.mp hrnd)
    subst hnil
    exact ⟨_, rfl, rfl⟩
  | succ rounds ih =>
    cases rs with
    | nil =>
      obtain ⟨i, hi, hcur⟩ := h.nextLog_end
      refine ⟨i, ?_, hcur⟩
      rw [DB.readToEnd, hi]
      rfl
    | cons s rs =>
      obtain ⟨i, hi, hcur⟩ := ih h.next (by simpa using hrnd)
      refine ⟨i, ?_, hcur⟩
      rwa [DB.readToEnd, h.nextLog_after]

lemma lastCheckpoint_eq {store : List Entry} (h : store ≠ []) :
    (lastEntryIdx store).tdiv searchCheckpointFrequency * searchCheckpointFrequency =
      ((store.length - 1) / 256 * 256 : ℕ) := by
  have hpos : 0 < store.length := length_pos_iff.mpr h
  have hlast : lastEntryIdx store = ((store.length - 1 : ℕ) : ℤ) := by
    rw [lastEntryIdx]
    omega
  rw [hlast, searchCheckpointFrequency]
  rfl

/-- Opening a layout, followed by entries that cannot be the last ones: the layout is kept, and the
position of the last log is found. -/
theorem init_layout {db : DB} {logs : List LogRecord} {junk : List Item}
    (hlogs : Accepts 0 ⟨0, 0⟩ logs) (hstore : db.store = (layout logs ++ junk).map encode)
    (hjunk : ∀ x ∈ junk, x.isFinal = false) :
    db.init = .ok ⟨(layout logs).map encode, headContext db.lastEntryContext logs⟩ := by
  have htrim := trimInvalidTrailingEntries_eq hstore (layout_final logs) hjunk
  rw [DB.init, htrim]
  simp only [wrapError_ok, ok_bind]
  cases hne : logs with
  | nil => rfl
  | cons first others =>
    rw [← hne]
    have hlen : ((layout logs).map encode).length = endOf 0 logs := by simp
    have hpos : 0 < endOf 0 logs := by
      have hle := length_le_endOf 0 logs
      rw [hne, length_cons] at hle
      rw [hne]
      omega
    have hnil : (layout logs).map encode ≠ [] := by grind
    have hlast : ¬lastEntryIdx ((layout logs).map encode) < 0 := by
      rw [lastEntryIdx]
      omega
    -- The log that the last checkpoint belongs to, and the iterator that starts there.
    have hq : (endOf 0 logs - 1) / 256 * 256 < endOf 0 logs := by omega
    obtain ⟨xs, r, ys, hsplit, hle, hlt⟩ := exists_owner hq
    have hat : LogAt { db with store := (layout logs).map encode } _ _ r ys :=
      logAt_layout (by rw [hsplit]) (hsplit ▸ hlogs)
    obtain ⟨c, hiter, hfirst⟩ := hat.newIterator (Nat.mul_mod_left _ _) hle hlt
    obtain ⟨i, hi, hcur⟩ := hat.readToEnd hat.length_le_unread
    rw [DB.lastEntryIdx, if_neg hlast, lastCheckpoint_eq hnil, hlen, hiter]
    simp only [wrapError_ok, ok_bind, hat.length_lt_unread, DB.readToEnd, hfirst, hi, hcur]
    rw [hsplit, headContext_append]
    rfl

lemma Holds.newFromEntryStore {logs : List LogRecord} (h : Holds db logs) :
    DB.newFromEntryStore db.store = .ok db := by
  have hstore : (DB.mk db.store ⟨0, 0⟩).store = (layout logs ++ []).map encode := by
    rw [append_nil]
    exact h.store_eq
  have hinit := init_layout h.accepts hstore (by simp)
  rw [DB.newFromEntryStore, hinit, ← h.store_eq, ← h.head_eq]
  rfl

end FightNight.Supervisor
