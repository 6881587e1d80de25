import FightNight.Library.Checked

/-!
# Binary search with probes that may fail

`search probe rounds i j` looks in the interval from `i` to `j` for the point where the answers of
`probe` change from true to false.  Whatever the order of the answers, the search ends at an index
whose left neighbour answered true and which itself answered false, as far as they lie in the
interval.  For a monotone probe this is the only such index.
-/

namespace FightNight.BinarySearch

variable {E : Type}

/-- The search loop.  The interval shrinks in every round, so that `j - i` rounds are enough. -/
def search (probe : ℕ → Except E Bool) : ℕ → ℕ → ℕ → Except E ℕ
  | 0, i, _ => .ok i
  | rounds + 1, i, j =>
    if i < j then do
      let h := (i + j) / 2
      let answer ← probe h
      if answer then search probe rounds (h + 1) j else search probe rounds i h
    else .ok i

/-- Where the search ends when all probes answer. -/
theorem search_spec {probe : ℕ → Except E Bool} {n : ℕ}
    (hprobe : ∀ h < n, ∃ answer, probe h = .ok answer) {rounds i j : ℕ} (hij : i ≤ j) (hjn : j ≤ n)
    (hrnd : j - i ≤ rounds) :
    ∃ r, search probe rounds i j = .ok r ∧ i ≤ r ∧ r ≤ j ∧ (r = i ∨ probe (r - 1) = .ok true) ∧
      (r = j ∨ probe r = .ok false) := by
  induction rounds generalizing i j with
  | zero =>
    have heq : i = j := by omega
    exact ⟨i, rfl, Nat.le_refl _, hij, Or.inl rfl, Or.inl heq⟩
  | succ rounds ih =>
    by_cases hlt : i < j
    · have hmid : (i + j) / 2 < n := by omega
      obtain ⟨answer, hans⟩ := hprobe _ hmid
      simp only [search, hlt, hans]
      cases answer with
      | true =>
        have hleft : (i + j) / 2 + 1 ≤ j := by omega
        obtain ⟨r, hr, hir, hrj, hprev, hat⟩ := ih hleft hjn (by omega)
        refine ⟨r, hr, by omega, hrj, Or.inr ?_, hat⟩
        rcases hprev with rfl | hprev
        · exact hans
        · exact hprev
      | false =>
        have hright : i ≤ (i + j) / 2 := by omega
        obtain ⟨r, hr, hir, hrj, hprev, hat⟩ := ih hright (by omega) (by omega)
        refine ⟨r, hr, hir, by omega, hprev, Or.inr ?_⟩
        rcases hat with rfl | hat
        · exact hans
        · exact hat
    · have heq : i = j := by omega
      exact ⟨i, by simp [search, hlt], Nat.le_refl _, hij, Or.inl rfl, Or.inl heq⟩

end FightNight.BinarySearch
