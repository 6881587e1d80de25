import Mathlib.Order.Basic

/-!
# Loops

A loop is given by its body, which either goes on with a new state or ends with a result.  `run`
is the loop with a bound on the number of iterations; the loop returns a result when some bound
suffices, and runs for ever when no bound does.  There is one rule for each: a measure that
decreases, and an invariant under which the body never ends.
-/

namespace FightNight.Loop

variable {σ ρ : Type} (body : σ → σ ⊕ ρ)

/-- The result of a loop, if it needs no more iterations than the bound. -/
def run : ℕ → σ → Option ρ
  | 0, _ => none
  | bound + 1, s =>
    match body s with
    | .inl s' => run bound s'
    | .inr r => some r

/-- The loop ends with a result. -/
def Returns (s : σ) (r : ρ) : Prop := ∃ bound, run body bound s = some r

variable {body} {s s' : σ} {r r' : ρ}

lemma run_of_goes_on (h : body s = .inl s') (bound : ℕ) :
    run body (bound + 1) s = run body bound s' := by
  rw [run, h]

lemma run_of_ends (h : body s = .inr r) (bound : ℕ) : run body (bound + 1) s = some r := by
  rw [run, h]

lemma run_mono {n m : ℕ} (h : run body n s = some r) (hle : n ≤ m) : run body m s = some r := by
  induction n generalizing m s with
  | zero => cases h
  | succ n ih =>
    obtain ⟨m, rfl⟩ := Nat.exists_eq_add_of_le' hle
    rw [← Nat.add_assoc] at hle ⊢
    cases hb : body s with
    | inl s' =>
      rw [run_of_goes_on hb] at h ⊢
      exact ih h (Nat.succ_le_succ_iff.mp hle)
    | inr r' =>
      rw [run_of_ends hb] at h ⊢
      exact h

lemma Returns.of_goes_on (hb : body s = .inl s') (h : Returns body s' r) : Returns body s r := by
  obtain ⟨bound, hrun⟩ := h
  exact ⟨bound + 1, (run_of_goes_on hb bound).trans hrun⟩

/-- The rule for total correctness: an invariant, and a measure that every iteration decreases. -/
theorem returns_of_measure (Inv : σ → Prop) {Q : ρ → Prop} (μ : σ → ℕ) (hbody : ∀ s, Inv s →
      (∃ r, body s = .inr r ∧ Q r) ∨ ∃ s', body s = .inl s' ∧ Inv s' ∧ μ s' < μ s)
    (hs : Inv s) : ∃ r, Returns body s r ∧ Q r := by
  induction hm : μ s using Nat.strongRecOn generalizing s with
  | _ m ih =>
    rcases hbody s hs with ⟨r, hr, hQ⟩ | ⟨s', hs', hInv, hlt⟩
    · exact ⟨r, ⟨1, run_of_ends hr 0⟩, hQ⟩
    · obtain ⟨r, hr, hQ⟩ := ih (μ s') (hm ▸ hlt) hInv rfl
      exact ⟨r, hr.of_goes_on hs', hQ⟩

/-- Every run reaches a state with a property: it holds, or some step is possible and every step
leads to a state from which every run reaches it. -/
inductive Eventually (step : σ → σ → Prop) (P : σ → Prop) : σ → Prop
  | here {x : σ} (h : P x) : Eventually step P x
  | later {x : σ} (hstep : ∃ y, step x y) (h : ∀ y, step x y → Eventually step P y) :
    Eventually step P x

variable {step : σ → σ → Prop} {P : σ → Prop}

lemma Eventually.of_measure (Inv : σ → Prop) (μ : σ → ℕ) (h : ∀ s, Inv s → ¬P s →
      (∃ s', step s s') ∧ ∀ s', step s s' → Inv s' ∧ μ s' < μ s) (hs : Inv s) :
    Eventually step P s := by
  induction hn : μ s using Nat.strongRecOn generalizing s with
  | _ n ih =>
    by_cases hP : P s
    · exact .here hP
    · obtain ⟨hex, hall⟩ := h s hs hP
      exact .later hex fun s' hs' => ih _ (hn ▸ (hall s' hs').2) (hall s' hs').1 rfl

lemma Eventually.not_of_inv (Inv : σ → Prop) (hP : ∀ s, Inv s → ¬P s)
    (hstep : ∀ s s', Inv s → step s s' → Inv s') (hs : Inv s) : ¬Eventually step P s := by
  intro h
  induction h with
  | here h => exact hP _ hs h
  | later hex _ ih =>
    obtain ⟨s', hs'⟩ := hex
    exact ih s' hs' (hstep _ _ hs hs')

end FightNight.Loop
