import Mathlib.Algebra.Group.Nat.Defs
import Mathlib.Tactic.Common

/-!
# Computations that may revert, and checked machine arithmetic

`Except` is the monad of a computation that either returns or reverts with an error; the lemmas of
the first section take a successful `do` block apart, so that proofs about a program never unfold
the monad.

The second section is the checked arithmetic of Solidity from version 0.8 on: operations on
natural numbers below `2 ^ 256`, each failing with a given error instead of wrapping around.
-/

namespace FightNight

/-! ## Successful computations -/

namespace Except

variable {ε α β : Type}

variable {x : Except ε α} {e : ε} {f : α → β} {b : β} {c : Prop}

/-- A sequence of two computations succeeds exactly when both of them do. -/
theorem bind_eq_ok {f : α → Except ε β} : x >>= f = .ok b ↔ ∃ a, x = .ok a ∧ f a = .ok b := by
  constructor
  · intro h
    cases hx : x with
    | error e => rw [hx] at h; cases h
    | ok a => rw [hx] at h; exact ⟨a, rfl, h⟩
  · rintro ⟨a, rfl, hf⟩
    exact hf

lemma pure_eq_ok {a b : α} : (pure a : Except ε α) = .ok b ↔ a = b := by
  simp [pure, Except.pure]

lemma map_eq_ok : x.map f = .ok b ↔ ∃ a, x = .ok a ∧ f a = b := by
  cases x with
  | error e => simp [Except.map]
  | ok a => simp [Except.map]

/-- The test `if c then revert e`, as a computation without result. -/
def revertIf (c : Prop) [Decidable c] (e : ε) : Except ε Unit :=
  if c then .error e else .ok ()

lemma revertIf_eq_ok [Decidable c] {u : Unit} : revertIf c e = .ok u ↔ ¬c := by
  unfold revertIf
  split <;> simp [*]

lemma revertIf_of_not [Decidable c] (h : ¬c) : revertIf c e = .ok () :=
  if_neg h

lemma ok_bind (a : α) (f : α → Except ε β) : ((.ok a : Except ε α) >>= f) = f a := rfl

lemma revertIf_bind [Decidable c] (h : ¬c) (k : Unit → Except ε β) :
    (revertIf c e >>= k) = k () := by
  rw [revertIf_of_not h, ok_bind]

lemma require_bind [Decidable (¬c)] (h : c) (k : Unit → Except ε β) :
    (revertIf (¬c) e >>= k) = k () :=
  revertIf_bind (not_not.mpr h) k

lemma exists_of_map_eq_some (h : x.toOption.map f = some b) : ∃ a, x = .ok a ∧ f a = b := by
  cases x with
  | error e => cases h
  | ok a => exact ⟨a, rfl, Option.some.inj h⟩

end Except

/-! ## Checked arithmetic on 256-bit words -/

namespace Checked

variable {ε : Type}

/-- `a + b`, or the error `e` when the sum does not fit in 256 bits. -/
def add (e : ε) (a b : ℕ) : Except ε ℕ :=
  if a + b < 2 ^ 256 then .ok (a + b) else .error e

/-- `a - b`, or the error `e` when `b` exceeds `a`. -/
def sub (e : ε) (a b : ℕ) : Except ε ℕ :=
  if b ≤ a then .ok (a - b) else .error e

/-- `a * b`, or the error `e` when the product does not fit in 256 bits. -/
def mul (e : ε) (a b : ℕ) : Except ε ℕ :=
  if a * b < 2 ^ 256 then .ok (a * b) else .error e

/-- `a / b`, or the error `e` when `b` is zero. -/
def div (e : ε) (a b : ℕ) : Except ε ℕ :=
  if b = 0 then .error e else .ok (a / b)

/-- `a ^ b`, or the error `e` when the power does not fit in 256 bits. -/
def pow (e : ε) (a b : ℕ) : Except ε ℕ :=
  if a ^ b < 2 ^ 256 then .ok (a ^ b) else .error e

variable {e : ε} {a b c : ℕ}

lemma guarded_eq_ok {p : Prop} [Decidable p] {m n : ℕ} :
    (if p then .ok m else .error e : Except ε ℕ) = .ok n ↔ p ∧ m = n := by
  by_cases hp : p
  · grind
  · rw [if_neg hp]
    constructor
    · intro h
      cases h
    · rintro ⟨h, -⟩
      exact absurd h hp

lemma add_eq_ok : add e a b = .ok c ↔ a + b < 2 ^ 256 ∧ a + b = c :=
  guarded_eq_ok

lemma sub_eq_ok : sub e a b = .ok c ↔ b ≤ a ∧ a - b = c :=
  guarded_eq_ok

lemma mul_eq_ok : mul e a b = .ok c ↔ a * b < 2 ^ 256 ∧ a * b = c :=
  guarded_eq_ok

end Checked

end FightNight
