import Mathlib.Data.Nat.Bitwise

/-!
# Machine words

The operations of a machine with words of 256 bits on natural numbers, under the names of the
instructions of the EVM.  Words that are not too large follow the ordinary arithmetic.

`Covers` describes a word that was combined with copies of itself, each shifted to the right: the
first step of every search for the highest set bit.
-/

namespace FightNight.Word

/-! ## Instructions -/

def add (a b : ℕ) : ℕ := (a + b) % 2 ^ 256

def sub (a b : ℕ) : ℕ := (a + 2 ^ 256 - b) % 2 ^ 256

def mul (a b : ℕ) : ℕ := a * b % 2 ^ 256

def shl (k a : ℕ) : ℕ := a * 2 ^ k % 2 ^ 256

def shr (k a : ℕ) : ℕ := a / 2 ^ k

def not (a : ℕ) : ℕ := 2 ^ 256 - 1 - a

def lt (a b : ℕ) : ℕ := if a < b then 1 else 0

def iszero (a : ℕ) : ℕ := if a = 0 then 1 else 0

/-- The byte with number `i`, counted from the most significant one. -/
def byte (i a : ℕ) : ℕ := if i < 32 then a / 2 ^ (8 * (31 - i)) % 256 else 0

variable {a b k p w x : ℕ}

lemma shl_of_lt (h : a * 2 ^ k < 2 ^ 256) : shl k a = a * 2 ^ k := Nat.mod_eq_of_lt h

lemma shl_eq {j : ℕ} (h : j + k = 256) (a : ℕ) : shl k a = a % 2 ^ j * 2 ^ k := by
  rw [shl, ← h, pow_add, Nat.mul_mod_mul_right]

lemma sub_of_le (ha : a < 2 ^ 256) (h : b ≤ a) : sub a b = a - b := by
  rw [sub]
  omega

lemma sub_mod (h : b ≤ a) : sub (a % 2 ^ 256) (b % 2 ^ 256) = (a - b) % 2 ^ 256 := by
  rw [sub]
  omega

/-! ## Bits -/

lemma testBit_shr (k a i : ℕ) : (shr k a).testBit i = a.testBit (k + i) := by
  rw [shr, ← Nat.shiftRight_eq_div_pow, Nat.testBit_shiftRight]

lemma testBit_not (h : a < 2 ^ 256) (i : ℕ) :
    (not a).testBit i = (decide (i < 256) && !a.testBit i) := by
  rw [not, Nat.sub_sub, add_comm, Nat.testBit_two_pow_sub_succ h]

/-- Each bit of `x` tells whether `p` has one of the `w` bits from there on. -/
def Covers (w p x : ℕ) : Prop :=
  ∀ i, x.testBit i = true ↔ ∃ j, i ≤ j ∧ j < i + w ∧ p.testBit j = true

lemma covers_one (p : ℕ) : Covers 1 p p := by
  intro i
  constructor
  · intro h
    exact ⟨i, le_refl i, Nat.lt_succ_self i, h⟩
  · rintro ⟨j, hle, hlt, h⟩
    obtain rfl : j = i := by omega
    exact h

/-- Combining with a shifted copy doubles the number of bits. -/
theorem Covers.double (h : Covers w p x) : Covers (w + w) p (x ||| shr w x) := by
  intro i
  rw [Nat.testBit_or, testBit_shr, Bool.or_eq_true, h i, h (w + i)]
  constructor
  · rintro (⟨j, hle, hlt, hj⟩ | ⟨j, hle, hlt, hj⟩)
    · exact ⟨j, hle, by omega, hj⟩
    · exact ⟨j, by omega, by omega, hj⟩
  · rintro ⟨j, hle, hlt, hj⟩
    by_cases hlow : j < i + w
    · exact .inl ⟨j, hle, hlow, hj⟩
    · exact .inr ⟨j, by omega, by omega, hj⟩

lemma Covers.eq_pred (h : Covers w p x) (hp : p ≠ 0) (hw : p < 2 ^ w) :
    x = 2 ^ (p.log2 + 1) - 1 := by
  apply Nat.eq_of_testBit_eq
  intro i
  rw [Nat.testBit_two_pow_sub_one, Bool.eq_iff_iff, h i, decide_eq_true_iff, Nat.lt_succ_iff]
  constructor
  · rintro ⟨j, hle, -, hj⟩
    exact le_trans hle ((Nat.le_log2 hp).mpr (Nat.ge_two_pow_of_testBit hj))
  · intro hi
    have hlog : p.log2 < w := (Nat.log2_lt hp).mpr hw
    exact ⟨p.log2, hi, by omega, Nat.testBit_log2 hp⟩

end FightNight.Word
