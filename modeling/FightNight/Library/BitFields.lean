import Mathlib.Tactic.Ring

/-!
# Bit fields

Code that packs several numbers into a machine word reads them by shifting and masking, and
replaces one of them by clearing its bits and setting new ones.  A word with three fields is the
number `2 ^ (s + n) * a + (2 ^ s * b + c)`: the lowest field `c` has `s` bits and the middle one `b`
has `n` bits.
-/

namespace FightNight.BitFields

open BitVec

variable {a b c d n s k : ℕ}

lemma fields_lt (hb : b < 2 ^ n) (hc : c < 2 ^ s) : 2 ^ s * b + c < 2 ^ (s + n) := by
  rw [add_comm s, pow_add]
  exact Nat.mul_add_lt_mul_of_lt_of_lt hb hc

lemma testBit_fields (hb : b < 2 ^ n) (hc : c < 2 ^ s) (i : ℕ) :
    (2 ^ (s + n) * a + (2 ^ s * b + c)).testBit i =
      if i < s then c.testBit i else if i < s + n then b.testBit (i - s)
      else a.testBit (i - (s + n)) := by
  rw [Nat.testBit_two_pow_mul_add _ (fields_lt hb hc), Nat.testBit_two_pow_mul_add _ hc]
  split <;> split <;> first | rfl | omega

lemma getLsbD_mask (hn : n ≤ k) (i : ℕ) :
    (BitVec.ofNat k (2 ^ n - 1)).getLsbD i = decide (i < n) := by
  rw [BitVec.getLsbD_ofNat]
  by_cases hi : i < n
  · simp [show i < k by omega]
  · simp [hi]

lemma getLsbD_mask_shiftLeft (hn : n ≤ k) {i : ℕ} (hi : i < k) :
    (BitVec.ofNat k (2 ^ n - 1) <<< s).getLsbD i = decide (s ≤ i ∧ i < s + n) := by
  rw [BitVec.getLsbD_shiftLeft, getLsbD_mask hn]
  by_cases hlow : i < s
  · simp [hlow]
  · have hdiff : i - s < n ↔ i < s + n := by omega
    simp [hi, hdiff, not_lt.mp hlow]

lemma toNat_shiftLeft {v : BitVec k} (hv : v.toNat < 2 ^ n) (hs : s + n ≤ k) :
    (v <<< s).toNat = 2 ^ s * v.toNat := by
  have hlt : 2 ^ s * v.toNat < 2 ^ k :=
    Nat.lt_of_lt_of_le (fields_lt hv (Nat.two_pow_pos s)) (Nat.pow_le_pow_right (by decide) hs)
  rw [BitVec.toNat_shiftLeft, Nat.shiftLeft_eq, Nat.mul_comm, Nat.mod_eq_of_lt hlt]

lemma toNat_extract {w : BitVec k} (hn : n ≤ k) (hb : b < 2 ^ n) (hc : c < 2 ^ s)
    (hw : w.toNat = 2 ^ (s + n) * a + (2 ^ s * b + c)) :
    ((w >>> s) &&& BitVec.ofNat k (2 ^ n - 1)).toNat = b := by
  have hmask : 2 ^ n - 1 < 2 ^ k :=
    Nat.sub_one_lt_of_le (Nat.two_pow_pos n) (Nat.pow_le_pow_right Nat.two_pos hn)
  have hsum : w.toNat = 2 ^ s * (2 ^ n * a + b) + c := by
    rw [hw]
    ring
  rw [toNat_and, toNat_ushiftRight, toNat_ofNat, Nat.mod_eq_of_lt hmask,
    Nat.and_two_pow_sub_one_eq_mod, Nat.shiftRight_eq_div_pow, hsum,
    Nat.mul_add_div (Nat.two_pow_pos s), Nat.div_eq_of_lt hc, add_zero, Nat.mul_add_mod,
    Nat.mod_eq_of_lt hb]

lemma fields_fit {w : BitVec k} (hc : c < 2 ^ s) (hd : d < 2 ^ n) (hs : s + n ≤ k)
    (hw : w.toNat = 2 ^ (s + n) * a + (2 ^ s * b + c)) :
    2 ^ (s + n) * a + (2 ^ s * d + c) < 2 ^ k := by
  have hpow : 2 ^ k = 2 ^ (k - (s + n)) * 2 ^ (s + n) := by
    rw [← pow_add, Nat.sub_add_cancel hs]
  have ha : a < 2 ^ (k - (s + n)) := by
    apply Nat.lt_of_mul_lt_mul_right (a := 2 ^ (s + n))
    rw [mul_comm]
    omega
  rw [hpow]
  exact Nat.mul_add_lt_mul_of_lt_of_lt ha (fields_lt hd hc)

/-- The middle field is replaced: its bits are cleared and those of the new value set. -/
theorem toNat_replace {w m v : BitVec k} (hb : b < 2 ^ n) (hc : c < 2 ^ s) (hd : d < 2 ^ n)
    (hs : s + n ≤ k) (hw : w.toNat = 2 ^ (s + n) * a + (2 ^ s * b + c))
    (hm : ∀ i < k, m.getLsbD i = decide (s ≤ i ∧ i < s + n)) (hv : v.toNat = 2 ^ s * d) :
    ((w &&& ~~~m) ||| v).toNat = 2 ^ (s + n) * a + (2 ^ s * d + c) := by
  apply Nat.eq_of_testBit_eq
  intro i
  by_cases hi : i < k
  · have hwbit := testBit_fields hb hc (a := a) i
    rw [← hw, testBit_toNat] at hwbit
    have hvbit : v.getLsbD i = (decide (s ≤ i) && d.testBit (i - s)) := by
      rw [← testBit_toNat, hv, Nat.testBit_two_pow_mul]
    rw [testBit_fields hd hc, testBit_toNat, getLsbD_or, getLsbD_and,
      getLsbD_not, hm i hi, hwbit, hvbit]
    by_cases hlow : i < s
    · simp [hlow, hi, not_le.mpr hlow]
    · by_cases hmid : i < s + n
      · simp [hmid, not_lt.mp hlow]
      · have hhigh : d.testBit (i - s) = false := Nat.testBit_lt_two_pow
            (Nat.lt_of_lt_of_le hd (Nat.pow_le_pow_right (by omega) (by omega)))
        simp [hmid, hi, hhigh]
  · have hge : 2 ^ k ≤ 2 ^ i := Nat.pow_le_pow_right (by omega) (Nat.not_lt.mp hi)
    rw [Nat.testBit_lt_two_pow (Nat.lt_of_lt_of_le (isLt _) hge),
      Nat.testBit_lt_two_pow (Nat.lt_of_lt_of_le (fields_fit hc hd hs hw) hge)]

end FightNight.BitFields
