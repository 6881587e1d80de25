import Mathlib.Data.Nat.Bitwise
import FightNight.Library.Bytes

/-!
# Numbers as lists of bits

The length of a number in bits and in bytes, and numbers of which single bits are set: after the bits
`0, …, n - 1` were set one after the other, the number is the list of these bits.
-/

namespace FightNight

open List

/-- The number of bits of a number. -/
def bitLen (n : ℕ) : ℕ := if n = 0 then 0 else n.log2 + 1

lemma bitLen_le {n k : ℕ} : bitLen n ≤ k ↔ n < 2 ^ k := by
  by_cases hn : n = 0
  · subst hn
    exact iff_of_true (Nat.zero_le k) (Nat.two_pow_pos k)
  · rw [bitLen, if_neg hn, Nat.succ_le_iff, Nat.log2_lt hn]

/-- The number of bytes of a number. -/
def byteLen (n : ℕ) : ℕ := (bitLen n + 7) / 8

lemma byteLen_le {n k : ℕ} : byteLen n ≤ k ↔ n < 256 ^ k := by
  have hpow : 256 ^ k = 2 ^ (8 * k) := by rw [Nat.pow_mul]
  rw [hpow, ← bitLen_le, byteLen]
  omega

/-- The bytes of a number, without leading zeros and the highest first. -/
def natBytes (n : ℕ) : Bytes := beBytes (byteLen n) n

lemma length_natBytes (n : ℕ) : (natBytes n).length = byteLen n := length_beBytes _ _

lemma beNat_natBytes (n : ℕ) : beNat (natBytes n) = n :=
  beNat_beBytes_of_lt (byteLen_le.mp (le_refl _))

lemma head_natBytes {n : ℕ} {b : UInt8} {bs : Bytes} (h : natBytes n = b :: bs) : b ≠ 0 := by
  rintro rfl
  -- otherwise the remaining bytes would be enough
  have hlen : byteLen n = bs.length + 1 := by rw [← length_natBytes, h, length_cons]
  have hval : n = beNat bs := by
    have hn := beNat_natBytes n
    rw [h] at hn
    rw [← hn, beNat, reverse_cons, leNat_append, show leNat [0] = 0 from rfl, mul_zero, add_zero]
    rfl
  have hle : byteLen n ≤ bs.length := byteLen_le.mpr (hval ▸ beNat_lt bs)
  omega

/-- Set a bit of a number. -/
def setBit (x i : ℕ) (b : Bool) : ℕ := if b then x ||| 2 ^ i else x ^^^ (x &&& 2 ^ i)

lemma testBit_setBit (x i : ℕ) (b : Bool) (j : ℕ) :
    (setBit x i b).testBit j = if i = j then b else x.testBit j := by
  cases b with
  | true =>
    rw [setBit, if_pos rfl, Nat.testBit_or]
    by_cases hij : i = j <;> simp [hij]
  | false =>
    rw [setBit, if_neg Bool.false_ne_true, Nat.testBit_xor, Nat.testBit_and]
    by_cases hij : i = j <;> simp [hij]

lemma setBit_lt {x i : ℕ} (h : x < 2 ^ i) (b : Bool) : setBit x i b < 2 ^ (i + 1) := by
  refine Nat.lt_pow_two_of_testBit _ fun j hj => ?_
  rw [testBit_setBit, if_neg (by omega)]
  exact Nat.testBit_lt_two_pow (Nat.lt_of_lt_of_le h (Nat.pow_le_pow_right (by decide) (by omega)))

/-- A number has the bits of a list, the first one lowest. -/
structure HasBits (x : ℕ) (bits : List Bool) : Prop where
  lt : x < 2 ^ bits.length
  testBit_eq : ∀ i, x.testBit i = bits.getD i false

lemma hasBits_nil : HasBits 0 [] := ⟨Nat.one_pos, fun i => by simp⟩

lemma HasBits.concat {x : ℕ} {bits : List Bool} (h : HasBits x bits) {i : ℕ}
    (hi : bits.length = i) (b : Bool) : HasBits (setBit x i b) (bits ++ [b]) := by
  subst hi
  refine ⟨by rw [length_append]; exact setBit_lt h.lt b, fun j => ?_⟩
  rw [testBit_setBit, h.testBit_eq]
  rcases lt_trichotomy bits.length j with hj | rfl | hj
  · grind
  · simp
  · grind

end FightNight
