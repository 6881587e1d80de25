import FightNight.Library.Buffer

/-!
# Memories

A memory is a function from addresses to bytes.  `readAt f a n` is the string of the `n` bytes from
address `a` on and `writeAt f a bs` the memory in which the bytes `bs` stand from address `a` on.
The lemmas say how reading and writing act on each other.
-/

namespace FightNight.ByteMap

open List

/-- The `n` bytes from address `a` on. -/
def readAt (f : ℕ → UInt8) (a n : ℕ) : Bytes := (List.range n).map fun i => f (a + i)

/-- The memory with the bytes `bs` from address `a` on. -/
def writeAt (f : ℕ → UInt8) (a : ℕ) (bs : Bytes) (i : ℕ) : UInt8 :=
  if a ≤ i then bs.getD (i - a) (f i) else f i

variable {f g : ℕ → UInt8} {a b n : ℕ} {bs : Bytes}

@[simp] lemma length_readAt (f : ℕ → UInt8) (a n : ℕ) : (readAt f a n).length = n := by
  simp [readAt]

lemma readAt_congr (h : ∀ i < n, f (a + i) = g (b + i)) : readAt f a n = readAt g b n := by
  apply map_congr_left
  intro i hi
  exact h i (mem_range.mp hi)

lemma readAt_add (f : ℕ → UInt8) (a m n : ℕ) :
    readAt f a (m + n) = readAt f a m ++ readAt f (a + m) n := by
  unfold readAt
  rw [range_add, map_append, map_map]
  congr 1
  apply map_congr_left
  intro i _
  rw [Function.comp_apply, add_assoc]

/-! ## Writing -/

lemma writeAt_of_lt {i : ℕ} (h : i < a) : writeAt f a bs i = f i := by
  unfold writeAt
  rw [if_neg (not_le.mpr h)]

lemma writeAt_of_ge {i : ℕ} (h : a + bs.length ≤ i) : writeAt f a bs i = f i := by
  unfold writeAt
  rw [if_pos (Nat.le_of_add_right_le h), getD_eq_getElem?_getD,
    getElem?_eq_none (by omega), Option.getD_none]

lemma writeAt_add {i : ℕ} (h : i < bs.length) : writeAt f a bs (a + i) = bs[i] := by
  unfold writeAt
  rw [if_pos (Nat.le_add_right a i), Nat.add_sub_cancel_left, getD_eq_getElem?_getD,
    getElem?_eq_getElem h, Option.getD_some]

lemma writeAt_shift {k i : ℕ} (h : f i = g (k + i)) :
    writeAt f a bs i = writeAt g (k + a) bs (k + i) := by
  unfold writeAt
  rw [h, Nat.add_sub_add_left]
  simp only [Nat.add_le_add_iff_left]

lemma readAt_writeAt_self (f : ℕ → UInt8) (a : ℕ) (bs : Bytes) :
    readAt (writeAt f a bs) a bs.length = bs := by
  apply ext_getElem
  · rw [length_readAt]
  · intro i hi hi'
    simp only [readAt, getElem_map, getElem_range]
    exact writeAt_add hi'

lemma readAt_writeAt_of_disjoint (h : a + n ≤ b ∨ b + bs.length ≤ a) :
    readAt (writeAt f b bs) a n = readAt f a n := by
  apply readAt_congr
  intro i hi
  rcases h with h | h
  · exact writeAt_of_lt (by omega)
  · exact writeAt_of_ge (by omega)

end FightNight.ByteMap
