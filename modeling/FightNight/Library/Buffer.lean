import FightNight.Library.Bytes

/-!
# Buffers

A byte buffer of a fixed length that is filled from the left.  `copyAt` writes a byte string over a
part of a buffer, as far as the buffer goes.  A buffer whose free part is still zero is
`done ++ zeros n`; the lemmas say how such a buffer changes when the next bytes are written.
`takePad` reads a fixed number of bytes from a string that may be shorter.
-/

namespace FightNight

open List

/-- A byte string of zeros. -/
def zeros (n : ℕ) : Bytes := List.replicate n 0

@[simp] lemma length_zeros (n : ℕ) : (zeros n).length = n := length_replicate

lemma zeros_add (m n : ℕ) : zeros (m + n) = zeros m ++ zeros n :=
  replicate_append_replicate.symm

lemma zeros_succ (n : ℕ) : zeros (n + 1) = 0 :: zeros n := replicate_succ

variable {bs : Bytes} {n : ℕ}

lemma eq_zeros_iff (h : bs.length = n) : bs = zeros n ↔ ∀ b ∈ bs, b = 0 := by
  rw [zeros, eq_replicate_iff]
  exact ⟨fun hbs => hbs.2, fun hbs => ⟨h, hbs⟩⟩

lemma drop_zeros (k n : ℕ) : (zeros n).drop k = zeros (n - k) := drop_replicate

lemma take_zeros (k n : ℕ) : (zeros n).take k = zeros (min k n) := take_replicate

/-! ## Writing -/

/-- `copy(dst[offset:], src)`: the bytes of a source over those of a buffer, as far as it goes. -/
def copyAt (dst : Bytes) (offset : ℕ) (src : Bytes) : Bytes :=
  dst.take offset ++ src.take (dst.length - offset) ++ dst.drop (offset + src.length)

@[simp] lemma length_copyAt (dst : Bytes) (offset : ℕ) (src : Bytes) :
    (copyAt dst offset src).length = dst.length := by
  simp only [copyAt, length_append, length_take, length_drop]
  omega

/-! ## Reading -/

/-- The first `n` bytes of a string that is continued by zeros. -/
def takePad (n : ℕ) (bs : Bytes) : Bytes := padTo n (bs.take n)

@[simp] lemma length_takePad (n : ℕ) (bs : Bytes) : (takePad n bs).length = n :=
  length_padTo (length_take_le n bs)

lemma takePad_of_le (h : n ≤ bs.length) : takePad n bs = bs.take n := by
  rw [takePad, padTo, length_take, min_eq_left h, Nat.sub_self, replicate_zero, append_nil]

lemma takePad_of_ge (h : bs.length ≤ n) : takePad n bs = bs ++ zeros (n - bs.length) := by
  rw [takePad, take_of_length_le h]
  rfl

lemma takePad_add (m n : ℕ) (bs : Bytes) :
    takePad (m + n) bs = takePad m bs ++ takePad n (bs.drop m) := by
  rcases le_total m bs.length with hle | hle
  · rw [takePad_of_le hle, takePad, takePad, padTo, padTo, take_add, append_assoc,
      length_append, length_take, min_eq_left hle, Nat.add_sub_add_left]
  · rw [takePad_of_ge hle, takePad_of_ge (Nat.le_add_right_of_le hle), drop_eq_nil_of_le hle,
      takePad_of_ge (Nat.zero_le n), nil_append, append_assoc, ← zeros_add]
    congr 2
    rw [length_nil]
    omega

lemma takePad_one (bs : Bytes) : takePad 1 bs = [bs.headD 0] := by
  cases bs with
  | nil => rfl
  | cons b bs => rfl

@[simp] lemma takePad_nil (n : ℕ) : takePad n [] = zeros n := by
  rw [takePad_of_ge (Nat.zero_le n)]
  rfl

lemma copyAt_free (done src : Bytes) (n : ℕ) :
    copyAt (done ++ zeros n) done.length src = done ++ takePad n src := by
  have hroom : (done ++ zeros n).length - done.length = n := by simp
  have hfree : n - (src.take n).length = n - src.length := by
    rw [length_take]
    omega
  rw [copyAt, hroom, take_left, drop_append, drop_zeros, drop_eq_nil_of_le (Nat.le_add_right _ _),
    Nat.add_sub_cancel_left, takePad, padTo, hfree, append_assoc]
  rfl

lemma copyAt_zeros (done : Bytes) {src : Bytes} (h : src.length ≤ n) :
    copyAt (done ++ zeros n) done.length src = done ++ src ++ zeros (n - src.length) := by
  rw [copyAt_free, takePad_of_ge h, append_assoc]

lemma takePad_zeros (m n : ℕ) : takePad m (zeros n) = zeros m := by
  rw [takePad, take_zeros, padTo, length_zeros, ← zeros, ← zeros_add,
    Nat.add_sub_cancel' (min_le_left m n)]

lemma takePad_append_left {xs : Bytes} (h : xs.length = n) (ys : Bytes) :
    takePad n (xs ++ ys) = xs := by
  subst h
  rw [takePad_of_le (by rw [length_append]; exact Nat.le_add_right _ _), take_left]

end FightNight
