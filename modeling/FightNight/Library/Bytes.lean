import Mathlib.Tactic.Ring

/-!
# Fixed-width numbers in byte strings

`leBytes k n` is the little-endian representation of `n` in `k` bytes and `leNat` reads a byte
string back; `beBytes` is the big-endian representation.  Numbers that do not fit are truncated
to their last `k` bytes, which is what storing a wide register into a narrow field does.
-/

namespace FightNight

open List

/-- A byte string. -/
abbrev Bytes := List UInt8

/-- The `k` least significant bytes of `n`, least significant first. -/
def leBytes : ℕ → ℕ → Bytes
  | 0, _ => []
  | k + 1, n => UInt8.ofNat (n % 256) :: leBytes k (n / 256)

/-- The number a byte string represents, least significant byte first. -/
def leNat : Bytes → ℕ
  | [] => 0
  | b :: bs => b.toNat + 256 * leNat bs

/-- The `k` least significant bytes of `n`, most significant first. -/
def beBytes (k n : ℕ) : Bytes := (leBytes k n).reverse

@[simp] lemma length_leBytes (k n : ℕ) : (leBytes k n).length = k := by
  induction k generalizing n with
  | zero => rfl
  | succ k ih => simp [leBytes, ih]

@[simp] lemma length_beBytes (k n : ℕ) : (beBytes k n).length = k := by
  simp [beBytes]

lemma leNat_leBytes (k n : ℕ) : leNat (leBytes k n) = n % 256 ^ k := by
  induction k generalizing n with
  | zero => simp [leBytes, leNat, Nat.mod_one]
  | succ k ih =>
    have hb : (UInt8.ofNat (n % 256)).toNat = n % 256 := by
      simp [UInt8.toNat_ofNat']
    rw [leBytes, leNat, hb, ih, pow_succ, mul_comm (256 ^ k) 256, Nat.mod_mul]

variable {i j k n : ℕ} {bs : Bytes}

lemma leNat_leBytes_of_lt (h : n < 256 ^ k) : leNat (leBytes k n) = n := by
  rw [leNat_leBytes, Nat.mod_eq_of_lt h]

lemma leBytes_add (j k n : ℕ) : leBytes (j + k) n = leBytes j n ++ leBytes k (n / 256 ^ j) := by
  induction j generalizing n with
  | zero => rw [zero_add, pow_zero, Nat.div_one]; rfl
  | succ j ih =>
    rw [Nat.succ_add, leBytes, leBytes, ih, Nat.div_div_eq_div_mul, ← pow_succ', cons_append]

lemma take_beBytes (k j n : ℕ) : (beBytes (k + j) n).take k = beBytes k (n / 256 ^ j) := by
  rw [beBytes, add_comm, leBytes_add, reverse_append, take_left']
  · rfl
  · rw [length_reverse, length_leBytes]

lemma beBytes_inj {m : ℕ} (hm : m < 256 ^ k) (hn : n < 256 ^ k) :
    beBytes k m = beBytes k n ↔ m = n := by
  constructor
  · intro h
    have hle : leBytes k m = leBytes k n := reverse_inj.mp h
    rw [← leNat_leBytes_of_lt hm, hle, leNat_leBytes_of_lt hn]
  · rintro rfl
    rfl

/-- A byte string is the little-endian representation of the number that is read from it. -/
theorem leBytes_leNat (bs : Bytes) : leBytes bs.length (leNat bs) = bs := by
  induction bs with
  | nil => rfl
  | cons b bs ih =>
    have hb := b.toNat_lt
    have hlow : (b.toNat + 256 * leNat bs) % 256 = b.toNat := by omega
    have hhigh : (b.toNat + 256 * leNat bs) / 256 = leNat bs := by omega
    rw [length_cons, leNat, leBytes, hlow, hhigh, ih, UInt8.ofNat_toNat]

lemma leNat_lt (bs : Bytes) : leNat bs < 256 ^ bs.length := by
  rw [← leBytes_leNat bs, leNat_leBytes, length_leBytes]
  exact Nat.mod_lt _ (Nat.pow_pos (by decide))

/-- The number a byte string represents, most significant byte first. -/
def beNat (bs : Bytes) : ℕ := leNat bs.reverse

lemma beNat_beBytes_of_lt (h : n < 256 ^ k) : beNat (beBytes k n) = n := by
  rw [beNat, beBytes, reverse_reverse, leNat_leBytes_of_lt h]

lemma beBytes_beNat (bs : Bytes) : beBytes bs.length (beNat bs) = bs := by
  have h := leBytes_leNat bs.reverse
  rw [length_reverse] at h
  rw [beBytes, beNat, h, reverse_reverse]

lemma beNat_lt (bs : Bytes) : beNat bs < 256 ^ bs.length := by
  rw [← length_reverse]
  exact leNat_lt bs.reverse

lemma leNat_append (xs ys : Bytes) : leNat (xs ++ ys) = leNat xs + 256 ^ xs.length * leNat ys := by
  induction xs with
  | nil => rw [nil_append, leNat, length_nil, pow_zero, one_mul, zero_add]
  | cons x xs ih =>
    rw [cons_append, leNat, leNat, ih, length_cons]
    ring

lemma beNat_append (xs ys : Bytes) : beNat (xs ++ ys) = 256 ^ ys.length * beNat xs + beNat ys := by
  rw [beNat, reverse_append, leNat_append, length_reverse, add_comm]
  rfl

/-! ## Fields of a record -/

/-- A byte string of a fixed length. -/
abbrev FixedBytes (n : ℕ) := { bs : Bytes // bs.length = n }

lemma length_zeros32 : (replicate 32 (0 : UInt8)).length = 32 := rfl

/-- The bytes from index `i` up to, but not including, index `j`. -/
def slice (i j : ℕ) (bs : Bytes) : Bytes := (bs.drop i).take (j - i)

lemma length_slice (h : j ≤ bs.length) : (slice i j bs).length = j - i := by
  simp only [slice, length_take, length_drop]
  omega

/-- A byte string that begins with `bs`, filled up with zeros to length `n`. -/
def padTo (n : ℕ) (bs : Bytes) : Bytes := bs ++ List.replicate (n - bs.length) 0

lemma length_padTo (h : bs.length ≤ n) : (padTo n bs).length = n := by
  simp only [padTo, length_append, length_replicate]
  omega

lemma slice_append {pre field post : Bytes} (hi : pre.length = i) (hj : i + field.length = j) :
    slice i j (pre ++ field ++ post) = field := by
  subst hi hj
  simp [slice]

/-- Two records of three fields, of which the second ones have the same length, have the same bytes
exactly when the fields of one are those of the other, `k` places further. -/
theorem append_eq_append_iff_shift {α : Type} {a v p a' v' p' : List α} (hv : v.length = v'.length)
    (hk : a'.length = a.length + k) (hkv : k ≤ v.length) :
    a ++ v ++ p = a' ++ v' ++ p' ↔
      a' = a ++ v.take k ∧ v'.take (v.length - k) = v.drop k ∧
        p = v'.drop (v.length - k) ++ p' := by
  have hleft : a ++ v ++ p = a ++ v.take k ++ (v.drop k ++ p) := by
    grind [append_assoc, take_append_drop]
  have hright : a' ++ v' ++ p' =
      a' ++ (v'.take (v.length - k) ++ (v'.drop (v.length - k) ++ p')) := by
    grind [take_append_drop, append_assoc]
  rw [hleft, hright]
  constructor
  · intro h
    obtain ⟨hhead, htail⟩ := append_inj h (by
      rw [length_append, length_take, hk, min_eq_left hkv])
    obtain ⟨hvalue, hpar⟩ := append_inj htail (by
      rw [length_drop, length_take, ← hv, min_eq_left (Nat.sub_le _ _)])
    exact ⟨hhead.symm, hvalue.symm, hpar⟩
  · rintro ⟨rfl, hvalue, hpar⟩
    rw [hvalue, ← hpar]

end FightNight
