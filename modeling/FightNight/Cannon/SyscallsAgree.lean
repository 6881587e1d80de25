import FightNight.Cannon.InstructionsAgree
import FightNight.Cannon.PackedState

/-!
# The two implementations of the system calls

Reading a preimage and writing its key move bytes between a word of memory and a key or the data of
the preimage.  The machine copies byte slices; the contract shifts and masks words.  Both do the
same, whatever the alignment and the count are.
-/

namespace FightNight.Cannon

open Memory List
open Preimage (Hash Hash.zero Oracle)

/-! ## Alignment -/

lemma toNat_clamp {k : ℕ} (x y : BitVec k) :
    (if x < y then x else y).toNat = min x.toNat y.toNat := by
  rw [apply_ite BitVec.toNat, min_def_lt]
  rfl

lemma toNat_alignment (a1 : U32) : (a1 &&& 3).toNat = a1.toNat % 4 :=
  Nat.and_two_pow_sub_one_eq_mod a1.toNat 2

lemma toNat_alignment_wide (a1 : U32) : (a1.setWidth 256 &&& 3).toNat = a1.toNat % 4 :=
  Nat.and_two_pow_sub_one_eq_mod a1.toNat 2

lemma toNat_space (a1 : U32) : (4 - (a1 &&& 3)).toNat = 4 - a1.toNat % 4 := by
  have hx := toNat_alignment a1
  generalize a1 &&& 3 = x at hx ⊢
  bv_omega

lemma toNat_space_wide (a1 : U32) : (4 - (a1.setWidth 256 &&& 3)).toNat = 4 - a1.toNat % 4 := by
  have hx := toNat_alignment_wide a1
  generalize a1.setWidth 256 &&& 3 = x at hx ⊢
  bv_omega

/-! ## Data into memory -/

/-- How many of `n` bytes are read. -/
def readLen (a1 a2 : U32) (n : ℕ) : ℕ := min a2.toNat (min (4 - a1.toNat % 4) n)

lemma toNat_readLen {a1 a2 : U32} {k : ℕ} {len space : BitVec k} (hlen : len.toNat = a2.toNat)
    (hspace : space.toNat = 4 - a1.toNat % 4) (datLen : BitVec k) :
    (let datLen := if space < datLen then space else datLen
      if len < datLen then len else datLen).toNat = readLen a1 a2 datLen.toNat := by
  rw [toNat_clamp, toNat_clamp, hspace, hlen]
  rfl

lemma one_shiftLeft_sub_one (t : ℕ) :
    (1 : BitVec 256) <<< t - 1 = BitVec.ofNat 256 (2 ^ t - 1) := by
  have hpow : (1 : BitVec 256) <<< t = BitVec.ofNat 256 (2 ^ t) := by
    apply BitVec.eq_of_toNat_eq
    simp [Nat.shiftLeft_eq]
  rw [hpow]
  exact BitVec.ofNat_sub_ofNat_of_le _ 1 (by decide) Nat.one_le_two_pow

variable {al d : ℕ}

lemma toNat_first_bytes (h : Hash) (hd : d ≤ 32) :
    (word h >>> (256 - 8 * d)).toNat = beNat (h.1.take d) := by
  have hlen : (h.1.drop d).length = 32 - d := by rw [length_drop, h.2]
  have hshift : 256 - 8 * d = 8 * (h.1.drop d).length := by rw [hlen]; omega
  rw [BitVec.toNat_ushiftRight, toNat_word, Nat.shiftRight_eq_div_pow, hshift]
  nth_rewrite 1 [← take_append_drop d h.1]
  exact beNat_append_div _ _

lemma readLen_le (a1 a2 : U32) (n : ℕ) : readLen a1 a2 n ≤ 4 - a1.toNat % 4 :=
  le_trans (min_le_right _ _) (min_le_left _ _)

lemma toNat_shifts {x y : BitVec 256} (hx : x.toNat < 4) (hy : y.toNat ≤ 4 - x.toNat) :
    (256 - y * 8).toNat = 256 - 8 * y.toNat ∧
      ((4 - y - x) * 8).toNat = 8 * (4 - x.toNat - y.toNat) ∧
      ((4 - x) * 8).toNat = 8 * (4 - x.toNat) ∧
      ((4 - x - y) * 8).toNat = 8 * (4 - x.toNat - y.toNat) := by
  refine ⟨?_, ?_, ?_, ?_⟩ <;> bv_omega

/-- A word of memory with data in it. -/
def patched (mem : U32) (alignment : ℕ) (data : Bytes) : Bytes :=
  (be32 mem).take alignment ++ data ++ (be32 mem).drop (alignment + data.length)

/-- A word of memory, cut at the bytes from `al` on. -/
theorem word_fields (mem : U32) (hd : al + d ≤ 4) :
    (mem.setWidth 256).toNat = 2 ^ (8 * (4 - al - d) + 8 * d) * beNat ((be32 mem).take al) +
        (2 ^ (8 * (4 - al - d)) * beNat (((be32 mem).drop al).take d) +
          beNat ((be32 mem).drop (al + d))) ∧
      beNat (((be32 mem).drop al).take d) < 2 ^ (8 * d) ∧
      beNat ((be32 mem).drop (al + d)) < 2 ^ (8 * (4 - al - d)) := by
  have hlen : (be32 mem).length = 4 := length_beBytes _ _
  have hsplit : be32 mem = (be32 mem).take al ++ ((be32 mem).drop al).take d ++
      (be32 mem).drop (al + d) := by simp
  have htail : ((be32 mem).drop (al + d)).length = 4 - al - d := by
    rw [length_drop, hlen]
    omega
  have hmid : (((be32 mem).drop al).take d).length = d := by grind
  have hvalue : beNat (be32 mem) = mem.toNat := beNat_beBytes_of_lt mem.isLt
  have hw := beNat_fields ((be32 mem).take al) (((be32 mem).drop al).take d)
    ((be32 mem).drop (al + d))
  have hb := beNat_lt_two_pow (((be32 mem).drop al).take d)
  have hc := beNat_lt_two_pow ((be32 mem).drop (al + d))
  rw [← hsplit, hvalue, htail, hmid] at hw
  rw [hmid] at hb
  rw [htail] at hc
  exact ⟨hw, hb, hc⟩

lemma toNat_patched (mem : U32) (hd : al + d ≤ 4) (data : Bytes) (hdata : data.length = d)
    {m v : BitVec 256}
    (hm : ∀ i < 256, m.getLsbD i = decide (8 * (4 - al - d) ≤ i ∧ i < 8 * (4 - al - d) + 8 * d))
    (hv : v.toNat = 2 ^ (8 * (4 - al - d)) * beNat data) :
    ((mem.setWidth 256 &&& ~~~m) ||| v).toNat = beNat (patched mem al data) := by
  obtain ⟨hw, hb, hc⟩ := word_fields mem hd
  have hnew := beNat_lt_two_pow data
  have htail : ((be32 mem).drop (al + d)).length = 4 - al - d := by
    rw [length_drop, be32, length_beBytes]
    omega
  rw [hdata] at hnew
  unfold patched
  rw [BitFields.toNat_replace hb hc hnew (by omega) hw hm hv, beNat_fields, hdata, htail]

lemma insertData_eq (a1 a2 mem : U32) (dat : Hash) {n : ℕ} (hn : n ≤ 32) :
    MIPSSyscalls.insertData a1 a2 mem dat (BitVec.ofNat 256 n) =
      (uint32 (patched mem (a1.toNat % 4) (dat.1.take (readLen a1 a2 n))),
        BitVec.ofNat 256 (readLen a1 a2 n)) := by
  have hd := readLen_le a1 a2 n
  have hsmall : ∀ {x : ℕ}, x ≤ 32 → (BitVec.ofNat 256 x).toNat = x := by grind
  have hlen := @toNat_readLen a1 a2 _ (a2.setWidth 256) _ rfl (toNat_space_wide a1) (BitVec.ofNat 256 n)
  rw [hsmall hn, ← hsmall (show readLen a1 a2 n ≤ 32 by omega)] at hlen
  have hlen := BitVec.eq_of_toNat_eq hlen
  unfold MIPSSyscalls.insertData
  dsimp only
  rw [hlen]
  generalize hy : BitVec.ofNat 256 (readLen a1 a2 n) = y
  have hytoNat : y.toNat = readLen a1 a2 n := by rw [← hy, hsmall (by omega)]
  have hx := toNat_alignment_wide a1
  generalize a1.setWidth 256 &&& 3 = x at hx ⊢
  obtain ⟨hright, hleft, hfrom, hupTo⟩ := toNat_shifts (x := x) (y := y) (by omega) (by omega)
  rw [hx, hytoNat] at hleft hupTo
  rw [hytoNat] at hright
  have hdat := toNat_first_bytes dat (show readLen a1 a2 n ≤ 32 by omega)
  have htake : (dat.1.take (readLen a1 a2 n)).length = readLen a1 a2 n := by
    rw [length_take]
    omega
  have hdatlt := beNat_lt_two_pow (dat.1.take (readLen a1 a2 n))
  rw [htake] at hdatlt
  -- The mask covers the bytes from the alignment on that are read.
  have hmask : ∀ i < 256, (((1 : BitVec 256) <<< ((4 - x) * 8) - 1) &&&
      ~~~((1 : BitVec 256) <<< ((4 - x - y) * 8) - 1)).getLsbD i =
      decide (8 * (4 - a1.toNat % 4 - readLen a1 a2 n) ≤ i ∧
        i < 8 * (4 - a1.toNat % 4 - readLen a1 a2 n) + 8 * readLen a1 a2 n) := by
    intro i hi
    rw [BitVec.shiftLeft_eq', BitVec.shiftLeft_eq', one_shiftLeft_sub_one,
      one_shiftLeft_sub_one, BitVec.getLsbD_and, BitVec.getLsbD_not,
      BitFields.getLsbD_mask (by omega), BitFields.getLsbD_mask (by omega), decide_eq_true hi, Bool.true_and, ← decide_not, ← Bool.decide_and]
    exact decide_eq_decide.mpr (by omega)
  have hvalue : ((word dat >>> (256 - y * 8)) <<< ((4 - y - x) * 8)).toNat =
      2 ^ (8 * (4 - a1.toNat % 4 - readLen a1 a2 n)) * beNat (dat.1.take (readLen a1 a2 n)) := by
    rw [BitVec.shiftLeft_eq', BitVec.ushiftRight_eq', hleft, hright,
      BitFields.toNat_shiftLeft (n := 8 * readLen a1 a2 n) (by rwa [hdat]) (by omega), hdat]
  refine Prod.ext ?_ rfl
  apply BitVec.eq_of_toNat_eq
  rw [BitVec.toNat_setWidth, toNat_patched mem (by omega) _ htake hmask hvalue]
  rfl

/-! ## Memory into a key -/

/-- How many bytes of the key are written. -/
def writeLen (a1 a2 : U32) : ℕ := min (4 - a1.toNat % 4) a2.toNat

lemma toNat_writeLen {a1 a2 : U32} {k : ℕ} {len space : BitVec k} (hlen : len.toNat = a2.toNat)
    (hspace : space.toNat = 4 - a1.toNat % 4) :
    (if space < len then space else len).toNat = writeLen a1 a2 := by
  rw [toNat_clamp, hspace, hlen]
  rfl

lemma toNat_shifted_key (key : Hash) (hd : d ≤ 32) :
    (word key <<< (8 * d)).toNat = 2 ^ (8 * d) * beNat (key.1.drop d) := by
  have hlen : (key.1.drop d).length = 32 - d := by rw [length_drop, key.2]
  have hsplit := beNat_append (key.1.take d) (key.1.drop d)
  have hlt := beNat_lt_two_pow (key.1.drop d)
  have hpow : 2 ^ 256 = 2 ^ (8 * d) * 2 ^ (8 * (32 - d)) := by
    rw [← pow_add]
    congr 1
    omega
  have hpow' : 256 ^ (32 - d) = 2 ^ (8 * (32 - d)) := by rw [pow_mul]; rfl
  rw [take_append_drop, hlen, hpow'] at hsplit
  rw [hlen] at hlt
  rw [BitVec.toNat_shiftLeft, toNat_word, hsplit, Nat.shiftLeft_eq, mul_comm, hpow,
    Nat.mul_mod_mul_left, Nat.mul_add_mod, Nat.mod_eq_of_lt hlt]

def shiftedKey (key : Hash) (mem : U32) (alignment d : ℕ) : Bytes :=
  key.1.drop d ++ ((be32 mem).drop alignment).take d

lemma length_shiftedKey (key : Hash) (mem : U32) (hd : al + d ≤ 4) :
    (shiftedKey key mem al d).length = 32 := by
  unfold shiftedKey
  rw [length_append, length_drop, length_take, length_drop, be32, length_beBytes]
  omega

lemma insertKey_eq (a1 a2 mem : U32) (key : Hash) :
    MIPSSyscalls.insertKey a1 a2 mem key =
      (Preimage.Hash.ofBytes (shiftedKey key mem (a1.toNat % 4) (writeLen a1 a2)),
        BitVec.ofNat 32 (writeLen a1 a2)) := by
  have hd : writeLen a1 a2 ≤ 4 - a1.toNat % 4 := min_le_left _ _
  have hlen := @toNat_writeLen a1 a2 _ (a2.setWidth 256) _ rfl (toNat_space_wide a1)
  unfold MIPSSyscalls.insertKey
  dsimp only
  generalize (if 4 - (a1.setWidth 256 &&& 3) < a2.setWidth 256 then
    4 - (a1.setWidth 256 &&& 3) else a2.setWidth 256) = y at hlen ⊢
  have hx := toNat_alignment_wide a1
  generalize a1.setWidth 256 &&& 3 = x at hx ⊢
  have hleft : (y * 8).toNat = 8 * writeLen a1 a2 := by bv_omega
  have hright : ((4 - x - y) * 8).toNat = 8 * (4 - a1.toNat % 4 - writeLen a1 a2) := by bv_omega
  rw [BitVec.shiftLeft_eq', BitVec.shiftLeft_eq', BitVec.ushiftRight_eq', hleft, hright,
    one_shiftLeft_sub_one]
  have hkey := toNat_shifted_key key (show writeLen a1 a2 ≤ 32 by omega)
  have hsum : a1.toNat % 4 + writeLen a1 a2 ≤ 4 := by omega
  obtain ⟨hword, hlow, hrest⟩ := word_fields mem hsum
  have hmem := BitFields.toNat_extract (by omega) hlow hrest hword
  have htake : (((be32 mem).drop (a1.toNat % 4)).take (writeLen a1 a2)).length =
      writeLen a1 a2 := by
    rw [length_take, length_drop, be32, length_beBytes]
    omega
  have hpow : 256 ^ writeLen a1 a2 = 2 ^ (8 * writeLen a1 a2) := by rw [pow_mul]; rfl
  have hnum : (word key <<< (8 * writeLen a1 a2) |||
      (mem.setWidth 256 >>> (8 * (4 - a1.toNat % 4 - writeLen a1 a2)) &&&
        BitVec.ofNat 256 (2 ^ (8 * writeLen a1 a2) - 1))).toNat =
      beNat (shiftedKey key mem (a1.toNat % 4) (writeLen a1 a2)) := by
    rw [BitVec.toNat_or, hkey, hmem, ← Nat.two_pow_add_eq_or_of_lt hlow, shiftedKey, beNat_append,
      htake, hpow]
  refine Prod.ext ?_ ?_
  · have hlength := length_shiftedKey key mem hsum
    have hbytes := Hash.ofBytes_append ⟨_, hlength⟩ []
    have hback := beBytes_beNat (shiftedKey key mem (a1.toNat % 4) (writeLen a1 a2))
    rw [append_nil] at hbytes
    rw [hlength] at hback
    apply Subtype.ext
    unfold ofWord
    dsimp only
    rw [hbytes, hnum, hback]
  · apply BitVec.eq_of_toNat_eq
    rw [BitVec.toNat_setWidth, hlen, BitVec.toNat_ofNat]

end FightNight.Cannon
