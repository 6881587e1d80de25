import FightNight.Cannon.Contract
import FightNight.Cannon.Machine

/-!
# The packed state

The witness that `State.EncodeWitness` makes is unpacked by the contract into the state that the
witness is about, and packed again into the same bytes; the hashes that both make of it are equal.
-/

namespace FightNight.Cannon

open List hiding getElem?_eq_some_iff
open Memory
open Preimage (Hash Hash.zero)
open Preimage.Oracle (calldataload)

/-! ## Fields in calldata -/

lemma beNat_append_div (xs ys : Bytes) : beNat (xs ++ ys) / 2 ^ (8 * ys.length) = beNat xs := by
  have hpow : 256 ^ ys.length = 2 ^ (8 * ys.length) := by rw [pow_mul]; rfl
  have hlt := beNat_lt_two_pow ys
  rw [beNat_append, hpow, Nat.mul_add_div (Nat.two_pow_pos _), Nat.div_eq_of_lt hlt, add_zero]

lemma ofBytes_short (bs post : Bytes) (hbs : bs.length ≤ 32) :
    ∃ rest, (Preimage.Hash.ofBytes (bs ++ post)).1 = bs ++ rest ∧
      rest.length = 32 - bs.length := by
  have hsplit : (bs ++ post).take 32 = bs ++ post.take (32 - bs.length) := by
    rw [take_append, take_of_length_le hbs]
  unfold Hash.ofBytes padTo
  dsimp only
  rw [hsplit, append_assoc]
  refine ⟨_, rfl, ?_⟩
  rw [length_append, length_append, length_replicate, length_take]
  omega

lemma field_append (pre bs post : Bytes) (hbs : bs.length ≤ 32) :
    MIPS.field (pre ++ bs ++ post) pre.length bs.length = beNat bs := by
  obtain ⟨rest, hrest, hlen⟩ := ofBytes_short bs post hbs
  unfold MIPS.field calldataload
  rw [append_assoc, drop_left, BitVec.toNat_ushiftRight, toNat_word, hrest,
    Nat.shiftRight_eq_div_pow, ← hlen, beNat_append_div]

lemma field_flatten (pre post : Bytes) {fields : List Bytes} {i : ℕ} {bs : Bytes}
    (hi : fields[i]? = some bs) (hbs : bs.length ≤ 32) {offset : ℕ}
    (hoff : offset = pre.length + (fields.take i).flatten.length) :
    MIPS.field (pre ++ fields.flatten ++ post) offset bs.length = beNat bs := by
  obtain ⟨hlt, rfl⟩ := getElem?_eq_some_iff.mp hi
  have hsplit : fields.flatten =
      (fields.take i).flatten ++ fields[i] ++ (fields.drop (i + 1)).flatten := by
    rw [append_assoc, ← flatten_cons, ← drop_eq_getElem_cons,
      ← flatten_append, take_append_drop]
  have hcall : pre ++ fields.flatten ++ post =
      (pre ++ (fields.take i).flatten) ++ fields[i] ++ ((fields.drop (i + 1)).flatten ++ post) := by
    rw [hsplit]
    simp only [append_assoc]
  rw [hcall, hoff, ← length_append]
  exact field_append _ _ _ hbs

namespace MIPS

/-! ## Packing -/

/-- The fields of the packed state behind its two words. -/
def State.fields (s : State) : List Bytes :=
  [s.memRoot.1, s.preimageKey.1, beBytes 4 s.preimageOffset.toNat, beBytes 4 s.pc.toNat,
    beBytes 4 s.nextPC.toNat, beBytes 4 s.lo.toNat, beBytes 4 s.hi.toNat, beBytes 4 s.heap.toNat,
    [s.exitCode], [s.exited], beBytes 8 s.step.toNat] ++
  (ofFn s.registers).map fun r => beBytes 4 r.toNat

lemma State.flatten_fields (s : State) : s.fields.flatten = s.packed := by
  unfold fields packed
  rw [flatten_append, ← flatMap_def]
  simp only [flatten_cons, flatten_nil, append_nil, append_assoc]

lemma State.length_packed (s : State) : s.packed.length = 226 := by
  have hregs : ((ofFn s.registers).flatMap fun r => beBytes 4 r.toNat).length =
      128 := by
    simp
  unfold State.packed
  simp only [length_append, length_beBytes, s.memRoot.2, s.preimageKey.2, hregs,
    length_cons, length_nil]

section Unpack

variable (s : State) (pre post : Bytes)

variable {i offset : ℕ}

lemma field_number {k v : ℕ} (hi : s.fields[i]? = some (beBytes k v)) (hk : k ≤ 32)
    (hv : v < 256 ^ k) (hoff : offset = pre.length + (s.fields.take i).flatten.length) :
    field (pre ++ s.packed ++ post) offset k = v := by
  have hfield := field_flatten pre post hi (by rw [length_beBytes]; exact hk) hoff
  rwa [length_beBytes, State.flatten_fields, beNat_beBytes_of_lt hv] at hfield

lemma field_word {v : U32} (hi : s.fields[i]? = some (beBytes 4 v.toNat))
    (hoff : offset = pre.length + (s.fields.take i).flatten.length) :
    BitVec.ofNat 32 (field (pre ++ s.packed ++ post) offset 4) = v := by
  rw [field_number s pre post hi (by decide) v.isLt hoff, BitVec.ofNat_toNat, BitVec.setWidth_eq]

lemma field_byte {b : UInt8} (hi : s.fields[i]? = some [b])
    (hoff : offset = pre.length + (s.fields.take i).flatten.length) :
    UInt8.ofNat (field (pre ++ s.packed ++ post) offset 1) = b := by
  have hfield := field_flatten pre post hi (by rw [length_singleton]; decide) hoff
  rw [State.flatten_fields] at hfield
  rw [show 1 = [b].length from rfl, hfield]
  simp [beNat, leNat]

lemma getElem?_registers (i : Fin 32) :
    s.fields[11 + i.val]? = some (beBytes 4 (s.registers i).toNat) := by
  refine (getElem?_append_right (Nat.le_add_right 11 i.val)).trans ?_
  change ((ofFn s.registers).map fun r => beBytes 4 r.toNat)[11 + i.val - 11]? = _
  rw [Nat.add_sub_cancel_left, getElem?_map, List.getElem?_ofFn, dif_pos]
  rfl

lemma take_registers (i : Fin 32) :
    ((s.fields.take (11 + i)).flatten).length = 98 + 4 * i := by
  have hhead : ∀ (fields rest : List Bytes), fields.length = 11 →
      (fields ++ rest).take (11 + i) = fields ++ rest.take i :=
    fun _ _ hlen => hlen ▸ take_length_add_append _
  have hlens : (((ofFn s.registers).take i).map fun r => (beBytes 4 r.toNat).length) =
      replicate i 4 := by grind [length_beBytes, map_const', length_take, length_ofFn]
  unfold State.fields
  rw [hhead _ _ rfl, flatten_append, length_append, ← map_take, ← flatMap_def,
    length_flatMap, hlens, sum_replicate_nat]
  simp only [flatten_cons, flatten_nil, length_append, length_nil,
    length_beBytes, s.memRoot.2, s.preimageKey.2, length_cons]
  ring

lemma calldataload_append (h : Hash) : calldataload (pre ++ h.1 ++ post) pre.length = h := by
  unfold calldataload
  rw [append_assoc, drop_left, Hash.ofBytes_append]

lemma unpack_packed (hpre : pre.length = 132) : unpack (pre ++ s.packed ++ post) 132 = s := by
  have hroot : s.packed = s.memRoot.1 ++ (s.fields.drop 1).flatten := by
    rw [← State.flatten_fields]
    rfl
  have hkey : s.packed = s.memRoot.1 ++ s.preimageKey.1 ++ (s.fields.drop 2).flatten := by
    rw [← State.flatten_fields, append_assoc]
    rfl
  apply State.ext
  case memRoot =>
    have hload := calldataload_append pre ((s.fields.drop 1).flatten ++ post) s.memRoot
    unfold unpack
    rw [hroot, ← append_assoc, append_assoc, ← hpre, hload]
  case preimageKey =>
    have hload := calldataload_append (pre ++ s.memRoot.1) ((s.fields.drop 2).flatten ++ post)
      s.preimageKey
    rw [length_append, s.memRoot.2, hpre] at hload
    refine trans ?_ hload
    rw [hkey]
    simp only [append_assoc]
    rfl
  case step =>
    have hplace : 222 = pre.length + (s.fields.take 10).flatten.length := by
      simp [hpre, State.fields, s.memRoot.2, s.preimageKey.2]
    have hfield := field_number s pre post (i := 10) rfl (by decide) s.step.isLt hplace
    unfold unpack
    rw [hfield, BitVec.ofNat_toNat, BitVec.setWidth_eq]
  case registers =>
    funext i
    apply field_word s pre post (getElem?_registers s i)
    rw [take_registers, hpre]
    ring
  case' exitCode => apply field_byte s pre post (i := 8) rfl
  case' exited => apply field_byte s pre post (i := 9) rfl
  case' preimageOffset => apply field_word s pre post (i := 2) rfl
  case' pc => apply field_word s pre post (i := 3) rfl
  case' nextPC => apply field_word s pre post (i := 4) rfl
  case' lo => apply field_word s pre post (i := 5) rfl
  case' hi => apply field_word s pre post (i := 6) rfl
  case' heap => apply field_word s pre post (i := 7) rfl
  all_goals simp [hpre, State.fields, s.memRoot.2, s.preimageKey.2]

end Unpack

lemma stepCalldata_eq {stateData : Bytes} (hlen : stateData.length = 226) (proof : Bytes)
    (localContext : Hash) :
    ∃ pre mid post, stepCalldata stateData proof localContext =
      pre ++ stateData ++ (mid ++ proof ++ post) ∧ pre.length = 132 ∧ mid.length = 62 := by
  have hpad : (padTo ((stateData.length + 31) / 32 * 32) stateData) =
      stateData ++ replicate 30 0 := by
    unfold padTo
    rw [hlen]
  unfold stepCalldata
  dsimp only
  rw [hpad]
  unfold padTo
  refine ⟨stepSelector ++ beBytes 32 96 ++
      beBytes 32 (128 + (stateData ++ replicate 30 0).length) ++ localContext.1 ++
      beBytes 32 stateData.length, replicate 30 0 ++ beBytes 32 proof.length,
    replicate ((proof.length + 31) / 32 * 32 - proof.length) 0, ?_, ?_, ?_⟩
  · simp only [append_assoc]
  · simp only [length_append, length_beBytes, localContext.2]
    rfl
  · simp

end MIPS

/-! ## The state as the contract sees it -/

/-- The state of the contract that a state of the machine stands for. -/
def State.view (keccak256 : Bytes → Hash) (s : State) : MIPS.State where
  memRoot := flatRoot keccak256 s.memory.content
  preimageKey := s.preimageKey
  preimageOffset := s.preimageOffset
  pc := s.cpu.pc
  nextPC := s.cpu.nextPC
  lo := s.cpu.lo
  hi := s.cpu.hi
  heap := s.heap
  exitCode := s.exitCode
  exited := if s.exited then 1 else 0
  step := s.step
  registers := s.registers

variable {keccak256 : Bytes → Hash} {s : State}

lemma encodeWitness_view (hm : Inv keccak256 s.memory) :
    (s.encodeWitness keccak256).1 = (s.view keccak256).packed := by
  unfold State.encodeWitness State.view
  dsimp only
  rw [merkleRoot_eq hm]
  rfl

lemma word_cons {b : UInt8} {rest : Bytes} {h : Hash} (hh : h.1 = b :: rest) :
    (word h).toNat = 2 ^ (248 + 8) * 0 + (2 ^ 248 * b.toNat + beNat rest) := by
  have hlen : rest.length = 31 := by
    have hlength := h.2
    rw [hh, length_cons] at hlength
    omega
  have hbyte : beNat [b] = b.toNat := by simp [beNat, leNat]
  rw [toNat_word, hh, ← singleton_append, beNat_append, hlen, hbyte]
  ring

lemma ofWord_setStatus (status : UInt8) (h : Hash) :
    ofWord ((~~~((0xFF : BitVec 256) <<< 248) &&& word h) |||
      (BitVec.ofNat 256 status.toNat <<< 248)) = setStatus status h := by
  obtain ⟨b, rest, hh⟩ : ∃ b rest, h.1 = b :: rest := by
    apply exists_cons_of_length_eq_add_one
    exact h.2
  have hset : (setStatus status h).1 = status :: rest := by
    change status :: h.1.drop 1 = _
    rw [hh]
    rfl
  have hrest : beNat rest < 2 ^ 248 := by
    have hlt := beNat_lt_two_pow rest
    have hlen := h.2
    rw [hh] at hlen
    rwa [Nat.succ.inj hlen] at hlt
  have hst : (BitVec.ofNat 256 status.toNat).toNat = status.toNat := by
    exact Nat.mod_eq_of_lt (lt_trans status.toNat_lt (by decide))
  have hplace : (BitVec.ofNat 256 status.toNat <<< 248).toNat = 2 ^ 248 * status.toNat := by
    rw [BitFields.toNat_shiftLeft (n := 8) (by rw [hst]; exact status.toNat_lt) (by decide), hst]
  have hreplace := BitFields.toNat_replace b.toNat_lt hrest status.toNat_lt (by decide)
    (word_cons hh) (fun i hi => BitFields.getLsbD_mask_shiftLeft (n := 8) (by decide) hi) hplace
  rw [← word_cons hset] at hreplace
  rw [BitVec.and_comm]
  refine trans ?_ (ofWord_word (setStatus status h))
  exact congrArg ofWord (BitVec.eq_of_toNat_eq hreplace)

lemma outputState_view (hm : Inv keccak256 s.memory) :
    (s.view keccak256).outputState keccak256 = (s.encodeWitness keccak256).2.1 := by
  have hwitness := encodeWitness_view hm
  have hpacked : ∃ front back, (s.view keccak256).packed =
      front ++ s.exitCode :: (if s.exited then 1 else 0) :: back ∧ front.length = 88 := by
    refine ⟨((s.view keccak256).fields.take 8).flatten, ((s.view keccak256).fields.drop 10).flatten,
      ?_, ?_⟩
    · rw [← MIPS.State.flatten_fields]
      nth_rewrite 1 [← take_append_drop 8 (s.view keccak256).fields]
      rw [flatten_append]
      rfl
    · simp [MIPS.State.fields, (s.view keccak256).memRoot.2, (s.view keccak256).preimageKey.2]
  obtain ⟨front, back, hbytes, hfront⟩ := hpacked
  have hexit : (s.view keccak256).packed.getD 88 0 = s.exitCode := by grind
  have hexited : (s.view keccak256).packed.getD 89 0 = if s.exited then 1 else 0 := by grind
  have hhash : (s.encodeWitness keccak256).2.1 =
      stateHashFromWitness keccak256 (s.encodeWitness keccak256).1 := rfl
  rw [hhash, hwitness]
  unfold stateHashFromWitness
  dsimp only
  rw [hexit, hexited, ← ofWord_setStatus]
  unfold MIPS.State.outputState vmStatus State.view
  cases s.exited with
  | false => rfl
  | true =>
    by_cases hzero : s.exitCode = 0
    · simp [hzero]
    · by_cases hone : s.exitCode = 1
      · simp [hone]
      · simp [hzero, hone]

end FightNight.Cannon
