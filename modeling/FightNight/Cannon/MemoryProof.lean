import FightNight.Cannon.MemoryRuns
import FightNight.Library.BitFields
import FightNight.Preimage.Oracle

/-!
# Memory proofs

`MIPSMemory` (`packages/contracts-bedrock/src/cannon/libraries/MIPSMemory.sol`) reads and writes a
word of a memory of which it only knows the root, with the leaf of the word and its siblings in
calldata.  For the proofs that `Memory.MerkleProof` makes it agrees with `GetMemory` and with
`SetMemory` and the root after it (`memory_proofs_agree`).

The words of the EVM are bit vectors of 256 bits where the code calculates with them, and strings
of 32 bytes where it does not.
-/

namespace FightNight.Cannon

open FightNight.Except Function
open List hiding getElem?_eq_some_iff
open ByteMap MerkleTree Memory MemoryCall CachedPage
open Preimage (Hash Hash.zero)
open Preimage.Oracle (calldataload)

/-! ## The library -/

/-- The reasons the contract `MIPS` reverts for. -/
inductive MipsRevert where
  /-- `revert(0, 0)`. -/
  | bare
  /-- The text of a failed `require` or of a `revert`. -/
  | text (message : String)
  /-- The root that follows from a proof is not that of the memory: `0x0badf00d`. -/
  | badProof
  /-- A panic of checked arithmetic. -/
  | panic (code : ℕ)
  deriving DecidableEq

def word (h : Hash) : BitVec 256 := BitVec.ofNat 256 (beNat h.1)

def ofWord (w : BitVec 256) : Hash := ⟨beBytes 32 w.toNat, length_beBytes _ _⟩

section MIPSMemory

variable (keccak256 : Bytes → Hash) (calldata : Bytes)

def validateMemoryProofAvailability (proofStartOffset : ℕ) : Except MipsRevert Unit :=
  revertIf (calldata.length < proofStartOffset + 28 * 32)
    (.text "check that there is enough calldata")

def memoryProofOffset (proofDataOffset proofIndex : ℕ) : ℕ :=
  proofDataOffset + proofIndex * (28 * 32)

/-- The loop of `readMem` and `writeMem` that goes up to the root. -/
def rootFromProof (addr : U32) (proofOffset : ℕ) (leaf : Hash) : Hash :=
  let path := addr.toNat / 2 ^ 5
  (range 27).foldl (fun node i =>
    let sibling := calldataload calldata (proofOffset + 32 + 32 * i)
    if path / 2 ^ i % 2 = 1 then hashPair keccak256 sibling node
    else hashPair keccak256 node sibling) leaf

/-- `shl(3, sub(sub(32, 4), and(_addr, 31)))`. -/
def leafShift (addr : U32) : ℕ := 8 * (32 - 4 - addr.toNat % 32)

def readMem (memRoot : Hash) (addr : U32) (proofOffset : ℕ) : Except MipsRevert U32 := do
  validateMemoryProofAvailability calldata proofOffset
  revertIf (addr.toNat % 4 ≠ 0) .bare
  let leaf := calldataload calldata proofOffset
  revertIf (rootFromProof keccak256 calldata addr proofOffset leaf ≠ memRoot) .badProof
  pure (((word leaf >>> leafShift addr) &&& 0xffffffff).setWidth 32)

def writeMem (addr : U32) (proofOffset : ℕ) (val : U32) : Except MipsRevert Hash := do
  validateMemoryProofAvailability calldata proofOffset
  revertIf (addr.toNat % 4 ≠ 0) .bare
  let leaf := word (calldataload calldata proofOffset)
  let leaf := (leaf &&& ~~~((0xffffffff : BitVec 256) <<< leafShift addr)) |||
    (val.setWidth 256 <<< leafShift addr)
  pure (rootFromProof keccak256 calldata addr proofOffset (ofWord leaf))

end MIPSMemory

/-! ## Words in a leaf -/

variable {w : BitVec 256} {addr : U32} {a b c s : ℕ} {h : Hash}

lemma extract_eq (hb : b < 2 ^ 32) (hc : c < 2 ^ s)
    (hw : w.toNat = 2 ^ (s + 32) * a + (2 ^ s * b + c)) :
    ((w >>> s) &&& 0xffffffff).setWidth 32 = BitVec.ofNat 32 b := by
  have hext := BitFields.toNat_extract (k := 256) (by decide) hb hc hw
  apply BitVec.eq_of_toNat_eq
  exact congrArg (· % 2 ^ 32) hext

lemma replace_eq {v : U32} (hb : b < 2 ^ 32) (hc : c < 2 ^ s) (hs : s + 32 ≤ 256)
    (hw : w.toNat = 2 ^ (s + 32) * a + (2 ^ s * b + c)) :
    ((w &&& ~~~((0xffffffff : BitVec 256) <<< s)) ||| (v.setWidth 256 <<< s)).toNat =
      2 ^ (s + 32) * a + (2 ^ s * v.toNat + c) := by
  have hwide : (v.setWidth 256).toNat = v.toNat := BitVec.toNat_setWidth_of_le (by decide)
  have hplace : (v.setWidth 256 <<< s).toNat = 2 ^ s * v.toNat := by
    rw [BitFields.toNat_shiftLeft (n := 32) (by rw [hwide]; exact v.isLt) hs, hwide]
  exact BitFields.toNat_replace hb hc v.isLt hs hw
    (fun i hi => BitFields.getLsbD_mask_shiftLeft (n := 32) (by decide) hi) hplace

lemma toNat_word (h : Hash) : (word h).toNat = beNat h.1 := by
  have hlt : beNat h.1 < 2 ^ 256 := by
    have hbound := beNat_lt h.1
    rwa [h.2] at hbound
  unfold word
  rw [BitVec.toNat_ofNat, Nat.mod_eq_of_lt hlt]

lemma ofWord_word (h : Hash) : ofWord (word h) = h := by
  apply Subtype.ext
  have hbytes := beBytes_beNat h.1
  rwa [h.2, ← toNat_word] at hbytes

lemma beNat_fields (xs ys zs : Bytes) :
    beNat (xs ++ ys ++ zs) = 2 ^ (8 * zs.length + 8 * ys.length) * beNat xs +
      (2 ^ (8 * zs.length) * beNat ys + beNat zs) := by
  have hpow : ∀ n, 256 ^ n = 2 ^ (8 * n) := fun n => by rw [pow_mul]; rfl
  rw [beNat_append, beNat_append, hpow, hpow]
  ring

lemma word_leaf {xs ys zs : Bytes} (hh : h.1 = xs ++ ys ++ zs) (hys : ys.length = 4) :
    (word h).toNat =
      2 ^ (8 * zs.length + 32) * beNat xs + (2 ^ (8 * zs.length) * beNat ys + beNat zs) := by
  rw [toNat_word, hh, beNat_fields, hys]

/-- The bytes of the leaf of a word: those before it, the word, and those behind it. -/
theorem leaf_split (f : ℕ → UInt8) (halign : a % 4 = 0) :
    (leaf f (a / 32)).1 =
      readAt f (32 * (a / 32)) (a % 32) ++ readAt f a 4 ++ readAt f (a + 4) (28 - a % 32) := by
  have hlen : a % 32 + (4 + (28 - a % 32)) = 32 := by omega
  have hsplit := readAt_add f (32 * (a / 32)) (a % 32) (4 + (28 - a % 32))
  rwa [hlen, readAt_add, Nat.div_add_mod, ← append_assoc] at hsplit

lemma leafShift_eq (f : ℕ → UInt8) (addr : U32) :
    leafShift addr = 8 * (readAt f (addr.toNat + 4) (28 - addr.toNat % 32)).length := by
  rw [length_readAt]
  rfl

lemma beNat_lt_two_pow (bs : Bytes) : beNat bs < 2 ^ (8 * bs.length) := by
  have h := beNat_lt bs
  rwa [show 256 = 2 ^ 8 from rfl, ← pow_mul] at h

lemma extract_leaf (f : ℕ → UInt8) (halign : addr.toNat % 4 = 0) :
    ((word (leaf f (addr.toNat / 32)) >>> leafShift addr) &&& 0xffffffff).setWidth 32 =
      uint32 (readAt f addr.toNat 4) := by
  rw [leafShift_eq]
  refine extract_eq ?_ (beNat_lt_two_pow _) (word_leaf (leaf_split f halign) (length_readAt _ _ _))
  have hlt := beNat_lt_two_pow (readAt f addr.toNat 4)
  rwa [length_readAt] at hlt

lemma replace_leaf (f : ℕ → UInt8) (halign : addr.toNat % 4 = 0) (v : U32) :
    ofWord ((word (leaf f (addr.toNat / 32)) &&&
        ~~~((0xffffffff : BitVec 256) <<< leafShift addr)) |||
      (v.setWidth 256 <<< leafShift addr)) =
      leaf (writeAt f addr.toNat (beBytes 4 v.toNat)) (addr.toNat / 32) := by
  have hword : beNat (readAt f addr.toNat 4) < 2 ^ 32 := by
    have hlt := beNat_lt_two_pow (readAt f addr.toNat 4)
    rwa [length_readAt] at hlt
  have hvalue : beNat (beBytes 4 v.toNat) = v.toNat := beNat_beBytes_of_lt v.isLt
  have hlen : (beBytes 4 v.toNat).length = 4 := length_beBytes _ _
  -- The leaf after the write has the same bytes around the word.
  have hafter : (leaf (writeAt f addr.toNat (beBytes 4 v.toNat)) (addr.toNat / 32)).1 =
      readAt f (32 * (addr.toNat / 32)) (addr.toNat % 32) ++ beBytes 4 v.toNat ++
        readAt f (addr.toNat + 4) (28 - addr.toNat % 32) := by
    have hpre : 32 * (addr.toNat / 32) + addr.toNat % 32 ≤ addr.toNat :=
      le_of_eq (Nat.div_add_mod _ _)
    have hself := readAt_writeAt_self f addr.toNat (beBytes 4 v.toNat)
    rw [hlen] at hself
    rw [leaf_split _ halign, hself, readAt_writeAt_of_disjoint (.inl hpre),
      readAt_writeAt_of_disjoint (.inr (by rw [hlen]))]
  have hnew := word_leaf hafter hlen
  have hold := word_leaf (leaf_split f halign) (length_readAt f addr.toNat 4)
  rw [hvalue] at hnew
  apply Subtype.ext
  unfold ofWord
  dsimp only
  rw [leafShift_eq, replace_eq hword (beNat_lt_two_pow _) _ hold, ← hnew]
  · exact congrArg Subtype.val (ofWord_word _)
  · rw [length_readAt]
    omega

/-! ## Proofs in calldata -/

lemma drop_flatMap (hashes : List Hash) (i : ℕ) :
    (hashes.flatMap Subtype.val).drop (32 * i) = (hashes.drop i).flatMap Subtype.val := by
  induction hashes generalizing i with
  | nil => rw [drop_nil, flatMap_nil, drop_nil]
  | cons h hashes ih =>
    cases i with
    | zero => rfl
    | succ i =>
      have hsplit : 32 * (i + 1) = h.1.length + 32 * i := by rw [h.2]; ring
      rw [flatMap_cons, hsplit, drop_append, Nat.add_sub_cancel_left,
        drop_eq_nil_of_le (Nat.le_add_right _ _), nil_append, ih, drop_succ_cons]

lemma length_flatMap_hashes (hashes : List Hash) :
    (hashes.flatMap Subtype.val).length = 32 * hashes.length := by
  induction hashes with
  | nil => rfl
  | cons h hashes ih =>
    rw [flatMap_cons, length_append, ih, h.2, length_cons]
    ring

lemma calldataload_hashes (pre post : Bytes) {hashes : List Hash} {i : ℕ}
    (hi : hashes[i]? = some h) :
    calldataload (pre ++ hashes.flatMap Subtype.val ++ post) (pre.length + 32 * i) = h := by
  obtain ⟨hlt, rfl⟩ := getElem?_eq_some_iff.mp hi
  have hle : 32 * i ≤ (hashes.flatMap Subtype.val).length := by
    rw [length_flatMap_hashes]
    omega
  unfold calldataload
  rw [append_assoc, ← drop_drop, drop_left, drop_append_of_le_length hle, drop_flatMap,
    drop_eq_getElem_cons, flatMap_cons, append_assoc, Hash.ofBytes_append]

lemma rootFromProof_eq (keccak256 : Bytes → Hash) (calldata : Bytes) (addr : U32) (offset : ℕ)
    (leaf : Hash) :
    rootFromProof keccak256 calldata addr offset leaf = climb (hashPair keccak256) (leafIndex addr)
        (fun i => calldataload calldata (offset + 32 + 32 * i)) 27 leaf := by
  rw [← foldl_range_climb]
  apply foldl_ext
  intro node i hi
  have hbit := leafIndex_bit addr (mem_range.mp hi)
  have hpath : addr.toNat / 2 ^ 5 / 2 ^ i = addr.toNat / 2 ^ (5 + i) := by
    rw [Nat.div_div_eq_div_mul, pow_add]
  rw [hbit, hpath]

section Proofs

variable {keccak256 : Bytes → Hash} {m : Memory} {addr : U32} (pre post : Bytes)

def proofHashes (keccak256 : Bytes → Hash) (m : Memory) (addr : U32) : List Hash :=
  hashAt keccak256 m 0 (leafIndex addr) :: (range 27).map (siblings keccak256 m addr)

lemma length_proofHashes : (proofHashes keccak256 m addr).length = 28 := by
  unfold proofHashes
  rw [length_cons, length_map, length_range]

def withProof (keccak256 : Bytes → Hash) (m : Memory) (addr : U32) (pre post : Bytes) : Bytes :=
  pre ++ (proofHashes keccak256 m addr).flatMap Subtype.val ++ post

lemma withProof_eq (hm : Inv keccak256 m) :
    pre ++ (m.merkleProof keccak256 addr).1 ++ post = withProof keccak256 m addr pre post := by
  rw [(merkleProof_spec hm addr).1]
  rfl

lemma enough_calldata :
    validateMemoryProofAvailability (withProof keccak256 m addr pre post) pre.length = .ok () := by
  apply revertIf_of_not
  unfold withProof
  rw [length_append, length_append, length_flatMap_hashes, length_proofHashes]
  omega

lemma leaf_zero (f : ℕ → UInt8) (addr : U32) :
    heapLeaf 27 f (leafIndex addr) = leaf f (addr.toNat / 32) := by
  unfold heapLeaf leafIndex
  rw [Nat.add_sub_cancel_left]

lemma calldataload_leaf :
    calldataload (withProof keccak256 m addr pre post) pre.length =
      leaf m.content (addr.toNat / 32) := by
  have hleaf : (proofHashes keccak256 m addr)[0]? = some (leaf m.content (addr.toNat / 32)) := by
    unfold proofHashes hashAt
    rw [getElem?_cons_zero, label, leaf_zero]
  have hload := calldataload_hashes pre post hleaf
  rwa [mul_zero] at hload

variable {i : ℕ}

lemma calldataload_sibling (hi : i < 27) :
    calldataload (withProof keccak256 m addr pre post) (pre.length + 32 + 32 * i) =
      siblings keccak256 m addr i := by
  have hsib : (proofHashes keccak256 m addr)[i + 1]? = some (siblings keccak256 m addr i) := by
    unfold proofHashes
    rw [getElem?_cons_succ, getElem?_map, getElem?_range hi, Option.map_some]
  have hoff : pre.length + 32 + 32 * i = pre.length + 32 * (i + 1) := by ring
  rw [hoff]
  exact calldataload_hashes pre post hsib

lemma rootFromProof_withProof (leaf : Hash) :
    rootFromProof keccak256 (withProof keccak256 m addr pre post) addr pre.length leaf =
      label (hashPair keccak256) (update (heapLeaf 27 m.content) (leafIndex addr) leaf) 27 1 := by
  have hroot : leafIndex addr / 2 ^ 27 = 1 := by
    unfold leafIndex
    omega
  rw [rootFromProof_eq, ← hroot]
  apply climb_label_update
  intro i hi
  exact calldataload_sibling pre post hi

lemma readMem_withProof (halign : addr.toNat % 4 = 0) :
    readMem keccak256 (withProof keccak256 m addr pre post) (flatRoot keccak256 m.content) addr
      pre.length = .ok (uint32 (readAt m.content addr.toNat 4)) := by
  have hroot : rootFromProof keccak256 (withProof keccak256 m addr pre post) addr pre.length
      (leaf m.content (addr.toNat / 32)) = flatRoot keccak256 m.content := by
    rw [rootFromProof_withProof, ← leaf_zero, update_eq_self, label_root]
  unfold readMem
  rw [enough_calldata, require_bind halign, calldataload_leaf]
  dsimp only
  rw [hroot, require_bind rfl, extract_leaf m.content halign]
  rfl

lemma heapLeaf_writeAt (f : ℕ → UInt8) (halign : addr.toNat % 4 = 0) (v : U32) (hi : 2 ^ 27 ≤ i) :
    heapLeaf 27 (writeAt f addr.toNat (beBytes 4 v.toNat)) i =
      update (heapLeaf 27 f) (leafIndex addr)
        (leaf (writeAt f addr.toNat (beBytes 4 v.toNat)) (addr.toNat / 32)) i := by
  by_cases hne : i = leafIndex addr
  · subst hne
    rw [update_self, leaf_zero]
  · rw [update_of_ne hne]
    apply leaf_congr
    intro o ho
    have hdiff : i - 2 ^ 27 ≠ addr.toNat / 32 := by
      unfold leafIndex at hne
      omega
    rcases lt_or_ge (32 * (i - 2 ^ 27) + o) addr.toNat with hlt | hge
    · exact writeAt_of_lt hlt
    · apply writeAt_of_ge
      rw [length_beBytes]
      omega

lemma writeMem_withProof (halign : addr.toNat % 4 = 0) (v : U32) :
    writeMem keccak256 (withProof keccak256 m addr pre post) addr pre.length v =
      .ok (flatRoot keccak256 (writeAt m.content addr.toNat (beBytes 4 v.toNat))) := by
  unfold writeMem
  rw [enough_calldata, require_bind halign, calldataload_leaf]
  dsimp only
  rw [replace_leaf m.content halign, rootFromProof_withProof, ← label_root]
  refine congrArg Except.ok (label_congr _ ?_)
  intro i hlo _
  exact (heapLeaf_writeAt m.content halign v (by omega)).symm

end Proofs

/-- For every memory that careful calls lead to, every aligned address and every value: the contract
accepts the proof of the memory against its root, reads the word that the memory reads, and computes
the root that the memory has after the word is written. -/
theorem memory_proofs_agree (keccak256 : Bytes → Hash) (calls : List MemoryCall)
    (hcareful : Run.AllMeet (exec keccak256) Careful calls newMemory)
    (addr v : U32) (haligned : addr.toNat % 4 = 0) (pre post : Bytes) :
    let m := Run.runAll (exec keccak256) calls newMemory
    let calldata := pre ++ (m.merkleProof keccak256 addr).1 ++ post
    (∃ w m', m.getMemory addr = .ok (w, m') ∧
      readMem keccak256 calldata (m.merkleRoot keccak256).1 addr pre.length = .ok w) ∧
    ∃ m', m.setMemory addr v = .ok m' ∧
      writeMem keccak256 calldata addr pre.length v = .ok (m'.merkleRoot keccak256).1 := by
  obtain ⟨hinv, hc, -⟩ := runAll_spec hcareful inv_newMemory coherent_newMemory
  intro m calldata
  have hcall : calldata = withProof keccak256 m addr pre post := withProof_eq pre post hinv
  obtain ⟨w, m', hget, -, -, hread⟩ := getMemory_spec hinv haligned
  obtain ⟨m'', hset, hinv', hwrite⟩ := setMemory_spec hinv haligned v
  refine ⟨⟨w, m', hget, ?_⟩, m'', hset, ?_⟩
  · rw [hcall, merkleRoot_eq hinv, (hread hc).2]
    exact readMem_withProof pre post haligned
  · rw [hcall, merkleRoot_eq hinv', (hwrite hc).2]
    exact writeMem_withProof pre post haligned v

/-- A word behind the first one of its leaf, in a memory of which the root has been computed. -/
theorem memory_proofs_agree_second_word :
    let m := Run.runAll (exec firstWord) carefulCalls newMemory
    let calldata := [7] ++ (m.merkleProof firstWord 4).1 ++ []
    (∃ w m', m.getMemory 4 = .ok (w, m') ∧
      readMem firstWord calldata (m.merkleRoot firstWord).1 4 1 = .ok w) ∧
    ∃ m', m.setMemory 4 9 = .ok m' ∧
      writeMem firstWord calldata 4 1 9 =
        .ok (m'.merkleRoot firstWord).1 :=
  memory_proofs_agree firstWord carefulCalls careful_carefulCalls
    4 9 (by decide) [7] []

/-- When a page was allocated again while it was in the lookup cache, another word is read from the
proof than the memory reads. -/
theorem readMem_staleCalls (keccak256 : Bytes → Hash) :
    let m := Run.runAll (exec keccak256) staleCalls newMemory
    readMem keccak256 (m.merkleProof keccak256 0).1 (m.merkleRoot keccak256).1 0 0 = .ok 0 := by
  intro m
  have hinv : Inv keccak256 m := inv_staleCalls keccak256
  have hcont : m.content = fun _ => 0 := content_staleCalls keccak256
  clear_value m
  have hcall := @withProof_eq keccak256 m 0 [] [] hinv
  rw [nil_append, append_nil] at hcall
  have hread := @readMem_withProof keccak256 m 0 [] [] (by decide)
  have hzero : uint32 (readAt (fun _ => 0) (0 : U32).toNat 4) = 0 := by decide
  rw [hcont, hzero] at hread
  rwa [hcall, merkleRoot_eq hinv, hcont]

/-- So for no hash function do the two agree on this memory. -/
theorem stale_page_not_in_proof :
    ¬ ∃ keccak256 : Bytes → Hash,
      let m := Run.runAll (exec keccak256) staleCalls newMemory
      ∃ w m', m.getMemory 0 = .ok (w, m') ∧
        readMem keccak256 (m.merkleProof keccak256 0).1 (m.merkleRoot keccak256).1 0 0 = .ok w := by
  rintro ⟨keccak256, w, m', hget, hread⟩
  have hfive := getMemory_staleCalls keccak256
  have hzero : w = 0 := Except.ok.inj (hread.symm.trans (readMem_staleCalls keccak256))
  rw [hget, hzero] at hfive
  have hne : (0 : U32) ≠ 5 := by decide
  exact hne (Except.ok.inj hfive)

end FightNight.Cannon
