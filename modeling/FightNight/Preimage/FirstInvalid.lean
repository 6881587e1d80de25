import Mathlib.Data.List.Induction
import FightNight.Preimage.Matrix

/-!
# What the challenger finds

`At` says what the state matrix holds after some blocks of the input, and `Verdict` what the
variables of the loop say about their claimed commitments.  Both are kept by every round, as long
as no leaf is equal to the zero value that marks "no leaf" (`loop_verdict`), and the verdict after
the last block gives the result: a challenge against the first wrong commitment, or `ErrValid`
when there is none (`challenge_spec`).
-/

namespace FightNight.Preimage

open FightNight.Except Progress Sponge
open List hiding getElem?_eq_some_iff

/-! ## Claimed blocks -/

/-- A block with the claimed commitment to the state after it. -/
abbrev ClaimedBlock := Bytes × Hash

def leafOf (i : ℕ) (x : ClaimedBlock) : Leaf := ⟨toBlock x.1, UInt64.ofNat i, x.2⟩

/-- The leaf of the last one of the blocks, or the mark for "no leaf". -/
def lastLeaf (done : List ClaimedBlock) : Leaf :=
  match done.getLast? with
  | none => .empty
  | some x => leafOf (done.length - 1) x

def leafHashes (done : List ClaimedBlock) : List Hash :=
  done.mapIdx fun i x => hashLeaf x.1 i x.2

def stateAfter (done : List ClaimedBlock) : Lanes :=
  (done.map Prod.fst).foldl absorbBlock newLegacyKeccak256.a

/-- All claimed commitments are right. -/
def Right (done : List ClaimedBlock) : Prop :=
  done.map Prod.snd = stateCommitments newLegacyKeccak256.a (done.map Prod.fst)

/-- No leaf is the mark for "no leaf". -/
def Unmarked (done : List ClaimedBlock) : Prop :=
  ∀ i x, done[i]? = some x → leafOf i x ≠ .empty

lemma lastLeaf_append (done : List ClaimedBlock) (x : ClaimedBlock) :
    lastLeaf (done ++ [x]) = leafOf done.length x := by
  rw [lastLeaf, getLast?_append, length_append]
  rfl

lemma leafHashes_append (done : List ClaimedBlock) (x : ClaimedBlock) :
    leafHashes (done ++ [x]) = leafHashes done ++ [hashLeaf x.1 done.length x.2] := by
  rw [leafHashes, mapIdx_concat]
  rfl

@[simp] lemma length_leafHashes (done : List ClaimedBlock) :
    (leafHashes done).length = done.length := length_mapIdx

lemma stateAfter_append (done : List ClaimedBlock) (x : ClaimedBlock) :
    stateAfter (done ++ [x]) = absorbBlock (stateAfter done) x.1 := by
  simp only [stateAfter, map_append, map_cons, map_nil, foldl_append, foldl_cons, foldl_nil]

@[simp] lemma length_stateAfter (done : List ClaimedBlock) : (stateAfter done).length = 25 := by
  induction done using reverseRecOn with
  | nil => rfl
  | append_singleton done x ih => rw [stateAfter_append, length_absorbBlock, ih]

lemma stateCommitments_append (a : Lanes) (xs : List Bytes) (b : Bytes) :
    stateCommitments a (xs ++ [b]) =
      stateCommitments a xs ++ [stateCommitment (absorbBlock (xs.foldl absorbBlock a) b)] := by
  induction xs generalizing a with
  | nil => rfl
  | cons x xs ih => rw [cons_append, stateCommitments, ih]; rfl

variable {commitments : List Hash} {claimed done good xs ys : List ClaimedBlock}
  {data input : Bytes} {x : ClaimedBlock} {d : StateMatrix} {p : Progress} {c : Hash} {r : Absorbed}
  {i : ℕ}

lemma right_append :
    Right (done ++ [x]) ↔ Right done ∧ x.2 = stateCommitment (stateAfter (done ++ [x])) := by
  have hlen : (done.map Prod.snd).length =
      (stateCommitments newLegacyKeccak256.a (done.map Prod.fst)).length := by simp
  rw [Right, map_append, map_append, map_singleton, map_singleton,
    stateCommitments_append, stateAfter_append, stateAfter]
  constructor
  · intro h
    exact ⟨append_inj_left h hlen, singleton_inj.mp (append_inj_right h hlen)⟩
  · rintro ⟨hdone, hx⟩
    rw [hdone, hx]

/-! ## One block -/

def nextBlock (data : Bytes) : Bytes :=
  if data.length < blockSize then padBytes data else data.take blockSize

lemma toBlock_eq (h : input.length = blockSize) : (toBlock input).1 = input := by
  have htake : input.take blockSize = input := by rw [← h, take_length]
  simp [toBlock, padTo, htake, h]

lemma toNat_index_leafOf (hi : i < maxLeafCount) (x : ClaimedBlock) :
    (leafOf i x).index.toNat = i :=
  UInt64.toNat_ofNat_of_lt' (lt_of_lt_of_le hi (by decide))

lemma hash_leafOf (hx : x.1.length = blockSize) (hi : i < maxLeafCount) :
    (leafOf i x).hash = hashLeaf x.1 i x.2 := by
  rw [Leaf.hash, toNat_index_leafOf hi, leafOf, toBlock_eq hx]

lemma pad_toBlock (h : input.length < blockSize) :
    pad input (toBlock input) = toBlock (padBytes input) := by
  have hlen : (padBytes input).length = blockSize := by
    rw [length_padBytes, Nat.div_eq_of_lt h, zero_add, one_mul]
  apply Subtype.ext
  rw [toBlock_eq hlen, padBytes, Nat.div_eq_of_lt h, zero_add]
  -- The separator replaces the first zero behind the input.
  have hset : (padTo blockSize (input.take blockSize)).set input.length dsbyte =
      padTo blockSize (input ++ [dsbyte]) := by
    obtain ⟨k, hk⟩ : ∃ k, blockSize - input.length = k + 1 :=
      ⟨blockSize - input.length - 1, by omega⟩
    have hk' : blockSize - (input ++ [dsbyte]).length = k := by grind
    rw [take_of_length_le (le_of_lt h), padTo, padTo, hk, hk', set_append_right _ _
      (le_refl _), Nat.sub_self, append_assoc]
    rfl
  exact congrArg (modify · (blockSize - 1) (· ^^^ 0x80)) hset

/-- A state matrix that can absorb a block. -/
def StateMatrix.Ready (d : StateMatrix) : Prop := d.s = ⟨d.s.a, [], false⟩

/-- What `absorbNextLeafInput` does with the rest of an input. -/
structure StepsTo (d : StateMatrix) (data : Bytes) (c : Hash) (r : Absorbed) : Prop where
  isEOF : r.isEOF = decide (data.length < blockSize)
  rest : r.rest = data.drop blockSize
  lanes : r.matrix.s.a = absorbBlock d.s.a (nextBlock data)
  ready : blockSize ≤ data.length → r.matrix.Ready
  prestate : r.matrix.prestateLeaf = d.poststateLeaf
  poststate : r.matrix.poststateLeaf = ⟨toBlock (nextBlock data),
    if d.poststateLeaf = .empty then 0 else d.poststateLeaf.index + 1, c⟩
  merkleTree : r.matrix.merkleTree = d.merkleTree.addLeaf r.matrix.poststateLeaf.hash

lemma absorbLeafInput_eq {s : Sponge} (hs : s = ⟨s.a, [], false⟩) (data : Bytes) :
    ∃ s', StateMatrix.absorbLeafInput (data.take blockSize) (decide (data.length < blockSize)) s =
        .ok s' ∧ s'.a = absorbBlock s.a (nextBlock data) ∧
      (blockSize ≤ data.length → s' = ⟨s'.a, [], false⟩) := by
  unfold StateMatrix.absorbLeafInput nextBlock
  rw [hs]
  by_cases hlt : data.length < blockSize
  · rw [decide_eq_true hlt, if_pos hlt, take_of_length_le (le_of_lt hlt),
      write_short _ hlt, ok_bind, padAndPermute_eq _ hlt]
    exact ⟨_, rfl, rfl, fun h => absurd hlt (not_lt_of_ge h)⟩
  · have htake : (data.take blockSize).length = blockSize := by grind
    rw [decide_eq_false hlt, if_neg hlt, revertIf_bind (fun h => h.2 htake), write_block _ htake]
    exact ⟨_, rfl, rfl, fun _ => rfl⟩

lemma StateMatrix.Ready.absorbNextLeafInput (h : d.Ready) (data : Bytes) (c : Hash) :
    ∃ r, d.absorbNextLeafInput data (fun _ => c) = .ok r ∧ StepsTo d data c r := by
  have hfin : decide ((data.take blockSize).length < blockSize) =
      decide (data.length < blockSize) := by simp
  have hleaf : ∀ index : UInt64, newLeafWithPadding (data.take blockSize) index c
      (decide (data.length < blockSize)) = ⟨toBlock (nextBlock data), index, c⟩ := by
    intro index
    unfold newLeafWithPadding nextBlock
    by_cases hlt : data.length < blockSize
    · rw [decide_eq_true hlt, if_pos hlt, take_of_length_le (le_of_lt hlt)]
      exact congrArg (Leaf.mk · index c) (pad_toBlock hlt)
    · grind
  obtain ⟨s, hs, hlanes, hready⟩ := absorbLeafInput_eq h data
  rw [StateMatrix.absorbNextLeafInput]
  simp only [hfin, hs, ok_bind, hleaf]
  by_cases hempty : d.poststateLeaf = .empty
  · rw [if_pos hempty]
    exact ⟨_, rfl, rfl, rfl, hlanes, hready, hempty.symm, by rw [if_pos hempty], rfl⟩
  · rw [if_neg hempty]
    exact ⟨_, rfl, rfl, rfl, hlanes, hready, rfl, by rw [if_neg hempty], rfl⟩

lemma paddedBlocks_eq_cons (data : Bytes) :
    paddedBlocks data = nextBlock data ::
      if data.length < blockSize then [] else paddedBlocks (data.drop blockSize) := by
  unfold nextBlock
  split
  · rename_i hlt
    exact paddedBlocks_of_lt hlt
  · rename_i hle
    exact paddedBlocks_of_le (le_of_not_gt hle)

lemma length_nextBlock (data : Bytes) : (nextBlock data).length = blockSize := by
  apply @length_of_mem_paddedBlocks data
  rw [paddedBlocks_eq_cons]
  exact mem_cons_self

/-! ## The state matrix after some blocks -/

/-- The state matrix after some blocks. -/
structure At (done : List ClaimedBlock) (d : StateMatrix) : Prop where
  lanes : d.s.a = stateAfter done
  poststate : d.poststateLeaf = lastLeaf done
  prestate : d.prestateLeaf = lastLeaf done.dropLast
  merkleTree : d.merkleTree.Holds (leafHashes done)

lemma StateMatrix.stateSnapshot_eq (h : d.s.a.length = 25) : d.stateSnapshot.1 = d.s.a := by
  exact take_left' h

lemma At.stateSnapshot (h : At done d) : d.stateSnapshot.1 = stateAfter done := by
  rw [StateMatrix.stateSnapshot_eq (by rw [h.lanes, length_stateAfter]), h.lanes]

lemma poststate_index (hmark : Unmarked done) :
    (if lastLeaf done = .empty then 0 else (lastLeaf done).index + 1) =
      UInt64.ofNat done.length := by
  induction done using reverseRecOn with
  | nil => rfl
  | append_singleton done x _ =>
    have hx : leafOf done.length x ≠ .empty := hmark _ _ getElem?_concat_length
    rw [lastLeaf_append, if_neg hx, length_append, UInt64.ofNat_add]
    rfl

lemma Unmarked.left (h : Unmarked (xs ++ ys)) : Unmarked xs := by
  intro i x hx
  have hi : i < xs.length := (getElem?_eq_some_iff.mp hx).1
  exact h i x (by rw [getElem?_append_left hi]; exact hx)

lemma At.next (h : At done d) (hmark : Unmarked done) (hcnt : done.length < maxLeafCount)
    (hstep : StepsTo d data c r) : At (done ++ [(nextBlock data, c)]) r.matrix := by
  have hbound : done.length < 2 ^ treeDepth := lt_of_lt_of_le hcnt (Nat.sub_le _ _)
  have hpost : r.matrix.poststateLeaf = leafOf done.length (nextBlock data, c) := by
    rw [hstep.poststate, h.poststate, poststate_index hmark]
    rfl
  constructor
  · rw [hstep.lanes, h.lanes, stateAfter_append]
  · rw [hpost, lastLeaf_append]
  · rw [hstep.prestate, h.poststate, dropLast_concat]
  · have hhash : (leafOf done.length (nextBlock data, c)).hash = _ :=
      hash_leafOf (length_nextBlock data) hcnt
    rw [hstep.merkleTree, hpost, hhash, leafHashes_append]
    apply h.merkleTree.addLeaf
    rwa [length_leafHashes]

/-! ## The verdict -/

/-- What the loop has found out about some blocks. -/
inductive Verdict (done : List ClaimedBlock) (p : Progress) : Prop where
  /-- All commitments are right. -/
  | valid (hright : Right done) (hfirst : p.firstInvalidLeaf = .empty)
      (hstate : p.lastValidState.1 = stateAfter done)
  /-- The commitment of the block `x` is wrong, and those of the blocks before it are right. -/
  | invalid (good : List ClaimedBlock) (x : ClaimedBlock) (rest : List ClaimedBlock)
      (hdone : done = good ++ x :: rest) (hright : Right good)
      (hwrong : x.2 ≠ stateCommitment (stateAfter (good ++ [x])))
      (hfirst : p.firstInvalidLeaf = leafOf good.length x)
      (hlast : p.lastValidLeaf = lastLeaf good) (hstate : p.lastValidState.1 = stateAfter good)

@[simp] lemma Progress.compare_s (c : Hash) (p : Progress) : (p.compare c).s = p.s := by
  unfold compare
  split
  · split <;> rfl
  · rfl

lemma Verdict.next (h : Verdict done p) (hmark : Unmarked (done ++ [x]))
    (hat : At (done ++ [x]) d) : Verdict (done ++ [x]) ({ p with s := d }.compare x.2) := by
  have hcomm : d.stateCommitment = stateCommitment (stateAfter (done ++ [x])) := by
    rw [StateMatrix.stateCommitment, hat.stateSnapshot]
  unfold Progress.compare
  cases h with
  | valid hright hfirst hstate =>
    rw [if_pos hfirst]
    by_cases hx : d.stateCommitment = x.2
    · rw [if_neg (fun hne => hne hx)]
      exact .valid (right_append.mpr ⟨hright, hx.symm.trans hcomm⟩) hfirst hat.stateSnapshot
    · rw [if_pos hx]
      refine .invalid done x [] rfl hright (fun heq => hx (hcomm.trans heq.symm)) ?_ ?_ hstate
      · exact hat.poststate.trans (lastLeaf_append done x)
      · exact hat.prestate.trans (by rw [dropLast_concat])
  | invalid good y rest hdone hright hwrong hfirst hlast hstate =>
    have hy : leafOf good.length y ≠ .empty := hmark _ _ (by simp [hdone])
    rw [if_neg (fun heq => hy (hfirst.symm.trans heq))]
    refine .invalid good y (rest ++ [x]) ?_ hright hwrong hfirst hlast hstate
    rw [hdone, append_assoc, cons_append]

lemma Progress.loop_cons (hr : p.s.absorbNextLeafInput data (fun _ => c) = .ok r)
    (hstep : StepsTo p.s data c r) (commitments : List Hash) :
    loop (c :: commitments) data p =
      if data.length < blockSize then
        if commitments ≠ [] then .error .errIncorrectCommitmentCount
        else .ok ({ p with s := r.matrix }.compare c)
      else loop commitments (data.drop blockSize) ({ p with s := r.matrix }.compare c) := by
  rw [loop, hr, panics_ok, ok_bind, hstep.isEOF, hstep.rest]
  simp only [decide_eq_true_eq]

/-- The loop goes through all blocks of an input with as many commitments as blocks. -/
theorem loop_verdict (hat : At done p.s) (hready : p.s.Ready) (hverd : Verdict done p)
    (hlen : commitments.length = (paddedBlocks data).length)
    (hcnt : done.length + commitments.length ≤ maxLeafCount)
    (hmark : Unmarked (done ++ (paddedBlocks data).zip commitments)) :
    ∃ p', loop commitments data p = .ok p' ∧
      At (done ++ (paddedBlocks data).zip commitments) p'.s ∧
      Verdict (done ++ (paddedBlocks data).zip commitments) p' := by
  induction commitments generalizing data p done with
  | nil =>
    cases hlen
  | cons c commitments ih =>
    rw [paddedBlocks_eq_cons, zip_cons_cons] at hmark ⊢
    rw [paddedBlocks_eq_cons, length_cons] at hlen
    rw [length_cons] at hcnt
    have hlen := Nat.succ.inj hlen
    -- One block is absorbed and compared.
    obtain ⟨r, hr, hstep⟩ := hready.absorbNextLeafInput data c
    have hmark' : Unmarked (done ++ [(nextBlock data, c)]) := by
      rw [append_cons] at hmark
      exact hmark.left
    have hat' := hat.next hmark'.left (by omega) hstep
    have hverdict' := hverd.next hmark' hat'
    rw [loop_cons hr hstep]
    by_cases hlt : data.length < blockSize
    · -- The input ends with this block.
      simp only [if_pos hlt] at hlen ⊢
      have hnil : commitments = [] := length_eq_zero_iff.mp hlen
      subst hnil
      exact ⟨_, rfl, by rw [compare_s]; exact hat', hverdict'⟩
    · simp only [if_neg hlt] at hlen hmark ⊢
      rw [append_cons] at hmark ⊢
      refine ih (by rw [compare_s]; exact hat') ?_ hverdict' hlen ?_ hmark
      · rw [compare_s]
        exact hstep.ready (le_of_not_gt hlt)
      · grind

/-! ## The result -/

def siblingsOf (leaves : List Hash) (index : ℕ) : List Hash :=
  (range treeDepth).map fun j =>
    MerkleTree.label hashTwo (leafAt leaves) j (MerkleTree.sibling (index / 2 ^ j))

/-- A challenge against the claimed block `x`, which follows the blocks `good` with right
commitments. -/
structure Against (claimed good : List ClaimedBlock) (x : ClaimedBlock) (ch : Challenge) :
    Prop where
  stateMatrix : ch.stateMatrix.1 = stateAfter good
  prestate : ch.prestate = lastLeaf good
  prestateProof : good ≠ [] →
    ch.prestateProof = siblingsOf (leafHashes claimed) (good.length - 1)
  poststate : ch.poststate = leafOf good.length x
  poststateProof : ch.poststateProof = siblingsOf (leafHashes claimed) good.length

/-- The blocks before and at the first wrong commitment. -/
structure FirstWrong (claimed good : List ClaimedBlock) (x : ClaimedBlock) : Prop where
  split : ∃ rest, claimed = good ++ x :: rest
  right : Right good
  wrong : x.2 ≠ stateCommitment (stateAfter (good ++ [x]))

lemma FirstWrong.length_lt (h : FirstWrong claimed good x) : good.length < claimed.length := by
  obtain ⟨rest, hsplit⟩ := h.split
  rw [hsplit, length_append]
  exact Nat.lt_add_of_pos_right (Nat.succ_pos _)

lemma FirstWrong.getElem? (h : FirstWrong claimed good x) : claimed[good.length]? = some x := by
  obtain ⟨rest, hsplit⟩ := h.split
  simp [hsplit]

lemma FirstWrong.getElem?_pre {y : ClaimedBlock} (h : FirstWrong claimed (good ++ [y]) x) :
    claimed[good.length]? = some y := by
  obtain ⟨rest, hsplit⟩ := h.split
  simp [hsplit]

lemma Right.left (h : Right (xs ++ ys)) : Right xs := by
  induction ys using reverseRecOn with
  | nil => rwa [append_nil] at h
  | append_singleton ys y ih =>
    rw [← append_assoc] at h
    exact ih (right_append.mp h).1

lemma FirstWrong.not_right (h : FirstWrong claimed good x) : ¬Right claimed := by
  intro hright
  obtain ⟨rest, hsplit⟩ := h.split
  rw [hsplit, append_cons] at hright
  exact h.wrong (right_append.mp hright.left).2

lemma At.proofAtIndex (h : At claimed d) (hcnt : claimed.length ≤ maxLeafCount)
    (hi : i < claimed.length) (x : ClaimedBlock) :
    d.merkleTree.proofAtIndex (leafOf i x).index.toNat =
      .ok (siblingsOf (leafHashes claimed) i, d.merkleTree) := by
  rw [toNat_index_leafOf (lt_of_lt_of_le hi hcnt)]
  refine h.merkleTree.proofAtIndex_eq (lt_of_lt_of_le hi hcnt) ?_
  rw [length_leafHashes]
  omega

lemma result_of_invalid (hat : At claimed p.s) (hcnt : claimed.length ≤ maxLeafCount)
    (hmark : Unmarked claimed) (hwrong : FirstWrong claimed good x)
    (hfirst : p.firstInvalidLeaf = leafOf good.length x) (hlast : p.lastValidLeaf = lastLeaf good)
    (hstate : p.lastValidState.1 = stateAfter good) :
    ∃ ch, p.result = .ok ch ∧ Against claimed good x ch := by
  have hne : leafOf good.length x ≠ .empty := hmark _ _ hwrong.getElem?
  have hpost := hat.proofAtIndex hcnt hwrong.length_lt x
  unfold result
  rw [hfirst, hlast, if_pos hne]
  induction good using reverseRecOn with
  | nil =>
    rw [if_neg (fun h => h rfl), ok_bind]
    dsimp only
    rw [hpost, panics_ok]
    exact ⟨_, rfl, hstate, rfl, fun h => absurd rfl h, rfl, rfl⟩
  | append_singleton good y _ =>
    have hy : leafOf good.length y ≠ .empty := hmark _ _ hwrong.getElem?_pre
    have hlt : good.length < claimed.length := (getElem?_eq_some_iff.mp hwrong.getElem?_pre).1
    rw [lastLeaf_append, if_pos hy, hat.proofAtIndex hcnt hlt, panics_ok, ok_bind]
    dsimp only
    rw [hpost, panics_ok]
    refine ⟨_, rfl, hstate, (lastLeaf_append good y).symm, fun _ => ?_, rfl, rfl⟩
    rw [length_append]
    rfl

def claimedBlocks (data : Bytes) (commitments : List Hash) : List ClaimedBlock :=
  (paddedBlocks data).zip commitments

lemma right_claimedBlocks (hlen : commitments.length = (paddedBlocks data).length) :
    Right (claimedBlocks data commitments) ↔ commitments = trueCommitments data := by
  unfold Right claimedBlocks
  rw [map_fst_zip (le_of_eq hlen.symm), map_snd_zip (le_of_eq hlen)]
  rfl

/-- The result of `Challenge` for as many commitments as there are blocks, when no leaf is the
mark for "no leaf". -/
theorem challenge_spec (hlen : commitments.length = (paddedBlocks data).length)
    (hcnt : commitments.length ≤ maxLeafCount) (hmark : Unmarked (claimedBlocks data commitments)) :
    (commitments = trueCommitments data → challenge data commitments = .error .errValid) ∧
      (commitments ≠ trueCommitments data → ∃ good x ch,
        FirstWrong (claimedBlocks data commitments) good x ∧
        challenge data commitments = .ok ch ∧
        Against (claimedBlocks data commitments) good x ch) := by
  have hstart : Verdict [] .start := .valid rfl rfl rfl
  have hready : start.s.Ready := rfl
  obtain ⟨p, hloop, hat, hverd⟩ := loop_verdict ⟨rfl, rfl, rfl, BinaryMerkleTree.holds_new⟩ hready hstart hlen
    (by rw [length_nil, zero_add]; exact hcnt) hmark
  have hclm : (claimedBlocks data commitments).length ≤ maxLeafCount := by
    unfold claimedBlocks
    rwa [length_zip, hlen, min_self, ← hlen]
  unfold challenge
  rw [hloop, ne_eq, ← right_claimedBlocks hlen]
  cases hverd with
  | valid hright hfirst _ =>
    have hres : p.result = .error .errValid := by grind [result]
    exact ⟨fun _ => hres, fun h => absurd hright h⟩
  | invalid good x rest hdone hright hne hfirst hlast hstate =>
    have hwrong : FirstWrong (claimedBlocks data commitments) good x := ⟨⟨rest, hdone⟩, hright, hne⟩
    obtain ⟨ch, hres, hag⟩ := result_of_invalid hat hclm hmark hwrong hfirst hlast hstate
    exact ⟨fun h => absurd h hwrong.not_right, fun _ => ⟨good, x, ch, hwrong, hres, hag⟩⟩

/-! ## The mark for "no leaf" -/

/-- The first leaf is the mark for "no leaf": the input begins with a block of zeros, and the first
claimed commitment is zero. -/
def Marked (data : Bytes) (commitments : List Hash) : Prop :=
  data.take blockSize = zeroBlock ∧ commitments.head? = some Hash.zero

instance (data : Bytes) (commitments : List Hash) : Decidable (Marked data commitments) :=
  inferInstanceAs (Decidable (_ ∧ _))

lemma nextBlock_of_take (h : data.take blockSize = zeroBlock) :
    blockSize ≤ data.length ∧ nextBlock data = zeroBlock := by
  have hlen := congrArg length h
  rw [length_take, zeroBlock, length_replicate] at hlen
  have hle : blockSize ≤ data.length := min_eq_left_iff.mp hlen
  exact ⟨hle, by rw [nextBlock, if_neg (not_lt_of_ge hle), h]⟩

lemma head?_trueCommitments (h : data.take blockSize = zeroBlock) :
    (trueCommitments data).head? =
      some (stateCommitment (absorbBlock newLegacyKeccak256.a zeroBlock)) := by
  rw [trueCommitments, paddedBlocks_eq_cons, (nextBlock_of_take h).2, stateCommitments, head?_cons]

lemma Marked.ne_trueCommitments (h : Marked data commitments) :
    commitments ≠ trueCommitments data := by
  rintro rfl
  have hzero := (head?_trueCommitments h.1).symm.trans h.2
  have hfirst := stateCommitment_zeroBlock
  rw [Option.some.inj hzero] at hfirst
  exact absurd hfirst (by decide)

lemma padBytes_ne_zero (h : data.length < blockSize) : padBytes data ≠ zeroBlock := by
  intro hzero
  have hlast : (padBytes data)[blockSize - 1]? = some 0 := by
    rw [hzero]
    rfl
  rw [padBytes, Nat.div_eq_of_lt h, zero_add, one_mul, getElem?_modify_eq, padTo] at hlast
  by_cases hfull : data.length + 1 = blockSize
  · have hat : blockSize - 1 = data.length := by omega
    rw [append_assoc, hat, getElem?_append_right (le_refl _), Nat.sub_self,
      singleton_append, getElem?_cons_zero] at hlast
    exact absurd hlast (by decide)
  · have hle : (data ++ [dsbyte]).length ≤ blockSize - 1 := by grind
    have hlt : blockSize - 1 - (data ++ [dsbyte]).length <
        blockSize - (data ++ [dsbyte]).length := by
      omega
    rw [getElem?_append_right hle, getElem?_replicate, if_pos hlt] at hlast
    exact absurd hlast (by decide)

lemma unmarked_of_not_marked (hcnt : commitments.length ≤ maxLeafCount)
    (h : ¬Marked data commitments) : Unmarked (claimedBlocks data commitments) := by
  intro i x hx hempty
  have hi : i < commitments.length := by
    have hlt := (getElem?_eq_some_iff.mp hx).1
    unfold claimedBlocks at hlt
    rw [length_zip] at hlt
    exact lt_of_lt_of_le hlt (min_le_right _ _)
  obtain rfl : i = 0 := by
    rw [← toNat_index_leafOf (lt_of_lt_of_le hi hcnt), hempty]
    rfl
  cases commitments with
  | nil => cases hi
  | cons c commitments =>
    unfold claimedBlocks at hx
    rw [paddedBlocks_eq_cons] at hx
    have hx := (Option.some.inj hx).symm
    subst hx
    have hblock : nextBlock data = zeroBlock := by
      rw [← toBlock_eq (length_nextBlock data)]
      exact congrArg (fun l => l.input.1) hempty
    have hc : c = Hash.zero := congrArg Leaf.stateCommitment hempty
    unfold nextBlock at hblock
    split at hblock
    · rename_i hlt
      exact padBytes_ne_zero hlt hblock
    · exact h ⟨hblock, by rw [hc]; rfl⟩

lemma compare_of_empty (hfirst : p.firstInvalidLeaf = .empty)
    (h : p.s.stateCommitment = c ∨ p.s.poststateLeaf = .empty) :
    (p.compare c).firstInvalidLeaf = .empty := by
  unfold Progress.compare
  rw [if_pos hfirst]
  split
  · rename_i hne
    exact h.resolve_left hne
  · exact hfirst

/-- The loop finds nothing when all commitments that are left are right. -/
theorem loop_of_right (hready : p.s.Ready) (hlanes : p.s.s.a.length = 25)
    (hfirst : p.firstInvalidLeaf = .empty)
    (hright : commitments = stateCommitments p.s.s.a (paddedBlocks data)) :
    ∃ p', loop commitments data p = .ok p' ∧ p'.firstInvalidLeaf = .empty := by
  induction commitments generalizing data p with
  | nil =>
    cases hright
  | cons c commitments ih =>
    rw [paddedBlocks_eq_cons, stateCommitments, cons.injEq] at hright
    obtain ⟨hc, hright⟩ := hright
    obtain ⟨r, hr, hstep⟩ := hready.absorbNextLeafInput data c
    rw [← hstep.lanes] at hright hc
    have hlanes' : r.matrix.s.a.length = 25 := by rw [hstep.lanes, length_absorbBlock, hlanes]
    have hcmp : ({ p with s := r.matrix }.compare c).firstInvalidLeaf = .empty := by
      have hvalid : r.matrix.stateCommitment = c := by
        rw [hc, StateMatrix.stateCommitment, StateMatrix.stateSnapshot_eq hlanes']
      exact compare_of_empty hfirst (Or.inl hvalid)
    rw [loop_cons hr hstep]
    by_cases hlt : data.length < blockSize
    · rw [if_pos hlt] at hright ⊢
      rw [if_neg (fun h => h hright)]
      exact ⟨_, rfl, hcmp⟩
    · rw [if_neg hlt] at hright ⊢
      apply ih _ _ hcmp
      · rwa [compare_s]
      · rw [compare_s]
        exact hstep.ready (le_of_not_gt hlt)
      · rwa [compare_s]

/-- A first leaf that is the mark for "no leaf" is overlooked: when the other commitments are right,
the input is reported as valid. -/
theorem challenge_of_marked (hmark : Marked data commitments)
    (hright : commitments.tail = (trueCommitments data).tail) :
    challenge data commitments = .error .errValid := by
  obtain ⟨hzeros, hhead⟩ := hmark
  obtain ⟨cs, rfl⟩ := head?_eq_some_iff.mp hhead
  obtain ⟨hle, hblock⟩ := nextBlock_of_take hzeros
  have hlt : ¬data.length < blockSize := not_lt_of_ge hle
  have hready : StateMatrix.newStateMatrix.Ready := rfl
  obtain ⟨r, hr, hstep⟩ := hready.absorbNextLeafInput data Hash.zero
  -- The first leaf is recorded as the first invalid one, which leaves the mark there.
  have hpost : r.matrix.poststateLeaf = .empty := by
    rw [hstep.poststate]
    exact congrArg (Leaf.mk · 0 Hash.zero)
      (Subtype.ext ((toBlock_eq (length_nextBlock data)).trans hblock))
  have hcmp : ({ start with s := r.matrix }.compare Hash.zero).firstInvalidLeaf = .empty :=
    compare_of_empty rfl (Or.inr hpost)
  have hcs : cs = stateCommitments r.matrix.s.a (paddedBlocks (data.drop blockSize)) := by
    rw [trueCommitments, paddedBlocks_eq_cons, if_neg hlt] at hright
    rwa [hstep.lanes]
  have hloop : ∃ p', loop (Hash.zero :: cs) data .start = .ok p' ∧
      p'.firstInvalidLeaf = .empty := by
    have hround := loop_cons (p := .start) hr hstep cs
    rw [hround, if_neg hlt]
    apply loop_of_right _ _ hcmp
    · rwa [compare_s]
    · rw [compare_s]
      exact hstep.ready hle
    · rw [compare_s, hstep.lanes, length_absorbBlock]
      rfl
  obtain ⟨p', hp', hfirst⟩ := hloop
  unfold challenge
  rw [hp', ok_bind, result, if_neg (fun h => h hfirst)]

end FightNight.Preimage
