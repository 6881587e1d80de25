import FightNight.Preimage.ChallengeComplete

/-!
# One tree on chain and off chain

`addLeavesLPP` keeps a branch of sixteen hashes from which `getTreeRootLPP` computes the root, and
`BinaryMerkleTree` of the challenger grows a tree of nodes; both mean the tree of depth 16 that is
filled up with zero leaves.  After every run the roots agree, and `_verify` accepts what
`ProofAtIndex` returns (`tree_agreement`).  Every sequence of leaves that fits into the tree can
be added, in any chunks (`exists_run_of_chunks`).
-/

namespace FightNight.Preimage

open MerkleTree Run Function Oracle
open FightNight.Except (ok_bind revertIf_bind require_bind)
open List hiding getElem?_eq_some_iff

/-! ## The tree of the challenger -/

/-- The tree of the challenger after `AddLeaf` of each of some leaves. -/
def treeOf (leaves : List Hash) : BinaryMerkleTree :=
  leaves.foldl (fun m hash => m.addLeaf hash) .newBinaryMerkleTree

variable {chunk : List ClaimedBlock} {cs : List (List ClaimedBlock)} {leaves : List Hash} {n : ℕ}

lemma treeOf_holds (h : leaves.length ≤ 2 ^ treeDepth) : (treeOf leaves).Holds leaves := by
  induction leaves using reverseRecOn with
  | nil => exact BinaryMerkleTree.holds_new
  | append_singleton leaves hash ih =>
    rw [length_append] at h
    rw [treeOf, foldl_append]
    exact (ih (Nat.le_of_succ_le h)).addLeaf h hash

/-! ## Proofs in between -/

inductive TreeCall where
  | addLeaf (hash : Hash)
  | proofAtIndex (index : ℕ)

namespace TreeCall

def exec : TreeCall → BinaryMerkleTree → Except String BinaryMerkleTree
  | addLeaf hash, m => .ok (m.addLeaf hash)
  | proofAtIndex index, m => (m.proofAtIndex index).map Prod.snd

/-- The leaves that are added by calls. -/
def added (calls : List TreeCall) : List Hash :=
  calls.filterMap fun
    | addLeaf hash => some hash
    | proofAtIndex _ => none

/-- A proof is taken for a leaf that was added or for its neighbour, in a tree that has room for its
leaves. -/
def Present : TreeCall → BinaryMerkleTree → Prop
  | addLeaf _, _ => True
  | proofAtIndex index, m => 2 * (index / 2) < m.leafCount ∧ m.leafCount ≤ 2 ^ treeDepth

lemma leafCount_treeOf (leaves : List Hash) : (treeOf leaves).leafCount = leaves.length := by
  induction leaves using reverseRecOn with
  | nil => rfl
  | append_singleton leaves hash ih =>
    rw [treeOf, foldl_append, length_append, ← ih]
    rfl

lemma proofAtIndex_treeOf {index : ℕ} (hbound : index < maxLeafCount)
    (h : Present (proofAtIndex index) (treeOf leaves)) :
    (treeOf leaves).proofAtIndex index = .ok (siblingsOf leaves index, treeOf leaves) := by
  obtain ⟨hidx, hcnt⟩ := h
  rw [leafCount_treeOf] at hidx hcnt
  exact (treeOf_holds hcnt).proofAtIndex_eq hbound hidx

lemma attempt_proofAtIndex {index : ℕ} (h : Present (proofAtIndex index) (treeOf leaves)) :
    attempt exec (proofAtIndex index) (treeOf leaves) = treeOf leaves := by
  rw [attempt, exec]
  by_cases hbound : index < maxLeafCount
  · rw [proofAtIndex_treeOf hbound h]
    rfl
  · rw [BinaryMerkleTree.proofAtIndex, if_pos (not_lt.mp hbound)]
    rfl

lemma runAll_treeOf {calls : List TreeCall} (h : AllMeet exec Present calls (treeOf leaves)) :
    runAll exec calls (treeOf leaves) = treeOf (leaves ++ added calls) := by
  induction calls generalizing leaves with
  | nil => exact congrArg treeOf (append_nil leaves).symm
  | cons call calls ih =>
    obtain ⟨hcall, hcalls⟩ := h
    cases call with
    | addLeaf hash =>
      have hadd : attempt exec (addLeaf hash) (treeOf leaves) = treeOf (leaves ++ [hash]) := by
        rw [treeOf, treeOf, foldl_append]
        rfl
      rw [hadd] at hcalls
      rw [runAll_cons, hadd, ih hcalls, append_assoc]
      rfl
    | proofAtIndex index =>
      rw [attempt_proofAtIndex hcall] at hcalls
      rw [runAll_cons, attempt_proofAtIndex hcall, ih hcalls]
      rfl

end TreeCall

/-- When proofs are only taken where the tree has nodes, it is that of the leaves alone, and so are
its root and its proofs; and a proof verifies the leaf, which is zero where none was added. -/
theorem proofs_keep_tree (calls : List TreeCall)
    (hcalls : AllMeet TreeCall.exec TreeCall.Present calls .newBinaryMerkleTree) :
    let m := runAll TreeCall.exec calls .newBinaryMerkleTree
    m = treeOf (TreeCall.added calls) ∧
      ∀ index < maxLeafCount, TreeCall.Present (.proofAtIndex index) m →
        ∃ proof, m.proofAtIndex index = .ok (proof, m) ∧
          climb hashTwo index (fun j => proof.getD j Hash.zero) treeDepth
            (leafAt (TreeCall.added calls) index) = m.rootHash := by
  intro m
  have hm : m = treeOf (TreeCall.added calls) := @TreeCall.runAll_treeOf [] _ hcalls
  refine ⟨hm, fun index hbound hpresent => ?_⟩
  rw [hm] at hpresent ⊢
  have hcnt := hpresent.2
  rw [TreeCall.leafCount_treeOf] at hcnt
  refine ⟨_, TreeCall.proofAtIndex_treeOf hbound hpresent, ?_⟩
  rw [climb_label, Nat.div_eq_of_lt (lt_of_lt_of_le hbound (Nat.sub_le _ _))]
  · exact (MerkleNode.holds_iff.mp (treeOf_holds hcnt).root).2.1.symm
  · intro j hj
    simp [siblingsOf, hj]

theorem proofs_keep_tree_pair :
    runAll TreeCall.exec [.addLeaf Hash.zero, .proofAtIndex 1, .addLeaf Hash.zero]
      .newBinaryMerkleTree = treeOf [Hash.zero, Hash.zero] :=
  (proofs_keep_tree [.addLeaf Hash.zero, .proofAtIndex 1, .addLeaf Hash.zero]
    ⟨trivial, ⟨by decide, by decide⟩, trivial, trivial⟩).1

/-- Two proofs in an empty tree leave nodes with the labels of other heights, which are then in the
proof of the first leaf. -/
theorem proofs_change_tree :
    ((runAll TreeCall.exec [.proofAtIndex 1, .proofAtIndex 2, .addLeaf Hash.zero]
      .newBinaryMerkleTree).proofAtIndex 0).map Prod.fst ≠
    ((treeOf [Hash.zero]).proofAtIndex 0).map Prod.fst := by
  intro h
  have hpair := congrArg (Except.map (take 2)) h
  change Except.ok [zeroHashes 15, zeroHashes 14] = Except.ok [zeroHashes 0, zeroHashes 1] at hpair
  obtain ⟨hfirst, hsecond⟩ := cons.inj (Except.ok.inj hpair)
  have hnext : zeroHashes 15 = hashTwo (zeroHashes 14) (zeroHashes 14) := rfl
  rw [hfirst, (cons.inj hsecond).1] at hnext
  exact absurd hnext (by decide +kernel)

/-! ## The tree of the contract -/

/-- The blocks that were added for a proposal in a run, with their commitments. -/
def addedBlocks (env : OracleEnv) (calls : List (Tx × OracleCall)) (key : ProposalKey) :
    List ClaimedBlock :=
  blocksOf (submissions key (successes (exec env) calls .deployed))

/-- After every run, for every proposal: the root of the contract is that of the tree that is filled
up with zero leaves and that of the tree of the challenger, and the contract accepts each leaf with
the proof that the challenger takes for it. -/
theorem tree_agreement (env : OracleEnv) (hlib : env.lib.Faithful)
    (calls : List (Tx × OracleCall)) (key : ProposalKey) :
    let root := (runAll (exec env) calls .deployed).getTreeRootLPP key
    let blocks := addedBlocks env calls key
    let tree := treeOf (leafHashes blocks)
    blocks.length ≤ maxLeafCount ∧
      root = label hashTwo (leafAt (leafHashes blocks)) treeDepth 0 ∧
      tree.rootHash = root ∧
      ∀ i x, blocks[i]? = some x → ∃ proof, tree.proofAtIndex i = .ok (proof, tree) ∧
        verify root ⟨⟨x.1, i, x.2⟩, fun j => proof.getD j Hash.zero⟩ = true := by
  intro root blocks tree
  have hrec := run_recorded hlib calls key
  have hbound : blocks.length ≤ maxLeafCount := hrec.bound
  have hleaves : (leafHashes blocks).length ≤ maxLeafCount := by
    rwa [length_leafHashes]
  have hroot : root = label hashTwo (leafAt (leafHashes blocks)) treeDepth 0 := hrec.getTreeRootLPP
  have hholds := treeOf_holds (le_trans hleaves (Nat.sub_le _ _))
  refine ⟨hbound, hroot, (MerkleNode.holds_iff.mp hholds.root).2.1.trans hroot.symm, ?_⟩
  intro i x hx
  have hi : i < blocks.length := (getElem?_eq_some_iff.mp hx).1
  refine ⟨siblingsOf (leafHashes blocks) i,
    hholds.proofAtIndex_eq (lt_of_lt_of_le hi hbound) ?_, hrec.verify hx⟩
  rw [length_leafHashes]
  omega

/-! ## Every sequence of leaves can be added -/

/-- Some blocks as a part that does not finish a proposal. -/
def openPart (chunk : List ClaimedBlock) : InputData :=
  ⟨chunk.flatMap Prod.fst, chunk.map Prod.snd, false⟩

lemma blocks_openPart (hsize : ∀ x ∈ chunk, x.1.length = blockSize) :
    (openPart chunk).blocks = chunk := by
  have hchunks : ∀ xs : List ClaimedBlock, (∀ x ∈ xs, x.1.length = blockSize) →
      chunks xs.length (xs.flatMap Prod.fst) = xs.map Prod.fst := by
    intro xs
    induction xs with
    | nil => intro _; rfl
    | cons x xs ih =>
      intro hxs
      have hx : x.1.length = blockSize := hxs x mem_cons_self
      rw [length_cons, flatMap_cons, chunks, take_left' hx, drop_left' hx,
        ih fun y hy => hxs y (mem_cons_of_mem _ hy), map_cons]
  change (chunks (chunk.map Prod.snd).length (chunk.flatMap Prod.fst)).zip (chunk.map Prod.snd) = _
  rw [length_map, hchunks chunk hsize]
  exact (zip_of_prod rfl rfl).symm

/-- The call that adds some blocks after others. -/
def chunkCall (key : ProposalKey) (start : ℕ) (chunk : List ClaimedBlock) : Tx × OracleCall :=
  (⟨key.1, key.1, 0, 1, by decide, 0, true⟩, .addLeavesLPP key.2
    ⟨start, (openPart chunk).input, [], (openPart chunk).commitments, false⟩)

/-- The calls that add some blocks in chunks. -/
def chunkCalls (key : ProposalKey) : ℕ → List (List ClaimedBlock) → List (Tx × OracleCall)
  | _, [] => []
  | start, chunk :: rest =>
    chunkCall key start chunk :: chunkCalls key (start + chunk.length) rest

lemma submissions_chunkCalls (key : ProposalKey) (start : ℕ) (cs : List (List ClaimedBlock)) :
    submissions key (chunkCalls key start cs) = cs.map openPart := by
  induction cs generalizing start with
  | nil => rfl
  | cons chunk rest ih =>
    have hone : submission key (chunkCall key start chunk) = some (openPart chunk) := if_pos rfl
    rw [chunkCalls, submissions, filterMap_cons_some hone, map_cons, ← ih, submissions]

/-- A proposal with a number of blocks that is open for more, with its part at the beginning. -/
structure OpenFor (key : ProposalKey) (n : ℕ) (s : Oracle) : Prop where
  claimedSize : (s.proposalMetadata key).claimedSize ≠ 0
  timestamp : (s.proposalMetadata key).timestamp = 0
  partOffset : (s.proposalMetadata key).partOffset = 0
  blocksProcessed : (s.proposalMetadata key).blocksProcessed.toNat = n

variable {env : OracleEnv} {s : Oracle} {key : ProposalKey}

lemma extractPreimagePart_of_zero (args : LeavesArgs) {metaData : LPPMetaData}
    (h : metaData.partOffset = 0) :
    ∃ part, extractPreimagePart args metaData = .ok part := by
  unfold extractPreimagePart
  rw [h]
  dsimp only
  split
  · exact ⟨_, rfl⟩
  · exact ⟨_, if_neg fun hlt => absurd hlt.1 (by decide)⟩

/-- More blocks are added when there is room for them. -/
theorem OpenFor.chunkCall_ok (h : OpenFor key n s) (hsize : ∀ x ∈ chunk, x.1.length = blockSize)
    (hroom : n + chunk.length ≤ maxLeafCount) :
    ∃ s', exec env (chunkCall key n chunk) s = .ok s' := by
  have hlen : (openPart chunk).input.length = chunk.length * blockSize := by
    change (chunk.flatMap Prod.fst).length = _
    rw [length_flatMap, map_congr_left hsize, map_const', sum_replicate_nat]
  have hcomm : (openPart chunk).commitments.length = chunk.length := length_map ..
  have hmax : maxLeafCount = 65535 := rfl
  have hblock : blockSize = 136 := rfl
  obtain ⟨part, hpart⟩ := extractPreimagePart_of_zero
    ⟨n, (openPart chunk).input, [], (openPart chunk).commitments, false⟩ h.partOffset
  have hwhole : ¬((openPart chunk).input.length % blockSize ≠ 0 ∨
      (openPart chunk).commitments.length ≠ (openPart chunk).input.length / blockSize) := by
    rw [hlen, hblock]
    omega
  have hbytes : Checked.add (.panic 0x11 : OracleRevert) (openPart chunk).input.length
      (s.proposalMetadata key).bytesProcessed.toNat =
        .ok ((openPart chunk).input.length + (s.proposalMetadata key).bytesProcessed.toNat) := by
    have hlt := (s.proposalMetadata key).bytesProcessed.toNat_lt
    refine Checked.add_eq_ok.mpr ⟨?_, rfl⟩
    rw [hlen, hblock]
    omega
  change ∃ s', addLeavesLPP env _ key.2 _ s = .ok s'
  unfold addLeavesLPP
  dsimp only
  rw [require_bind rfl, require_bind rfl, revertIf_bind h.claimedSize, require_bind h.timestamp,
    require_bind h.blocksProcessed, hpart, ok_bind, if_neg Bool.false_ne_true, revertIf_bind hwhole,
    addBlocks_fst, h.blocksProcessed, hcomm, revertIf_bind (not_lt_of_ge hroom), hbytes, ok_bind]
  exact ⟨_, rfl⟩

lemma OpenFor.chunkCall (h : OpenFor key n s) {s' : Oracle}
    (hroom : n + chunk.length ≤ maxLeafCount)
    (hexec : exec env (chunkCall key n chunk) s = .ok s') :
    OpenFor key (n + chunk.length) s' := by
  have hcomm : (openPart chunk).commitments.length = chunk.length := length_map ..
  have hcast : (UInt32.ofNat (n + chunk.length)).toNat = n + chunk.length :=
    UInt32.toNat_ofNat_of_lt' (lt_of_le_of_lt hroom (by decide))
  change addLeavesLPP env _ key.2 _ s = .ok s' at hexec
  unfold addLeavesLPP at hexec
  simp only [Except.bind_eq_ok, Except.pure_eq_ok, addBlocks_fst, hcomm] at hexec
  obtain ⟨-, -, -, -, -, -, -, -, -, -, _, -, -, -, -, -, _, -, -, -, rfl⟩ := hexec
  have hblks := h.blocksProcessed
  constructor
  · simp only [update_self]
    exact h.claimedSize
  · simp only [update_self]
    exact h.timestamp
  · simp only [update_self]
    exact h.partOffset
  · grind

lemma OpenFor.successes (h : OpenFor key n s)
    (hsize : ∀ chunk ∈ cs, ∀ x ∈ chunk, x.1.length = blockSize)
    (hroom : n + cs.flatten.length ≤ maxLeafCount) :
    successes (exec env) (chunkCalls key n cs) s = chunkCalls key n cs := by
  induction cs generalizing n s with
  | nil => rfl
  | cons chunk rest ih =>
    rw [flatten_cons, length_append, ← add_assoc] at hroom
    have hfits : n + chunk.length ≤ maxLeafCount := le_trans (Nat.le_add_right _ _) hroom
    obtain ⟨s', hexec⟩ := h.chunkCall_ok (hsize chunk mem_cons_self) hfits
    have hrest := ih (h.chunkCall hfits hexec) (fun c hc => hsize c (mem_cons_of_mem _ hc)) hroom
    rw [chunkCalls, successes, hexec]
    exact congrArg _ hrest

/-- The call that opens a proposal, with its part at the beginning. -/
def openCall (key : ProposalKey) (claimedSize : UInt32) : Tx × OracleCall :=
  (⟨key.1, key.1, minBondSize, 1, by decide, 0, true⟩, .initLPP key.2 0 claimedSize)

lemma exec_openCall {claimedSize : UInt32} (hpos : claimedSize ≠ 0)
    (hmin : env.minProposalSize ≤ claimedSize.toNat) (hmax : claimedSize.toNat + 8 < 2 ^ 32) :
    ∃ s', exec env (openCall key claimedSize) .deployed = .ok s' ∧ OpenFor key 0 s' := by
  change ∃ s', initLPP env _ key.2 0 claimedSize .deployed = .ok s' ∧ OpenFor key 0 s'
  unfold initLPP
  rw [require_bind rfl, revertIf_bind (not_le_of_gt hmax), revertIf_bind (not_lt_of_ge hmin)]
  refine ⟨_, rfl, ?_⟩
  constructor
  · simp only [update_self]
    exact hpos
  · simp only [update_self]
    rfl
  · simp only [update_self]
  · simp only [update_self]
    rfl

/-- Every sequence of blocks that fits into the tree can be added to a proposal, in any chunks. -/
theorem exists_run_of_chunks (henv : env.minProposalSize + 9 < 2 ^ 32) (key : ProposalKey)
    (hsize : ∀ chunk ∈ cs, ∀ x ∈ chunk, x.1.length = blockSize)
    (hcnt : cs.flatten.length ≤ maxLeafCount) :
    ∃ calls, submissions key (successes (exec env) calls .deployed) = cs.map openPart ∧
      addedBlocks env calls key = cs.flatten := by
  have hlt : env.minProposalSize + 1 < 2 ^ 32 := by omega
  have hclm : (UInt32.ofNat (env.minProposalSize + 1)).toNat = env.minProposalSize + 1 :=
    UInt32.toNat_ofNat_of_lt' hlt
  have hpos : UInt32.ofNat (env.minProposalSize + 1) ≠ 0 := by
    intro hzero
    rw [hzero] at hclm
    exact absurd hclm (Nat.succ_ne_zero _).symm
  obtain ⟨s, hopen, hs⟩ : ∃ s, exec env
      (openCall key (UInt32.ofNat (env.minProposalSize + 1))) .deployed = .ok s ∧ OpenFor key 0 s :=
    exec_openCall hpos (by omega) (by omega)
  have hall : successes (exec env) (chunkCalls key 0 cs) s = chunkCalls key 0 cs :=
    hs.successes hsize (by rwa [zero_add])
  have hparts : submissions key (successes (exec env)
      (openCall key (UInt32.ofNat (env.minProposalSize + 1)) :: chunkCalls key 0 cs) .deployed) =
        cs.map openPart := by
    rw [successes, hopen]
    dsimp only
    rw [hall, ← submissions_chunkCalls]
    rfl
  refine ⟨_, hparts, ?_⟩
  rw [addedBlocks, hparts, blocksOf, flatMap_map, flatten_eq_flatMap]
  exact flatMap_congr fun chunk hchunk => blocks_openPart (hsize chunk hchunk)

/-- A hundred blocks in two chunks. -/
theorem tree_agreement_two_chunks : ∃ calls,
    (addedBlocks sampleEnv calls sampleKey).length = 100 ∧
    (treeOf (leafHashes (addedBlocks sampleEnv calls sampleKey))).rootHash =
      (runAll (exec sampleEnv) calls .deployed).getTreeRootLPP sampleKey := by
  have hsize : ∀ chunk ∈ [replicate 70 (zeroBlock, Hash.zero),
      replicate 30 (zeroBlock, Hash.zero)], ∀ x ∈ chunk, x.1.length = blockSize := by
    intro chunk hchunk x hx
    have hzero : x = (zeroBlock, Hash.zero) := by
      rcases mem_pair.mp hchunk with rfl | rfl
      · exact eq_of_mem_replicate hx
      · exact eq_of_mem_replicate hx
    rw [hzero]
    exact length_replicate
  have henv : sampleEnv.minProposalSize + 9 < 2 ^ 32 := by decide
  obtain ⟨calls, -, hblks⟩ := exists_run_of_chunks henv sampleKey hsize (by decide)
  refine ⟨calls, ?_, ?_⟩
  · rw [hblks]
    rfl
  · exact (tree_agreement sampleEnv LibKeccak.reference_faithful calls sampleKey).2.2.1

end FightNight.Preimage
