import FightNight.Preimage.Proposals

/-!
# Wrong proposals can be challenged

What `Challenge` of the challenger returns for the parts of a finished proposal, and what the
contract answers to the call that `ChallengeTx` builds from it.

A wrong commitment is found, and the call succeeds, unless the first leaf is the zero value that
the challenger uses as the mark for "no leaf": an input that begins with a block of zeros, with a
first commitment of zero (`Marked`).  Such a commitment is always wrong, but a proposal in which
the others are right is taken for valid (`challenge_complete`).
-/

namespace FightNight.Preimage

open MerkleTree Run Oracle
open List hiding getElem?_eq_some_iff
open FightNight.Except (ok_bind revertIf_of_not revertIf_bind require_bind)

variable {env : OracleEnv} {s : Oracle} {key : ProposalKey} {parts : List InputData}

/-! ## Proofs against the stored tree -/

lemma Recorded.getTreeRootLPP (h : Recorded parts key s) :
    s.getTreeRootLPP key = label hashTwo (leafAt (leafHashes (blocksOf parts))) treeDepth 0 := by
  have hroot := rootFrom_label hashTwo h.frontier
    (fun i hi => leafAt_of_le (by rwa [length_leafHashes])) (fun _ => rfl) treeDepth
  have hdiv : (blocksOf parts).length / 2 ^ treeDepth = 0 :=
    Nat.div_eq_of_lt (lt_of_le_of_lt h.bound (by decide))
  rw [hdiv] at hroot
  unfold Oracle.getTreeRootLPP
  rwa [h.blocksProcessed]

/-- A leaf with its siblings, as the contract gets it. -/
def provedLeaf (leaves : List Hash) (i : ℕ) (x : ClaimedBlock) : ProvedLeaf :=
  ⟨⟨x.1, i, x.2⟩, fun j => (siblingsOf leaves i).getD j Hash.zero⟩

variable {x : ClaimedBlock} {good : List ClaimedBlock} {tx : Tx} {i : ℕ}

lemma toPreimageOracleLeaf_leafOf (leaves : List Hash) (hi : i < maxLeafCount)
    (hx : x.1.length = blockSize) :
    toPreimageOracleLeaf (leafOf i x) (siblingsOf leaves i) = provedLeaf leaves i x := by
  have hinput : (leafOf i x).input.1 = x.1 := toBlock_eq hx
  rw [toPreimageOracleLeaf, toNat_index_leafOf hi, hinput]
  rfl

lemma Recorded.verify (h : Recorded parts key s) (hx : (blocksOf parts)[i]? = some x) :
    verify (s.getTreeRootLPP key) (provedLeaf (leafHashes (blocksOf parts)) i x) = true := by
  have hi : i < 2 ^ treeDepth := lt_of_lt_of_le (getElem?_eq_some_iff.mp hx).1
    (le_trans h.bound (by decide))
  have hleaf : hashLeaf x.1 i x.2 = leafAt (leafHashes (blocksOf parts)) i := by
    rw [leafAt, getD_eq_getElem?_getD, leafHashes, getElem?_mapIdx, hx]
    rfl
  have hclimb : climb hashTwo i
      (fun j => (siblingsOf (leafHashes (blocksOf parts)) i).getD j Hash.zero) treeDepth
      (hashLeaf x.1 i x.2) = s.getTreeRootLPP key := by
    rw [hleaf, climb_label, Nat.div_eq_of_lt hi, h.getTreeRootLPP]
    intro j hj
    simp [siblingsOf, hj]
  exact decide_eq_true hclimb

lemma Recorded.checkLeaves (h : Recorded parts key s) {y : ClaimedBlock}
    (hy : (blocksOf parts)[i]? = some y) (hx : (blocksOf parts)[i + 1]? = some x)
    {stateMatrix : StateSnapshot} (hmat : stateCommitment stateMatrix.1 = y.2) :
    let pre := provedLeaf (leafHashes (blocksOf parts)) i y
    let post := provedLeaf (leafHashes (blocksOf parts)) (i + 1) x
    checkLeaves key stateMatrix pre post s = .ok () ∧
      Checked.add (.panic 0x11 : OracleRevert) pre.leaf.index 1 = .ok post.leaf.index := by
  intro pre post
  have hlt := lt_of_lt_of_le (getElem?_eq_some_iff.mp hx).1 h.bound
  refine ⟨?_, Checked.add_eq_ok.mpr ⟨lt_of_lt_of_le hlt (by decide), rfl⟩⟩
  unfold Oracle.checkLeaves
  rw [require_bind ⟨h.verify hy, h.verify hx⟩]
  exact revertIf_of_not (fun hne => hne hmat)

lemma Funded.pays (h : Funded s) (hacc : tx.accepts = true) (key : ProposalKey) :
    ¬(s.balance < s.proposalBonds key ∨ tx.accepts = false) := by
  rintro (hlt | hfalse)
  · exact absurd (h.le key) (not_le_of_gt hlt)
  · cases hacc.symm.trans hfalse

lemma Funded.counter (h : Funded s) (hacc : tx.accepts = true) (key : ProposalKey) :
    ∃ s', Oracle.counter tx key s = .ok s' := by
  unfold Oracle.counter payoutBond
  dsimp only
  rw [revertIf_of_not (h.pays hacc key)]
  exact ⟨_, rfl⟩

/-! ## The call succeeds -/

lemma Recorded.challengeFirstLPP (h : Recorded parts key s) (hfund : Funded s)
    (hlib : env.lib.Faithful) (hx : x.1.length = blockSize)
    (hwrong : FirstWrong (blocksOf parts) [] x) (hvalue : tx.value = 0) (hacc : tx.accepts = true) :
    ∃ s', Oracle.challengeFirstLPP env tx key
      (provedLeaf (leafHashes (blocksOf parts)) 0 x) s = .ok s' := by
  have hver := h.verify hwrong.getElem?
  generalize hpost : provedLeaf (leafHashes (blocksOf parts)) 0 x = post at hver
  have hleaf : post.leaf = ⟨x.1, 0, x.2⟩ := by rw [← hpost]; rfl
  obtain ⟨a, habs, ha⟩ := hlib.absorb_permutation zeroState hx
  have hstate : stateCommitment (env.lib.permutation a).1 ≠ post.leaf.stateCommitment := by
    rw [ha, hleaf]
    exact fun heq => hwrong.wrong heq.symm
  have hidx : post.leaf.index = 0 := by rw [hleaf]
  unfold Oracle.challengeFirstLPP
  rw [require_bind hvalue, require_bind hver, require_bind hidx,
    show post.leaf.input = x.1 by rw [hleaf], habs, ok_bind]
  rw [revertIf_bind hstate]
  exact hfund.counter hacc key

lemma Recorded.challengeLPP (h : Recorded parts key s) (hfund : Funded s)
    (hlib : env.lib.Faithful) {y : ClaimedBlock} (hx : x.1.length = blockSize)
    (hwrong : FirstWrong (blocksOf parts) (good ++ [y]) x) {stateMatrix : StateSnapshot}
    (hmat : stateMatrix.1 = stateAfter (good ++ [y])) (hvalue : tx.value = 0)
    (hacc : tx.accepts = true) :
    ∃ s', Oracle.challengeLPP env tx key stateMatrix
      (provedLeaf (leafHashes (blocksOf parts)) good.length y)
      (provedLeaf (leafHashes (blocksOf parts)) (good.length + 1) x) s = .ok s' := by
  have hget := hwrong.getElem?
  rw [length_append] at hget
  have hcomm : stateCommitment stateMatrix.1 = y.2 := by
    rw [hmat]
    exact (right_append.mp hwrong.right).2.symm
  obtain ⟨hcheck, hnext⟩ := h.checkLeaves hwrong.getElem?_pre hget hcomm
  generalize hpost : provedLeaf (leafHashes (blocksOf parts)) (good.length + 1) x = post at *
  have hpostLeaf : post.leaf = ⟨x.1, good.length + 1, x.2⟩ := by rw [← hpost]; rfl
  obtain ⟨a, habs, ha⟩ := hlib.absorb_permutation stateMatrix hx
  have hstate : stateCommitment (env.lib.permutation a).1 ≠ post.leaf.stateCommitment := by
    rw [ha, hmat, ← stateAfter_append, hpostLeaf]
    exact fun heq => hwrong.wrong heq.symm
  unfold Oracle.challengeLPP
  rw [require_bind hvalue, hcheck, ok_bind, hnext, ok_bind, require_bind rfl,
    show post.leaf.input = x.1 by rw [hpostLeaf], habs, ok_bind]
  rw [revertIf_bind hstate]
  exact hfund.counter hacc key

/-- The contract accepts the call that is built against the first wrong commitment. -/
theorem Recorded.exec_challengeTx (h : Recorded parts key s) (hfund : Funded s)
    (hlib : env.lib.Faithful) (hfull : ∀ x ∈ blocksOf parts, x.1.length = blockSize)
    (hmark : Unmarked (blocksOf parts)) (hwrong : FirstWrong (blocksOf parts) good x)
    {ch : Challenge} (hag : Against (blocksOf parts) good x ch) (hvalue : tx.value = 0)
    (hacc : tx.accepts = true) : ∃ s', exec env (tx, challengeTx key ch) s = .ok s' := by
  have hx : x.1.length = blockSize := hfull x (mem_of_getElem? hwrong.getElem?)
  have hlt : good.length < maxLeafCount := lt_of_lt_of_le hwrong.length_lt h.bound
  unfold challengeTx
  rw [hag.prestate, hag.poststate, hag.poststateProof, toPreimageOracleLeaf_leafOf _ hlt hx]
  induction good using reverseRecOn with
  | nil =>
    have hempty : lastLeaf [] = .empty := rfl
    rw [if_pos hempty]
    exact h.challengeFirstLPP hfund hlib hx hwrong hvalue hacc
  | append_singleton good y _ =>
    have hy := hwrong.getElem?_pre
    have hlen : (good ++ [y]).length = good.length + 1 := by
      rw [length_append, length_singleton]
    have hproof := hag.prestateProof (by simp)
    rw [hlen] at hlt hproof ⊢
    rw [lastLeaf_append, if_neg (hmark _ _ hy), hproof, Nat.add_sub_cancel,
      toPreimageOracleLeaf_leafOf _ (Nat.lt_of_succ_lt hlt) (hfull y (mem_of_getElem? hy))]
    exact h.challengeLPP hfund hlib hx hwrong hag.stateMatrix hvalue hacc

/-! ## Completeness -/

/-- A proposal is dealt with as it should be: when a commitment is wrong, the challenger finds a
challenge, whose call succeeds for a challenger who takes the bond; when all are right, the proposal
is reported as valid. -/
def Answered (env : OracleEnv) (s : Oracle) (key : ProposalKey) (data : Bytes)
    (commitments : List Hash) : Prop :=
  (commitments ≠ trueCommitments data → ∃ ch, challenge data commitments = .ok ch ∧
    ∀ tx : Tx, tx.value = 0 → tx.accepts = true →
      ∃ s', exec env (tx, challengeTx key ch) s = .ok s') ∧
  (commitments = trueCommitments data → challenge data commitments = .error .errValid)

lemma Recorded.answered (h : Recorded parts key s) (hfund : Funded s)
    (hlib : env.lib.Faithful) (hfin : Finished parts)
    (hmarked : ¬Marked (inputOf parts) (commitmentsOf parts)) :
    Answered env s key (inputOf parts) (commitmentsOf parts) := by
  obtain ⟨hlen, hblks⟩ := h.blocksOf_eq hfin
  have hcnt : (commitmentsOf parts).length ≤ maxLeafCount := by
    have hbound := h.bound
    rwa [hblks, claimedBlocks, length_zip, ← hlen, min_self] at hbound
  have hmark := unmarked_of_not_marked hcnt hmarked
  obtain ⟨hvalid, hbad⟩ := challenge_spec hlen hcnt hmark
  refine ⟨?_, hvalid⟩
  intro hne
  obtain ⟨good, x, ch, hwrong, hchal, hag⟩ := hbad hne
  have hfull : ∀ x ∈ claimedBlocks (inputOf parts) (commitmentsOf parts),
      x.1.length = blockSize := fun x hx => length_of_mem_paddedBlocks (of_mem_zip hx).1
  rw [← hblks] at hmark hwrong hag hfull
  refine ⟨ch, hchal, ?_⟩
  intro tx hvalue hacc
  exact h.exec_challengeTx hfund hlib hfull hmark hwrong hag hvalue hacc

/-- Every finished proposal of every run is dealt with as it should be when its first leaf is not
the mark for "no leaf".  When all commitments but the first are right, this is necessary as well. -/
theorem challenge_complete (env : OracleEnv) (hlib : env.lib.Faithful)
    (calls : List (Tx × OracleCall)) (key : ProposalKey)
    (hfinished : Finished (submissions key (successes (exec env) calls .deployed))) :
    let s := runAll (exec env) calls .deployed
    let parts := submissions key (successes (exec env) calls .deployed)
    let data := inputOf parts
    let commitments := commitmentsOf parts
    (¬Marked data commitments → Answered env s key data commitments) ∧
      (commitments.tail = (trueCommitments data).tail →
        (Answered env s key data commitments ↔ ¬Marked data commitments)) := by
  intro s parts data commitments
  have hans : ¬Marked data commitments → Answered env s key data commitments := by
    intro hmark
    exact (run_recorded hlib calls key).answered (run_funded hlib calls) hlib hfinished hmark
  refine ⟨hans, ?_⟩
  intro htail
  refine ⟨?_, hans⟩
  rintro ⟨hwrong, -⟩ hmark
  obtain ⟨ch, hchal, -⟩ := hwrong hmark.ne_trueCommitments
  rw [challenge_of_marked hmark htail] at hchal
  cases hchal

/-! ## A block of zeros -/

def sampleEnv : OracleEnv := ⟨0, 86400, .reference⟩

def sampleTx (value : ℕ) : Tx := ⟨1, 1, value, 1700000000, by decide, 1, true⟩

/-- The proposal of the sample calls. -/
def sampleKey : ProposalKey := (1, 0)

/-- A block of zeros is proposed with some commitments. -/
def sampleCalls (commitments : List Hash) : List (Tx × OracleCall) :=
  [(sampleTx minBondSize, .initLPP 0 0 136),
    (sampleTx 0, .addLeavesLPP 0 ⟨0, zeroBlock, [], commitments, true⟩)]

lemma take_zeroBlock : zeroBlock.take blockSize = zeroBlock :=
  take_of_length_le (le_of_eq length_replicate)

lemma sample_parts {commitments : List Hash}
    (h : (successes (exec sampleEnv) (sampleCalls commitments) .deployed).length = 2) :
    let parts := submissions sampleKey
      (successes (exec sampleEnv) (sampleCalls commitments) .deployed)
    Finished parts ∧ inputOf parts = zeroBlock ∧ commitmentsOf parts = commitments := by
  intro parts
  have hparts : parts = [⟨zeroBlock, commitments, true⟩] := by
    change submissions sampleKey (successes _ _ _) = _
    rw [(successes_sublist _ _).eq_of_length h]
    rfl
  rw [hparts]
  exact ⟨rfl, append_nil _, append_nil _⟩

/-- A wrong commitment to the state after a block of zeros that is overlooked: the commitment is
zero, and the challenger reports the proposal as valid. -/
theorem zero_block_overlooked :
    let calls := sampleCalls (Hash.zero :: (trueCommitments zeroBlock).tail)
    let parts := submissions sampleKey (successes (exec sampleEnv) calls .deployed)
    Finished parts ∧ commitmentsOf parts ≠ trueCommitments (inputOf parts) ∧
      challenge (inputOf parts) (commitmentsOf parts) = .error .errValid := by
  intro calls parts
  obtain ⟨hfin, hinput, hcomm⟩ : Finished parts ∧ inputOf parts = zeroBlock ∧
        commitmentsOf parts = Hash.zero :: (trueCommitments zeroBlock).tail :=
    sample_parts (by decide +kernel)
  have hmark : Marked (inputOf parts) (commitmentsOf parts) := by
    rw [hinput, hcomm]
    exact ⟨take_zeroBlock, rfl⟩
  refine ⟨hfin, hmark.ne_trueCommitments, challenge_of_marked hmark ?_⟩
  rw [hinput, hcomm, tail_cons]

/-- Another wrong commitment for the same block is challenged, and the challenge succeeds. -/
theorem challenge_complete_sample :
    let calls := sampleCalls [⟨replicate 32 1, rfl⟩, Hash.zero]
    let s := runAll (exec sampleEnv) calls .deployed
    let parts := submissions sampleKey (successes (exec sampleEnv) calls .deployed)
    Finished parts ∧ ∃ ch, challenge (inputOf parts) (commitmentsOf parts) = .ok ch ∧
      ∃ s', exec sampleEnv (sampleTx 0, challengeTx sampleKey ch) s = .ok s' := by
  intro calls s parts
  obtain ⟨hfin, hinput, hcomm⟩ : Finished parts ∧ inputOf parts = zeroBlock ∧
        commitmentsOf parts = [⟨replicate 32 1, rfl⟩, Hash.zero] := sample_parts (by decide +kernel)
  have hmark : ¬Marked (inputOf parts) (commitmentsOf parts) := by
    rw [hinput, hcomm]
    decide
  have hwrong : commitmentsOf parts ≠ trueCommitments (inputOf parts) := by
    rw [hinput, hcomm]
    intro heq
    have hhead := head?_trueCommitments take_zeroBlock
    have hfirst := stateCommitment_zeroBlock
    rw [← heq] at hhead
    rw [← Option.some.inj hhead] at hfirst
    exact absurd hfirst (by decide)
  have hans := (challenge_complete sampleEnv LibKeccak.reference_faithful calls sampleKey
    hfin).1 hmark
  obtain ⟨ch, hchal, hcall⟩ := hans.1 hwrong
  exact ⟨hfin, ch, hchal, hcall (sampleTx 0) rfl rfl⟩

end FightNight.Preimage
