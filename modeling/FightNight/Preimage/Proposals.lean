import Mathlib.Algebra.Order.BigOperators.Group.Finset
import FightNight.Preimage.FirstInvalid
import FightNight.Preimage.Oracle

/-!
# Proposals over runs of the oracle

What the contract stores for a proposal is determined by the calls of `addLeavesLPP` that
succeeded for it (`Recorded`): the branch is the frontier of the tree of their leaves, the number
of processed blocks is the number of these leaves, and a call with `_finalize` is the last one.
The balance of the contract covers all bonds (`Funded`).  Both hold after every run
(`run_recorded`, `run_funded`).
-/

namespace FightNight.Preimage

open FightNight.Except Function List Oracle MerkleTree

/-! ## Submitted parts -/

/-- `types.InputData`: a part of a preimage, as it is submitted in one call. -/
structure InputData where
  input : Bytes
  commitments : List Hash
  finalize : Bool

namespace InputData

/-- The input with the padding that the last part gets. -/
def padded (part : InputData) : Bytes :=
  if part.finalize then padBytes part.input else part.input

/-- The blocks of a part with their claimed commitments. -/
def blocks (part : InputData) : List ClaimedBlock :=
  (chunks part.commitments.length part.padded).zip part.commitments

/-- There is a commitment for each block. -/
def WellSized (part : InputData) : Prop :=
  part.padded.length = part.commitments.length * blockSize

end InputData

def submission (key : ProposalKey) : Tx × OracleCall → Option InputData
  | (tx, .addLeavesLPP uuid args) =>
    if (tx.sender, uuid) = key then some ⟨args.input, args.stateCommitments, args.finalize⟩
    else none
  | _ => none

def submissions (key : ProposalKey) (calls : List (Tx × OracleCall)) : List InputData :=
  calls.filterMap (submission key)

def blocksOf (parts : List InputData) : List ClaimedBlock := parts.flatMap InputData.blocks

@[simp] lemma length_blocks (part : InputData) :
    part.blocks.length = part.commitments.length := by
  rw [InputData.blocks, length_zip, length_chunks, min_self]

lemma blocksOf_append (parts : List InputData) (part : InputData) :
    blocksOf (parts ++ [part]) = blocksOf parts ++ part.blocks := by
  rw [blocksOf, flatMap_append, flatMap_singleton]
  rfl

/-! ## What the calls do -/

/-- A call leaves the tree of a proposal as it is. -/
structure KeepsTree (key : ProposalKey) (s s' : Oracle) : Prop where
  branches : s'.proposalBranches key = s.proposalBranches key
  blocksProcessed :
    (s'.proposalMetadata key).blocksProcessed = (s.proposalMetadata key).blocksProcessed
  timestamp : (s'.proposalMetadata key).timestamp = (s.proposalMetadata key).timestamp

/-- A call leaves the bonds and the balance as they are. -/
structure KeepsFunds (s s' : Oracle) : Prop where
  bonds : s'.proposalBonds = s.proposalBonds
  balance : s'.balance = s.balance

/-- `addLeavesLPP` adds the blocks of a part to the tree of a proposal. -/
structure AddsPart (key : ProposalKey) (part : InputData) (s s' : Oracle) : Prop where
  unfinished : (s.proposalMetadata key).timestamp = 0
  sized : part.WellSized
  bound : (s.proposalMetadata key).blocksProcessed.toNat + part.commitments.length ≤ maxLeafCount
  blocksProcessed : (s'.proposalMetadata key).blocksProcessed.toNat =
    (s.proposalMetadata key).blocksProcessed.toNat + part.commitments.length
  branches : s'.proposalBranches key = (addBlocks part.padded part.commitments
    (s.proposalMetadata key).blocksProcessed.toNat (s.proposalBranches key)).2
  finished : (s'.proposalMetadata key).timestamp = 0 → part.finalize = false
  others : ∀ other, other ≠ key → KeepsTree other s s'

lemma addBlocks_fst (input : Bytes) (commitments : List Hash) (n : ℕ) (branch : ℕ → Hash) :
    (addBlocks input commitments n branch).1 = n + commitments.length := by
  induction commitments generalizing input n branch with
  | nil => rfl
  | cons c commitments ih =>
    rw [addBlocks, ih, length_cons]
    omega

variable {env : OracleEnv} {s s' : Oracle}

variable {key : ProposalKey} {parts : List InputData} {c : Tx × OracleCall} {metaData : LPPMetaData}
  {branch : ℕ → Hash} {tx : Tx}

lemma keepsTree_of_ne {other : ProposalKey}
    (hmeta : s'.proposalMetadata = update s.proposalMetadata key metaData)
    (hbrs : s'.proposalBranches = update s.proposalBranches key branch)
    (hother : other ≠ key) : KeepsTree other s s' := by
  refine ⟨?_, ?_, ?_⟩
  · rw [hbrs, update_of_ne hother]
  · rw [hmeta, update_of_ne hother]
  · rw [hmeta, update_of_ne hother]

lemma addLeavesLPP_ok (hlib : env.lib.Faithful) {uuid : Fin (2 ^ 256)} {args : LeavesArgs}
    (h : addLeavesLPP env tx uuid args s = .ok s') :
    AddsPart (tx.sender, uuid) ⟨args.input, args.stateCommitments, args.finalize⟩ s s' ∧
      KeepsFunds s s' := by
  have hpad : (if args.finalize then env.lib.pad args.input else args.input) =
      (⟨args.input, args.stateCommitments, args.finalize⟩ : InputData).padded := by
    rw [hlib.pad_eq]
    rfl
  unfold addLeavesLPP at h
  simp only [bind_eq_ok, revertIf_eq_ok, pure_eq_ok, hpad, addBlocks_fst] at h
  obtain ⟨-, -, -, -, -, -, -, htime, -, -, _, -, -, hsize, -, hbound, _, -, -, -, rfl⟩ := h
  have hbound := le_of_not_gt hbound
  refine ⟨⟨of_not_not htime, ?_, hbound, ?_, update_self .., ?_, ?_⟩, rfl, rfl⟩
  · rw [InputData.WellSized]
    simp only [not_or, not_not] at hsize
    rw [hsize.2, Nat.div_mul_cancel (Nat.dvd_of_mod_eq_zero hsize.1)]
  · have hcast := UInt32.toNat_ofNat_of_lt' (lt_of_le_of_lt hbound (by decide))
    simp only [update_self]
    split <;> exact hcast
  · simp only [update_self]
    split
    · intro hzero
      exact absurd hzero tx.timestamp_ne_zero
    · rename_i hfin
      intro _
      exact Bool.not_eq_true _ ▸ hfin
  · intro other hother
    exact keepsTree_of_ne rfl rfl hother

lemma payoutBond_ok (h : payoutBond tx key s = .ok s') :
    s.proposalBonds key ≤ s.balance ∧ s' = { s with
      proposalBonds := update s.proposalBonds key 0
      balance := s.balance - s.proposalBonds key } := by
  unfold payoutBond at h
  simp only [bind_eq_ok, revertIf_eq_ok, pure_eq_ok] at h
  obtain ⟨-, hbond, hs'⟩ := h
  exact ⟨le_of_not_gt fun hlt => hbond (Or.inl hlt), hs'.symm⟩

/-- What a successful call does to the trees and the funds. -/
inductive Effect (c : Tx × OracleCall) (s s' : Oracle) : Prop where
  /-- A part is added to a proposal. -/
  | adds (key : ProposalKey) (part : InputData) (hpart : submission key c = some part)
      (hother : ∀ other, other ≠ key → submission other c = none) (htree : AddsPart key part s s')
      (hfunds : KeepsFunds s s')
  /-- A bond is set, and paid in. -/
  | bonds (key : ProposalKey) (value : ℕ) (hnone : ∀ key, submission key c = none)
      (htree : ∀ key, KeepsTree key s s')
      (hbonds : s'.proposalBonds = update s.proposalBonds key value)
      (hbalance : s'.balance = s.balance + value)
  /-- A bond is paid out. -/
  | pays (key : ProposalKey) (hnone : ∀ key, submission key c = none)
      (htree : ∀ key, KeepsTree key s s') (hle : s.proposalBonds key ≤ s.balance)
      (hbonds : s'.proposalBonds = update s.proposalBonds key 0)
      (hbalance : s'.balance = s.balance - s.proposalBonds key)

lemma keepsTree_of_update (hmeta : s'.proposalMetadata = update s.proposalMetadata key metaData)
    (hbrs : s'.proposalBranches = s.proposalBranches)
    (hblks : metaData.blocksProcessed = (s.proposalMetadata key).blocksProcessed)
    (htime : metaData.timestamp = (s.proposalMetadata key).timestamp) (other : ProposalKey) :
    KeepsTree other s s' := by
  by_cases hother : other = key
  · subst hother
    refine ⟨congrFun hbrs _, ?_, ?_⟩
    · rw [hmeta, update_self, hblks]
    · rw [hmeta, update_self, htime]
  · have hupd : s'.proposalBranches = update s.proposalBranches key (s.proposalBranches key) := by
      rw [hbrs, update_eq_self]
    exact keepsTree_of_ne hmeta hupd hother

lemma challengeLPP_counter {stateMatrix : StateSnapshot} {pre post : ProvedLeaf}
    (h : challengeLPP env tx key stateMatrix pre post s = .ok s') :
    counter tx key s = .ok s' := by
  simp only [challengeLPP, bind_eq_ok] at h
  obtain ⟨-, -, -, -, _, -, -, -, _, -, -, -, hctr⟩ := h
  exact hctr

lemma challengeFirstLPP_counter {post : ProvedLeaf}
    (h : challengeFirstLPP env tx key post s = .ok s') :
    counter tx key s = .ok s' := by
  simp only [challengeFirstLPP, bind_eq_ok] at h
  obtain ⟨-, -, -, -, -, -, _, -, -, -, hctr⟩ := h
  exact hctr

lemma counter_effect (hnone : ∀ key, submission key c = none)
    (h : counter tx key s = .ok s') : Effect c s s' := by
  obtain ⟨hle, rfl⟩ := payoutBond_ok h
  exact .pays key hnone (keepsTree_of_update rfl rfl rfl rfl) hle rfl rfl

lemma exec_effect (hlib : env.lib.Faithful) (h : exec env c s = .ok s') :
    Effect c s s' := by
  obtain ⟨tx, call⟩ := c
  cases call with
  | initLPP uuid partOffset claimedSize =>
    simp only [exec, initLPP, bind_eq_ok, revertIf_eq_ok, pure_eq_ok] at h
    obtain ⟨-, -, -, -, -, -, -, -, -, -, rfl⟩ := h
    exact .bonds (tx.sender, uuid) tx.value (fun _ => rfl) (keepsTree_of_update rfl rfl rfl rfl)
      rfl rfl
  | addLeavesLPP uuid args =>
    obtain ⟨hadds, hfunds⟩ := addLeavesLPP_ok hlib h
    refine .adds (tx.sender, uuid) _ (if_pos rfl) ?_ hadds hfunds
    intro other hother
    exact if_neg (symm hother)
  | challengeLPP key stateMatrix pre post =>
    exact counter_effect (fun _ => rfl) (challengeLPP_counter h)
  | challengeFirstLPP key post =>
    exact counter_effect (fun _ => rfl) (challengeFirstLPP_counter h)
  | squeezeLPP key stateMatrix pre post =>
    simp only [exec, squeezeLPP, bind_eq_ok] at h
    obtain ⟨-, -, -, -, _, -, -, -, -, -, _, -, -, -, _, -, -, -, _, -, hpay⟩ := h
    obtain ⟨hle, rfl⟩ := payoutBond_ok hpay
    exact .pays key (fun _ => rfl) (fun _ => ⟨rfl, rfl, rfl⟩) hle rfl rfl

/-! ## The tree of a proposal -/

lemma addBlocks_frontier {done : List ClaimedBlock}
    (h : Frontier hashTwo (leafAt (leafHashes done)) done.length branch) (input : Bytes)
    (commitments : List Hash) (hbound : done.length + commitments.length ≤ maxLeafCount) :
    Frontier hashTwo
      (leafAt (leafHashes (done ++ (chunks commitments.length input).zip commitments)))
      (done.length + commitments.length) (addBlocks input commitments done.length branch).2 := by
  induction commitments generalizing done input branch with
  | nil =>
    rwa [zip_nil_right, append_nil]
  | cons c commitments ih =>
    rw [length_cons] at hbound ⊢
    have hleaves := leafHashes_append done (input.take blockSize, c)
    -- The new leaf does not change the leaves before it.
    have hextended : Frontier hashTwo
        (leafAt (leafHashes (done ++ [(input.take blockSize, c)]))) done.length branch := by
      apply h.congr
      intro i hi
      rw [hleaves, leafAt_append_left (by rwa [length_leafHashes])]
    have hleaf : leafAt (leafHashes (done ++ [(input.take blockSize, c)])) done.length =
        hashLeaf (input.take blockSize) done.length c := by
      rw [hleaves, ← update_leafAt, length_leafHashes, update_self]
    have hroom : done.length + 1 < 2 ^ treeDepth := by
      have hmax : maxLeafCount < 2 ^ treeDepth := by decide
      omega
    have hpush := frontier_push hashTwo hextended hroom
    rw [hleaf] at hpush
    have hlen : (done ++ [(input.take blockSize, c)]).length = done.length + 1 := by
      rw [length_append, length_singleton]
    rw [← hlen] at hpush
    have hrest := ih hpush (input.drop blockSize) (by rw [hlen]; omega)
    rw [hlen, ← append_cons, add_right_comm] at hrest
    rwa [← add_assoc]

/-- What the contract stores for a proposal is that of the parts that were submitted for it. -/
structure Recorded (parts : List InputData) (key : ProposalKey) (s : Oracle) : Prop where
  sized : ∀ part ∈ parts, part.WellSized
  bound : (blocksOf parts).length ≤ maxLeafCount
  blocksProcessed :
    (s.proposalMetadata key).blocksProcessed.toNat = (blocksOf parts).length
  frontier : Frontier hashTwo (leafAt (leafHashes (blocksOf parts)))
    (blocksOf parts).length (s.proposalBranches key)
  unfinished : (s.proposalMetadata key).timestamp = 0 → ∀ part ∈ parts, part.finalize = false
  finished : ∀ part ∈ parts.dropLast, part.finalize = false

lemma recorded_deployed (key : ProposalKey) : Recorded [] key .deployed where
  sized := by
    intro part hpart
    cases hpart
  bound := Nat.zero_le _
  blocksProcessed := rfl
  frontier := frontier_zero hashTwo _ _
  unfinished := by
    intro _ part hpart
    cases hpart
  finished := by
    intro part hpart
    cases hpart

lemma Recorded.keep (h : Recorded parts key s) (hkeep : KeepsTree key s s') :
    Recorded parts key s' where
  sized := h.sized
  bound := h.bound
  blocksProcessed := by rw [hkeep.blocksProcessed, h.blocksProcessed]
  frontier := by rw [hkeep.branches]; exact h.frontier
  unfinished := by rw [hkeep.timestamp]; exact h.unfinished
  finished := h.finished

lemma Recorded.add (h : Recorded parts key s) {part : InputData} (hadd : AddsPart key part s s') :
    Recorded (parts ++ [part]) key s' := by
  have hlen : (blocksOf (parts ++ [part])).length =
      (blocksOf parts).length + part.commitments.length := by
    rw [blocksOf_append, length_append, length_blocks]
  have hbound := hadd.bound
  rw [h.blocksProcessed] at hbound
  have hpre := h.unfinished hadd.unfinished
  constructor
  · exact forall_mem_append.mpr ⟨h.sized, forall_mem_singleton.mpr hadd.sized⟩
  · rwa [hlen]
  · rw [hadd.blocksProcessed, h.blocksProcessed, hlen]
  · rw [hadd.branches, h.blocksProcessed, hlen, blocksOf_append]
    exact addBlocks_frontier h.frontier _ _ hbound
  · intro htime
    exact forall_mem_append.mpr ⟨hpre, forall_mem_singleton.mpr (hadd.finished htime)⟩
  · rwa [dropLast_concat]

lemma submissions_concat (key : ProposalKey) (before : List (Tx × OracleCall))
    (c : Tx × OracleCall) :
    submissions key (before ++ [c]) = submissions key before ++ (submission key c).toList := by
  rw [submissions, filterMap_append, filterMap_cons]
  cases submission key c <;> rfl

lemma Recorded.call (hlib : env.lib.Faithful) {before : List (Tx × OracleCall)}
    (h : Recorded (submissions key before) key s) (hexec : exec env c s = .ok s') :
    Recorded (submissions key (before ++ [c])) key s' := by
  rw [submissions_concat]
  rcases exec_effect hlib hexec with ⟨k, part, hpart, hother, hadd, -⟩ |
    ⟨k, value, hnone, htree, -, -⟩ | ⟨k, hnone, htree, -, -, -⟩
  · by_cases hkey : key = k
    · subst hkey
      rw [hpart]
      exact h.add hadd
    · rw [hother key hkey]
      exact (append_nil _).symm ▸ h.keep (hadd.others key hkey)
  all_goals
    rw [hnone]
    exact (append_nil _).symm ▸ h.keep (htree key)

lemma run_recorded (hlib : env.lib.Faithful) (calls : List (Tx × OracleCall)) (key : ProposalKey) :
    Recorded (submissions key (Run.successes (exec env) calls .deployed)) key
      (Run.runAll (exec env) calls .deployed) := by
  have hstep : ∀ before c s s', Recorded (submissions key before) key s →
      exec env c s = .ok s' → Recorded (submissions key (before ++ [c])) key s' :=
    fun _ _ _ _ hrec hexec => hrec.call hlib hexec
  have hstart : Recorded (submissions key []) key .deployed := recorded_deployed key
  exact Run.runAll_successes_inv hstep calls hstart

/-! ## Bonds -/

/-- The balance covers all bonds. -/
def Funded (s : Oracle) : Prop :=
  ∀ keys : Finset ProposalKey, ∑ k ∈ keys, s.proposalBonds k ≤ s.balance

lemma Funded.le (h : Funded s) (key : ProposalKey) : s.proposalBonds key ≤ s.balance := by
  have hone := h {key}
  rwa [Finset.sum_singleton] at hone

lemma sum_update_le (f : ProposalKey → ℕ) (key : ProposalKey) (value : ℕ)
    (keys : Finset ProposalKey) :
    ∑ k ∈ keys, update f key value k + f key ≤ ∑ k ∈ insert key keys, f k + value := by
  calc ∑ k ∈ keys, update f key value k + f key
      ≤ ∑ k ∈ insert key keys, update f key value k + f key :=
        Nat.add_le_add_right (Finset.sum_le_sum_of_subset (Finset.subset_insert key keys)) _
    _ = ∑ k ∈ insert key keys, f k + value :=
        sum_update_add f value (Finset.mem_insert_self key keys)

lemma Funded.step (hlib : env.lib.Faithful) (h : Funded s) {c : Tx × OracleCall}
    (hexec : exec env c s = .ok s') : Funded s' := by
  intro keys
  rcases exec_effect hlib hexec with ⟨k, part, -, -, -, hfunds⟩ |
    ⟨k, value, -, -, hbonds, hbal⟩ | ⟨k, -, -, hle, hbonds, hbal⟩
  · rw [hfunds.bonds, hfunds.balance]
    exact h keys
  · have hsum := sum_update_le s.proposalBonds k value keys
    have hcov := h (insert k keys)
    rw [hbonds]
    omega
  · have hsum := sum_update_le s.proposalBonds k 0 keys
    have hcov := h (insert k keys)
    rw [hbonds]
    omega

lemma run_funded (hlib : env.lib.Faithful) (calls : List (Tx × OracleCall)) :
    Funded (Run.runAll (exec env) calls .deployed) := by
  apply Run.runAll_inv
  · intro c _ s s' hs hexec
    exact hs.step hlib hexec
  · intro keys
    simp [deployed]

/-! ## Finished proposals -/

def inputOf (parts : List InputData) : Bytes := parts.flatMap InputData.input

def commitmentsOf (parts : List InputData) : List Hash := parts.flatMap InputData.commitments

/-- A proposal whose last part was submitted. -/
def Finished (parts : List InputData) : Prop :=
  parts.getLast?.map InputData.finalize = some true

lemma blocksOf_unfinished (hsized : ∀ part ∈ parts, part.WellSized)
    (hopen : ∀ part ∈ parts, part.finalize = false) :
    (inputOf parts).length = (commitmentsOf parts).length * blockSize ∧
      blocksOf parts =
        (chunks (commitmentsOf parts).length (inputOf parts)).zip (commitmentsOf parts) := by
  induction parts with
  | nil => exact ⟨rfl, rfl⟩
  | cons part parts ih =>
    obtain ⟨hlen, hblks⟩ := ih (fun p hp => hsized p (mem_cons_of_mem _ hp))
      (fun p hp => hopen p (mem_cons_of_mem _ hp))
    have hpad : part.padded = part.input := by grind [InputData.padded]
    have hpart : part.input.length = part.commitments.length * blockSize := by
      rw [← hpad]
      exact hsized part mem_cons_self
    have hinput : inputOf (part :: parts) = part.input ++ inputOf parts := flatMap_cons
    have hcomm : commitmentsOf (part :: parts) = part.commitments ++ commitmentsOf parts :=
      flatMap_cons
    have hcons : blocksOf (part :: parts) = part.blocks ++ blocksOf parts := flatMap_cons
    constructor
    · grind
    · rw [hinput, hcomm, hcons, hblks, InputData.blocks, hpad, length_append,
        chunks_append _ _ hpart, zip_append (length_chunks _ _)]

/-- The blocks of a finished proposal are those of its padded input. -/
theorem Recorded.blocksOf_eq (h : Recorded parts key s) (hfinished : Finished parts) :
    (commitmentsOf parts).length = (paddedBlocks (inputOf parts)).length ∧
      blocksOf parts = claimedBlocks (inputOf parts) (commitmentsOf parts) := by
  obtain ⟨part, hlast, hfin⟩ := Option.map_eq_some_iff.mp hfinished
  obtain ⟨before, rfl⟩ := getLast?_eq_some_iff.mp hlast
  have hopen := h.finished
  rw [dropLast_concat] at hopen
  obtain ⟨hlen, hblks⟩ := blocksOf_unfinished (fun p hp => h.sized p (mem_append_left _ hp)) hopen
  have hsized := h.sized part (mem_append_right _ (mem_singleton_self part))
  have hpad : part.padded = padBytes part.input := by
    rw [InputData.padded, hfin]
    rfl
  have hcnt : part.commitments.length = part.input.length / blockSize + 1 := by
    rw [InputData.WellSized, hpad, length_padBytes] at hsized
    exact (Nat.eq_of_mul_eq_mul_right (by decide) hsized).symm
  have hinput : inputOf (before ++ [part]) = inputOf before ++ part.input := by
    rw [inputOf, flatMap_append, flatMap_singleton]
    rfl
  have hcomm : commitmentsOf (before ++ [part]) = commitmentsOf before ++ part.commitments := by
    rw [commitmentsOf, flatMap_append, flatMap_singleton]
    rfl
  have hpaddedBlocks := paddedBlocks_append part.input hlen
  rw [hinput, hcomm, claimedBlocks, hpaddedBlocks]
  constructor
  · rw [length_append, length_append, length_chunks, length_paddedBlocks, hcnt]
  · rw [blocksOf_append, hblks, zip_append (length_chunks _ _), InputData.blocks, hpad, hcnt]
    rfl

end FightNight.Preimage
