import FightNight.Contracts.Basic
import FightNight.Library.Run
import FightNight.Preimage.Matrix

/-!
# The preimage oracle

The large-preimage functions of the contract `PreimageOracle`
(`packages/contracts-bedrock/src/cannon/PreimageOracle.sol`): a claimant posts a preimage in
parts, together with a commitment to the state of the hash function after each block; the leaves
go into an incremental Merkle tree of which only a branch is stored.  After the last part
everybody can show that a commitment is wrong, and when nobody has done so in time, the preimage
is made available.

The packed metadata word is modelled by the record of its fields, and the storage array
`zeroHashes` by the function of the same name.  The library `LibKeccak`, which is not part of the
repository, and the immutable variables are parameters.  A bond is paid out by the last statement
of a function, so that calls that the receiver makes in turn are calls after it; whether the
receiver takes the bond is part of the transaction.

`challengeTx` is `ChallengeTx` of `op-challenger/game/fault/contracts/oracle.go`.
-/

namespace FightNight.Preimage

open FightNight.Except Checked MerkleTree Function

/-! ## Types -/

inductive OracleRevert where
  /-- A compiler-inserted check failed; `0x11` is arithmetic overflow or underflow. -/
  | panic (code : ℕ)
  /-- Value sent to a function that is not payable, or a revert inside `LibKeccak`. -/
  | bare
  | partOffsetOOB
  | invalidProof
  | invalidPreimage
  | invalidInputSize
  | wrongStartingBlock
  | statesNotContiguous
  | postStateMatches
  | treeSizeOverflow
  | alreadyFinalized
  | activeProposal
  | badProposal
  | notInitialized
  | notEOA
  | insufficientBond
  | bondTransferFailed
  deriving DecidableEq

/-- The functions of `LibKeccak` that the contract uses. -/
structure LibKeccak where
  pad : Bytes → Bytes
  absorb : StateSnapshot → Bytes → Except OracleRevert StateSnapshot
  permutation : StateSnapshot → StateSnapshot
  squeeze : StateSnapshot → Hash

/-- The immutable variables and the library. -/
structure OracleEnv where
  minProposalSize : ℕ
  challengePeriod : ℕ
  lib : LibKeccak

/-- The fields of `LPPMetaData`. -/
structure LPPMetaData where
  timestamp : UInt64
  partOffset : UInt32
  claimedSize : UInt32
  blocksProcessed : UInt32
  bytesProcessed : UInt32
  countered : Bool

/-- `LargePreimageProposalKeys`: the claimant and the UUID of a proposal. -/
abbrev ProposalKey := Address × Fin (2 ^ 256)

instance ProposalKey.neZero : NeZero (2 ^ 256) := inferInstance

/-- The storage of the contract and its balance. -/
structure Oracle where
  preimageLengths : Hash → ℕ
  preimageParts : Hash → ℕ → Hash
  preimagePartOk : Hash → ℕ → Bool
  proposals : List ProposalKey
  proposalBranches : ProposalKey → ℕ → Hash
  proposalMetadata : ProposalKey → LPPMetaData
  proposalBonds : ProposalKey → ℕ
  proposalParts : ProposalKey → Hash
  proposalBlocks : ProposalKey → List UInt64
  balance : ℕ

/-- A transaction: `msg.sender`, `tx.origin`, `msg.value`, `block.timestamp`, which is a time after
1970, `block.number`, and whether the receiver of a bond takes it. -/
structure Tx where
  sender : Address
  origin : Address
  value : ℕ
  timestamp : UInt64
  timestamp_ne_zero : timestamp ≠ 0
  number : ℕ
  accepts : Bool

/-- `Leaf` of the contract. -/
structure OracleLeaf where
  input : Bytes
  index : ℕ
  stateCommitment : Hash

/-- `_hashLeaf`. -/
def OracleLeaf.hash (l : OracleLeaf) : Hash := hashLeaf l.input l.index l.stateCommitment

/-- The arguments of `addLeavesLPP`; `tail` is the calldata behind `input`. -/
structure LeavesArgs where
  inputStartBlock : ℕ
  input : Bytes
  tail : Bytes
  stateCommitments : List Hash
  finalize : Bool

/-- A leaf with its proof: the words of calldata from the start of the proof.  The contract reads
sixteen of them, whatever the length of the array is. -/
structure ProvedLeaf where
  leaf : OracleLeaf
  proof : ℕ → Hash

/-- The calls that are modelled. -/
inductive OracleCall where
  | initLPP (uuid : Fin (2 ^ 256)) (partOffset claimedSize : UInt32)
  | addLeavesLPP (uuid : Fin (2 ^ 256)) (args : LeavesArgs)
  | challengeLPP (key : ProposalKey) (stateMatrix : StateSnapshot) (pre post : ProvedLeaf)
  | challengeFirstLPP (key : ProposalKey) (post : ProvedLeaf)
  | squeezeLPP (key : ProposalKey) (stateMatrix : StateSnapshot) (pre post : ProvedLeaf)

namespace Oracle

def deployed : Oracle where
  preimageLengths := fun _ => 0
  preimageParts := fun _ _ => Hash.zero
  preimagePartOk := fun _ _ => false
  proposals := []
  proposalBranches := fun _ _ => Hash.zero
  proposalMetadata := fun _ => ⟨0, 0, 0, 0, 0, false⟩
  proposalBonds := fun _ => 0
  proposalParts := fun _ => Hash.zero
  proposalBlocks := fun _ => []
  balance := 0

variable (env : OracleEnv)

/-! ## Proposing -/

/-- `MIN_BOND_SIZE`: 0.25 ether. -/
def minBondSize : ℕ := 250000000000000000

def initLPP (tx : Tx) (uuid : Fin (2 ^ 256)) (partOffset claimedSize : UInt32) (s : Oracle) :
    Except OracleRevert Oracle := do
  revertIf (tx.value < minBondSize) .insufficientBond
  revertIf (tx.sender ≠ tx.origin) .notEOA
  -- The sum `_claimedSize + 8` is a checked one of 32 bits.
  revertIf (2 ^ 32 ≤ claimedSize.toNat + 8) (.panic 0x11)
  revertIf (claimedSize.toNat + 8 ≤ partOffset.toNat) .partOffsetOOB
  revertIf (claimedSize.toNat < env.minProposalSize) .invalidInputSize
  let key := (tx.sender, uuid)
  let metaData := s.proposalMetadata key
  pure { s with
    proposalMetadata := update s.proposalMetadata key
      { metaData with partOffset := partOffset, claimedSize := claimedSize }
    proposals := s.proposals ++ [key]
    proposalBonds := update s.proposalBonds key tx.value
    balance := s.balance + tx.value }

/-- `calldataload`: 32 bytes of the calldata, which is continued by zeros. -/
def calldataload (calldata : Bytes) (offset : ℕ) : Hash :=
  Hash.ofBytes (calldata.drop offset)

/-- `_extractPreimagePart`: the part that is stored for the proposal, if there is one. -/
def extractPreimagePart (args : LeavesArgs) (metaData : LPPMetaData) :
    Except OracleRevert (Option Hash) :=
  let offset := metaData.partOffset.toNat
  let currentSize := metaData.bytesProcessed.toNat
  let calldata := args.input ++ args.tail
  if offset < 8 ∧ currentSize = 0 then
    let memory := beBytes 8 metaData.claimedSize.toNat ++ (calldataload calldata 0).1
    .ok (some (Hash.ofBytes (memory.drop offset)))
  else if 8 ≤ offset ∧ currentSize ≤ offset - 8 ∧
      offset - 8 < currentSize + args.input.length then do
    let relativeOffset := offset - 8 - currentSize
    revertIf (args.input.length ≤ relativeOffset + 32 ∧ args.finalize = false)
      .partOffsetOOB
    pure (some (calldataload calldata relativeOffset))
  else .ok none

/-- The loop of `addLeavesLPP`: a leaf for each block goes into the tree. -/
def addBlocks : Bytes → List Hash → ℕ → (ℕ → Hash) → ℕ × (ℕ → Hash)
  | _, [], blocksProcessed, branch => (blocksProcessed, branch)
  | input, commitment :: commitments, blocksProcessed, branch =>
    let node := hashLeaf (input.take blockSize) blocksProcessed commitment
    addBlocks (input.drop blockSize) commitments (blocksProcessed + 1)
      (push hashTwo branch treeDepth 0 (blocksProcessed + 1) node)

def addLeavesLPP (tx : Tx) (uuid : Fin (2 ^ 256)) (args : LeavesArgs) (s : Oracle) :
    Except OracleRevert Oracle := do
  revertIf (tx.value ≠ 0) .bare
  let input := if args.finalize then env.lib.pad args.input else args.input
  let key := (tx.sender, uuid)
  let metaData := s.proposalMetadata key
  revertIf (tx.sender ≠ tx.origin) .notEOA
  revertIf (metaData.claimedSize = 0) .notInitialized
  revertIf (metaData.timestamp ≠ 0) .alreadyFinalized
  revertIf (metaData.blocksProcessed.toNat ≠ args.inputStartBlock) .wrongStartingBlock
  let part ← extractPreimagePart args metaData
  revertIf (input.length % blockSize ≠ 0 ∨
    args.stateCommitments.length ≠ input.length / blockSize) .invalidInputSize
  let (blocksProcessed, branch) := addBlocks input args.stateCommitments
    metaData.blocksProcessed.toNat (s.proposalBranches key)
  revertIf (maxLeafCount < blocksProcessed) .treeSizeOverflow
  let bytesProcessed ← add (.panic 0x11) args.input.length metaData.bytesProcessed.toNat
  let metaData := { metaData with
    blocksProcessed := UInt32.ofNat blocksProcessed
    bytesProcessed := UInt32.ofNat bytesProcessed }
  let metaData := if args.finalize then { metaData with timestamp := tx.timestamp } else metaData
  revertIf (args.finalize = true ∧ metaData.bytesProcessed ≠ metaData.claimedSize)
    .invalidInputSize
  pure { s with
    proposalParts := match part with
      | some part => update s.proposalParts key part
      | none => s.proposalParts
    proposalBranches := update s.proposalBranches key branch
    proposalBlocks := update s.proposalBlocks key
      (s.proposalBlocks key ++ [UInt64.ofNat tx.number])
    proposalMetadata := update s.proposalMetadata key metaData }

/-! ## Challenging and squeezing -/

def getTreeRootLPP (key : ProposalKey) (s : Oracle) : Hash :=
  rootFrom hashTwo zeroHashes (s.proposalBranches key)
    (s.proposalMetadata key).blocksProcessed.toNat Hash.zero treeDepth

def verify (root : Hash) (p : ProvedLeaf) : Bool :=
  climb hashTwo p.leaf.index p.proof treeDepth p.leaf.hash = root

def payoutBond (tx : Tx) (key : ProposalKey) (s : Oracle) : Except OracleRevert Oracle := do
  let bond := s.proposalBonds key
  revertIf (s.balance < bond ∨ tx.accepts = false) .bondTransferFailed
  pure { s with
    proposalBonds := update s.proposalBonds key 0
    balance := s.balance - bond }

/-- The end of a successful challenge: the proposal is countered and the bond goes to the
challenger. -/
def counter (tx : Tx) (key : ProposalKey) (s : Oracle) : Except OracleRevert Oracle :=
  payoutBond tx key { s with
    proposalMetadata := update s.proposalMetadata key
      { s.proposalMetadata key with countered := true } }

/-- What `challengeLPP` and `squeezeLPP` check first: both leaves are in the tree, and the state
matrix is the one that the first of them commits to. -/
def checkLeaves (key : ProposalKey) (stateMatrix : StateSnapshot) (pre post : ProvedLeaf)
    (s : Oracle) : Except OracleRevert Unit := do
  let root := s.getTreeRootLPP key
  revertIf (¬(verify root pre ∧ verify root post)) .invalidProof
  revertIf (stateCommitment stateMatrix.1 ≠ pre.leaf.stateCommitment) .invalidPreimage

def challengeLPP (tx : Tx) (key : ProposalKey) (stateMatrix : StateSnapshot)
    (pre post : ProvedLeaf) (s : Oracle) : Except OracleRevert Oracle := do
  revertIf (tx.value ≠ 0) .bare
  s.checkLeaves key stateMatrix pre post
  let next ← add (.panic 0x11) pre.leaf.index 1
  revertIf (next ≠ post.leaf.index) .statesNotContiguous
  let stateMatrix ← env.lib.absorb stateMatrix post.leaf.input
  let stateMatrix := env.lib.permutation stateMatrix
  revertIf (stateCommitment stateMatrix.1 = post.leaf.stateCommitment) .postStateMatches
  s.counter tx key

def challengeFirstLPP (tx : Tx) (key : ProposalKey) (post : ProvedLeaf) (s : Oracle) :
    Except OracleRevert Oracle := do
  revertIf (tx.value ≠ 0) .bare
  revertIf (¬verify (s.getTreeRootLPP key) post) .invalidProof
  revertIf (post.leaf.index ≠ 0) .statesNotContiguous
  let stateMatrix ← env.lib.absorb zeroState post.leaf.input
  let stateMatrix := env.lib.permutation stateMatrix
  revertIf (stateCommitment stateMatrix.1 = post.leaf.stateCommitment) .postStateMatches
  s.counter tx key

/-- The digest with its first byte replaced by the type of the key. -/
def digestKey (digest : Hash) : Hash := ⟨digest.1.set 0 0x02, by rw [List.length_set, digest.2]⟩

def squeezeLPP (tx : Tx) (key : ProposalKey) (stateMatrix : StateSnapshot)
    (pre post : ProvedLeaf) (s : Oracle) : Except OracleRevert Oracle := do
  revertIf (tx.value ≠ 0) .bare
  let metaData := s.proposalMetadata key
  revertIf (metaData.countered = true) .badProposal
  let elapsed ← sub (.panic 0x11) tx.timestamp.toNat metaData.timestamp.toNat
  revertIf (elapsed ≤ env.challengePeriod) .activeProposal
  s.checkLeaves key stateMatrix pre post
  let next ← add (.panic 0x11) pre.leaf.index 1
  revertIf (next ≠ post.leaf.index) .statesNotContiguous
  let last ← sub (.panic 0x11) metaData.blocksProcessed.toNat 1
  revertIf (post.leaf.index ≠ last) .statesNotContiguous
  let stateMatrix ← env.lib.absorb stateMatrix post.leaf.input
  let stateMatrix := env.lib.permutation stateMatrix
  let finalDigest := digestKey (env.lib.squeeze stateMatrix)
  let partOffset := metaData.partOffset.toNat
  payoutBond tx key { s with
    preimagePartOk := update s.preimagePartOk finalDigest
      (update (s.preimagePartOk finalDigest) partOffset true)
    preimageParts := update s.preimageParts finalDigest
      (update (s.preimageParts finalDigest) partOffset (s.proposalParts key))
    preimageLengths := update s.preimageLengths finalDigest metaData.claimedSize.toNat }

/-! ## Runs -/

def exec : Tx × OracleCall → Oracle → Except OracleRevert Oracle
  | (tx, .initLPP uuid partOffset claimedSize), s => initLPP env tx uuid partOffset claimedSize s
  | (tx, .addLeavesLPP uuid args), s => addLeavesLPP env tx uuid args s
  | (tx, .challengeLPP key stateMatrix pre post), s =>
    challengeLPP env tx key stateMatrix pre post s
  | (tx, .challengeFirstLPP key post), s => challengeFirstLPP env tx key post s
  | (tx, .squeezeLPP key stateMatrix pre post), s => squeezeLPP env tx key stateMatrix pre post s

end Oracle

/-! ## The transaction of a challenge -/

/-- `toPreimageOracleLeaf`, with a proof. -/
def toPreimageOracleLeaf (l : Leaf) (proof : List Hash) : ProvedLeaf :=
  ⟨⟨l.input.1, l.index.toNat, l.stateCommitment⟩, fun i => proof.getD i Hash.zero⟩

def challengeTx (ident : ProposalKey) (challenge : Challenge) : OracleCall :=
  if challenge.prestate = .empty then
    .challengeFirstLPP ident (toPreimageOracleLeaf challenge.poststate challenge.poststateProof)
  else
    .challengeLPP ident challenge.stateMatrix
      (toPreimageOracleLeaf challenge.prestate challenge.prestateProof)
      (toPreimageOracleLeaf challenge.poststate challenge.poststateProof)

/-! ## The library -/

/-- What `LibKeccak` is documented to do: the padding rule of the hash function, absorbing a block
of 136 bytes into the state, and the permutation. -/
structure LibKeccak.Faithful (lib : LibKeccak) : Prop where
  pad_eq : ∀ data, lib.pad data = padBytes data
  absorb_eq : ∀ a input, input.length = blockSize →
    ∃ a', lib.absorb a input = .ok a' ∧ a'.1 = xorIn input a.1
  permutation_eq : ∀ a, (lib.permutation a).1 = keccakF1600 a.1

/-- A library that does what is documented, and refuses other inputs than blocks. -/
def LibKeccak.reference : LibKeccak where
  pad := padBytes
  absorb := fun a input =>
    if input.length = blockSize then .ok ⟨xorIn input a.1, by rw [length_xorIn, a.2]⟩
    else .error .bare
  permutation := fun a => ⟨keccakF1600 a.1, by rw [length_keccakF1600, a.2]⟩
  squeeze := fun a => Hash.ofBytes (copyOut a.1)

lemma LibKeccak.reference_faithful : LibKeccak.reference.Faithful := by
  refine ⟨fun _ => rfl, ?_, fun _ => rfl⟩
  intro a input hlen
  exact ⟨_, if_pos hlen, rfl⟩

lemma LibKeccak.Faithful.absorb_permutation {lib : LibKeccak} (h : lib.Faithful)
    (a : StateSnapshot) {input : Bytes} (hlen : input.length = blockSize) :
    ∃ a', lib.absorb a input = .ok a' ∧ (lib.permutation a').1 = absorbBlock a.1 input := by
  obtain ⟨a', habs, ha'⟩ := h.absorb_eq a input hlen
  refine ⟨a', habs, ?_⟩
  rw [h.permutation_eq, ha']
  rfl

end FightNight.Preimage
