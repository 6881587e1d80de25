import FightNight.Contracts.Basic
import FightNight.Dispute.Position
import FightNight.Library.Run

/-!
# The dispute game

The contract `FaultDisputeGame` (`packages/contracts-bedrock/src/dispute/FaultDisputeGame.sol`).
Claims about the states of a program are attacked and defended, each with a bond, until a claim at
the greatest depth is left, which one step of a virtual machine decides.  Down to the split depth
the claims are about output roots, below it about the execution between two of them.  When the
clocks have run out, the claims are resolved, the deepest ones first, and each bond goes to the
claimant or to whoever countered the claim.

The virtual machine with its oracle and the update of the anchor state are part of a transaction.
`FixedPointMathLib`, which is not part of the repository, and `keccak256` are parameters.  The
contract that holds the bonds is modelled by the balance of the game there.  A call can only carry
value that exists and is not among the bonds already.
-/

namespace FightNight.Dispute

open FightNight.Except Checked Function
open Preimage (Hash)

/-! ## Types -/

inductive GameStatus where
  | inProgress
  | challengerWins
  | defenderWins
  deriving DecidableEq

/-- `Clock`: the fields of the packed word. -/
structure Clock where
  duration : ℕ
  timestamp : ℕ
  deriving DecidableEq

structure ClaimData where
  parentIndex : ℕ
  counteredBy : Address
  claimant : Address
  bond : ℕ
  claim : Hash
  position : ℕ
  clock : Clock
  deriving DecidableEq

structure ResolutionCheckpoint where
  initialCheckpointComplete : Bool
  subgameIndex : ℕ
  leftmostPosition : ℕ
  counteredBy : Address
  deriving DecidableEq

structure OutputRoot where
  root : Hash
  l2BlockNumber : ℕ
  deriving DecidableEq

structure OutputRootProof where
  version : Hash
  stateRoot : Hash
  messagePasserStorageRoot : Hash
  latestBlockhash : Hash

/-- `FixedPointMathLib.WAD`, one in fixed-point numbers. -/
def wad : ℕ := 10 ^ 18

/-- The functions of `FixedPointMathLib` that `getRequiredBond` uses.  Powers of numbers from one on,
with exponents that are not negative, are not below one, up to rounding. -/
structure FixedPointMathLib where
  lnWad : ℤ → Except GameRevert ℤ
  expWad : ℤ → Except GameRevert ℤ
  powWad : ℤ → ℤ → Except GameRevert ℤ
  le_expWad : ∀ {x z : ℤ}, 0 ≤ x → expWad x = .ok z → wad ≤ z
  powWad_bounds : ∀ {x y z : ℤ}, wad ≤ x → 0 ≤ y → powWad x y = .ok z → wad ≤ 2 * z ∧ z < 2 ^ 255

/-- The immutable variables, with what the constructor checks, the arguments of the clone, and the
functions that are parameters. -/
structure GameEnv where
  absolutePrestate : Hash
  maxGameDepth : ℕ
  splitDepth : ℕ
  maxClockDuration : ℕ
  clockExtension : ℕ
  l2ChainId : ℕ
  gameCreator : Address
  rootClaim : Hash
  l1Head : Hash
  l2BlockNumber : ℕ
  keccak256 : Bytes → Hash
  fixedPoint : FixedPointMathLib
  maxGameDepth_le : maxGameDepth ≤ LibPosition.maxPositionBitlen - 1
  splitDepth_lt : splitDepth < maxGameDepth
  clockExtension_le : clockExtension ≤ maxClockDuration

/-- The storage of the contract, and its balance of wrapped ether. -/
structure Game where
  createdAt : ℕ
  resolvedAt : ℕ
  status : GameStatus
  initialized : Bool
  l2BlockNumberChallenged : Bool
  l2BlockNumberChallenger : Address
  claimData : List ClaimData
  credit : Address → ℕ
  claims : Hash → Bool
  subgames : ℕ → List ℕ
  resolvedSubgames : ℕ → Bool
  resolutionCheckpoints : ℕ → ResolutionCheckpoint
  startingOutputRoot : OutputRoot
  wethBalance : ℕ

/-- A transaction: `msg.sender`, which is no zero address, `msg.value`, `block.timestamp`, the virtual
machine for a state, a proof and a local context, and the update of the anchor state. -/
structure GameTx where
  sender : Address
  sender_ne_zero : sender ≠ 0
  value : ℕ
  timestamp : ℕ
  vm : Bytes → Bytes → Hash → Except GameRevert Hash
  tryUpdateAnchorState : Except GameRevert Unit

namespace Game

variable (env : GameEnv)

/-- The storage before `initialize`. -/
def deployed : Game where
  createdAt := 0
  resolvedAt := 0
  status := .inProgress
  initialized := false
  l2BlockNumberChallenged := false
  l2BlockNumberChallenger := 0
  claimData := []
  credit := fun _ => 0
  claims := fun _ => false
  subgames := fun _ => []
  resolvedSubgames := fun _ => false
  resolutionCheckpoints := fun _ => ⟨false, 0, 0, 0⟩
  startingOutputRoot := ⟨Hash.zero, 0⟩
  wethBalance := 0

/-- `type(uint32).max`, the parent of the root claim. -/
def noParent : ℕ := 2 ^ 32 - 1

/-- `initialize`, for the anchor that the registry answers with.  The size of the call data, which is
checked against the arguments of the clone, is not modelled. -/
def initializeGame (tx : GameTx) (anchor : OutputRoot) (s : Game) : Except GameRevert Game := do
  revertIf (s.initialized = true) .alreadyInitialized
  revertIf (anchor.root = Hash.zero) .anchorRootNotFound
  revertIf (env.l2BlockNumber ≤ anchor.l2BlockNumber) (.unexpectedRootClaim env.rootClaim)
  pure { s with
    startingOutputRoot := anchor
    claimData := s.claimData ++ [{
      parentIndex := noParent
      counteredBy := 0
      claimant := env.gameCreator
      bond := tx.value % 2 ^ 128
      claim := env.rootClaim
      position := 1
      clock := ⟨0, tx.timestamp % 2 ^ 64⟩ }]
    initialized := true
    wethBalance := s.wethBalance + tx.value
    createdAt := tx.timestamp % 2 ^ 64 }

/-- `claimData[index]`. -/
def claimAt (s : Game) (index : ℕ) : Except GameRevert ClaimData :=
  match s.claimData[index]? with
  | some claim => .ok claim
  | none => .error (.panic 0x32)

/-! ## Walks up the claims -/

/-- The loop of `_findTraceAncestor`.  A walk that visits more claims than there are does not end. -/
def walkTo (s : Game) (target : ℕ) : ℕ → ℕ → Except GameRevert ClaimData
  | 0, _ => .error .outOfGas
  | visits + 1, index => do
    let ancestor ← s.claimAt index
    if ancestor.position = target then pure ancestor
    else walkTo s target visits ancestor.parentIndex

/-- The position that `_findTraceAncestor` looks for. -/
def traceAncestorPos (pos : ℕ) (isGlobal : Bool) : Except GameRevert ℕ :=
  if isGlobal then pure (LibPosition.traceAncestor pos)
  else LibPosition.traceAncestorBounded pos env.splitDepth

def findTraceAncestor (pos start : ℕ) (isGlobal : Bool) (s : Game) :
    Except GameRevert ClaimData := do
  let target ← traceAncestorPos env pos isGlobal
  s.walkTo target (s.claimData.length + 1) start

/-- The claims that `_findStartingAndDisputedOutputs` stops at. -/
structure SplitClaims where
  execRoot : ClaimData
  output : ClaimData
  outputIdx : ℕ

/-- The loop of `_findStartingAndDisputedOutputs`, from a claim with its index and the root of the
execution game so far. -/
def walkAboveSplit (s : Game) : ℕ → ClaimData → ℕ → ClaimData → Except GameRevert SplitClaims
  | 0, _, _, _ => .error .outOfGas
  | visits + 1, claim, claimIdx, execRoot =>
    let currentDepth := LibPosition.depth claim.position
    if env.splitDepth < currentDepth then do
      let execRoot := if currentDepth = env.splitDepth + 1 then claim else execRoot
      let parent ← s.claimAt claim.parentIndex
      walkAboveSplit s visits parent claim.parentIndex execRoot
    else pure ⟨execRoot, claim, claimIdx⟩

/-- `Position.wrap(pos.raw() + 1)`. -/
def nextPosition (pos : ℕ) : Except GameRevert ℕ :=
  if pos + 1 < 2 ^ 128 then .ok (pos + 1) else .error (.panic 0x11)

/-- `Position.wrap(pos.raw() - 1)`. -/
def prevPosition (pos : ℕ) : Except GameRevert ℕ := Checked.sub (.panic 0x11) pos 1

/-- The results of `_findStartingAndDisputedOutputs`. -/
structure Outputs where
  startingClaim : Hash
  startingPos : ℕ
  disputedClaim : Hash
  disputedPos : ℕ
  deriving DecidableEq

def findStartingAndDisputedOutputs (start : ℕ) (s : Game) : Except GameRevert Outputs := do
  let claim ← s.claimAt start
  revertIf (LibPosition.depth claim.position ≤ env.splitDepth) .claimAboveSplit
  let ⟨execRoot, output, outputIdx⟩ ← s.walkAboveSplit env (s.claimData.length + 1) claim start claim
  let wasAttack : Bool := LibPosition.parent execRoot.position = output.position
  if wasAttack then
    if 0 < LibPosition.indexAtDepth output.position then do
      let pos ← prevPosition output.position
      let starting ← s.findTraceAncestor env pos outputIdx true
      pure ⟨starting.claim, starting.position, output.claim, output.position⟩
    else pure ⟨s.startingOutputRoot.root, 0, output.claim, output.position⟩
  else do
    let pos ← nextPosition output.position
    let disputed ← s.findTraceAncestor env pos outputIdx true
    pure ⟨output.claim, output.position, disputed.claim, disputed.position⟩

def computeLocalContext (o : Outputs) : Hash :=
  if o.startingPos = 0 then env.keccak256 (o.disputedClaim.1 ++ beBytes 32 o.disputedPos)
  else env.keccak256 (o.startingClaim.1 ++ beBytes 32 o.startingPos ++ o.disputedClaim.1 ++
    beBytes 32 o.disputedPos)

def findLocalContext (claimIndex : ℕ) (s : Game) : Except GameRevert Hash := do
  let outputs ← s.findStartingAndDisputedOutputs env claimIndex
  pure (computeLocalContext env outputs)

/-! ## Local data -/

/-- The arguments of `oracle.loadLocalData`. -/
structure LocalData where
  ident : ℕ
  localContext : Hash
  word : Hash
  size : ℕ
  partOffset : ℕ
  deriving DecidableEq

/-- `bytes32` of a machine word. -/
def bytes32 (n : ℕ) : Hash := ⟨beBytes 32 n, length_beBytes 32 n⟩

/-- `addLocalData`: what is loaded into the oracle. -/
def addLocalData (ident execLeafIdx partOffset : ℕ) (s : Game) : Except GameRevert LocalData := do
  revertIf (s.status ≠ .inProgress) .gameNotInProgress
  let outputs ← s.findStartingAndDisputedOutputs env execLeafIdx
  let uuid := computeLocalContext env outputs
  match ident with
  | 1 => pure ⟨ident, uuid, env.l1Head, 32, partOffset⟩
  | 2 => pure ⟨ident, uuid, outputs.startingClaim, 32, partOffset⟩
  | 3 => pure ⟨ident, uuid, outputs.disputedClaim, 32, partOffset⟩
  | 4 => do
    let block ← add (.panic 0x11) s.startingOutputRoot.l2BlockNumber
      (LibPosition.traceIndex outputs.disputedPos env.splitDepth)
    let l2Number ← add (.panic 0x11) block 1
    pure ⟨ident, uuid, bytes32 (Word.shl 0xC0 l2Number), 8, partOffset⟩
  | 5 => pure ⟨ident, uuid, bytes32 (Word.shl 0xC0 env.l2ChainId), 8, partOffset⟩
  | _ => .error .invalidLocalIdent

/-! ## Moves -/

def mulWad (x y : ℕ) : Except GameRevert ℕ := do
  let product ← mul .bare x y
  pure (product / wad)

def divWad (x y : ℕ) : Except GameRevert ℕ := do
  let product ← mul .bare x wad
  div .bare product y

/-- The conversion of `int256` to `uint256`. -/
def toUint256 (z : ℤ) : ℕ := (z % 2 ^ 256).toNat

/-- The conversion of `uint256` to `int256`. -/
def toInt256 (n : ℕ) : ℤ := if n < 2 ^ 255 then n else n - 2 ^ 256

def getRequiredBond (position : ℕ) : Except GameRevert ℕ := do
  let depth := LibPosition.depth position
  revertIf (env.maxGameDepth < depth) .gameDepthExceeded
  let assumedBaseFee := 200 * 10 ^ 9
  let baseGasCharged := 400000
  let highGasCharged := 300000000
  let a := highGasCharged / baseGasCharged
  let b := wad
  let c ← mul (.panic 0x11) env.maxGameDepth wad
  let lnA ← env.fixedPoint.lnWad (toInt256 (a * wad))
  let bOverC ← divWad b c
  let numerator ← mulWad (toUint256 lnA) bOverC
  let base ← env.fixedPoint.expWad (toInt256 numerator)
  let exponent ← mul (.panic 0x11) depth wad
  let rawGas ← env.fixedPoint.powWad base (toInt256 exponent)
  let requiredGas ← mulWad baseGasCharged (toUint256 rawGas)
  mul (.panic 0x11) assumedBaseFee requiredGas

/-- The duration on the clock of the parent of a claim, if it exists. -/
def parentDuration (claim : ClaimData) (s : Game) : Except GameRevert ℕ :=
  if claim.parentIndex = noParent then pure 0
  else do
    let parent ← s.claimAt claim.parentIndex
    pure parent.clock.duration

def getChallengerDuration (tx : GameTx) (claimIndex : ℕ) (s : Game) : Except GameRevert ℕ := do
  revertIf (s.status ≠ .inProgress) .gameNotInProgress
  let subgameRootClaim ← s.claimAt claimIndex
  let parentDuration ← s.parentDuration subgameRootClaim
  let elapsed ← sub (.panic 0x11) tx.timestamp subgameRootClaim.clock.timestamp
  let total ← add (.panic 0x11) parentDuration elapsed
  let challengeDuration := total % 2 ^ 64
  pure (if env.maxClockDuration < challengeDuration then env.maxClockDuration else challengeDuration)

/-- The extension of a clock, which is doubled when the grandchild is the root of an execution
game. -/
def extensionPeriod (nextPositionDepth : ℕ) : Except GameRevert ℕ := do
  let aboveLeaf ← sub (.panic 0x11) env.splitDepth 1
  if nextPositionDepth = aboveLeaf then
    if env.clockExtension * 2 < 2 ^ 64 then pure (env.clockExtension * 2) else .error (.panic 0x11)
  else pure env.clockExtension

/-- The part of `move` that grants the grandchild's clock an extension. -/
def extendClock (nextPositionDepth nextDuration : ℕ) : Except GameRevert ℕ := do
  let threshold ← sub (.panic 0x11) env.maxClockDuration env.clockExtension
  if threshold < nextDuration then do
    let extensionPeriod ← extensionPeriod env nextPositionDepth
    sub (.panic 0x11) env.maxClockDuration extensionPeriod
  else pure nextDuration

def verifyExecBisectionRoot (rootClaim : Hash) (parentIdx parentPos : ℕ) (isAttack : Bool)
    (s : Game) : Except GameRevert Unit := do
  let disputedLeafPos ← nextPosition parentPos
  let disputed ← s.findTraceAncestor env disputedLeafPos parentIdx true
  let vmStatus := rootClaim.1.getD 0 0
  if isAttack = true ∨ LibPosition.depth disputed.position % 2 = env.splitDepth % 2 then
    revertIf (¬(vmStatus = 1 ∨ vmStatus = 2)) (.unexpectedRootClaim rootClaim)
  else
    revertIf (vmStatus ≠ 0) (.unexpectedRootClaim rootClaim)

/-- The extra check of `move` for a position below the split depth. -/
def checkExecBisectionRoot (nextPositionDepth : ℕ) (claim : Hash) (challengeIndex parentPos : ℕ)
    (isAttack : Bool) (s : Game) : Except GameRevert Unit :=
  if nextPositionDepth = env.splitDepth + 1 then
    s.verifyExecBisectionRoot env claim challengeIndex parentPos isAttack
  else pure ()

def hashClaimPos (claim : Hash) (position challengeIndex : ℕ) : Hash :=
  env.keccak256 (claim.1 ++
    beBytes 32 (Word.shl 128 position ||| challengeIndex % 2 ^ 128))

def move (tx : GameTx) (disputed : Hash) (challengeIndex : ℕ) (claim : Hash) (isAttack : Bool)
    (s : Game) : Except GameRevert Game := do
  revertIf (s.status ≠ .inProgress) .gameNotInProgress
  let parent ← s.claimAt challengeIndex
  revertIf (parent.claim ≠ disputed) .invalidDisputedClaimIndex
  let nextPosition := LibPosition.move parent.position isAttack
  let nextPositionDepth := LibPosition.depth nextPosition
  revertIf ((challengeIndex = 0 ∨ nextPositionDepth = env.splitDepth + 2) ∧ isAttack = false)
    .cannotDefendRootClaim
  revertIf (s.l2BlockNumberChallenged = true ∧ challengeIndex = 0) .l2BlockNumberChallenged
  revertIf (env.maxGameDepth < nextPositionDepth) .gameDepthExceeded
  s.checkExecBisectionRoot env nextPositionDepth claim challengeIndex parent.position isAttack
  let requiredBond ← getRequiredBond env nextPosition
  revertIf (requiredBond ≠ tx.value) .incorrectBondAmount
  let challengerDuration ← s.getChallengerDuration env tx challengeIndex
  revertIf (challengerDuration = env.maxClockDuration) .clockTimeExceeded
  let nextDuration ← extendClock env nextPositionDepth challengerDuration
  let claimHash := hashClaimPos env claim nextPosition challengeIndex
  revertIf (s.claims claimHash = true) .claimAlreadyExists
  pure { s with
    claims := update s.claims claimHash true
    claimData := s.claimData ++ [{
      parentIndex := challengeIndex % 2 ^ 32
      counteredBy := 0
      claimant := tx.sender
      bond := tx.value % 2 ^ 128
      claim := claim
      position := nextPosition
      clock := ⟨nextDuration, tx.timestamp % 2 ^ 64⟩ }]
    subgames := update s.subgames challengeIndex
      (s.subgames challengeIndex ++ [s.claimData.length])
    wethBalance := s.wethBalance + tx.value }

/-! ## Steps -/

/-- The states before and after a step: the claim about the first and the data of the second. -/
def stepStates (parent : ClaimData) (stepPos : ℕ) (isAttack : Bool) (s : Game) :
    Except GameRevert (Hash × ClaimData) :=
  if isAttack then
    if LibPosition.indexAtDepth stepPos % 2 ^ (env.maxGameDepth - env.splitDepth) = 0 then
      pure (env.absolutePrestate, parent)
    else do
      let pos ← prevPosition parent.position
      let preState ← s.findTraceAncestor env pos parent.parentIndex false
      pure (preState.claim, parent)
  else do
    let pos ← nextPosition parent.position
    let postState ← s.findTraceAncestor env pos parent.parentIndex false
    pure (parent.claim, postState)

def step (tx : GameTx) (claimIndex : ℕ) (isAttack : Bool) (stateData proof : Bytes) (s : Game) :
    Except GameRevert Game := do
  revertIf (s.status ≠ .inProgress) .gameNotInProgress
  let parent ← s.claimAt claimIndex
  let stepPos := LibPosition.move parent.position isAttack
  revertIf (LibPosition.depth stepPos ≠ env.maxGameDepth + 1) .invalidParent
  let (preStateClaim, postState) ← s.stepStates env parent stepPos isAttack
  revertIf ((env.keccak256 stateData).1.drop 1 ≠ preStateClaim.1.drop 1) .invalidPrestate
  let uuid ← s.findLocalContext env claimIndex
  let postStateHash ← tx.vm stateData proof uuid
  let validStep : Bool := postStateHash = postState.claim
  let depthDiff ← sub (.panic 0x11) (LibPosition.depth parent.position)
    (LibPosition.depth postState.position)
  let parentPostAgree : Bool := depthDiff % 2 = 0
  revertIf (parentPostAgree = validStep) .validStep
  revertIf (parent.counteredBy ≠ 0) .duplicateStep
  pure { s with claimData := s.claimData.set claimIndex { parent with counteredBy := tx.sender } }

/-! ## The block number of the root claim -/

def hashOutputRootProof (proof : OutputRootProof) : Hash :=
  env.keccak256 (proof.version.1 ++ proof.stateRoot.1 ++ proof.messagePasserStorageRoot.1 ++
    proof.latestBlockhash.1)

def headerBlockNumberIndex : ℕ := 8

/-- The block number in a header, as `challengeRootL2Block` decodes it. -/
def headerBlockNumber (headerRLP : Bytes) : Except GameRevert ℕ := do
  let headerContents ← ((RLPReader.toRLPItem headerRLP).bind RLPReader.readList).mapError .rlp
  match headerContents[headerBlockNumberIndex]? with
  | none => .error (.panic 0x32)
  | some item => do
    let rawBlockNumber ← (RLPReader.readBytes item).mapError .rlp
    revertIf (32 < rawBlockNumber.length) .invalidHeaderRLP
    pure (beNat rawBlockNumber)

def challengeRootL2Block (tx : GameTx) (proof : OutputRootProof) (headerRLP : Bytes) (s : Game) :
    Except GameRevert Game := do
  revertIf (s.status ≠ .inProgress) .gameNotInProgress
  revertIf (s.l2BlockNumberChallenged = true) .l2BlockNumberChallenged
  revertIf (hashOutputRootProof env proof ≠ env.rootClaim) .invalidOutputRootProof
  revertIf (env.keccak256 headerRLP ≠ proof.latestBlockhash) .invalidHeaderRLP
  let blockNumber ← headerBlockNumber headerRLP
  revertIf (blockNumber = env.l2BlockNumber) .blockNumberMatches
  pure { s with l2BlockNumberChallenger := tx.sender, l2BlockNumberChallenged := true }

/-! ## Resolution -/

def distributeBond (recipient : Address) (bonded : ClaimData) (s : Game) : Except GameRevert Game := do
  let credited ← add (.panic 0x11) (s.credit recipient) bonded.bond
  pure { s with credit := update s.credit recipient credited }

/-- One round of the loop of `resolveClaim`: an uncountered child further to the left than all
before it takes over. -/
def ResolutionCheckpoint.visit (checkpoint : ResolutionCheckpoint) (claim : ClaimData) :
    ResolutionCheckpoint :=
  if claim.counteredBy = 0 ∧ claim.position < checkpoint.leftmostPosition then
    { checkpoint with counteredBy := claim.claimant, leftmostPosition := claim.position }
  else checkpoint

/-- The loop of `resolveClaim`. -/
def visitChildren (s : Game) : List ℕ → ResolutionCheckpoint → Except GameRevert ResolutionCheckpoint
  | [], checkpoint => pure checkpoint
  | challengeIndex :: rest, checkpoint => do
    revertIf (s.resolvedSubgames challengeIndex = false) .outOfOrderResolution
    let claim ← s.claimAt challengeIndex
    visitChildren s rest (ResolutionCheckpoint.visit checkpoint claim)

/-- The checkpoint and the number of children to resolve, at the first call for a claim. -/
def startCheckpoint (checkpoint : ResolutionCheckpoint) (numToResolve children : ℕ) :
    ResolutionCheckpoint × ℕ :=
  if checkpoint.initialCheckpointComplete then (checkpoint, numToResolve)
  else
    ({ checkpoint with leftmostPosition := 2 ^ 128 - 1, initialCheckpointComplete := true },
      if numToResolve = 0 then children else numToResolve)

/-- The part of `resolveClaim` that visits children: the checkpoint after it. -/
def scanChildren (claimIndex numToResolve : ℕ) (s : Game) :
    Except GameRevert ResolutionCheckpoint := do
  let challengeIndices := s.subgames claimIndex
  let (checkpoint, numToResolve) := startCheckpoint (s.resolutionCheckpoints claimIndex)
    numToResolve challengeIndices.length
  let lastToResolve ← add (.panic 0x11) checkpoint.subgameIndex numToResolve
  let finalCursor := min lastToResolve challengeIndices.length
  let checkpoint ← s.visitChildren
    ((challengeIndices.take finalCursor).drop checkpoint.subgameIndex) checkpoint
  pure { checkpoint with subgameIndex := finalCursor % 2 ^ 32 }

def resolveClaim (tx : GameTx) (claimIndex numToResolve : ℕ) (s : Game) :
    Except GameRevert Game := do
  revertIf (s.status ≠ .inProgress) .gameNotInProgress
  let subgameRootClaim ← s.claimAt claimIndex
  let challengeClockDuration ← s.getChallengerDuration env tx claimIndex
  revertIf (challengeClockDuration < env.maxClockDuration) .clockNotExpired
  revertIf (s.resolvedSubgames claimIndex = true) .claimAlreadyResolved
  if (s.subgames claimIndex).length = 0 ∧ claimIndex ≠ 0 then do
    let recipient := if subgameRootClaim.counteredBy = 0 then subgameRootClaim.claimant
      else subgameRootClaim.counteredBy
    let s ← s.distributeBond recipient subgameRootClaim
    pure { s with resolvedSubgames := update s.resolvedSubgames claimIndex true }
  else do
    let checkpoint ← s.scanChildren claimIndex numToResolve
    let s : Game := { s with
      resolutionCheckpoints := update s.resolutionCheckpoints claimIndex checkpoint }
    if checkpoint.subgameIndex = (s.subgames claimIndex).length then do
      let countered := checkpoint.counteredBy
      let s : Game := { s with resolvedSubgames := update s.resolvedSubgames claimIndex true }
      if claimIndex = 0 ∧ s.l2BlockNumberChallenged = true then do
        let challenger := s.l2BlockNumberChallenger
        let s ← s.distributeBond challenger subgameRootClaim
        pure { s with claimData :=
          s.claimData.set claimIndex { subgameRootClaim with counteredBy := challenger } }
      else do
        let s ← s.distributeBond (if countered = 0 then subgameRootClaim.claimant else countered)
          subgameRootClaim
        pure { s with claimData :=
          s.claimData.set claimIndex { subgameRootClaim with counteredBy := countered } }
    else pure s

def resolve (tx : GameTx) (s : Game) : Except GameRevert Game := do
  revertIf (s.status ≠ .inProgress) .gameNotInProgress
  revertIf (s.resolvedSubgames 0 = false) .outOfOrderResolution
  let root ← s.claimAt 0
  tx.tryUpdateAnchorState
  pure { s with
    status := if root.counteredBy = 0 then .defenderWins else .challengerWins
    resolvedAt := tx.timestamp % 2 ^ 64 }

/-! ## Calls -/

end Game

inductive GameCall where
  | move (disputed : Hash) (challengeIndex : ℕ) (claim : Hash) (isAttack : Bool)
  | step (claimIndex : ℕ) (isAttack : Bool) (stateData proof : Bytes)
  | challengeRootL2Block (proof : OutputRootProof) (headerRLP : Bytes)
  | resolveClaim (claimIndex numToResolve : ℕ)
  | resolve

/-- More wei than there are: the supply of ether is below 150 million. -/
def etherSupply : ℕ := 2 ^ 87

namespace Game

variable (env : GameEnv)

/-- One call: a move carries value, which must exist; the other functions are not payable. -/
def exec : GameTx × GameCall → Game → Except GameRevert Game
  | (tx, .move disputed challengeIndex claim isAttack), s => do
    revertIf (etherSupply ≤ s.wethBalance + tx.value) .bare
    s.move env tx disputed challengeIndex claim isAttack
  | (tx, .step claimIndex isAttack stateData proof), s => do
    revertIf (tx.value ≠ 0) .bare
    s.step env tx claimIndex isAttack stateData proof
  | (tx, .challengeRootL2Block proof headerRLP), s => do
    revertIf (tx.value ≠ 0) .bare
    s.challengeRootL2Block env tx proof headerRLP
  | (tx, .resolveClaim claimIndex numToResolve), s => do
    revertIf (tx.value ≠ 0) .bare
    s.resolveClaim env tx claimIndex numToResolve
  | (tx, .resolve), s => do
    revertIf (tx.value ≠ 0) .bare
    s.resolve tx

/-- The game after `initialize`, which carries value that must exist. -/
def created (tx : GameTx) (anchor : OutputRoot) : Except GameRevert Game := do
  revertIf (etherSupply ≤ tx.value) .bare
  deployed.initializeGame env tx anchor

/-- A game that was created, and then called in any way. -/
def Reachable (s : Game) : Prop :=
  ∃ tx anchor s₀ calls, created env tx anchor = .ok s₀ ∧ s = Run.runAll (exec env) calls s₀

end Game

end FightNight.Dispute
