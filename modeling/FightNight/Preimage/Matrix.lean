import FightNight.Library.Checked
import FightNight.Preimage.Tree

/-!
# Finding the first wrong commitment

`op-challenger/game/keccak/matrix/matrix.go`: the state matrix absorbs an input block by block,
builds the leaf of each block from the claimed commitment and adds it to a Merkle tree.
`challenge` returns what is needed to show on chain that the first wrong commitment is wrong.

The source uses the zero value `Leaf{}` as a mark for "no leaf", both for the last leaf of the
state matrix and for the first invalid leaf.  A reader is modelled by the bytes that are left in
it; errors other than the end of its input are not modelled.
-/

namespace FightNight.Preimage

/-! ## Leaves and snapshots -/

/-- `copy` to a new array of the size of a block. -/
def toBlock (input : Bytes) : FixedBytes blockSize :=
  ⟨padTo blockSize (input.take blockSize), length_padTo (by
    rw [List.length_take]
    exact min_le_left _ _)⟩

structure Leaf where
  input : FixedBytes blockSize
  index : UInt64
  stateCommitment : Hash
  deriving DecidableEq

/-- `types.Leaf{}`. -/
def Leaf.empty : Leaf := ⟨⟨zeroBlock, List.length_replicate⟩, 0, Hash.zero⟩

def Leaf.hash (l : Leaf) : Hash := hashLeaf l.input.1 l.index.toNat l.stateCommitment

/-- `types.StateSnapshot`: `[25]uint64`. -/
abbrev StateSnapshot := { a : Lanes // a.length = 25 }

def zeroState : StateSnapshot := ⟨List.replicate 25 0, List.length_replicate⟩

/-- `copy` to a new snapshot. -/
def StateSnapshot.copy (a : Lanes) : StateSnapshot :=
  ⟨(a ++ List.replicate 25 0).take 25, by simp⟩

structure Challenge where
  stateMatrix : StateSnapshot
  prestate : Leaf
  prestateProof : List Hash
  poststate : Leaf
  poststateProof : List Hash

/-- `merkle.Proof{}`. -/
def emptyProof : List Hash := List.replicate treeDepth Hash.zero

/-! ## The state matrix -/

structure StateMatrix where
  s : Sponge
  prestateMatrix : StateSnapshot
  prestateLeaf : Leaf
  poststateLeaf : Leaf
  merkleTree : BinaryMerkleTree

/-- What `absorbNextLeafInput` returns: the bytes that were read, whether the end of the input was
reached, the rest of the input and the new state matrix. -/
structure Absorbed where
  input : Bytes
  isEOF : Bool
  rest : Bytes
  matrix : StateMatrix

/-- `pad`, for an input that is shorter than a block. -/
def pad (input : Bytes) (paddedInput : FixedBytes blockSize) : FixedBytes blockSize :=
  ⟨(paddedInput.1.set input.length Sponge.dsbyte).modify (blockSize - 1) (· ^^^ 0x80), by
    rw [List.length_modify, List.length_set, paddedInput.2]⟩

namespace StateMatrix

def newStateMatrix : StateMatrix :=
  ⟨.newLegacyKeccak256, zeroState, .empty, .empty, .newBinaryMerkleTree⟩

def stateSnapshot (d : StateMatrix) : StateSnapshot := .copy d.s.a

def stateCommitment (d : StateMatrix) : Hash := Preimage.stateCommitment d.stateSnapshot.1

def newLeafWithPadding (input : Bytes) (index : UInt64) (commitment : Hash) (final : Bool) :
    Leaf :=
  let paddedInput := toBlock input
  ⟨if final then pad input paddedInput else paddedInput, index, commitment⟩

def absorbLeafInput (data : Bytes) (final : Bool) (s : Sponge) : Except String Sponge := do
  Except.revertIf (final = false ∧ data.length ≠ blockSize) "sha3: Incorrect leaf data length"
  let s ← s.write data
  pure (if final then s.padAndPermute else s)

/-- `absorbNextLeafInput`.  The loop reads until it has a full block or the input ends; the input
is final when it ends before the block is full. -/
def absorbNextLeafInput (data : Bytes) (stateCommitment : StateMatrix → Hash) (d : StateMatrix) :
    Except String Absorbed := do
  let input := data.take blockSize
  let final := decide (input.length < blockSize)
  let prestateMatrix := d.stateSnapshot
  let s ← absorbLeafInput input final d.s
  let d := { d with s := s, prestateMatrix := prestateMatrix }
  let commitment := stateCommitment d
  let d :=
    if d.poststateLeaf = .empty then
      { d with
        prestateLeaf := .empty
        poststateLeaf := newLeafWithPadding input 0 commitment final }
    else
      { d with
        prestateLeaf := d.poststateLeaf
        poststateLeaf := newLeafWithPadding input (d.poststateLeaf.index + 1) commitment final }
  pure ⟨input, final, data.drop blockSize,
    { d with merkleTree := d.merkleTree.addLeaf d.poststateLeaf.hash }⟩

end StateMatrix

/-! ## Challenging -/

/-- The errors of `Challenge`, and the panics of the functions it calls. -/
inductive ChallengeError where
  | panic (text : String)
  | errIncorrectCommitmentCount
  | errValid
  deriving DecidableEq

/-- A panic ends the function that was called and its callers. -/
def panics {α : Type} (x : Except String α) : Except ChallengeError α :=
  x.mapError .panic

@[simp] lemma panics_ok {α : Type} (a : α) : panics (.ok a) = .ok a := rfl

/-- The variables of the loop of `Challenge`. -/
structure Progress where
  s : StateMatrix
  lastValidState : StateSnapshot
  lastValidLeaf : Leaf
  firstInvalidLeaf : Leaf

namespace Progress

def start : Progress :=
  ⟨.newStateMatrix, StateMatrix.newStateMatrix.stateSnapshot, .empty, .empty⟩

/-- The comparison in the loop, which is made as long as no leaf was found invalid. -/
def compare (claimedCommitment : Hash) (p : Progress) : Progress :=
  if p.firstInvalidLeaf = .empty then
    if p.s.stateCommitment ≠ claimedCommitment then
      { p with lastValidLeaf := p.s.prestateLeaf, firstInvalidLeaf := p.s.poststateLeaf }
    else { p with lastValidState := p.s.stateSnapshot }
  else p

/-- The loop of `Challenge`, with the commitments that are left. -/
def loop : List Hash → Bytes → Progress → Except ChallengeError Progress
  | [], _, _ => .error .errIncorrectCommitmentCount
  | claimedCommitment :: commitments, data, p => do
    let r ← panics (p.s.absorbNextLeafInput data fun _ => claimedCommitment)
    let p := { p with s := r.matrix }.compare claimedCommitment
    if r.isEOF then
      if commitments ≠ [] then .error .errIncorrectCommitmentCount else .ok p
    else loop commitments r.rest p

/-- The end of `Challenge`, after the loop. -/
def result (p : Progress) : Except ChallengeError Challenge :=
  if p.firstInvalidLeaf ≠ .empty then do
    let (prestateProof, tree) ←
      if p.lastValidLeaf ≠ .empty then
        panics (p.s.merkleTree.proofAtIndex p.lastValidLeaf.index.toNat)
      else .ok (emptyProof, p.s.merkleTree)
    let (poststateProof, _) ← panics (tree.proofAtIndex p.firstInvalidLeaf.index.toNat)
    .ok ⟨p.lastValidState, p.lastValidLeaf, prestateProof, p.firstInvalidLeaf, poststateProof⟩
  else .error .errValid

end Progress

def challenge (data : Bytes) (commitments : List Hash) : Except ChallengeError Challenge := do
  let p ← Progress.loop commitments data .start
  p.result

end FightNight.Preimage
