import Mathlib.Data.List.GetD
import FightNight.Library.MerkleTree
import FightNight.Preimage.Keccak

/-!
# The Merkle tree of the challenger

`op-challenger/game/keccak/merkle/tree.go`: a tree of depth 16 made of nodes with pointers.  Both
operations walk down to a leaf, which creates the missing nodes, and back up.  A created node gets
the empty hash for its distance from the root, not for its height, and keeps it until the way up
assigns its label.

A node `Holds` the leaves that were added when its label and those of all nodes below it are the
labels of the tree that is filled up with zero leaves.  `AddLeaf` keeps this (`addLeaf_holds`),
and `ProofAtIndex` reads the siblings of a leaf (`proofAtIndex_eq`).
-/

namespace FightNight.Preimage

open MerkleTree Function List

/-! ## Hashes of nodes and leaves -/

/-- `crypto.Keccak256Hash(a, b)`, and `hashTwo` of the contract. -/
def hashTwo (a b : Hash) : Hash := keccak256 (a.1 ++ b.1)

/-- `Leaf.Hash`, and `_hashLeaf` of the contract: the hash of the input of a block, its index in
32 bytes and the claimed commitment. -/
def hashLeaf (input : Bytes) (index : ℕ) (stateCommitment : Hash) : Hash :=
  keccak256 (input ++ beBytes 32 index ++ stateCommitment.1)

def zeroHashes (height : ℕ) : Hash := MerkleTree.zeroLabel hashTwo Hash.zero height

/-- The variable `rootHash` after some rounds of the loop in `init`. -/
def emptyRoot : ℕ → Hash
  | 0 => Hash.zero
  | height + 1 => hashTwo (emptyRoot height) (zeroHashes height)

/-- `BinaryMerkleTreeDepth` and `KECCAK_TREE_DEPTH`. -/
def treeDepth : ℕ := 16

/-- `MaxLeafCount` and `MAX_LEAF_COUNT`. -/
def maxLeafCount : ℕ := 2 ^ treeDepth - 1

def rootHash : Hash := emptyRoot treeDepth

/-! ## Nodes -/

/-- `merkleNode`, or a pointer that is `nil`. -/
inductive MerkleNode where
  | absent
  | node (label : Hash) (left right : MerkleNode)

namespace MerkleNode

/-- The label of a node, and `common.Hash{}` for a missing one. -/
def label : MerkleNode → Hash
  | absent => Hash.zero
  | node label _ _ => label

def left : MerkleNode → MerkleNode
  | absent => absent
  | node _ left _ => left

def right : MerkleNode → MerkleNode
  | absent => absent
  | node _ _ right => right

/-- A missing node is created with a label. -/
def orNew (label : Hash) : MerkleNode → MerkleNode
  | absent => node label absent absent
  | t => t

/-- The way of `AddLeaf` down from a node at a height and back to it.  The walk down creates the
node on the way, the walk up creates its sibling and assigns the label. -/
def addLeaf (hash : Hash) : ℕ → ℕ → MerkleNode → MerkleNode
  | 0, _, t => node hash t.left t.right
  | height + 1, subtreeLeafCount, t =>
    let maxSubtreeLeafCount := 2 ^ (height + 1)
    let new := zeroHashes (treeDepth - (height + 1))
    if subtreeLeafCount * 2 ≤ maxSubtreeLeafCount then
      let left := addLeaf hash height subtreeLeafCount (t.left.orNew new)
      let right := t.right.orNew (zeroHashes height)
      node (hashTwo left.label right.label) left right
    else
      let right := addLeaf hash height (subtreeLeafCount - maxSubtreeLeafCount / 2)
        (t.right.orNew new)
      let left := t.left.orNew (zeroHashes height)
      node (hashTwo left.label right.label) left right

/-- The way of `ProofAtIndex` down from a node at a height and back to it: the labels of the
siblings from the leaf upwards, and the node with what the walk down has created. -/
def proofAtIndex : ℕ → ℕ → MerkleNode → List Hash × MerkleNode
  | 0, _, t => ([], t)
  | height + 1, subtreeLeafCount, t =>
    let maxSubtreeLeafCount := 2 ^ (height + 1)
    let new := zeroHashes (treeDepth - (height + 1))
    if subtreeLeafCount * 2 ≤ maxSubtreeLeafCount then
      let (proof, left) := proofAtIndex height subtreeLeafCount (t.left.orNew new)
      (proof ++ [t.right.label], node t.label left t.right)
    else
      let (proof, right) := proofAtIndex height (subtreeLeafCount - maxSubtreeLeafCount / 2)
        (t.right.orNew new)
      (proof ++ [t.left.label], node t.label t.left right)

end MerkleNode

structure BinaryMerkleTree where
  root : MerkleNode
  leafCount : ℕ

namespace BinaryMerkleTree

def newBinaryMerkleTree : BinaryMerkleTree := ⟨.node rootHash .absent .absent, 0⟩

def rootHash (m : BinaryMerkleTree) : Hash := m.root.label

def addLeaf (hash : Hash) (m : BinaryMerkleTree) : BinaryMerkleTree :=
  ⟨m.root.addLeaf hash treeDepth (m.leafCount + 1), m.leafCount + 1⟩

/-- `ProofAtIndex`, which panics when the index is out of bounds. -/
def proofAtIndex (index : ℕ) (m : BinaryMerkleTree) :
    Except String (List Hash × BinaryMerkleTree) :=
  if maxLeafCount ≤ index then .error "proof index out of bounds"
  else
    let (proof, root) := m.root.proofAtIndex treeDepth (index + 1)
    .ok (proof, { m with root := root })

end BinaryMerkleTree

/-! ## What the nodes hold -/

namespace MerkleNode

/-- The children of a node with number `k`, at a height: the subtrees of its leaves, or none when
there are no leaves below it. -/
def Children (holds : ℕ → MerkleNode → Prop) (n height k : ℕ) (t : MerkleNode) : Prop :=
  if k * 2 ^ (height + 1) < n then holds (2 * k) t.left ∧ holds (2 * k + 1) t.right
  else t.left = absent ∧ t.right = absent

/-- A node with number `k` at a height carries the label of the tree with the leaves `f`, of which
`n` were added, and so do the nodes below it. -/
def Holds (f : ℕ → Hash) (n : ℕ) : ℕ → ℕ → MerkleNode → Prop
  | 0, k, t => t ≠ absent ∧ t.label = f k
  | height + 1, k, t =>
    t ≠ absent ∧ t.label = MerkleTree.label hashTwo f (height + 1) k ∧
      Children (Holds f n height) n height k t

/-- The nodes below a node are right, whatever its own label is. -/
def Below (f : ℕ → Hash) (n : ℕ) : ℕ → ℕ → MerkleNode → Prop
  | 0, _, _ => True
  | height + 1, k, t => Children (Holds f n height) n height k t

variable {f g : ℕ → Hash} {n height k : ℕ} {t : MerkleNode}

lemma holds_iff :
    Holds f n height k t ↔
      t ≠ absent ∧ t.label = MerkleTree.label hashTwo f height k ∧ Below f n height k t := by
  cases height with
  | zero => simp [Holds, Below, MerkleTree.label]
  | succ height => rfl

lemma orNew_of_ne (h : t ≠ absent) (label : Hash) : t.orNew label = t := by
  cases t with
  | absent => exact absurd rfl h
  | node => rfl

lemma node_eta (h : t ≠ absent) : node t.label t.left t.right = t := by
  cases t with
  | absent => exact absurd rfl h
  | node => rfl

lemma below_new (label : Hash) (h : n ≤ k * 2 ^ height) :
    Below f n height k (node label absent absent) := by
  cases height with
  | zero => trivial
  | succ height =>
    change Children (Holds f n height) n height k _
    rw [Children, if_neg (not_lt_of_ge h)]
    exact ⟨rfl, rfl⟩

lemma Holds.congr (h : Holds f n height k t)
    (hleaf : ∀ i, k * 2 ^ height ≤ i → i < (k + 1) * 2 ^ height → f i = g i)
    (hn : n < k * 2 ^ height ∨ (k + 1) * 2 ^ height ≤ n) : Holds g (n + 1) height k t := by
  induction height generalizing k t with
  | zero =>
    refine ⟨h.1, h.2.trans (hleaf k ?_ ?_)⟩ <;> simp
  | succ height ih =>
    obtain ⟨hlow, hmid, hhigh, hend⟩ := span_succ height k
    have hpos : 0 < 2 ^ height := Nat.two_pow_pos height
    obtain ⟨hne, hlabel, hchild⟩ := h
    refine ⟨hne, hlabel.trans (label_congr hashTwo hleaf), ?_⟩
    unfold Children at hchild ⊢
    split at hchild
    · rename_i hlt
      rw [if_pos (Nat.lt_succ_of_lt hlt)]
      constructor
      · apply ih hchild.1
        · intro i hlo hhi
          apply hleaf <;> omega
        · omega
      · apply ih hchild.2
        · intro i hlo hhi
          apply hleaf <;> omega
        · omega
    · rwa [if_neg (by omega)]

/-! ## Adding a leaf -/

/-- A child of a node: it holds its leaves, or it is missing and has none. -/
def Child (f : ℕ → Hash) (n height k : ℕ) (t : MerkleNode) : Prop :=
  Holds f n height k t ∨ t = absent ∧ n ≤ k * 2 ^ height

lemma Children.child (h : Children (Holds f n height) n height k t) :
    Child f n height (2 * k) t.left ∧ Child f n height (2 * k + 1) t.right := by
  obtain ⟨hlow, hmid, -, -⟩ := span_succ height k
  have hpos : 0 < 2 ^ height := Nat.two_pow_pos height
  unfold Children at h
  split at h
  · exact ⟨Or.inl h.1, Or.inl h.2⟩
  · exact ⟨Or.inr ⟨h.1, by omega⟩, Or.inr ⟨h.2, by omega⟩⟩

lemma Child.below (h : Child f n height k t) (label : Hash) :
    Below f n height k (t.orNew label) := by
  rcases h with h | ⟨rfl, hn⟩
  · rw [orNew_of_ne (holds_iff.mp h).1]
    exact (holds_iff.mp h).2.2
  · exact below_new label hn

lemma Child.sibling (h : Child f n height k t) (hash : Hash) (hzero : ∀ i, n ≤ i → f i = Hash.zero)
    (hn : n < k * 2 ^ height ∨ (k + 1) * 2 ^ height ≤ n) :
    Holds (update f n hash) (n + 1) height k (t.orNew (zeroHashes height)) := by
  have hpos : 0 < 2 ^ height := Nat.two_pow_pos height
  have hspan : (k + 1) * 2 ^ height = k * 2 ^ height + 2 ^ height := by ring
  rcases h with h | ⟨rfl, hle⟩
  · rw [orNew_of_ne (holds_iff.mp h).1]
    apply h.congr _ hn
    intro i hlo hhi
    rw [update_of_ne (by omega)]
  · have hlt : n + 1 ≤ k * 2 ^ height := by omega
    refine holds_iff.mpr ⟨MerkleNode.noConfusion, ?_, below_new _ hlt⟩
    refine (label_eq_zeroLabel hashTwo ?_ hlt).symm
    intro i hi
    rw [update_of_ne (by omega)]
    exact hzero i (by omega)

lemma holds_node {l r : MerkleNode} (hl : Holds f n height (2 * k) l)
    (hr : Holds f n height (2 * k + 1) r) (hn : k * 2 ^ (height + 1) < n) :
    Holds f n (height + 1) k (node (hashTwo l.label r.label) l r) := by
  refine ⟨MerkleNode.noConfusion, ?_, ?_⟩
  · rw [(holds_iff.mp hl).2.1, (holds_iff.mp hr).2.1]
    rfl
  · unfold Children
    rw [if_pos hn]
    exact ⟨hl, hr⟩

/-- When the nodes below a node hold the leaves before a new one, the node holds the new one as
well, whatever label it had, so that a node that was created on the way down is treated like any
other. -/
theorem addLeaf_holds (hash : Hash) (hbelow : Below f n height k t)
    (hzero : ∀ i, n ≤ i → f i = Hash.zero) (hlo : k * 2 ^ height ≤ n)
    (hhi : n < (k + 1) * 2 ^ height) :
    Holds (update f n hash) (n + 1) height k (t.addLeaf hash height (n + 1 - k * 2 ^ height)) := by
  induction height generalizing k t with
  | zero =>
    have hk : n = k := by omega
    refine ⟨MerkleNode.noConfusion, ?_⟩
    rw [hk, update_self]
    rfl
  | succ height ih =>
    obtain ⟨hlow, hmid, hhigh, hend⟩ := span_succ height k
    obtain ⟨hleft, hright⟩ := Children.child hbelow
    have hn : k * 2 ^ (height + 1) < n + 1 := Nat.lt_succ_of_le hlo
    rw [addLeaf]
    split
    · rename_i hcnt
      -- The leaf is on the left.
      have hdown := ih (hleft.below (zeroHashes (treeDepth - (height + 1)))) (by omega) (by omega)
      have hup := hright.sibling hash hzero (by omega)
      rw [← hlow] at hdown
      exact holds_node hdown hup hn
    · have hdown := ih (hright.below (zeroHashes (treeDepth - (height + 1)))) (by omega) (by omega)
      have hup := hleft.sibling hash hzero (by omega)
      have hsub : n + 1 - k * 2 ^ (height + 1) - 2 ^ (height + 1) / 2 =
          n + 1 - (2 * k + 1) * 2 ^ height := by omega
      rw [← hsub] at hdown
      exact holds_node hup hdown hn

/-! ## Proofs -/

/-- The proof for a leaf that was added, or for the neighbour of one, consists of the siblings on its
way, and taking it leaves the tree as it is. -/
theorem proofAtIndex_holds {index : ℕ} (h : Holds f n height k t) (hidx : 2 * (index / 2) < n)
    (hlo : k * 2 ^ height ≤ index) (hhi : index < (k + 1) * 2 ^ height) :
    t.proofAtIndex height (index + 1 - k * 2 ^ height) =
      ((range height).map fun j =>
        MerkleTree.label hashTwo f j (MerkleTree.sibling (index / 2 ^ j)), t) := by
  induction height generalizing k t with
  | zero => rfl
  | succ height ih =>
    obtain ⟨hlow, hmid, hhigh, hend⟩ := span_succ height k
    obtain ⟨hne, hlabel, hchild⟩ := h
    have heta := node_eta hne
    have hstart : k * 2 ^ (height + 1) < n := by grind
    unfold Children at hchild
    rw [if_pos hstart] at hchild
    obtain ⟨hl, hr⟩ := hchild
    rw [proofAtIndex, range_succ, map_append, map_singleton]
    dsimp only
    split
    · have hdiv : index / 2 ^ height = 2 * k := by
        apply Nat.div_eq_of_lt_le <;> omega
      have hdown := ih hl (by omega) (by omega)
      rw [← hlow] at hdown
      rw [orNew_of_ne (holds_iff.mp hl).1, hdown, heta, hdiv, (holds_iff.mp hr).2.1,
        sibling, if_neg (by omega)]
    · have hdiv : index / 2 ^ height = 2 * k + 1 := by
        apply Nat.div_eq_of_lt_le <;> omega
      have hdown := ih hr (by omega) (by omega)
      have hsub : index + 1 - k * 2 ^ (height + 1) - 2 ^ (height + 1) / 2 =
          index + 1 - (2 * k + 1) * 2 ^ height := by omega
      rw [orNew_of_ne (holds_iff.mp hr).1, hsub, hdown, heta, hdiv, (holds_iff.mp hl).2.1,
        sibling, if_pos (by omega), Nat.add_sub_cancel]

end MerkleNode

/-! ## The whole tree -/

/-- The leaves of a tree that is filled up with zeros. -/
def leafAt (leaves : List Hash) (i : ℕ) : Hash := leaves.getD i Hash.zero

lemma leafAt_of_le {leaves : List Hash} {i : ℕ} (h : leaves.length ≤ i) :
    leafAt leaves i = Hash.zero := by
  rw [leafAt, getD_eq_default _ _ h]

lemma leafAt_append_left {leaves more : List Hash} {i : ℕ} (h : i < leaves.length) :
    leafAt (leaves ++ more) i = leafAt leaves i := by
  rw [leafAt, leafAt, getD_append _ _ _ _ h]

lemma update_leafAt (leaves : List Hash) (hash : Hash) :
    update (leafAt leaves) leaves.length hash = leafAt (leaves ++ [hash]) := by
  funext i
  rcases lt_trichotomy i leaves.length with hlt | rfl | hgt
  · rw [update_of_ne (ne_of_lt hlt), leafAt_append_left hlt]
  · simp [update_self, leafAt, Nat.sub_self]
  · have hle : (leaves ++ [hash]).length ≤ i := by
      rwa [length_append]
    rw [update_of_ne (ne_of_gt hgt), leafAt_of_le (le_of_lt hgt), leafAt_of_le hle]

namespace BinaryMerkleTree

/-- A tree to which the leaves were added, in this order. -/
structure Holds (m : BinaryMerkleTree) (leaves : List Hash) : Prop where
  leafCount_eq : m.leafCount = leaves.length
  root : m.root.Holds (leafAt leaves) leaves.length treeDepth 0

lemma emptyRoot_eq (height : ℕ) : emptyRoot height = zeroHashes height := by
  induction height with
  | zero => rfl
  | succ height ih =>
    rw [emptyRoot, ih]
    rfl

lemma holds_new : newBinaryMerkleTree.Holds [] := by
  refine ⟨rfl, MerkleNode.holds_iff.mpr ⟨MerkleNode.noConfusion, ?_, ?_⟩⟩
  · have hlabel : label hashTwo (leafAt []) treeDepth 0 = zeroHashes treeDepth :=
      label_eq_zeroLabel hashTwo (fun i _ => leafAt_of_le (Nat.zero_le i)) (Nat.zero_le _)
    rw [hlabel]
    exact emptyRoot_eq treeDepth
  · exact MerkleNode.below_new _ (Nat.zero_le _)

lemma Holds.addLeaf {m : BinaryMerkleTree} {leaves : List Hash} (h : m.Holds leaves)
    (hcnt : leaves.length < 2 ^ treeDepth) (hash : Hash) :
    (m.addLeaf hash).Holds (leaves ++ [hash]) := by
  refine ⟨?_, ?_⟩
  · rw [length_append, ← h.leafCount_eq]
    rfl
  · have hroot := MerkleNode.addLeaf_holds hash (MerkleNode.holds_iff.mp h.root).2.2
      (fun i hi => leafAt_of_le hi) (by rw [zero_mul]; exact Nat.zero_le _)
      (by rw [Nat.one_mul]; exact hcnt)
    rw [update_leafAt, zero_mul] at hroot
    rwa [length_append, BinaryMerkleTree.addLeaf, h.leafCount_eq]

lemma Holds.proofAtIndex_eq {m : BinaryMerkleTree} {leaves : List Hash} (h : m.Holds leaves)
    {index : ℕ} (hbound : index < maxLeafCount) (hidx : 2 * (index / 2) < leaves.length) :
    m.proofAtIndex index = .ok ((range treeDepth).map fun j =>
      MerkleTree.label hashTwo (leafAt leaves) j (MerkleTree.sibling (index / 2 ^ j)), m) := by
  have hproof := MerkleNode.proofAtIndex_holds h.root hidx
    (by rw [zero_mul]; exact Nat.zero_le _)
    (by rw [Nat.one_mul]; exact lt_of_lt_of_le hbound (Nat.sub_le _ _))
  rw [zero_mul, Nat.sub_zero] at hproof
  rw [proofAtIndex, if_neg (not_le_of_gt hbound), hproof]

end BinaryMerkleTree

end FightNight.Preimage
