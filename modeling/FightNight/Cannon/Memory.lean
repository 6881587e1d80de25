import FightNight.Library.ByteMap
import FightNight.Library.Checked
import FightNight.Library.LabelCache
import FightNight.Library.Run
import FightNight.Preimage.Keccak

/-!
# The memory of the virtual machine

`Memory` of `cannon/mipsevm/memory.go` and `CachedPage` of `cannon/mipsevm/page.go`: an address
space of 32 bits in pages of 4096 bytes, with the root of a Merkle tree over its 32-byte words.
Hashes are computed when asked for and kept until something below them changes, in a page for the
levels inside it and in the map `nodes` for those above.

The map `pages` and the two entries of the lookup cache share pages by pointers, so that the
memory has a heap of pages and the pointers are numbers in it.  The key `^uint32(0)` of a lookup
entry without page, which is not the index of any address, is left out.
-/

namespace FightNight.Cannon

open FightNight.Except Function ByteMap MerkleTree
open Preimage (Hash Hash.zero)

/-- `uint32`. -/
abbrev U32 := BitVec 32

/-- The reasons the virtual machine panics for. -/
inductive Panic where
  | unalignedMemoryAccess (addr : U32)
  | gindexTooDeep
  /-- A slice expression whose bounds are not in the slice. -/
  | sliceBounds
  /-- A second memory access of a step at another address. -/
  | unexpectedMemAccess (effAddr lastMemAccess : U32)
  | invalidInstruction
  | branchInDelaySlot
  | jumpInDelaySlot
  | invalidRegister
  | divideByZero
  /-- The preimage oracle does not have the preimage of a key. -/
  | preimageNotFound
  deriving DecidableEq

def pageSize : ℕ := 2 ^ 12

/-- `addr >> PageAddrSize`. -/
def pageIndex (addr : U32) : ℕ := addr.toNat / pageSize

/-- `addr & PageAddrMask`. -/
def pageAddr (addr : U32) : ℕ := addr.toNat % pageSize

section Hashing

variable (keccak256 : Bytes → Hash)

def hashPair (left right : Hash) : Hash := keccak256 (left.1 ++ right.1)

/-- `zeroHashes`: the hashes of the subtrees without content. -/
def zeroHashes (i : ℕ) : Hash := zeroLabel (hashPair keccak256) Hash.zero i

end Hashing

/-! ## Pages -/

/-- `CachedPage`: the bytes of the page at the offsets below `PageSize`, the hashes of the inner
nodes at the numbers below 128, and whether they are valid. -/
structure CachedPage where
  data : ℕ → UInt8
  cache : ℕ → Hash
  ok : ℕ → Bool

namespace CachedPage

/-- `&CachedPage{Data: new(Page)}`. -/
def new : CachedPage := ⟨fun _ => 0, fun _ => Hash.zero, fun _ => false⟩

/-- `CachedPage.Invalidate`: the first node with a valid bit is the one above two leaves. -/
def invalidate (p : CachedPage) (pageAddr : ℕ) : CachedPage :=
  { p with ok := setPath false 64 ((2 ^ 12 + pageAddr) / 2 ^ 6) p.ok }

def invalidateFull (p : CachedPage) : CachedPage := { p with ok := fun _ => false }

/-- The assignments `p.Cache[j] = hash` and `p.Ok[j] = true`, unless the node is valid. -/
def fill (p : CachedPage) (j : ℕ) (hash : Hash) : CachedPage :=
  if p.ok j then p
  else { p with cache := update p.cache j hash, ok := update p.ok j true }

variable (keccak256 : Bytes → Hash)

/-- A turn of the loop over the bottom layer, at the node with number `64 + i`. -/
def hashBottom (p : CachedPage) (i : ℕ) : CachedPage :=
  p.fill (64 + i) (keccak256 (readAt p.data (64 * i) 64))

/-- A turn of the loop over the cache layers, at the node with number `63 - i`. -/
def hashLayer (p : CachedPage) (i : ℕ) : CachedPage :=
  let j := 63 - i
  p.fill j (hashPair keccak256 (p.cache (2 * j)) (p.cache (2 * j + 1)))

def merkleRoot (p : CachedPage) : Hash × CachedPage :=
  let p := (List.range 64).foldl (hashBottom keccak256) p
  let p := (List.range 63).foldl (hashLayer keccak256) p
  (p.cache 1, p)

/-- The 32 bytes with number `i`. -/
def leaf (data : ℕ → UInt8) (i : ℕ) : Hash := ⟨readAt data (32 * i) 32, length_readAt _ _ _⟩

/-- `CachedPage.MerkleizeSubtree`, for an index below 256; the memory asks for no other. -/
def merkleizeSubtree (p : CachedPage) (gindex : ℕ) : Hash × CachedPage :=
  let p := (p.merkleRoot keccak256).2
  if 128 ≤ gindex then (leaf p.data (gindex % 128), p) else (p.cache gindex, p)

end CachedPage

/-! ## The memory -/

/-- An entry of the lookup cache: `lastPageKeys[i]` and `lastPage[i]`. -/
structure Lookup where
  key : ℕ
  page : ℕ
  deriving DecidableEq

/-- `Memory`.  A node of the map `nodes` may be missing, nil or a hash; `heap` holds the pages by
their pointers, of which those below `allocated` are in use. -/
structure Memory where
  nodes : ℕ → Option (Option Hash)
  pages : ℕ → Option ℕ
  lastPage : Option Lookup × Option Lookup
  heap : ℕ → CachedPage
  allocated : ℕ

namespace Memory

def newMemory : Memory where
  nodes := fun _ => none
  pages := fun _ => none
  lastPage := (none, none)
  heap := fun _ => CachedPage.new
  allocated := 0

/-- The page of an entry of the lookup cache, if the entry has the key. -/
def hit (entry : Option Lookup) (key : ℕ) : Option ℕ :=
  match entry with
  | some e => if key = e.key then some e.page else none
  | none => none

def pageLookup (m : Memory) (pageIndex : ℕ) : Option ℕ × Memory :=
  match hit m.lastPage.1 pageIndex, hit m.lastPage.2 pageIndex with
  | some p, _ => (some p, m)
  | none, some p => (some p, m)
  | none, none =>
    match m.pages pageIndex with
    | some p => (some p, { m with lastPage := (some ⟨pageIndex, p⟩, m.lastPage.1) })
    | none => (none, m)

def setPage (m : Memory) (p : ℕ) (page : CachedPage) : Memory :=
  { m with heap := update m.heap p page }

/-- Write bytes into the page behind a pointer: a copy into `p.Data[offset:]`. -/
def writePage (m : Memory) (p offset : ℕ) (bs : Bytes) : Memory :=
  m.setPage p { m.heap p with data := writeAt (m.heap p).data offset bs }

/-- The loops that set the nodes from a node to the root to nil. -/
def clearPath (m : Memory) (gindex : ℕ) : Memory :=
  { m with nodes := setPath (some none) 64 gindex m.nodes }

def invalidate (m : Memory) (addr : U32) : Except Panic Memory := do
  revertIf (addr.toNat % 4 ≠ 0) (.unalignedMemoryAccess addr)
  match m.pageLookup (pageIndex addr) with
  | (some p, m) =>
    let page := m.heap p
    let m := m.setPage p (page.invalidate (pageAddr addr))
    -- A page that was already invalid has no valid node above it.
    pure (if page.ok 1 then m.clearPath ((2 ^ 32 + addr.toNat) / pageSize) else m)
  | (none, m) => pure m

def allocPage (m : Memory) (pageIndex : ℕ) : ℕ × Memory :=
  let p := m.allocated
  let m := { m with
    heap := update m.heap p CachedPage.new
    allocated := p + 1
    pages := update m.pages pageIndex (some p) }
  (p, m.clearPath (2 ^ 20 ||| pageIndex))

def setMemory (m : Memory) (addr v : U32) : Except Panic Memory := do
  revertIf (addr.toNat % 4 ≠ 0) (.unalignedMemoryAccess addr)
  match m.pageLookup (pageIndex addr) with
  | (none, m) =>
    let (p, m) := m.allocPage (pageIndex addr)
    pure (m.writePage p (pageAddr addr) (beBytes 4 v.toNat))
  | (some p, m) => do
    let m ← m.invalidate addr
    pure (m.writePage p (pageAddr addr) (beBytes 4 v.toNat))

def uint32 (bs : Bytes) : U32 := BitVec.ofNat 32 (beNat bs)

def getMemory (m : Memory) (addr : U32) : Except Panic (U32 × Memory) := do
  revertIf (addr.toNat % 4 ≠ 0) (.unalignedMemoryAccess addr)
  match m.pageLookup (pageIndex addr) with
  | (none, m) => pure (0, m)
  | (some p, m) => pure (uint32 (readAt (m.heap p).data (pageAddr addr) 4), m)

/-! ## Hashing -/

section Merkleize

variable (keccak256 : Bytes → Hash)

/-- The part of `Memory.MerkleizeSubtree` for a node in a page, at a height of at most 7. -/
def merkleizePage (height gindex : ℕ) (m : Memory) : Hash × Memory :=
  let depthIntoPage := 7 - height
  let pageIndex := gindex / 2 ^ depthIntoPage % 2 ^ 20
  match m.pages pageIndex with
  | some p =>
    let pageGindex := 2 ^ depthIntoPage + gindex % 2 ^ depthIntoPage
    let (hash, page) := (m.heap p).merkleizeSubtree keccak256 pageGindex
    (hash, m.setPage p page)
  | none => (zeroHashes keccak256 height, m)

/-- `Memory.MerkleizeSubtree` for an index with `28 - height` bits. -/
def merkleizeFrom : ℕ → ℕ → Memory → Hash × Memory
  | 0, gindex, m => merkleizePage keccak256 0 gindex m
  | height + 1, gindex, m =>
    if height < 7 then merkleizePage keccak256 (height + 1) gindex m
    else
      match m.nodes gindex with
      | none => (zeroHashes keccak256 (height + 1), m)
      | some (some n) => (n, m)
      | some none =>
        let (left, m) := merkleizeFrom height (2 * gindex) m
        let (right, m) := merkleizeFrom height (2 * gindex + 1) m
        let r := hashPair keccak256 left right
        (r, { m with nodes := update m.nodes gindex (some (some r)) })

def len64 (x : ℕ) : ℕ := if x = 0 then 0 else x.log2 + 1

def merkleizeSubtree (m : Memory) (gindex : ℕ) : Except Panic (Hash × Memory) := do
  let l := len64 gindex
  revertIf (28 < l) .gindexTooDeep
  pure (merkleizeFrom keccak256 (28 - l) gindex m)

def merkleRoot (m : Memory) : Hash × Memory := merkleizeFrom keccak256 27 1 m

/-- `Memory.traverseBranch`, at the depth `27 - height`. -/
def traverseBranch (addr : U32) : ℕ → ℕ → Memory → List Hash × Memory
  | 0, parent, m =>
    let (hash, m) := merkleizeFrom keccak256 0 parent m
    ([hash], m)
  | height + 1, parent, m =>
    let right := addr.toNat / 2 ^ (5 + height) % 2 = 1
    let self := if right then 2 * parent + 1 else 2 * parent
    let sibling := if right then 2 * parent else 2 * parent + 1
    let (proof, m) := traverseBranch addr height self m
    let (siblingNode, m) := merkleizeFrom keccak256 height sibling m
    (proof ++ [siblingNode], m)

def merkleProof (m : Memory) (addr : U32) : Bytes × Memory :=
  let (proof, m) := traverseBranch keccak256 addr 27 1 m
  (proof.flatMap Subtype.val, m)

end Merkleize

/-! ## Loading -/

/-- What a turn of the loop of `SetMemoryRange` does before it reads. -/
def openPage (m : Memory) (pageIndex : ℕ) : ℕ × Memory :=
  let (p, m) :=
    match m.pageLookup pageIndex with
    | (some p, m) => (p, m)
    | (none, m) => m.allocPage pageIndex
  (p, m.setPage p (m.heap p).invalidateFull)

/-- `Memory.SetMemoryRange`.  The list holds what the calls of `r.Read` return, until one fails or
reports the end of the file. -/
def setMemoryRange : List Bytes → U32 → Memory → Memory
  | [], addr, m => (m.openPage (pageIndex addr)).2
  | bs :: reads, addr, m =>
    let (p, m) := m.openPage (pageIndex addr)
    let bs := bs.take (pageSize - pageAddr addr)
    setMemoryRange reads (addr + BitVec.ofNat 32 bs.length) (m.writePage p (pageAddr addr) bs)

structure PageEntry where
  index : U32
  data : ℕ → UInt8

/-- The loop of `Memory.UnmarshalJSON`, which stops at an index that it has seen before. -/
def loadPages : List PageEntry → Memory → Memory
  | [], m => m
  | entry :: entries, m =>
    match m.pages entry.index.toNat with
    | some _ => m
    | none =>
      let (p, m) := m.allocPage entry.index.toNat
      loadPages entries (m.setPage p { m.heap p with data := entry.data })

/-- `Memory.UnmarshalJSON`, after the pages have been decoded. -/
def unmarshalJSON (entries : List PageEntry) : Memory := loadPages entries newMemory

end Memory

/-! ## The memory as a machine -/

/-- The methods of a memory that change it, or the hashes and pages that it keeps. -/
inductive MemoryCall where
  | setMemory (addr v : U32)
  | getMemory (addr : U32)
  | allocPage (pageIndex : U32)
  | invalidate (addr : U32)
  | merkleRoot
  | merkleizeSubtree (gindex : ℕ)
  | merkleProof (addr : U32)
  | setMemoryRange (addr : U32) (reads : List Bytes)
  | unmarshalJSON (entries : List Memory.PageEntry)

def MemoryCall.exec (keccak256 : Bytes → Hash) (c : MemoryCall) (m : Memory) :
    Except Panic Memory :=
  match c with
  | .setMemory addr v => m.setMemory addr v
  | .getMemory addr => (m.getMemory addr).map Prod.snd
  | .allocPage pageIndex => .ok (m.allocPage pageIndex.toNat).2
  | .invalidate addr => m.invalidate addr
  | .merkleRoot => .ok (m.merkleRoot keccak256).2
  | .merkleizeSubtree gindex => (m.merkleizeSubtree keccak256 gindex).map Prod.snd
  | .merkleProof addr => .ok (m.merkleProof keccak256 addr).2
  | .setMemoryRange addr reads => .ok (m.setMemoryRange reads addr)
  | .unmarshalJSON entries => .ok (Memory.unmarshalJSON entries)

end FightNight.Cannon
