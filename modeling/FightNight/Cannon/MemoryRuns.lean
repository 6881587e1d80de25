import FightNight.Cannon.MemoryMethods

/-!
# Runs of the memory

What the methods of the memory do to its contents, in any order of calls.  The flat memory is a
function from addresses to bytes that only a write changes.

`AllocPage` puts a new page into the map without looking at the lookup cache: a page that is
allocated again while it is in the cache goes on being read and written through the old pointer,
and the root is that of the new page.  `SetMemoryRange` clears the hashes inside a page but not
those above it.  In every run whose calls are `Careful`, so that neither happens, the root is that
of the flat memory (`merkle_caching`).
-/

namespace FightNight.Cannon

open FightNight.Except Run Function ByteMap MerkleTree
open Preimage (Hash Hash.zero)

namespace Memory

variable {keccak256 : Bytes → Hash} {m : Memory}

/-! ## Runs -/

/-- The root of the tree over a flat memory: `2 ^ 27` leaves of 32 bytes. -/
def flatRoot (keccak256 : Bytes → Hash) (f : ℕ → UInt8) : Hash :=
  label (hashPair keccak256) (CachedPage.leaf f) 27 0

lemma label_root (f : ℕ → UInt8) :
    label (hashPair keccak256) (heapLeaf 27 f) 27 1 = flatRoot keccak256 f := by
  apply label_shift
  intro i _
  unfold heapLeaf
  rw [one_mul, zero_mul, zero_add, Nat.add_sub_cancel_left]

lemma merkleRoot_eq (hm : Inv keccak256 m) :
    (m.merkleRoot keccak256).1 = flatRoot keccak256 m.content :=
  (merkleRoot_spec hm).hash.trans (label_root m.content)

end Memory

namespace MemoryCall

open Memory

/-- What a call does to the flat memory. -/
def flat (c : MemoryCall) (f : ℕ → UInt8) : ℕ → UInt8 :=
  match c with
  | .setMemory addr v =>
    if addr.toNat % 4 = 0 then writeAt f addr.toNat (beBytes 4 v.toNat) else f
  | .allocPage pageIndex => writeAt f (pageIndex.toNat * pageSize) (zeros pageSize)
  | .setMemoryRange addr reads => writeRange reads addr f
  | .unmarshalJSON entries => flatPages entries [] fun _ => 0
  | _ => f

def flatMemory (calls : List MemoryCall) : ℕ → UInt8 :=
  calls.foldl (fun f c => c.flat f) fun _ => 0

/-- `SetMemoryRange` visits no page that has its hashes. -/
def Clean (c : MemoryCall) (m : Memory) : Prop :=
  match c with
  | .setMemoryRange addr reads => ∀ k ∈ visited reads addr, m.Unhashed k
  | _ => True

/-- `AllocPage` is not called for a page in the lookup cache. -/
def Fresh (c : MemoryCall) (m : Memory) : Prop :=
  match c with
  | .allocPage pageIndex =>
    ∀ e, m.lastPage.1 = some e ∨ m.lastPage.2 = some e → e.key ≠ pageIndex.toNat
  | _ => True

/-- Both of these. -/
def Careful (c : MemoryCall) (m : Memory) : Prop := c.Clean m ∧ c.Fresh m

variable {keccak256 : Bytes → Hash} {m m' : Memory} {c : MemoryCall}

/-- A call keeps the invariant; when the lookup cache is right it stays so, and the contents follow
the flat memory. -/
theorem exec_spec (hm : Inv keccak256 m) (hclean : c.Clean m) (h : c.exec keccak256 m = .ok m') :
    Inv keccak256 m' ∧
      (Coherent m → c.Fresh m → Coherent m' ∧ m'.content = c.flat m.content) := by
  cases c with
  | setMemory addr v =>
    have halign : addr.toNat % 4 = 0 := by
      obtain ⟨_, hrev, _⟩ := bind_eq_ok.mp h
      exact not_not.mp (revertIf_eq_ok.mp hrev)
    obtain ⟨m₁, hset, hinv, hwrite⟩ := setMemory_spec hm halign v
    cases hset.symm.trans h
    refine ⟨hinv, ?_⟩
    intro hc _
    exact ⟨(hwrite hc).1, (hwrite hc).2.trans (if_pos halign).symm⟩
  | getMemory addr =>
    obtain ⟨r, hr, rfl⟩ := map_eq_ok.mp h
    have halign : addr.toNat % 4 = 0 := by
      obtain ⟨_, hrev, _⟩ := bind_eq_ok.mp hr
      exact not_not.mp (revertIf_eq_ok.mp hrev)
    obtain ⟨v, m₁, hget, hinv, hcont, hread⟩ := getMemory_spec hm halign
    cases hget.symm.trans hr
    exact ⟨hinv, fun hc _ => ⟨(hread hc).1, hcont⟩⟩
  | allocPage pageIndex =>
    cases h
    have halloc := allocPage_spec hm pageIndex.toNat
    exact ⟨halloc.inv, fun hc hfresh => ⟨halloc.coherent hc hfresh, content_allocPage hm _⟩⟩
  | invalidate addr =>
    obtain ⟨hinv, hcont, hc⟩ := invalidate_spec hm h
    exact ⟨hinv, fun hcoh _ => ⟨hc hcoh, hcont⟩⟩
  | merkleRoot =>
    cases h
    have hroot := merkleRoot_spec hm
    exact ⟨hroot.inv, fun hc _ => ⟨hroot.grows.coherent hc, hroot.grows.content⟩⟩
  | merkleizeSubtree gindex =>
    obtain ⟨r, hr, rfl⟩ := map_eq_ok.mp h
    obtain ⟨hinv, hgrows⟩ := merkleizeSubtree_spec hm hr
    exact ⟨hinv, fun hc _ => ⟨hgrows.coherent hc, hgrows.content⟩⟩
  | merkleProof addr =>
    cases h
    obtain ⟨-, hinv, hgrows⟩ := merkleProof_spec hm addr
    exact ⟨hinv, fun hc _ => ⟨hgrows.coherent hc, hgrows.content⟩⟩
  | setMemoryRange addr reads =>
    cases h
    obtain ⟨hinv, hwrite⟩ := setMemoryRange_spec hm hclean
    exact ⟨hinv, fun hc _ => hwrite hc⟩
  | unmarshalJSON entries =>
    cases h
    obtain ⟨hinv, hc, hcont⟩ := @unmarshalJSON_spec keccak256 entries
    exact ⟨hinv, fun _ _ => ⟨hc, hcont⟩⟩

lemma flat_of_error (hm : Inv keccak256 m) {e : Panic} (h : c.exec keccak256 m = .error e)
    (f : ℕ → UInt8) : c.flat f = f := by
  cases c with
  | setMemory addr v =>
    refine if_neg ?_
    intro halign
    obtain ⟨m', hset, -⟩ := setMemory_spec hm halign v
    have hexec : (setMemory addr v).exec keccak256 m = .ok m' := hset
    cases h.symm.trans hexec
  | getMemory addr => rfl
  | allocPage pageIndex => cases h
  | invalidate addr => rfl
  | merkleRoot => cases h
  | merkleizeSubtree gindex => rfl
  | merkleProof addr => rfl
  | setMemoryRange addr reads => cases h
  | unmarshalJSON entries => cases h

lemma runAll_spec {calls : List MemoryCall}
    (hcare : Run.AllMeet (exec keccak256) Careful calls m) (hm : Inv keccak256 m)
    (hc : Coherent m) :
    Inv keccak256 (runAll (exec keccak256) calls m) ∧
      Coherent (runAll (exec keccak256) calls m) ∧
      (runAll (exec keccak256) calls m).content = calls.foldl (fun f c => c.flat f) m.content := by
  induction calls generalizing m with
  | nil => exact ⟨hm, hc, rfl⟩
  | cons c calls ih =>
    obtain ⟨⟨hclean, hfresh⟩, hrest⟩ := hcare
    cases hexec : c.exec keccak256 m with
    | ok m' =>
      have hatt := attempt_of_ok _ hexec
      obtain ⟨hinv, hflat⟩ := exec_spec hm hclean hexec
      obtain ⟨hc', hcont⟩ := hflat hc hfresh
      rw [hatt] at hrest
      rw [runAll_cons, hatt, List.foldl_cons, ← hcont]
      exact ih hrest hinv hc'
    | error e =>
      have hatt : attempt (exec keccak256) c m = m := by rw [attempt, hexec]
      rw [hatt] at hrest
      rw [runAll_cons, hatt, List.foldl_cons, flat_of_error hm hexec]
      exact ih hrest hm hc

/-- After every run of careful calls the root is that of the flat memory, and the flat memory is
what is read. -/
theorem merkle_caching (keccak256 : Bytes → Hash) (calls : List MemoryCall)
    (hcareful : Run.AllMeet (exec keccak256) Careful calls newMemory) :
    ((runAll (exec keccak256) calls newMemory).merkleRoot keccak256).1 =
        flatRoot keccak256 (flatMemory calls) ∧
      ∀ addr : U32, addr.toNat % 4 = 0 →
        ((runAll (exec keccak256) calls newMemory).getMemory addr).map Prod.fst =
          .ok (uint32 (readAt (flatMemory calls) addr.toNat 4)) := by
  obtain ⟨hinv, hc, hcont⟩ := runAll_spec hcareful inv_newMemory coherent_newMemory
  have hflat : (runAll (exec keccak256) calls newMemory).content = flatMemory calls := hcont
  refine ⟨?_, ?_⟩
  · rw [merkleRoot_eq hinv, hflat]
  · intro addr halign
    obtain ⟨v, m', hget, -, -, hread⟩ := getMemory_spec hinv halign
    rw [hget, (hread hc).2, hflat]
    rfl

/-- A function in the place of the hash function that shows the first 32 bytes of what is hashed. -/
def firstWord : Bytes → Hash := Preimage.Hash.ofBytes

lemma flatRoot_firstWord (f : ℕ → UInt8) : flatRoot firstWord f = CachedPage.leaf f 0 := by
  apply label_of_fst
  intro a b
  exact Hash.ofBytes_append a b.1

/-- A word is written into a new page, the root is computed, and the next word is written. -/
def carefulCalls : List MemoryCall :=
  [.allocPage 3, .setMemory 0 1, .getMemory 0, .merkleRoot, .setMemory 4 2]

lemma careful_carefulCalls :
    Run.AllMeet (exec firstWord) Careful carefulCalls newMemory := by
  have hempty : (allocPage 3).Fresh newMemory := by
    rintro e (he | he) <;> cases he
  exact ⟨⟨trivial, hempty⟩, ⟨trivial, trivial⟩, ⟨trivial, trivial⟩, ⟨trivial, trivial⟩,
    ⟨trivial, trivial⟩, trivial⟩

theorem merkle_caching_two_words :
    ((runAll (exec firstWord) carefulCalls newMemory).merkleRoot firstWord).1 =
      flatRoot firstWord (flatMemory carefulCalls) :=
  (merkle_caching firstWord carefulCalls careful_carefulCalls).1

/-- A page is written, read, allocated again and written. -/
def staleCalls : List MemoryCall := [.setMemory 0 1, .getMemory 0, .allocPage 0, .setMemory 0 5]

lemma content_staleCalls (keccak256 : Bytes → Hash) :
    (runAll (exec keccak256) staleCalls newMemory).content = fun _ => 0 := by
  have hpages : (runAll (exec keccak256) staleCalls newMemory).pages =
      update (update (fun _ => none) 0 (some 0)) 0 (some 1) := rfl
  have hdata : ((runAll (exec keccak256) staleCalls newMemory).heap 1).data = fun _ => 0 := rfl
  funext a
  unfold content
  rw [hpages]
  by_cases ha : a / pageSize = 0
  · grind
  · rw [update_of_ne ha, update_of_ne ha]

lemma getMemory_staleCalls (keccak256 : Bytes → Hash) :
    ((runAll (exec keccak256) staleCalls newMemory).getMemory 0).map Prod.fst = .ok 5 := rfl

lemma inv_staleCalls (keccak256 : Bytes → Hash) :
    Inv keccak256 (runAll (exec keccak256) staleCalls newMemory) := by
  apply runAll_inv _ inv_newMemory
  intro c hc s s' hs h
  have hclean : c.Clean s := by
    simp only [staleCalls, List.mem_cons, List.not_mem_nil, or_false] at hc
    rcases hc with rfl | rfl | rfl | rfl <;> trivial
  exact (exec_spec hs hclean h).1

/-- The last word that was written is read, but the root is that of an empty memory; for a hash
function that shows the first leaf this is not the root of the flat memory. -/
theorem stale_page_not_in_root :
    (∀ keccak256 : Bytes → Hash,
      ((runAll (exec keccak256) staleCalls newMemory).getMemory 0).map Prod.fst = .ok 5 ∧
      ((runAll (exec keccak256) staleCalls newMemory).merkleRoot keccak256).1 =
        flatRoot keccak256 fun _ => 0) ∧
    ∃ keccak256 : Bytes → Hash,
      ((runAll (exec keccak256) staleCalls newMemory).merkleRoot keccak256).1 ≠
        flatRoot keccak256 (flatMemory staleCalls) := by
  have hroot : ∀ keccak256 : Bytes → Hash,
      ((runAll (exec keccak256) staleCalls newMemory).merkleRoot keccak256).1 =
        flatRoot keccak256 fun _ => 0 := by
    intro keccak256
    rw [merkleRoot_eq (inv_staleCalls keccak256), content_staleCalls]
  refine ⟨fun keccak256 => ⟨getMemory_staleCalls keccak256, hroot keccak256⟩, firstWord, ?_⟩
  rw [hroot, flatRoot_firstWord, flatRoot_firstWord]
  decide

end MemoryCall

end FightNight.Cannon
