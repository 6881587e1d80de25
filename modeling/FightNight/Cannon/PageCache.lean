import FightNight.Cannon.Memory

/-!
# The hashes of a page

A page keeps the hashes of the inner nodes of its Merkle tree, which has depth 7.  `Valid` says that
every hash with a valid bit is the right one for the bytes of the page.  Computing the root keeps
this and sets all bits (`merkleRoot_spec`); it is enough to clear the bits above the bytes that
change (`Valid.write`).
-/

namespace FightNight.Cannon

open Function List
open ByteMap MerkleTree
open Preimage (Hash Hash.zero)

/-- The leaves of a tree of depth `d` over a memory, by their numbers in the tree. -/
def heapLeaf (d : ℕ) (data : ℕ → UInt8) (i : ℕ) : Hash := CachedPage.leaf data (i - 2 ^ d)

lemma leaf_congr {f g : ℕ → UInt8} {i j : ℕ} (h : ∀ o < 32, f (32 * i + o) = g (32 * j + o)) :
    CachedPage.leaf f i = CachedPage.leaf g j := by
  apply Subtype.ext
  exact readAt_congr h

namespace CachedPage

/-- The hashes of a page that are valid. -/
def hashes (p : CachedPage) (j : ℕ) : Option Hash := if p.ok j then some (p.cache j) else none

/-- A page that differs from another one by more hashes only. -/
structure Grows (p p' : CachedPage) : Prop where
  data : p'.data = p.data
  ok : ∀ j, p.ok j = true → p'.ok j = true

lemma Grows.refl (p : CachedPage) : Grows p p := ⟨rfl, fun _ h => h⟩

variable {p' : CachedPage} {j n o : ℕ}

lemma Grows.trans {p p'' : CachedPage} (h : Grows p p') (h' : Grows p' p'') : Grows p p'' :=
  ⟨h'.data.trans h.data, fun j hj => h'.ok j (h.ok j hj)⟩

variable {keccak256 : Bytes → Hash} {p : CachedPage}

variable (keccak256) in
/-- All valid hashes of a page are the right ones. -/
def Valid (p : CachedPage) : Prop := Sound (hashPair keccak256) (heapLeaf 7 p.data) 7 1 p.hashes

variable (keccak256) in
def hashOf (p : CachedPage) (j : ℕ) : Hash :=
  label (hashPair keccak256) (heapLeaf 7 p.data) (7 - j.log2) j

lemma Valid.eq (h : Valid keccak256 p) (hj : p.ok j = true) :
    p.cache j = hashOf keccak256 p j := by
  apply Sound.eq h
  unfold hashes
  rw [if_pos hj]

lemma Grows.hashOf (h : Grows p p') (j : ℕ) : hashOf keccak256 p' j = hashOf keccak256 p j := by
  unfold CachedPage.hashOf
  rw [h.data]

lemma Valid.of_not_ok (h : ∀ j, p.ok j = false) : Valid keccak256 p := by
  intro g v hv
  unfold hashes at hv
  rw [h] at hv
  cases hv

/-! ## Computing the hashes -/

lemma grows_fill (p : CachedPage) (j : ℕ) (hash : Hash) : Grows p (p.fill j hash) := by
  unfold fill
  split
  · exact Grows.refl p
  · refine ⟨rfl, ?_⟩
    intro j' hj'
    by_cases hne : j' = j
    · subst hne
      exact update_self _ _ _
    · exact (update_of_ne hne _ _).trans hj'

lemma ok_fill (p : CachedPage) (j : ℕ) (hash : Hash) : (p.fill j hash).ok j = true := by
  unfold fill
  split
  · assumption
  · exact update_self _ _ _

lemma Valid.fill (h : Valid keccak256 p) (hj : j ≠ 0) (hlog : j.log2 + 1 ≤ 7) :
    Valid keccak256 (p.fill j (hashOf keccak256 p j)) := by
  unfold CachedPage.fill
  split
  · exact h
  · have hstore := Sound.store h hj hlog
    intro g v hv
    apply hstore g v
    rw [← hv]
    unfold hashes
    by_cases hne : g = j
    · subst hne
      simp only [update_self]
      rfl
    · simp only [update_of_ne hne]

lemma hashOf_bottom (p : CachedPage) {i : ℕ} (hi : i < 64) :
    keccak256 (readAt p.data (64 * i) 64) = hashOf keccak256 p (64 + i) := by
  have hlog : (64 + i).log2 = 6 := (Nat.log2_eq_iff (by omega)).mpr (by omega)
  have hleft : 2 * (64 + i) - 2 ^ 7 = 2 * i := by omega
  have hright : 2 * (64 + i) + 1 - 2 ^ 7 = 2 * i + 1 := by omega
  have hsplit : readAt p.data (64 * i) 64 =
      readAt p.data (32 * (2 * i)) 32 ++ readAt p.data (32 * (2 * i + 1)) 32 := by
    have hstart : 64 * i = 32 * (2 * i) := by omega
    rw [hstart]
    exact readAt_add _ _ 32 32
  unfold hashOf
  rw [hlog, label, label, label, heapLeaf, heapLeaf, hleft, hright, hsplit]
  rfl

lemma foldl_hashBottom (h : Valid keccak256 p) (hn : n ≤ 64) :
    let p' := (range n).foldl (hashBottom keccak256) p
    Valid keccak256 p' ∧ Grows p p' ∧ ∀ j, 64 ≤ j → j < 64 + n → p'.ok j = true := by
  induction n with
  | zero =>
    refine ⟨h, Grows.refl p, ?_⟩
    intro j hlo hhi
    omega
  | succ n ih =>
    obtain ⟨hvalid, hgrows, hok⟩ := ih (Nat.le_of_succ_le hn)
    rw [range_succ, foldl_append, foldl_cons]
    generalize (range n).foldl (hashBottom keccak256) p = q at hvalid hgrows hok ⊢
    have hlog : (64 + n).log2 = 6 := (Nat.log2_eq_iff (by omega)).mpr (by omega)
    unfold hashBottom
    rw [@hashOf_bottom keccak256 q n (by omega)]
    refine ⟨hvalid.fill (by omega) (by omega), hgrows.trans (grows_fill _ _ _), ?_⟩
    intro j hlo hhi
    by_cases hj : j = 64 + n
    · subst hj
      exact ok_fill _ _ _
    · exact (grows_fill _ _ _).ok j (hok j hlo (by omega))

/-- The second loop goes down from node 63 to the root, so that the children of a node have been
visited before it. -/
theorem foldl_hashLayer (h : Valid keccak256 p) (hbot : ∀ j, 64 ≤ j → j < 128 → p.ok j = true)
    (hn : n ≤ 63) :
    let p' := (range n).foldl (hashLayer keccak256) p
    Valid keccak256 p' ∧ Grows p p' ∧ ∀ j, 63 - n < j → j < 128 → p'.ok j = true := by
  induction n with
  | zero => exact ⟨h, Grows.refl p, hbot⟩
  | succ n ih =>
    obtain ⟨hvalid, hgrows, hok⟩ := ih (Nat.le_of_succ_le hn)
    rw [range_succ, foldl_append, foldl_cons]
    generalize (range n).foldl (hashLayer keccak256) p = q at hvalid hgrows hok ⊢
    obtain ⟨k, hk⟩ : ∃ k, 63 - n = k := ⟨_, rfl⟩
    have hlog : k.log2 < 6 := (Nat.log2_lt (by omega)).mpr (by omega)
    have hhash : hashPair keccak256 (q.cache (2 * k)) (q.cache (2 * k + 1)) =
        hashOf keccak256 q k := by
      rw [hvalid.eq (hok (2 * k) (by omega) (by omega)),
        hvalid.eq (hok (2 * k + 1) (by omega) (by omega))]
      exact (label_heap _ (by omega) (by omega)).symm
    unfold hashLayer
    simp only [hk, hhash]
    refine ⟨hvalid.fill (by omega) (by omega), hgrows.trans (grows_fill _ _ _), ?_⟩
    intro j hlo hhi
    by_cases hj : j = k
    · subst hj
      exact ok_fill _ _ _
    · exact (grows_fill _ _ _).ok j (hok j (by omega) hhi)

lemma merkleRoot_spec (h : Valid keccak256 p) :
    Valid keccak256 (p.merkleRoot keccak256).2 ∧ Grows p (p.merkleRoot keccak256).2 ∧
      ∀ j, 0 < j → j < 128 → (p.merkleRoot keccak256).2.ok j = true := by
  unfold merkleRoot
  dsimp only
  obtain ⟨hvalid, hgrows, hok⟩ := foldl_hashBottom h (le_refl 64)
  obtain ⟨hvalid', hgrows', hok'⟩ := foldl_hashLayer hvalid hok (le_refl 63)
  refine ⟨hvalid', hgrows.trans hgrows', ?_⟩
  intro j hlo hhi
  exact hok' j (by omega) hhi

lemma merkleizeSubtree_spec (h : Valid keccak256 p) {g : ℕ} (hpos : 0 < g) (hlt : g < 256) :
    (p.merkleizeSubtree keccak256 g).1 = hashOf keccak256 p g ∧
      Valid keccak256 (p.merkleizeSubtree keccak256 g).2 ∧
      Grows p (p.merkleizeSubtree keccak256 g).2 ∧
      (p.merkleizeSubtree keccak256 g).2.ok 1 = true := by
  obtain ⟨hvalid, hgrows, hok⟩ := merkleRoot_spec h
  unfold merkleizeSubtree
  by_cases hleaf : 128 ≤ g
  · have hlog : g.log2 = 7 := (Nat.log2_eq_iff (by omega)).mpr (by omega)
    have hmod : g % 128 = g - 2 ^ 7 := by omega
    simp only [if_pos hleaf]
    refine ⟨?_, hvalid, hgrows, hok 1 (by decide) (by decide)⟩
    unfold hashOf
    rw [hlog, label, heapLeaf, hgrows.data, hmod]
  · simp only [if_neg hleaf]
    refine ⟨?_, hvalid, hgrows, hok 1 (by decide) (by decide)⟩
    rw [hvalid.eq (hok g hpos (by omega)), hgrows.hashOf]

/-! ## Changing the bytes -/

lemma ok_of_ok_invalidate (h : (p.invalidate o).ok j = true) (ho : o < pageSize) :
    p.ok j = true ∧ ¬ OnPath ((2 ^ 12 + o) / 2 ^ 6) j := by
  have hsize : pageSize = 4096 := rfl
  have hnot : ¬ OnPath ((2 ^ 12 + o) / 2 ^ 6) j := by
    intro hpath
    have hfalse : (p.invalidate o).ok j = false := setPath_of_onPath (by omega) hpath
    cases hfalse.symm.trans h
  refine ⟨?_, hnot⟩
  rw [← h]
  exact (setPath_of_not_onPath hnot).symm

lemma Valid.write (h : Valid keccak256 p) (ho : o < pageSize) {data : ℕ → UInt8}
    (hdata : ∀ i, i / 64 ≠ o / 64 → data i = p.data i) :
    Valid keccak256 { p.invalidate o with data := data } := by
  refine Sound.change (c := 1) (k := (2 ^ 12 + o) / 2 ^ 6) h (le_refl 1) ?_ ?_
  · intro i hlo _ hi
    apply leaf_congr
    intro b hb
    apply hdata
    omega
  · intro g v hv
    unfold hashes at hv ⊢
    split at hv
    · rename_i hg
      obtain ⟨hok, hnot⟩ := ok_of_ok_invalidate hg ho
      rw [if_pos hok]
      exact ⟨hv, hnot⟩
    · cases hv

end CachedPage

end FightNight.Cannon
