import FightNight.Cannon.MerkleCache

/-!
# The methods of the memory

What each method of the memory does to the contents.  All of them keep the invariant, and
`SetMemoryRange` does so when it visits no page that has its hashes.  When the lookup cache agrees
with the map of pages (`Coherent`), the contents change by what is written and nothing else.
-/

namespace FightNight.Cannon

open Option FightNight.Except
open Function (update_of_ne update_self)
open ByteMap MerkleTree CachedPage.Valid
open Preimage (Hash Hash.zero)

namespace Memory

variable {keccak256 : Bytes → Hash} {m : Memory} {k p : ℕ}

/-! ## Changes that keep the invariant -/

lemma Inv.clearPath (hm : Inv keccak256 m) (g : ℕ) : Inv keccak256 (m.clearPath g) := by
  have hcases : ∀ g', (m.clearPath g).nodes g' = m.nodes g' ∨
      (m.clearPath g).nodes g' = some none ∧ OnPath g g' := setPath_cases _ _ _ _
  have hold : ∀ g' n, (m.clearPath g).nodes g' = some (some n) → m.nodes g' = some (some n) := by
    intro g' n hn
    rcases hcases g' with h | h
    · rw [← h, hn]
    · rw [h.1] at hn
      cases hn
  refine ⟨hm.refs, hm.inj, hm.page, ?_, ?_, ?_, ?_, hm.lookup⟩
  · intro g' v hv
    exact hm.node g' v (join_eq_some_iff.mpr (hold g' v (join_eq_some_iff.mp hv)))
  · intro g' n hn
    exact hm.hashed g' n (hold g' n hn)
  · intro k p hp g' hbelow
    rcases hcases g' with h | h
    · rw [h]
      exact hm.present k p hp g' hbelow
    · rw [h.1]
      exact some_ne_none _
  · rcases hcases 0 with h | h
    · rw [h, hm.zero]
    · exact absurd rfl h.2.1

variable {addr : U32} {m' : Memory} {page : CachedPage} {f f' : ℕ → UInt8} {a g l o q : ℕ}
  {bs : Bytes}

lemma clearPath_ne_some {n : Hash} (hbelow : Below k g) :
    (m.clearPath (2 ^ 20 + k)).nodes g ≠ some (some n) := by
  have hset : (m.clearPath (2 ^ 20 + k)).nodes g = some none :=
    setPath_of_onPath (by have := hbelow.1; omega) hbelow.2
  rw [hset]
  simp

lemma free_clearPath (hp : ∀ l, m.pages l = some p → l = k) :
    Free (m.clearPath (2 ^ 20 + k)) p := by
  intro l hl g n hbelow
  obtain rfl := hp l hl
  exact clearPath_ne_some hbelow

lemma Inv.free (hm : Inv keccak256 m) (h : (m.heap p).ok 1 = false) : Free m p := by
  intro l hl g n hbelow hn
  rw [hm.hashed g n hn l p hbelow hl] at h
  cases h

lemma heapLeaf_congr (hf : ∀ a, a / pageSize ≠ k → f a = f' a) {i : ℕ} (hlo : 2 ^ 27 ≤ i)
    (hi : i / 2 ^ 7 ≠ 2 ^ 20 + k) : heapLeaf 27 f i = heapLeaf 27 f' i := by
  apply leaf_congr
  intro o ho
  apply hf
  unfold pageSize
  omega

lemma node_change {nodes nodes' : ℕ → Option (Option Hash)}
    (hnode : Sound (hashPair keccak256) (heapLeaf 27 f) 27 8 fun g => (nodes g).join)
    (hf : ∀ a, a / pageSize ≠ k → f' a = f a)
    (hsub : ∀ g n, nodes' g = some (some n) → nodes g = some (some n))
    (hfree : ∀ g n, Below k g → nodes' g ≠ some (some n)) :
    Sound (hashPair keccak256) (heapLeaf 27 f') 27 8 fun g => (nodes' g).join := by
  by_cases hk : k < 2 ^ 20
  · refine hnode.change (c := 7) (k := 2 ^ 20 + k) (by decide) ?_ ?_
    · intro i hlo _ hi
      exact heapLeaf_congr hf hlo hi
    · intro g n hn
      have hn' := join_eq_some_iff.mp hn
      refine ⟨join_eq_some_iff.mpr (hsub g n hn'), ?_⟩
      intro hpath
      exact hfree g n ⟨hk, hpath⟩ hn'
  · -- A page behind the last address has no leaves in the tree.
    refine hnode.change (c := 7) (k := 0) (by decide) ?_ ?_
    · intro i hlo hhi _
      exact heapLeaf_congr hf hlo (by omega)
    · intro g n hn
      refine ⟨join_eq_some_iff.mpr (hsub g n (join_eq_some_iff.mp hn)), ?_⟩
      rintro ⟨hg, j, hj⟩
      exact hg (by rw [← hj, Nat.zero_div])

lemma content_setPage_of_ne (page : CachedPage) (ha : m.pages (a / pageSize) ≠ some p) :
    (m.setPage p page).content a = m.content a := by
  unfold content setPage
  dsimp only
  split
  · rename_i q hq
    rw [update_of_ne]
    rintro rfl
    exact ha hq
  · rfl

lemma content_setPage_of_eq (page : CachedPage) (ha : m.pages (a / pageSize) = some p) :
    (m.setPage p page).content a = page.data (a % pageSize) := by
  unfold content setPage
  rw [ha]
  dsimp only
  rw [update_self]

lemma Inv.setPage (hm : Inv keccak256 m) (hvalid : page.Valid keccak256) (hfree : Free m p) :
    Inv keccak256 (m.setPage p page) := by
  refine ⟨hm.refs, hm.inj, hm.valid_update hvalid p, ?_, ?_, hm.present, hm.zero, hm.lookup⟩
  · by_cases hex : ∃ k, m.pages k = some p
    · obtain ⟨k, hk⟩ := hex
      refine node_change hm.node (k := k) ?_ (fun _ _ hn => hn) (hfree k hk)
      intro a ha
      apply content_setPage_of_ne
      intro hp
      exact ha (hm.inj _ _ _ hp hk)
    · have hsame : (m.setPage p page).content = m.content := by
        funext a
        exact content_setPage_of_ne page fun hp => hex ⟨_, hp⟩
      rw [hsame]
      exact hm.node
  · intro g n hn l q hbelow hq
    unfold Memory.setPage
    by_cases hqp : q = p
    · subst hqp
      exact absurd hn (hfree l hq g n hbelow)
    · simp only [update_of_ne hqp]
      exact hm.hashed g n hn l q hbelow hq

/-! ## Looking up and allocating pages -/

/-- The lookup cache and the map of pages agree. -/
def Coherent (m : Memory) : Prop :=
  ∀ e, m.lastPage.1 = some e ∨ m.lastPage.2 = some e → m.pages e.key = some e.page

lemma hit_eq_some {entry : Option Lookup} (h : hit entry k = some p) : entry = some ⟨k, p⟩ := by
  unfold hit at h
  split at h
  · split at h
    · rename_i e hk
      rw [some.injEq] at h
      rw [hk, ← h]
    · cases h
  · cases h

lemma pageLookup_cases (m : Memory) (k : ℕ) :
    (∃ p, m.pageLookup k = (some p, m) ∧
        (m.lastPage.1 = some ⟨k, p⟩ ∨ m.lastPage.2 = some ⟨k, p⟩)) ∨
      (∃ p, m.pageLookup k = (some p, { m with lastPage := (some ⟨k, p⟩, m.lastPage.1) }) ∧
        m.pages k = some p) ∨
      m.pageLookup k = (none, m) ∧ m.pages k = none := by
  unfold pageLookup
  cases hfirst : hit m.lastPage.1 k with
  | some p => exact .inl ⟨p, rfl, .inl (hit_eq_some hfirst)⟩
  | none =>
    cases hsecond : hit m.lastPage.2 k with
    | some p => exact .inl ⟨p, rfl, .inr (hit_eq_some hsecond)⟩
    | none =>
      cases hpage : m.pages k with
      | some p => exact .inr (.inl ⟨p, rfl, rfl⟩)
      | none => exact .inr (.inr ⟨rfl, rfl⟩)

/-- The page that is found with an index is not the page of another one. -/
structure Found (keccak256 : Bytes → Hash) (m : Memory) (k p : ℕ) (m' : Memory) : Prop where
  same : ∃ last, m' = { m with lastPage := last }
  inv : Inv keccak256 m'
  only : ∀ l, m.pages l = some p → l = k
  coherent : Coherent m → Coherent m' ∧ m.pages k = some p
  again : m'.pageLookup k = (some p, m')

lemma pageLookup_found (hm : Inv keccak256 m) (hk : k < 2 ^ 20)
    (h : m.pageLookup k = (some p, m')) : Found keccak256 m k p m' := by
  rcases pageLookup_cases m k with ⟨q, hq, hentry⟩ | ⟨q, hq, hpage⟩ | ⟨hq, -⟩
  · cases hq.symm.trans h
    exact ⟨⟨m.lastPage, rfl⟩, hm, (hm.lookup _ hentry).2.2, fun hc => ⟨hc, hc _ hentry⟩, h⟩
  · obtain ⟨rfl, rfl⟩ : q = p ∧ { m with lastPage := (some ⟨k, q⟩, m.lastPage.1) } = m' := by
      simpa using hq.symm.trans h
    have honly : ∀ l, m.pages l = some q → l = k := fun l hl => hm.inj l k q hl hpage
    refine ⟨⟨_, rfl⟩, ?_, honly, ?_, ?_⟩
    · refine ⟨hm.refs, hm.inj, hm.page, hm.node, hm.hashed, hm.present, hm.zero, ?_⟩
      rintro e (he | he)
      · cases he
        exact ⟨hm.refs k q hpage, hk, honly⟩
      · exact hm.lookup e (.inl he)
    · intro hc
      refine ⟨?_, hpage⟩
      rintro e (he | he)
      · cases he
        exact hpage
      · exact hc e (.inl he)
    · unfold pageLookup hit
      simp
  · cases hq.symm.trans h

lemma pageLookup_outcome (hm : Inv keccak256 m) (hk : k < 2 ^ 20) :
    (∃ p m', m.pageLookup k = (some p, m') ∧ Found keccak256 m k p m') ∨
      m.pageLookup k = (none, m) ∧ m.pages k = none := by
  rcases pageLookup_cases m k with ⟨p, hp, -⟩ | ⟨p, hp, -⟩ | hnone
  · exact .inl ⟨p, _, hp, pageLookup_found hm hk hp⟩
  · exact .inl ⟨p, _, hp, pageLookup_found hm hk hp⟩
  · exact .inr hnone

lemma Found.content (h : Found keccak256 m k p m') : m'.content = m.content := by
  obtain ⟨last, rfl⟩ := h.same
  rfl

lemma allocated_not_mem (hm : Inv keccak256 m) (l : ℕ) : m.pages l ≠ some m.allocated := by
  intro hl
  exact absurd (hm.refs l _ hl) (lt_irrefl _)

lemma or_page (hk : k < 2 ^ 20) : 2 ^ 20 ||| k = 2 ^ 20 + k := by
  exact (Nat.two_pow_add_eq_or_of_lt hk 1).symm

/-- The memory with an empty page under a new pointer. -/
def putPage (m : Memory) (k : ℕ) : Memory :=
  { m with
    heap := Function.update m.heap m.allocated CachedPage.new
    allocated := m.allocated + 1
    pages := Function.update m.pages k (some m.allocated) }

lemma allocPage_eq (m : Memory) (k : ℕ) :
    m.allocPage k = (m.allocated, (m.clearPath (2 ^ 20 ||| k)).putPage k) := rfl

lemma pages_putPage (h : (m.putPage k).pages l = some q) :
    l = k ∧ q = m.allocated ∨ m.pages l = some q := by
  by_cases hlk : l = k
  · subst hlk
    exact .inl ⟨rfl, some.inj (h.symm.trans (update_self _ _ _))⟩
  · exact .inr ((update_of_ne hlk _ _).symm.trans h)

lemma heap_putPage_of_mem (hm : Inv keccak256 m) (h : m.pages l = some q) :
    (m.putPage k).heap q = m.heap q := by
  apply update_of_ne
  rintro rfl
  exact allocated_not_mem hm l h

lemma only_putPage (hm : Inv keccak256 m) (h : (m.putPage k).pages l = some m.allocated) :
    l = k := by
  rcases pages_putPage h with h | h
  · exact h.1
  · exact absurd h (allocated_not_mem hm l)

lemma content_putPage_of_ne (hm : Inv keccak256 m) (ha : a / pageSize ≠ k) :
    (m.putPage k).content a = m.content a := by
  have hsame : (m.putPage k).pages (a / pageSize) = m.pages (a / pageSize) := update_of_ne ha _ _
  unfold content
  rw [hsame]
  split
  · rename_i q hq
    rw [heap_putPage_of_mem hm hq]
  · rfl

lemma content_putPage_of_eq (m : Memory) (ha : a / pageSize = k) :
    (m.putPage k).content a = 0 := by
  unfold content putPage
  dsimp only
  rw [ha, update_self]
  dsimp only
  rw [update_self]
  rfl

lemma writeAt_of_page_ne (ha : a / pageSize ≠ k) (hlow : pageSize * k ≤ q)
    (hhigh : q + bs.length ≤ pageSize * k + pageSize) : writeAt f q bs a = f a := by
  unfold pageSize at ha hlow hhigh
  rcases lt_or_ge a q with hlt | hge
  · exact writeAt_of_lt hlt
  · exact writeAt_of_ge (by omega)

/-- A memory that differs in one page. -/
theorem eq_writeAt_page (hlen : bs.length = pageSize) (hne : ∀ a, a / pageSize ≠ k → f' a = f a)
    (heq : ∀ a (h : a % pageSize < bs.length), a / pageSize = k → f' a = bs[a % pageSize]) :
    f' = writeAt f (k * pageSize) bs := by
  funext a
  by_cases ha : a / pageSize = k
  · have ho : a % pageSize < bs.length := lt_of_lt_of_eq (Nat.mod_lt a (by decide)) hlen.symm
    rw [heq a ho ha, ← @writeAt_add f (k * pageSize) bs _ ho, ← ha, Nat.div_add_mod']
  · rw [hne a ha, writeAt_of_page_ne ha (mul_comm _ _).le (by rw [hlen, mul_comm])]

section

variable (hm : Inv keccak256 m)
include hm

/-- A new page, when the nodes above it are nil. -/
theorem Inv.putPage (hnil : ∀ g, Below k g → m.nodes g = some none) :
    Inv keccak256 (m.putPage k) := by
  have hfree : ∀ g n, Below k g → m.nodes g ≠ some (some n) := by grind
  refine ⟨?_, ?_, hm.valid_update (of_not_ok fun _ => rfl) _, ?_, ?_, ?_, hm.zero, ?_⟩
  · intro l q hl
    rcases pages_putPage hl with ⟨-, rfl⟩ | h
    · exact Nat.lt_succ_self _
    · exact Nat.lt_succ_of_lt (hm.refs l q h)
  · intro l l' q hl hl'
    rcases pages_putPage hl with ⟨rfl, rfl⟩ | h
    · exact (only_putPage hm hl').symm
    · rcases pages_putPage hl' with ⟨rfl, rfl⟩ | h'
      · exact absurd h (allocated_not_mem hm l)
      · exact hm.inj l l' q h h'
  · exact node_change hm.node (fun a ha => content_putPage_of_ne hm ha) (fun _ _ hn => hn) hfree
  · intro g n hn l q hbelow hl
    rcases pages_putPage hl with ⟨rfl, -⟩ | h
    · exact absurd hn (hfree g n hbelow)
    · rw [heap_putPage_of_mem hm h]
      exact hm.hashed g n hn l q hbelow h
  · intro l q hl g hbelow
    rcases pages_putPage hl with ⟨rfl, -⟩ | h
    · exact fun hnone => some_ne_none _ ((hnil g hbelow).symm.trans hnone)
    · exact hm.present l q h g hbelow
  · intro e he
    obtain ⟨hlt, hkey, hpage⟩ := hm.lookup e he
    refine ⟨Nat.lt_succ_of_lt hlt, hkey, ?_⟩
    intro l hl
    rcases pages_putPage hl with ⟨-, h⟩ | h
    · exact absurd h hlt.ne
    · exact hpage l h

/-- The outcome of `AllocPage`. -/
structure Allocated (keccak256 : Bytes → Hash) (m : Memory) (k : ℕ) (r : ℕ × Memory) : Prop where
  inv : Inv keccak256 r.2
  free : Free r.2 r.1
  ok : (r.2.heap r.1).ok = fun _ => false
  page : r.2.pages k = some r.1
  pages : ∀ l q, r.2.pages l = some q → q ≠ r.1 → m.pages l = some q ∧ r.2.heap q = m.heap q
  coherent : Coherent m → (∀ e, m.lastPage.1 = some e ∨ m.lastPage.2 = some e → e.key ≠ k) →
    Coherent r.2

lemma allocPage_spec (k : ℕ) :
    Allocated keccak256 m k (m.allocPage k) := by
  have hclear := hm.clearPath (2 ^ 20 ||| k)
  have hnil : ∀ g, Below k g → (m.clearPath (2 ^ 20 ||| k)).nodes g = some none := by
    rintro g ⟨hk, hpath⟩
    rw [or_page hk]
    exact setPath_of_onPath (by omega) hpath
  have hold : ∀ l q, (m.putPage k).pages l = some q → q ≠ m.allocated → m.pages l = some q := by
    intro l q hl hq
    exact (pages_putPage hl).resolve_left fun h => hq h.2
  refine ⟨hclear.putPage hnil, ?_, ?_, update_self _ _ _, ?_, ?_⟩
  · intro l hl g n hbelow hn
    obtain rfl := only_putPage hclear hl
    have hnone : (m.clearPath (2 ^ 20 ||| l)).nodes g = some (some n) := hn
    rw [hnil g hbelow] at hnone
    cases hnone
  · have hnew : ((m.clearPath (2 ^ 20 ||| k)).putPage k).heap m.allocated = CachedPage.new :=
      update_self _ _ _
    exact congrArg CachedPage.ok hnew
  · intro l q hl hq
    exact ⟨hold l q hl hq, update_of_ne hq _ _⟩
  · intro hc hkeys e he
    exact (update_of_ne (hkeys e he) _ _).trans (hc e he)

lemma content_allocPage (k : ℕ) :
    (m.allocPage k).2.content = writeAt m.content (k * pageSize) (zeros pageSize) := by
  rw [allocPage_eq]
  refine eq_writeAt_page (length_zeros _)
    (fun a ha => content_putPage_of_ne (hm.clearPath (2 ^ 20 ||| k)) ha) fun a _ ha => ?_
  rw [content_putPage_of_eq _ ha]
  exact (List.getElem_replicate _).symm

lemma content_allocPage_of_none (hk : m.pages k = none) :
    (m.allocPage k).2.content = m.content := by
  have hclear := hm.clearPath (2 ^ 20 ||| k)
  rw [allocPage_eq]
  funext a
  by_cases ha : a / pageSize = k
  · rw [content_putPage_of_eq _ ha]
    unfold content
    rw [ha, hk]
  · exact content_putPage_of_ne hclear ha

/-! ## Writing -/

lemma content_write (hp : m.pages k = some p) (ho : o + bs.length ≤ pageSize)
    (hdata : page.data = writeAt (m.heap p).data o bs) :
    (m.setPage p page).content = writeAt m.content (pageSize * k + o) bs := by
  funext a
  by_cases ha : a / pageSize = k
  · have hidx : a = pageSize * k + a % pageSize := by
      rw [← ha]
      exact (Nat.div_add_mod a pageSize).symm
    have hbyte : (m.heap p).data (a % pageSize) = m.content (pageSize * k + a % pageSize) := by
      rw [← hidx]
      unfold content
      rw [ha, hp]
    rw [content_setPage_of_eq _ (by rw [ha, hp]), hdata, writeAt_shift hbyte, ← hidx]
  · have hne : m.pages (a / pageSize) ≠ some p := fun h => ha (hm.inj _ _ _ h hp)
    rw [content_setPage_of_ne _ hne, writeAt_of_page_ne ha (Nat.le_add_right _ _) (by omega)]

end

lemma Allocated.coherent_of_none {r : ℕ × Memory} (h : Allocated keccak256 m k r)
    (hk : m.pages k = none) (hc : Coherent m) : Coherent r.2 := by
  refine h.coherent hc fun e he hkey => ?_
  have hpage := hc e he
  rw [hkey, hk] at hpage
  cases hpage

lemma address_eq (addr : U32) : pageSize * pageIndex addr + pageAddr addr = addr.toNat :=
  Nat.div_add_mod _ _

lemma pageIndex_lt (addr : U32) : pageIndex addr < 2 ^ 20 := by
  unfold pageIndex pageSize
  omega

lemma pageAddr_lt (addr : U32) : pageAddr addr < pageSize := Nat.mod_lt _ (by decide)

lemma word_in_page (h : addr.toNat % 4 = 0) : pageAddr addr + 4 ≤ pageSize := by
  unfold pageAddr pageSize at *
  omega

/-! ## The methods -/

/-- The nodes above a page before it is written. -/
def release (m : Memory) (k p : ℕ) : Memory :=
  if (m.heap p).ok 1 then m.clearPath (2 ^ 20 + k) else m

lemma release_spec (hm : Inv keccak256 m) (honly : ∀ l, m.pages l = some p → l = k) :
    Inv keccak256 (m.release k p) ∧ Free (m.release k p) p ∧ (m.release k p).heap = m.heap ∧
      (m.release k p).pages = m.pages ∧ (m.release k p).lastPage = m.lastPage := by
  unfold release
  split
  · exact ⟨hm.clearPath _, free_clearPath honly, rfl, rfl, rfl⟩
  · rename_i hok
    exact ⟨hm, hm.free (Bool.not_eq_true _ ▸ hok), rfl, rfl, rfl⟩

lemma Found.release (h : Found keccak256 m k p m') :
    Inv keccak256 (m'.release k p) ∧ Free (m'.release k p) p ∧ (m'.release k p).heap = m'.heap ∧
      (m'.release k p).content = m.content ∧
      (Coherent m → Coherent (m'.release k p) ∧ (m'.release k p).pages k = some p) := by
  obtain ⟨last, rfl⟩ := h.same
  obtain ⟨hinv, hfree, hheap, hpages, hlast⟩ := release_spec h.inv h.only
  refine ⟨hinv, hfree, hheap, ?_, fun hc => ?_⟩
  · unfold Memory.content
    rw [hpages, hheap]
  · obtain ⟨hc', hpage⟩ := h.coherent hc
    refine ⟨fun e he => ?_, (congrFun hpages k).trans hpage⟩
    exact (congrFun hpages e.key).trans (hc' e (by rwa [← hlast]))

lemma gindex_page (addr : U32) : (2 ^ 32 + addr.toNat) / pageSize = 2 ^ 20 + pageIndex addr := by
  unfold pageIndex pageSize
  omega

lemma invalidate_of_found (halign : addr.toNat % 4 = 0)
    (h : m.pageLookup (pageIndex addr) = (some p, m')) :
    m.invalidate addr = .ok ((m'.release (pageIndex addr) p).setPage p
      ((m'.heap p).invalidate (pageAddr addr))) := by
  unfold invalidate release
  rw [require_bind halign, h]
  dsimp only
  rw [gindex_page]
  split <;> rfl

lemma setMemory_of_found (hm : Inv keccak256 m) (halign : addr.toNat % 4 = 0)
    (h : m.pageLookup (pageIndex addr) = (some p, m')) (v : U32) :
    m.setMemory addr v = .ok ((m'.release (pageIndex addr) p).setPage p
      { (m'.heap p).invalidate (pageAddr addr) with
        data := writeAt (m'.heap p).data (pageAddr addr) (beBytes 4 v.toNat) }) := by
  have hagain := (pageLookup_found hm (pageIndex_lt addr) h).again
  unfold setMemory
  rw [require_bind halign, h]
  dsimp only
  rw [invalidate_of_found halign hagain, ok_bind]
  unfold writePage setPage
  dsimp only
  rw [update_self, Function.update_idem]
  rfl

lemma valid_write (hm : Inv keccak256 m) (halign : addr.toNat % 4 = 0) (v : U32) :
    CachedPage.Valid keccak256 { (m.heap p).invalidate (pageAddr addr) with
      data := writeAt (m.heap p).data (pageAddr addr) (beBytes 4 v.toNat) } := by
  apply write (hm.page p) (pageAddr_lt addr)
  intro i hi
  have haddr : pageAddr addr % 4 = 0 := by
    unfold pageAddr pageSize
    omega
  rcases lt_or_ge i (pageAddr addr) with hlt | hge
  · exact writeAt_of_lt hlt
  · apply writeAt_of_ge
    rw [length_beBytes]
    omega

lemma setMemory_spec (hm : Inv keccak256 m) (halign : addr.toNat % 4 = 0) (v : U32) :
    ∃ m', m.setMemory addr v = .ok m' ∧ Inv keccak256 m' ∧
      (Coherent m → Coherent m' ∧
        m'.content = writeAt m.content addr.toNat (beBytes 4 v.toNat)) := by
  have hroom : pageAddr addr + (beBytes 4 v.toNat).length ≤ pageSize := by
    exact word_in_page halign
  rcases pageLookup_outcome hm (pageIndex_lt addr) with ⟨p, m', hl, hfound⟩ | ⟨hl, hnone⟩
  · obtain ⟨hinv, hfree, hheap, hrel, hcoh⟩ := hfound.release
    refine ⟨_, setMemory_of_found hm halign hl v, ?_, fun hc => ?_⟩
    · exact hinv.setPage (valid_write hfound.inv halign v) hfree
    obtain ⟨hc', hpage⟩ := hcoh hc
    refine ⟨hc', ?_⟩
    -- The valid bits of the page do not matter for the contents.
    rw [content_write hinv hpage hroom (by rw [hheap]), address_eq, hrel]
  · -- The page is allocated; the lookup cache does not have it.
    have halloc := allocPage_spec hm (pageIndex addr)
    refine ⟨(m.allocPage (pageIndex addr)).2.writePage (m.allocPage (pageIndex addr)).1
      (pageAddr addr) (beBytes 4 v.toNat), ?_, ?_,
      fun hc => ⟨halloc.coherent_of_none hnone hc, ?_⟩⟩
    · unfold setMemory
      rw [require_bind halign, hl]
      rfl
    · apply halloc.inv.setPage _ halloc.free
      apply of_not_ok
      intro j
      exact congrFun halloc.ok j
    · exact (content_write halloc.inv halloc.page hroom rfl).trans
        (by rw [content_allocPage_of_none hm hnone, address_eq])

lemma content_setPage_same (h : page.data = (m.heap p).data) :
    (m.setPage p page).content = m.content := by
  funext a
  by_cases ha : m.pages (a / pageSize) = some p
  · rw [content_setPage_of_eq _ ha, h]
    unfold content
    rw [ha]
  · exact content_setPage_of_ne _ ha

lemma invalidate_spec (hm : Inv keccak256 m) (h : m.invalidate addr = .ok m') :
    Inv keccak256 m' ∧ m'.content = m.content ∧ (Coherent m → Coherent m') := by
  by_cases halign : addr.toNat % 4 = 0
  · rcases pageLookup_outcome hm (pageIndex_lt addr) with ⟨p, m₁, hl, hfound⟩ | ⟨hl, -⟩
    · obtain ⟨hinv, hfree, hheap, hsame, hcoh⟩ := hfound.release
      rw [invalidate_of_found halign hl, Except.ok.injEq] at h
      subst h
      refine ⟨?_, ?_, fun hc => (hcoh hc).1⟩
      · apply hinv.setPage _ hfree
        exact write (hfound.inv.page p) (pageAddr_lt addr) fun _ _ => rfl
      · rw [content_setPage_same (by rw [hheap]; rfl), hsame]
    · unfold invalidate at h
      rw [require_bind halign, hl] at h
      cases h
      exact ⟨hm, rfl, fun hc => hc⟩
  · obtain ⟨_, hrev, _⟩ := bind_eq_ok.mp h
    exact absurd halign (revertIf_eq_ok.mp hrev)

lemma page_word (halign : addr.toNat % 4 = 0) {i : ℕ} (hi : i < 4) :
    (addr.toNat + i) / pageSize = pageIndex addr ∧
      (addr.toNat + i) % pageSize = pageAddr addr + i := by
  unfold pageIndex pageAddr pageSize
  omega

lemma readAt_content (halign : addr.toNat % 4 = 0) (hp : m.pages (pageIndex addr) = some p) :
    readAt (m.heap p).data (pageAddr addr) 4 = readAt m.content addr.toNat 4 := by
  apply readAt_congr
  intro i hi
  obtain ⟨hidx, hoff⟩ := page_word halign hi
  unfold content
  rw [hidx, hp, hoff]

lemma readAt_content_of_none (halign : addr.toNat % 4 = 0)
    (hp : m.pages (pageIndex addr) = none) : readAt m.content addr.toNat 4 = zeros 4 := by
  have hzero : readAt m.content addr.toNat 4 = readAt (fun _ => 0) 0 4 := by
    apply readAt_congr
    intro i hi
    unfold content
    rw [(page_word halign hi).1, hp]
  rw [hzero]
  decide

lemma getMemory_spec (hm : Inv keccak256 m) (halign : addr.toNat % 4 = 0) :
    ∃ v m', m.getMemory addr = .ok (v, m') ∧ Inv keccak256 m' ∧ m'.content = m.content ∧
      (Coherent m → Coherent m' ∧ v = uint32 (readAt m.content addr.toNat 4)) := by
  unfold getMemory
  rw [require_bind halign]
  rcases pageLookup_outcome hm (pageIndex_lt addr) with ⟨p, m', hp, hfound⟩ | ⟨hp, hnone⟩
  · rw [hp]
    refine ⟨_, _, rfl, hfound.inv, hfound.content, fun hc => ⟨(hfound.coherent hc).1, ?_⟩⟩
    rw [← readAt_content halign (hfound.coherent hc).2]
    obtain ⟨last, rfl⟩ := hfound.same
    rfl
  · rw [hp]
    refine ⟨_, _, rfl, hm, rfl, fun hc => ⟨hc, ?_⟩⟩
    rw [readAt_content_of_none halign hnone]
    decide

lemma Grows.coherent (h : Grows m m') (hc : Coherent m) : Coherent m' := by
  intro e he
  rw [h.lastPage] at he
  rw [h.pages]
  exact hc e he

lemma merkleProof_spec (hm : Inv keccak256 m) (addr : U32) :
    (m.merkleProof keccak256 addr).1 = (hashAt keccak256 m 0 (leafIndex addr) ::
        (List.range 27).map (siblings keccak256 m addr)).flatMap Subtype.val ∧
      Inv keccak256 (m.merkleProof keccak256 addr).2 ∧
      Grows m (m.merkleProof keccak256 addr).2 := by
  have hroot : leafIndex addr / 2 ^ 27 = 1 := by
    unfold leafIndex
    omega
  obtain ⟨hproof, hinv, hgrows⟩ := traverseBranch_spec hm addr (le_refl 27)
  rw [hroot] at hproof hinv hgrows
  unfold merkleProof
  dsimp only
  rw [hproof]
  exact ⟨rfl, hinv, hgrows⟩

lemma merkleizeSubtree_spec (hm : Inv keccak256 m) {r : Hash × Memory}
    (h : m.merkleizeSubtree keccak256 g = .ok r) : Inv keccak256 r.2 ∧ Grows m r.2 := by
  obtain ⟨_, hdeep, hr⟩ := bind_eq_ok.mp h
  have hlen := revertIf_eq_ok.mp hdeep
  cases hr
  unfold len64 at hlen ⊢
  by_cases hg : g = 0
  · -- The number zero is not a node of the tree; no node has it.
    subst hg
    have hnone : merkleizeFrom keccak256 28 0 m = (zeroHashes keccak256 28, m) := by
      rw [merkleizeFrom, if_neg (by decide), hm.zero]
    rw [if_pos rfl, hnone]
    exact ⟨hm, Grows.refl m⟩
  · rw [if_neg hg] at hlen ⊢
    have hspec := merkleizeFrom_spec hm hg (show g.log2 + (28 - (g.log2 + 1)) = 27 by omega)
    exact ⟨hspec.inv, hspec.grows⟩

/-! ## Loading -/

/-- The pages of which the hashes have not been computed since they were written. -/
def Unhashed (m : Memory) (k : ℕ) : Prop := ∀ p, m.pages k = some p → (m.heap p).ok 1 = false

/-- The outcome of the beginning of a turn of `SetMemoryRange`. -/
structure Opened (keccak256 : Bytes → Hash) (m : Memory) (k : ℕ) (r : ℕ × Memory) : Prop where
  inv : Inv keccak256 r.2
  free : Free r.2 r.1
  ok : (r.2.heap r.1).ok = fun _ => false
  pages : ∀ l q, r.2.pages l = some q → q ≠ r.1 → m.pages l = some q ∧ r.2.heap q = m.heap q
  coherent : Coherent m →
    Coherent r.2 ∧ r.2.pages k = some r.1 ∧ r.2.content = m.content

lemma Found.opened (h : Found keccak256 m k p m') (hun : Unhashed m k) :
    Opened keccak256 m k (p, m'.setPage p (m'.heap p).invalidateFull) := by
  obtain ⟨last, rfl⟩ := h.same
  have hfree : Free { m with lastPage := last } p := by
    intro l hl g n hbelow hn
    obtain rfl := h.only l hl
    have hok := h.inv.hashed g n hn l p hbelow hl
    exact Bool.false_ne_true ((hun p hl).symm.trans hok)
  refine ⟨?_, hfree, ?_, ?_, ?_⟩
  · exact h.inv.setPage (of_not_ok fun _ => rfl) hfree
  · unfold setPage
    dsimp only
    rw [update_self]
    rfl
  · intro l q hl hq
    exact ⟨hl, update_of_ne hq _ _⟩
  · intro hc
    obtain ⟨hc', hpage⟩ := h.coherent hc
    have hdata : (m.heap p).invalidateFull.data = (m.heap p).data := rfl
    exact ⟨hc', hpage, (content_setPage_same hdata).trans h.content⟩

lemma Allocated.opened (hm : Inv keccak256 m) (h : Allocated keccak256 m k (m.allocPage k))
    (hk : m.pages k = none) :
    Opened keccak256 m k ((m.allocPage k).1, (m.allocPage k).2.setPage (m.allocPage k).1
      ((m.allocPage k).2.heap (m.allocPage k).1).invalidateFull) := by
  refine ⟨?_, h.free, ?_, ?_, ?_⟩
  · exact h.inv.setPage (of_not_ok fun _ => rfl) h.free
  · unfold setPage
    dsimp only
    rw [update_self]
    rfl
  · intro l q hl hq
    obtain ⟨hold, hheap⟩ := h.pages l q hl hq
    exact ⟨hold, (update_of_ne hq _ _).trans hheap⟩
  · intro hc
    have hdata : ((m.allocPage k).2.heap (m.allocPage k).1).invalidateFull.data =
      ((m.allocPage k).2.heap (m.allocPage k).1).data := rfl
    exact ⟨h.coherent_of_none hk hc, h.page,
      (content_setPage_same hdata).trans (content_allocPage_of_none hm hk)⟩

lemma openPage_spec (hm : Inv keccak256 m) (hk : k < 2 ^ 20) (hun : Unhashed m k) :
    Opened keccak256 m k (m.openPage k) := by
  unfold openPage
  rcases pageLookup_outcome hm hk with ⟨p, m', hp, hfound⟩ | ⟨hp, hnone⟩
  · rw [hp]
    exact hfound.opened hun
  · rw [hp]
    exact (allocPage_spec hm k).opened hm hnone

lemma Opened.write {r : ℕ × Memory} (h : Opened keccak256 m k r) (ho : o + bs.length ≤ pageSize) :
    Inv keccak256 (r.2.writePage r.1 o bs) ∧
      (∀ l, Unhashed m l → Unhashed (r.2.writePage r.1 o bs) l) ∧
      (Coherent m → Coherent (r.2.writePage r.1 o bs) ∧
        (r.2.writePage r.1 o bs).content = writeAt m.content (pageSize * k + o) bs) := by
  refine ⟨?_, ?_, ?_⟩
  · exact h.inv.setPage (of_not_ok fun j => congrFun h.ok j) h.free
  · intro l hun q hq
    unfold writePage setPage
    by_cases hqp : q = r.1
    · subst hqp
      simp only [update_self]
      exact congrFun h.ok 1
    · obtain ⟨hold, hheap⟩ := h.pages l q hq hqp
      simp only [update_of_ne hqp, hheap]
      exact hun q hold
  · intro hc
    obtain ⟨hc', hpage, hcont⟩ := h.coherent hc
    exact ⟨hc', (content_write h.inv hpage ho rfl).trans (by rw [hcont])⟩

/-- The indices of the pages that `SetMemoryRange` visits. -/
def visited : List Bytes → U32 → List ℕ
  | [], addr => [pageIndex addr]
  | bs :: reads, addr => pageIndex addr ::
    visited reads (addr + BitVec.ofNat 32 (bs.take (pageSize - pageAddr addr)).length)

/-- The flat memory after `SetMemoryRange`. -/
def writeRange : List Bytes → U32 → (ℕ → UInt8) → ℕ → UInt8
  | [], _, f => f
  | bs :: reads, addr, f =>
    let bs := bs.take (pageSize - pageAddr addr)
    writeRange reads (addr + BitVec.ofNat 32 bs.length) (writeAt f addr.toNat bs)

lemma setMemoryRange_spec {reads : List Bytes} (hm : Inv keccak256 m)
    (hun : ∀ k ∈ visited reads addr, Unhashed m k) :
    Inv keccak256 (m.setMemoryRange reads addr) ∧
      (Coherent m → Coherent (m.setMemoryRange reads addr) ∧
        (m.setMemoryRange reads addr).content = writeRange reads addr m.content) := by
  induction reads generalizing addr m with
  | nil =>
    have hopen := openPage_spec hm (pageIndex_lt addr) (hun _ List.mem_cons_self)
    exact ⟨hopen.inv, fun hc => ⟨(hopen.coherent hc).1, (hopen.coherent hc).2.2⟩⟩
  | cons bs reads ih =>
    have hopen := openPage_spec hm (pageIndex_lt addr) (hun _ List.mem_cons_self)
    have hroom : pageAddr addr + (bs.take (pageSize - pageAddr addr)).length ≤ pageSize := by
      have hlt := pageAddr_lt addr
      rw [List.length_take]
      omega
    obtain ⟨hinv, hunhashed, hwrite⟩ := hopen.write hroom
    obtain ⟨hinv', hrest⟩ := ih hinv fun k hk => hunhashed k (hun k (List.mem_cons_of_mem _ hk))
    refine ⟨hinv', ?_⟩
    intro hc
    obtain ⟨hc', hcont⟩ := hwrite hc
    obtain ⟨hc'', hcontent'⟩ := hrest hc'
    rw [address_eq] at hcont
    rw [hcont] at hcontent'
    exact ⟨hc'', hcontent'⟩

/-- The flat memory of the pages of a serialized memory, up to an index that was seen before. -/
def flatPages : List PageEntry → List ℕ → (ℕ → UInt8) → ℕ → UInt8
  | [], _, f => f
  | entry :: entries, seen, f =>
    if entry.index.toNat ∈ seen then f
    else flatPages entries (entry.index.toNat :: seen)
      (writeAt f (entry.index.toNat * pageSize) (readAt entry.data 0 pageSize))

lemma content_load (hm : Inv keccak256 m) (k : ℕ) (data : ℕ → UInt8) :
    ((m.allocPage k).2.setPage (m.allocPage k).1
        { (m.allocPage k).2.heap (m.allocPage k).1 with data := data }).content =
      writeAt m.content (k * pageSize) (readAt data 0 pageSize) := by
  have halloc := allocPage_spec hm k
  refine eq_writeAt_page (length_readAt _ _ _) (fun a ha => ?_) fun a _ ha => ?_
  · rw [content_setPage_of_ne _ fun h => ha (halloc.inv.inj _ _ _ h halloc.page), allocPage_eq,
      content_putPage_of_ne (hm.clearPath (2 ^ 20 ||| k)) ha]
    rfl
  · rw [content_setPage_of_eq _ (by rw [ha]; exact halloc.page)]
    simp [readAt]

/-- Loading pages into a memory whose lookup cache is empty. -/
theorem loadPages_spec {entries : List PageEntry} {seen : List ℕ} (hm : Inv keccak256 m)
    (hlast : m.lastPage = (none, none)) (hseen : ∀ k, k ∈ seen ↔ m.pages k ≠ none) :
    Inv keccak256 (loadPages entries m) ∧ (loadPages entries m).lastPage = (none, none) ∧
      (loadPages entries m).content = flatPages entries seen m.content := by
  induction entries generalizing m seen with
  | nil => exact ⟨hm, hlast, rfl⟩
  | cons entry entries ih =>
    unfold loadPages flatPages
    cases hpage : m.pages entry.index.toNat with
    | some p =>
      have hmem : entry.index.toNat ∈ seen := by grind
      rw [if_pos hmem]
      exact ⟨hm, hlast, rfl⟩
    | none =>
      have hmem : entry.index.toNat ∉ seen := by grind
      rw [if_neg hmem, ← content_load hm]
      have halloc := allocPage_spec hm entry.index.toNat
      apply ih
      · apply halloc.inv.setPage _ halloc.free
        exact of_not_ok fun j => congrFun halloc.ok j
      · exact hlast
      · intro k
        rw [List.mem_cons, hseen]
        by_cases hk : k = entry.index.toNat
        · subst hk
          simp only [true_or, true_iff]
          exact fun hnone => some_ne_none _ (halloc.page.symm.trans hnone)
        · have hold : (m.allocPage entry.index.toNat).2.pages k = m.pages k := update_of_ne hk _ _
          simp only [hk, false_or]
          exact not_congr (Eq.congr_left hold.symm)

lemma inv_newMemory : Inv keccak256 newMemory := by
  refine ⟨nofun, nofun, fun _ => of_not_ok fun _ => rfl, nofun, nofun, nofun, rfl, ?_⟩
  rintro e (he | he) <;> cases he

lemma coherent_newMemory : Coherent newMemory := by
  rintro e (he | he) <;> cases he

lemma unmarshalJSON_spec (entries : List PageEntry) :
    Inv keccak256 (unmarshalJSON entries) ∧ Coherent (unmarshalJSON entries) ∧
      (unmarshalJSON entries).content = flatPages entries [] fun _ => 0 := by
  obtain ⟨hinv, hlast, hcont⟩ :=
    @loadPages_spec keccak256 newMemory entries [] inv_newMemory rfl (by simp [newMemory])
  refine ⟨hinv, ?_, hcont⟩
  intro e he
  unfold unmarshalJSON at he
  rw [hlast] at he
  rcases he with he | he <;> cases he

end Memory

end FightNight.Cannon
