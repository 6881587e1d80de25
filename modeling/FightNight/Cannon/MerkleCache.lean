import FightNight.Cannon.PageCache

/-!
# The hashes of the memory

The Merkle tree of the memory has depth 27; its nodes at the heights up to 7 belong to pages, and
those above are kept in the map `nodes`.  `Inv` ties what is kept to the bytes of the pages: a
hash is the right one, a missing node has no page below it, and below a node with a hash all pages
have their own root.

A hash that is computed is that of the tree over the contents (`merkleizeFrom_spec`), and so is a
proof (`traverseBranch_spec`).  A page may change when no hash is kept above it (`Inv.setPage`),
which is what the loops that go up to the root are for.
-/

namespace FightNight.Cannon

open Function ByteMap MerkleTree
open Preimage (Hash Hash.zero)

namespace Memory

/-- The byte at an address, which is zero in a page that does not exist. -/
def content (m : Memory) (a : ℕ) : UInt8 :=
  match m.pages (a / pageSize) with
  | some p => (m.heap p).data (a % pageSize)
  | none => 0

/-- The page with index `k` is below a node. -/
def Below (k g : ℕ) : Prop := k < 2 ^ 20 ∧ OnPath (2 ^ 20 + k) g

variable (keccak256 : Bytes → Hash)

/-- The hash of a node of the tree over the contents. -/
def hashAt (m : Memory) (height gindex : ℕ) : Hash :=
  label (hashPair keccak256) (heapLeaf 27 m.content) height gindex

/-- What the memory keeps fits its contents. -/
structure Inv (m : Memory) : Prop where
  refs : ∀ k p, m.pages k = some p → p < m.allocated
  inj : ∀ k l p, m.pages k = some p → m.pages l = some p → k = l
  page : ∀ p, (m.heap p).Valid keccak256
  node : Sound (hashPair keccak256) (heapLeaf 27 m.content) 27 8 fun g => (m.nodes g).join
  hashed : ∀ g n, m.nodes g = some (some n) → ∀ k p, Below k g → m.pages k = some p →
    (m.heap p).ok 1 = true
  present : ∀ k p, m.pages k = some p → ∀ g, Below k g → m.nodes g ≠ none
  zero : m.nodes 0 = none
  lookup : ∀ e, m.lastPage.1 = some e ∨ m.lastPage.2 = some e →
    e.page < m.allocated ∧ e.key < 2 ^ 20 ∧ ∀ k, m.pages k = some e.page → k = e.key

/-- No hash is kept above a page. -/
def Free (m : Memory) (p : ℕ) : Prop :=
  ∀ k, m.pages k = some p → ∀ g n, Below k g → m.nodes g ≠ some (some n)

variable {keccak256} {m : Memory}

variable {g h k n p : ℕ} {m' : Memory} {page : CachedPage}

lemma below_iff_of_log2 (hg : g.log2 = 20) : Below k g ↔ g = 2 ^ 20 + k ∧ k < 2 ^ 20 := by
  have hbound : 2 ^ 20 ≤ g ∧ g < 2 ^ 21 := by
    have hne : g ≠ 0 := by
      rintro rfl
      exact absurd hg (by decide)
    rwa [Nat.log2_eq_iff hne] at hg
  constructor
  · rintro ⟨hk, -, j, hj⟩
    cases j with
    | zero => exact ⟨by simpa using hj.symm, hk⟩
    | succ j =>
      have hle : (2 ^ 20 + k) / 2 ^ (j + 1) ≤ (2 ^ 20 + k) / 2 :=
        Nat.div_le_div_left (by rw [pow_succ]; have := Nat.two_pow_pos j; omega) (by decide)
      omega
  · rintro ⟨rfl, hk⟩
    exact ⟨hk, onPath_self (by omega)⟩

lemma Below.child (h : Below k g) (hlog : g.log2 < 20) :
    Below k (2 * g) ∨ Below k (2 * g + 1) := by
  obtain ⟨hk, hg, j, hj⟩ := h
  cases j with
  | zero =>
    have hlog' : (2 ^ 20 + k).log2 = 20 := (Nat.log2_eq_iff (by omega)).mpr (by omega)
    rw [pow_zero, Nat.div_one] at hj
    rw [← hj, hlog'] at hlog
    exact absurd hlog (by decide)
  | succ j =>
    have hhalf : (2 ^ 20 + k) / 2 ^ j / 2 = g := by
      rw [Nat.div_div_eq_div_mul, ← pow_succ, hj]
    rcases Nat.mod_two_eq_zero_or_one ((2 ^ 20 + k) / 2 ^ j) with hbit | hbit
    · exact .inl ⟨hk, by omega, j, by omega⟩
    · exact .inr ⟨hk, by omega, j, by omega⟩

/-! ## Computing hashes -/

lemma hashAt_of_no_page (hpages : ∀ i, i / 2 ^ h = g → m.pages ((i - 2 ^ 27) / 2 ^ 7) = none) :
    hashAt keccak256 m h g = zeroHashes keccak256 h := by
  have hzero : hashAt keccak256 m h g = label (hashPair keccak256) (fun _ => Hash.zero) h g := by
    apply label_congr_below
    intro i hi
    apply Subtype.ext
    have hbytes : readAt m.content (32 * (i - 2 ^ 27)) 32 = readAt (fun _ => 0) 0 32 := by
      apply readAt_congr
      intro o ho
      have hidx : (32 * (i - 2 ^ 27) + o) / pageSize = (i - 2 ^ 27) / 2 ^ 7 := by
        unfold pageSize
        omega
      unfold content
      rw [hidx, hpages i hi]
    exact hbytes.trans (by decide)
  rw [hzero]
  exact label_eq_zeroLabel _ (fun _ _ => rfl) (Nat.zero_le _)

lemma hashAt_of_page (hh : h ≤ 7) (hg : g / 2 ^ (7 - h) = 2 ^ 20 + k) (hp : m.pages k = some p) :
    hashAt keccak256 m h g = (m.heap p).hashOf keccak256 (2 ^ (7 - h) + g % 2 ^ (7 - h)) := by
  obtain ⟨e, he⟩ : ∃ e, 7 - h = e := ⟨_, rfl⟩
  obtain ⟨s, hs⟩ : ∃ s, g % 2 ^ e = s := ⟨_, rfl⟩
  have hlt : s < 2 ^ e := by omega
  have hsplit : g = (2 ^ 20 + k) * 2 ^ e + s := by
    rw [he] at hg
    rw [← hg, ← hs, mul_comm]
    exact (Nat.div_add_mod g (2 ^ e)).symm
  have hlog : (2 ^ e + s).log2 = e := by
    rw [Nat.log2_eq_iff (by omega)]
    omega
  have hpow : 2 ^ e * 2 ^ h = 2 ^ 7 := by
    rw [← pow_add]
    congr 1
    omega
  have hht : 7 - e = h := by omega
  rw [he, hs]
  unfold CachedPage.hashOf
  rw [hlog, hht]
  apply label_shift
  intro i hi
  -- The leaf with number `t` of the page, from either side.
  have hpage : s * 2 ^ h + i < 2 ^ 7 := by
    rw [mul_comm, ← hpow]
    exact Nat.mul_add_lt_mul_of_lt_of_lt hlt hi
  generalize ht : s * 2 ^ h + i = t at hpage
  have hleft : g * 2 ^ h + i - 2 ^ 27 = 2 ^ 7 * k + t := by
    have hexpand : g * 2 ^ h + i = (2 ^ 20 + k) * (2 ^ e * 2 ^ h) + (s * 2 ^ h + i) := by
      rw [hsplit]
      ring
    rw [hexpand, hpow]
    omega
  have hright : (2 ^ e + s) * 2 ^ h + i - 2 ^ 7 = t := by
    have hexpand : (2 ^ e + s) * 2 ^ h + i = 2 ^ e * 2 ^ h + (s * 2 ^ h + i) := by ring
    omega
  unfold heapLeaf
  rw [hleft, hright]
  apply leaf_congr
  intro o ho
  have hidx : (32 * (2 ^ 7 * k + t) + o) / pageSize = k := by
    unfold pageSize
    omega
  have hoff : (32 * (2 ^ 7 * k + t) + o) % pageSize = 32 * t + o := by
    unfold pageSize
    omega
  unfold content
  rw [hidx, hp, hoff]

/-- A memory that differs from another one by the hashes that it keeps only. -/
structure Grows (m m' : Memory) : Prop where
  pages : m'.pages = m.pages
  allocated : m'.allocated = m.allocated
  lastPage : m'.lastPage = m.lastPage
  page : ∀ p, CachedPage.Grows (m.heap p) (m'.heap p)

lemma Grows.refl (m : Memory) : Grows m m := ⟨rfl, rfl, rfl, fun _ => CachedPage.Grows.refl _⟩

lemma Grows.trans {m'' : Memory} (h : Grows m m') (h' : Grows m' m'') : Grows m m'' :=
  ⟨h'.pages.trans h.pages, h'.allocated.trans h.allocated, h'.lastPage.trans h.lastPage,
    fun p => (h.page p).trans (h'.page p)⟩

lemma Grows.content (h : Grows m m') : m'.content = m.content := by
  funext a
  unfold Memory.content
  rw [h.pages]
  split
  · rw [(h.page _).data]
  · rfl

lemma Grows.hashAt (h : Grows m m') (height g : ℕ) :
    hashAt keccak256 m' height g = hashAt keccak256 m height g := by
  unfold Memory.hashAt
  rw [h.content]

lemma grows_setPage (h : CachedPage.Grows (m.heap p) page) : Grows m (m.setPage p page) :=
  ⟨rfl, rfl, rfl, (forall_update_iff m.heap fun q => CachedPage.Grows (m.heap q)).mpr
    ⟨h, fun q _ => CachedPage.Grows.refl (m.heap q)⟩⟩

lemma Inv.valid_update (hm : Inv keccak256 m) (hvalid : page.Valid keccak256) (p : ℕ) :
    ∀ q, (update m.heap p page q).Valid keccak256 :=
  (forall_update_iff m.heap fun _ => CachedPage.Valid keccak256).mpr ⟨hvalid, fun q _ => hm.page q⟩

lemma Inv.grow_setPage (hm : Inv keccak256 m) (hvalid : page.Valid keccak256)
    (h : CachedPage.Grows (m.heap p) page) : Inv keccak256 (m.setPage p page) := by
  have hgrows := grows_setPage h
  refine ⟨hm.refs, hm.inj, hm.valid_update hvalid p, ?_, ?_, hm.present, hm.zero, hm.lookup⟩
  · rw [hgrows.content]
    exact hm.node
  · intro g n hn k q hbelow hq
    exact (hgrows.page q).ok 1 (hm.hashed g n hn k q hbelow hq)

/-- The pages below a node have their roots. -/
def Rooted (m : Memory) (g : ℕ) : Prop :=
  ∀ k p, Below k g → m.pages k = some p → (m.heap p).ok 1 = true

lemma Grows.rooted (h : Grows m m') (hg : m.Rooted g) : m'.Rooted g := by
  intro k p hbelow hp
  rw [h.pages] at hp
  exact (h.page p).ok 1 (hg k p hbelow hp)

/-- The outcome of hashing a subtree. -/
structure Merkleized (keccak256 : Bytes → Hash) (m : Memory) (height g : ℕ) (r : Hash × Memory) :
    Prop where
  hash : r.1 = hashAt keccak256 m height g
  inv : Inv keccak256 r.2
  grows : Grows m r.2
  rooted : 7 ≤ height → r.2.Rooted g

lemma merkleizePage_spec (hm : Inv keccak256 m) (hh : h ≤ 7) (hg : g ≠ 0) (hlog : g.log2 + h = 27) :
    Merkleized keccak256 m h g (merkleizePage keccak256 h g m) := by
  obtain ⟨k, hk⟩ : ∃ k, g / 2 ^ (7 - h) = 2 ^ 20 + k ∧ k < 2 ^ 20 := by
    have hbound := (Nat.log2_eq_iff hg).mp (rfl : g.log2 = g.log2)
    have hsplit : g.log2 = 20 + (7 - h) := by omega
    have hsplit' : g.log2 + 1 = 21 + (7 - h) := by omega
    rw [hsplit', hsplit, pow_add, pow_add] at hbound
    have hlo : 2 ^ 20 ≤ g / 2 ^ (7 - h) := (Nat.le_div_iff_mul_le (Nat.two_pow_pos _)).mpr hbound.1
    have hhi : g / 2 ^ (7 - h) < 2 ^ 21 := (Nat.div_lt_iff_lt_mul (Nat.two_pow_pos _)).mpr hbound.2
    exact ⟨g / 2 ^ (7 - h) - 2 ^ 20, by omega, by omega⟩
  have hidx : g / 2 ^ (7 - h) % 2 ^ 20 = k := by omega
  have hbelow : ∀ l, 7 ≤ h → Below l g → k = l := by
    intro l h7 hbelow
    obtain rfl : h = 7 := le_antisymm hh h7
    obtain ⟨hgl, -⟩ := (below_iff_of_log2 (by omega)).mp hbelow
    omega
  unfold merkleizePage
  simp only [hidx]
  cases hp : m.pages k with
  | none =>
    refine ⟨?_, hm, Grows.refl m, ?_⟩
    · refine (hashAt_of_no_page ?_).symm
      intro i hi
      have hdiv : i / 2 ^ 7 = 2 ^ 20 + k := by
        rw [← hk.1, ← hi, Nat.div_div_eq_div_mul, ← pow_add]
        congr 2
        omega
      have hpage : (i - 2 ^ 27) / 2 ^ 7 = k := by omega
      rw [hpage, hp]
    · intro h7 l p hl' hl
      rw [← hbelow l h7 hl', hp] at hl
      cases hl
  | some p =>
    have hrange : 2 ^ (7 - h) + g % 2 ^ (7 - h) < 256 := by
      have hle : 2 ^ (7 - h) ≤ 2 ^ 7 := Nat.pow_le_pow_right (by decide) (Nat.sub_le _ _)
      omega
    have hpos : 0 < 2 ^ (7 - h) + g % 2 ^ (7 - h) := Nat.add_pos_left (Nat.two_pow_pos _) _
    obtain ⟨hhash, hvalid, hgrows, hok⟩ := CachedPage.merkleizeSubtree_spec (hm.page p) hpos hrange
    refine ⟨?_, hm.grow_setPage hvalid hgrows, grows_setPage hgrows, ?_⟩
    · rw [hhash, hashAt_of_page hh hk.1 hp]
    · intro h7 l q hl' hl
      obtain rfl := hbelow l h7 hl'
      obtain rfl : p = q := Option.some.inj (hp.symm.trans hl)
      simp only [setPage, update_self]
      exact hok

lemma Inv.store (hm : Inv keccak256 m) (hg : g ≠ 0) (hh : 8 ≤ h) (hlog : g.log2 + h = 27)
    (hrooted : m.Rooted g) :
    Inv keccak256 { m with nodes := update m.nodes g (some (some (hashAt keccak256 m h g))) } := by
  have hht : 27 - g.log2 = h := by omega
  refine ⟨hm.refs, hm.inj, hm.page, ?_, ?_, ?_, ?_, hm.lookup⟩
  · have hstore := hm.node.store hg (by omega)
    rw [hht] at hstore
    intro g' v hv
    apply hstore g' v
    rw [← hv]
    by_cases hne : g' = g
    · subst hne
      simp only [update_self]
      rfl
    · simp only [update_of_ne hne]
  · intro g' n hn k p hbelow hp
    by_cases hne : g' = g
    · subst hne
      exact hrooted k p hbelow hp
    · have hold : m.nodes g' = some (some n) := (update_of_ne hne _ _).symm.trans hn
      exact hm.hashed g' n hold k p hbelow hp
  · intro k p hp g' hbelow
    by_cases hne : g' = g
    · subst hne
      simp
    · simp only [update_of_ne hne]
      exact hm.present k p hp g' hbelow
  · simp only [update_of_ne (symm hg)]
    exact hm.zero

lemma merkleizeFrom_spec (hm : Inv keccak256 m) (hg : g ≠ 0) (hlog : g.log2 + h = 27) :
    Merkleized keccak256 m h g (merkleizeFrom keccak256 h g m) := by
  induction h generalizing g m with
  | zero => exact merkleizePage_spec hm (by decide) hg hlog
  | succ h ih =>
    unfold merkleizeFrom
    split
    · exact merkleizePage_spec hm (by omega) hg hlog
    · have hht : 27 - g.log2 = h + 1 := by omega
      have hleft : (2 * g).log2 + h = 27 := by
        have hchild : (2 * g).log2 = g.log2 + 1 := log2_child (b := 0) hg (by decide)
        omega
      have hright : (2 * g + 1).log2 + h = 27 := by
        have hchild : (2 * g + 1).log2 = g.log2 + 1 := log2_child hg (by decide)
        omega
      cases hn : m.nodes g with
      | none =>
        have hnone : ∀ k, Below k g → m.pages k = none := by
          intro k hbelow
          cases hp : m.pages k with
          | none => rfl
          | some p => exact absurd hn (hm.present k p hp g hbelow)
        refine ⟨?_, hm, Grows.refl m, ?_⟩
        · refine (hashAt_of_no_page ?_).symm
          intro i hi
          obtain ⟨hlo, hhi⟩ := leaf_of_below (d := 27) hg (by omega) (by rw [hht, hi])
          apply hnone
          refine ⟨by omega, hg, h + 1 - 7, ?_⟩
          have hpage : 2 ^ 20 + (i - 2 ^ 27) / 2 ^ 7 = i / 2 ^ 7 := by omega
          rw [hpage, Nat.div_div_eq_div_mul, ← pow_add, Nat.add_sub_cancel' (by omega), hi]
        · intro _ k p hbelow hp
          rw [hnone k hbelow] at hp
          cases hp
      | some n =>
        cases n with
        | some n =>
          refine ⟨?_, hm, Grows.refl m, fun _ => hm.hashed g n hn⟩
          have hjoin := hm.node.eq (show (m.nodes g).join = some n by rw [hn]; rfl)
          rwa [hht] at hjoin
        | none =>
          have hl := ih hm (by omega) hleft
          have hr := ih hl.inv (by omega) hright
          have hgrows := hl.grows.trans hr.grows
          have hhash : hashPair keccak256 (merkleizeFrom keccak256 h (2 * g) m).1
              (merkleizeFrom keccak256 h (2 * g + 1)
                (merkleizeFrom keccak256 h (2 * g) m).2).1 = hashAt keccak256 m (h + 1) g := by
            rw [hl.hash, hr.hash, hl.grows.hashAt]
            rfl
          have hrooted : Rooted (merkleizeFrom keccak256 h (2 * g + 1)
              (merkleizeFrom keccak256 h (2 * g) m).2).2 g := by
            intro k p hbelow
            rcases hbelow.child (by omega) with hchild | hchild
            · exact (hr.grows.rooted (hl.rooted (by omega))) k p hchild
            · exact hr.rooted (by omega) k p hchild
          have hstore := hr.inv.store hg (by omega) hlog hrooted
          rw [hgrows.hashAt] at hstore
          simp only [hhash]
          exact ⟨rfl, hstore, ⟨hgrows.pages, hgrows.allocated, hgrows.lastPage, hgrows.page⟩,
            fun _ => hrooted⟩

lemma merkleRoot_spec (hm : Inv keccak256 m) :
    Merkleized keccak256 m 27 1 (m.merkleRoot keccak256) :=
  merkleizeFrom_spec hm one_ne_zero (by decide)

/-! ## Proofs -/

def leafIndex (addr : U32) : ℕ := 2 ^ 27 + addr.toNat / 32

lemma log2_leafIndex (addr : U32) (hn : n ≤ 27) :
    leafIndex addr / 2 ^ n ≠ 0 ∧ (leafIndex addr / 2 ^ n).log2 + n = 27 := by
  have hlog : (leafIndex addr).log2 = 27 := by
    unfold leafIndex
    exact (Nat.log2_eq_iff (by omega)).mpr (by omega)
  have hpos : 0 < leafIndex addr / 2 ^ n := by
    apply Nat.div_pos _ (Nat.two_pow_pos n)
    calc 2 ^ n ≤ 2 ^ 27 := Nat.pow_le_pow_right (by decide) hn
      _ ≤ leafIndex addr := Nat.le_add_right _ _
  refine ⟨hpos.ne', ?_⟩
  rw [← Bisection.log2_of_div hpos rfl, hlog]

lemma leafIndex_bit (addr : U32) (hn : n < 27) :
    leafIndex addr / 2 ^ n % 2 = addr.toNat / 2 ^ (5 + n) % 2 := by
  obtain ⟨e, he⟩ : ∃ e, 27 = n + 1 + e := ⟨26 - n, by omega⟩
  have hpow : 2 ^ 27 = 2 ^ n * (2 * 2 ^ e) := by
    rw [he]
    ring
  have hdiv : addr.toNat / 2 ^ (5 + n) = addr.toNat / 32 / 2 ^ n := by
    rw [pow_add, Nat.div_div_eq_div_mul]
    rfl
  unfold leafIndex
  rw [hpow, Nat.mul_add_div (Nat.two_pow_pos n)]
  omega

def siblings (keccak256 : Bytes → Hash) (m : Memory) (addr : U32) (height : ℕ) : Hash :=
  hashAt keccak256 m height (sibling (leafIndex addr / 2 ^ height))

/-- A proof is the leaf, and the siblings from the bottom up. -/
theorem traverseBranch_spec (hm : Inv keccak256 m) (addr : U32) (hn : n ≤ 27) :
    (traverseBranch keccak256 addr n (leafIndex addr / 2 ^ n) m).1 =
        hashAt keccak256 m 0 (leafIndex addr) :: (List.range n).map (siblings keccak256 m addr) ∧
      Inv keccak256 (traverseBranch keccak256 addr n (leafIndex addr / 2 ^ n) m).2 ∧
      Grows m (traverseBranch keccak256 addr n (leafIndex addr / 2 ^ n) m).2 := by
  induction n with
  | zero =>
    obtain ⟨hne, hlog⟩ := log2_leafIndex addr (Nat.zero_le 27)
    have hleaf := merkleizeFrom_spec hm hne hlog
    unfold traverseBranch
    refine ⟨?_, hleaf.inv, hleaf.grows⟩
    dsimp only
    rw [hleaf.hash, pow_zero, Nat.div_one]
    rfl
  | succ n ih =>
    obtain ⟨hproof, hinv, hgrows⟩ := ih (Nat.le_of_succ_le hn)
    have hhalf : leafIndex addr / 2 ^ (n + 1) = leafIndex addr / 2 ^ n / 2 := by
      rw [pow_succ, Nat.div_div_eq_div_mul]
    have hbit := leafIndex_bit addr (Nat.lt_of_succ_le hn)
    have hself : (if addr.toNat / 2 ^ (5 + n) % 2 = 1 then 2 * (leafIndex addr / 2 ^ (n + 1)) + 1
        else 2 * (leafIndex addr / 2 ^ (n + 1))) = leafIndex addr / 2 ^ n := by
      split <;> omega
    have hsib : (if addr.toNat / 2 ^ (5 + n) % 2 = 1 then 2 * (leafIndex addr / 2 ^ (n + 1))
        else 2 * (leafIndex addr / 2 ^ (n + 1)) + 1) = sibling (leafIndex addr / 2 ^ n) := by
      unfold sibling
      rw [← hbit]
      split <;> omega
    have hlog' : (sibling (leafIndex addr / 2 ^ n)).log2 + n = 27 := by
      have hhalf' : sibling (leafIndex addr / 2 ^ n) / 2 ^ 1 = leafIndex addr / 2 ^ (n + 1) := by
        unfold sibling
        split <;> omega
      obtain ⟨hne', hpar⟩ := log2_leafIndex addr hn
      rw [Bisection.log2_of_div (pos_of_ne_zero hne') hhalf']
      omega
    have hne' : sibling (leafIndex addr / 2 ^ n) ≠ 0 := by
      intro hzero
      rw [hzero, Nat.log2_zero] at hlog'
      omega
    have hnode := merkleizeFrom_spec hinv hne' hlog'
    unfold traverseBranch
    simp only [hself, hsib]
    refine ⟨?_, hnode.inv, hgrows.trans hnode.grows⟩
    rw [hproof, hnode.hash, hgrows.hashAt, List.range_succ, List.map_append]
    rfl

end Memory

end FightNight.Cannon
