import FightNight.Node.SyncStart

/-!
# The heads that syncing starts from

The L1 view is a contiguous chain of L1 blocks, and the engine has a chain of L2 blocks that
follow the rules for L1 origins and sequence numbers.  While `FindL2Heads` walks down this chain,
the blocks from the current one up to the unsafe candidate have plausible origins, and the next
one above them does not.  So it returns the heads its documentation describes (`found_heads`), as
long as the comparison with the lookback does not overflow (`lookback_overflow`).
-/

namespace FightNight.Node

/-- A view of the L1 blocks from `base` to `head`, and the L2 blocks from the finalized one to the
unsafe head. -/
structure Chains where
  view : ℕ → L1BlockRef
  base : ℕ
  head : ℕ
  chain : ℕ → L2BlockRef
  final : ℕ
  top : ℕ

namespace Chains

variable (C : Chains)

/-- The height of the L1 origin of a block. -/
def origin (k : ℕ) : ℕ := (C.chain k).l1Origin.number

/-- The L1 origin of a block is on the canonical chain. -/
def Canonical (k : ℕ) : Prop :=
  C.origin k ≤ C.head ∧ (C.view (C.origin k)).hash = (C.chain k).l1Origin.hash

/-- The L1 origin of a block is canonical or above the view. -/
def Plausible (k : ℕ) : Prop := C.head < C.origin k ∨ C.Canonical k

/-- The origin of a block names an L1 block: its hash determines its height. -/
structure NamesOrigin (k : ℕ) : Prop where
  hash_ne_zero : (C.chain k).l1Origin.hash ≠ 0
  base_le : C.base ≤ C.origin k
  eq_of_hash : ∀ j, C.base ≤ j → j ≤ C.head → (C.chain k).l1Origin.hash = (C.view j).hash →
    C.origin k = j
  eq_of_parentHash : ∀ j, C.base ≤ j → j ≤ C.head →
    (C.chain k).l1Origin.hash = (C.view j).parentHash → C.origin k + 1 = j

/-- The rules for the L1 origins and sequence numbers of a block and the next one. -/
def FollowsRules (k : ℕ) : Prop :=
  ((C.chain (k + 1)).l1Origin = (C.chain k).l1Origin ∧
    (C.chain (k + 1)).sequenceNumber = (C.chain k).sequenceNumber + 1) ∨
  (C.origin (k + 1) = C.origin k + 1 ∧ (C.chain (k + 1)).sequenceNumber = 0)

/-- The sources serve the two chains. -/
structure Serves (l1 : L1Chain) (l2 : L2Chain) : Prop where
  byNumber : ∀ j, C.base ≤ j → j ≤ C.head → l1.l1BlockRefByNumber j = .ok (C.view j)
  above : ∀ j, C.head < j → l1.l1BlockRefByNumber j = .error .notFound
  byHash : ∀ j, C.base ≤ j → j ≤ C.head → l1.l1BlockRefByHash (C.view j).hash = .ok (C.view j)
  parentHash : ∀ j, C.base ≤ j → j < C.head → (C.view (j + 1)).parentHash = (C.view j).hash
  final_le : C.final ≤ C.top
  number : ∀ k, C.final ≤ k → k ≤ C.top → (C.chain k).number = k
  ne_default : ∀ k, C.final ≤ k → k ≤ C.top → C.chain k ≠ default
  names : ∀ k, C.final ≤ k → k ≤ C.top → C.NamesOrigin k
  parent : ∀ k, C.final ≤ k → k < C.top →
    l2.l2BlockRefByHash (C.chain (k + 1)).parentHash = .ok (C.chain k)
  rules : ∀ k, C.final ≤ k → k < C.top → C.FollowsRules k

variable {C} {cfg : SyncConfig} {l1 : L1Chain} {l2 : L2Chain} {s t : Search} {k stop : ℕ}

lemma Serves.origin_mono (hsrv : C.Serves l1 l2) {i j : ℕ} (hi : C.final ≤ i) (hij : i ≤ j)
    (hj : j ≤ C.top) : C.origin i ≤ C.origin j := by
  induction j, hij using Nat.le_induction with
  | base => exact le_rfl
  | succ j hij ih =>
    refine (ih (by omega)).trans ?_
    rcases hsrv.rules j (hi.trans hij) (by omega) with ⟨h, -⟩ | ⟨h, -⟩
    · exact (congrArg BlockID.number h).ge
    · omega

/-- The L1 block that is kept from one iteration to the next is a block of the view. -/
def Keeps (C : Chains) (s : Search) : Prop :=
  s.l1Block = default ∨ ∃ j, C.base ≤ j ∧ j ≤ C.head ∧ s.l1Block = C.view j ∧ s.ahead = false

/-- Walking back by hash and by number gives the same L1 block. -/
theorem Serves.fetched (hsrv : C.Serves l1 l2) (hnames : C.NamesOrigin k) (hn : s.n = C.chain k)
    (hkeeps : C.Keeps s) (h : s.fetchL1 l1 = .ok t) :
    (t.ahead = true ∧ t.l1Block = default ∧ C.head < C.origin k) ∨
      (t.ahead = false ∧ t.l1Block = C.view (C.origin k) ∧ C.origin k ≤ C.head) := by
  unfold Search.fetchL1 at h
  rw [hn] at h
  split_ifs at h with hpar hnum
  · -- the kept block is the next one of the view
    rcases hkeeps with hdef | ⟨j, hj, hjhead, hblock, -⟩
    · rw [hdef] at hpar
      exact absurd hpar hnames.hash_ne_zero
    · rw [hblock] at hpar
      obtain rfl := hnames.eq_of_parentHash j hj hjhead hpar
      rw [hpar, hsrv.parentHash _ hnames.base_le hjhead,
        hsrv.byHash _ hnames.base_le (by omega)] at h
      cases h
      exact .inr ⟨rfl, rfl, by omega⟩
  · rw [show (C.chain k).l1Origin.number = C.origin k from rfl] at h
    by_cases hle : C.origin k ≤ C.head
    · rw [hsrv.byNumber _ hnames.base_le hle] at h
      cases h
      exact .inr ⟨rfl, rfl, hle⟩
    · rw [hsrv.above _ (lt_of_not_ge hle)] at h
      cases h
      exact .inl ⟨rfl, rfl, lt_of_not_ge hle⟩
  · -- the kept block is the origin itself
    rw [not_or, not_ne_iff] at hnum
    cases h
    rcases hkeeps with hdef | ⟨j, hj, hjhead, hblock, hahead⟩
    · exact absurd hdef hnum.1
    · obtain rfl := hnames.eq_of_hash j hj hjhead (by rw [hnum.2, hblock])
      exact .inr ⟨hahead, hblock, hjhead⟩

/-- The candidates after the blocks from `k` on have been visited: the unsafe candidate is the block
before `stop`, or there is none. -/
structure Candidates (C : Chains) (k stop : ℕ) (s : Search) : Prop where
  le_stop : k ≤ stop
  stop_le : stop ≤ C.top + 1
  unsafeHead : (s.result.unsafeHead = default ∧ stop = k) ∨
    ∃ u, stop = u + 1 ∧ s.result.unsafeHead = C.chain u
  credible : ∀ i, k ≤ i → i < stop → C.Plausible i
  reorged : stop ≤ C.top → ¬ C.Plausible stop
  highest : (s.highest = default ∧ ∀ i, k ≤ i → i < stop → ¬ C.Canonical i) ∨
    ∃ h, k ≤ h ∧ h < stop ∧ s.highest = C.chain h ∧ C.Canonical h ∧
      ∀ i, h < i → i < stop → ¬ C.Canonical i

lemma forall_from {P : ℕ → Prop} (hk : P k) (h : ∀ i, k + 1 ≤ i → i < stop → P i) :
    ∀ i, k ≤ i → i < stop → P i := by
  intro i hi hlt
  rcases eq_or_lt_of_le hi with rfl | hi
  · exact hk
  · exact h i hi hlt

lemma Candidates.visit (h : C.Candidates (k + 1) stop s) (hsrv : C.Serves l1 l2)
    (hk : C.final ≤ k) (hn : s.n = C.chain k) (hkeeps : C.Keeps s)
    (hv : Search.Visited cfg l1 s t) : C.Keeps t ∧ ∃ stop, C.Candidates k stop t := by
  have hle := h.le_stop
  have htop := h.stop_le
  have hnames := hsrv.names k hk (by omega)
  have hfet := hsrv.fetched hnames hn hkeeps hv.fetched
  have horigin : (C.view (C.origin k)).hash = s.n.l1Origin.hash → C.origin k ≤ C.head →
      C.Canonical k := by
    rw [hn]
    exact fun hhash hle => ⟨hle, hhash⟩
  refine ⟨?_, ?_⟩
  · rcases hfet with ⟨-, hdef, -⟩ | ⟨hahead, hblock, hhead⟩
    · exact .inl hdef
    · exact .inr ⟨_, hnames.base_le, hhead, hblock, hahead⟩
  -- there is an unsafe candidate once the current block may have become one
  obtain ⟨u, hstop, hu⟩ : ∃ u, stop = u + 1 ∧ s.unsafeOrN = C.chain u := by
    rcases h.unsafeHead with ⟨hdef, hstop⟩ | ⟨u, hstop, hhead⟩
    · exact ⟨k, hstop, (if_pos hdef).trans hn⟩
    · refine ⟨u, hstop, (if_neg ?_).trans hhead⟩
      rw [hhead]
      exact hsrv.ne_default u (by omega) (by omega)
  rcases hv.candidates with ⟨hahead, hhead, hhigh⟩ | ⟨hahead, hhash, hhead, hhigh⟩ |
    ⟨hahead, hhash, hhead, hhigh⟩
  · -- the origin is above the view
    obtain ⟨-, -, habove⟩ := hfet.resolve_right fun hc => absurd (hc.1.symm.trans hahead) nofun
    have hnot : ¬ C.Canonical k := fun hc => absurd hc.1 (not_le_of_gt habove)
    refine ⟨stop, by omega, htop, .inr ⟨u, hstop, hhead.trans hu⟩,
      forall_from (.inl habove) h.credible, h.reorged, ?_⟩
    rw [hhigh]
    rcases h.highest with ⟨hdef, hnone⟩ | ⟨j, hj, hrest⟩
    · exact .inl ⟨hdef, forall_from hnot hnone⟩
    · exact .inr ⟨j, by omega, hrest⟩
  all_goals
    obtain ⟨-, hblock, hle'⟩ := hfet.resolve_left fun hc => hahead hc.1
    rw [hblock] at hhash
  · -- the origin is canonical
    have hcan := horigin hhash hle'
    refine ⟨stop, by omega, htop, .inr ⟨u, hstop, hhead.trans hu⟩,
      forall_from (.inr hcan) h.credible, h.reorged, ?_⟩
    rw [hhigh]
    rcases h.highest with ⟨hdef, hnone⟩ | ⟨j, hj, hlt, hchain, hrest⟩
    · exact .inr ⟨k, le_rfl, by omega, (if_pos hdef).trans hn, hcan, fun i hi hlt => hnone i hi hlt⟩
    · refine .inr ⟨j, by omega, hlt, (if_neg ?_).trans hchain, hrest⟩
      rw [hchain]
      exact hsrv.ne_default j (by omega) (by omega)
  · -- the block and all above it are given up
    refine ⟨k, le_rfl, by omega, .inl ⟨hhead, rfl⟩, fun i hi hlt => absurd hi (by omega), fun _ => ?_,
      .inl ⟨hhigh, fun i hi hlt => absurd hi (by omega)⟩⟩
    rw [hn] at hhash
    rintro (habove | hcan)
    · omega
    · exact hhash hcan.2

/-- The heads that syncing starts from: blocks `u` and `safe` of the chain, and the finalized one. -/
structure StartsFrom (C : Chains) (cfg : SyncConfig) (heads : FindHeadsResult) (safe u : ℕ) :
    Prop where
  heads : heads = ⟨C.chain u, C.chain safe, C.chain C.final⟩
  final_le : C.final ≤ safe
  safe_le : safe ≤ u
  le_top : u ≤ C.top
  credible : ∀ i, safe ≤ i → i ≤ u → C.Plausible i
  highest : ∀ v, u < v → v ≤ C.top → ∃ i, safe ≤ i ∧ i ≤ v ∧ ¬ C.Plausible i
  lookback : safe = C.final ∨ ∃ h, safe ≤ h ∧ h ≤ u ∧ C.Canonical h ∧
    (∀ i, safe ≤ i → i ≤ u → C.Canonical i → C.origin i ≤ C.origin h) ∧
    C.origin safe + cfg.syncLookback < C.origin h

/-- A walk has come to the block `k`. -/
structure WalksAt (C : Chains) (k : ℕ) (s : Search) : Prop where
  n : s.n = C.chain k
  final_le : C.final ≤ k
  finalized : s.result.finalized = C.chain C.final
  ready : s.ready = false
  keeps : C.Keeps s
  candidates : ∃ stop, C.Candidates (k + 1) stop s

lemma Candidates.exists_unsafeHead (h : C.Candidates k stop t) (hk : k ≤ C.top)
    (hcred : C.Plausible k) :
    ∃ u, stop = u + 1 ∧ k ≤ u ∧ u ≤ C.top ∧ t.result.unsafeHead = C.chain u := by
  have hne : stop ≠ k := by
    rintro rfl
    exact h.reorged hk hcred
  have hle := h.le_stop
  have htop := h.stop_le
  rcases h.unsafeHead with ⟨-, hstop⟩ | ⟨u, hu, hhead⟩
  · exact absurd hstop hne
  · exact ⟨u, hu, by omega, by omega, hhead⟩

lemma Candidates.startsFrom_final (h : C.Candidates C.final stop t) (cfg : SyncConfig) (hsrv :
  C.Serves l1 l2)
    (hcred : C.Plausible C.final) (hfin : t.result.finalized = C.chain C.final) :
    ∃ u, C.StartsFrom cfg { t.result with safe := C.chain C.final } C.final u := by
  obtain ⟨u, rfl, hu, htop, hhead⟩ := h.exists_unsafeHead hsrv.final_le hcred
  exact ⟨u, by dsimp only; rw [hhead, hfin], le_rfl, hu, htop,
    fun i hi hle => h.credible i hi (by omega),
    fun v hv hvtop => ⟨u + 1, by omega, hv, h.reorged (by omega)⟩, .inl rfl⟩

/-- The walk ends with the parent of a block that is more than the lookback below the highest
canonical origin. -/
theorem Candidates.startsFrom_parent (h : C.Candidates (k + 1) stop t) (hsrv : C.Serves l1 l2)
    (hk : C.final ≤ k) (hn : t.n = C.chain (k + 1)) (hfin : t.result.finalized = C.chain C.final)
    (hblock : C.origin (k + 1) ≤ C.head → t.l1Block = C.view (C.origin (k + 1)))
    (hready : C.origin (k + 1) + cfg.syncLookback < t.highest.l1Origin.number)
    (hseq : (C.chain (k + 1)).sequenceNumber = 0) (hcheck : t.checkParent (C.chain k) = .ok ()) :
    ∃ u, C.StartsFrom cfg { t.result with safe := C.chain k } k u := by
  have htop := h.stop_le
  rcases h.highest with ⟨hdef, -⟩ | ⟨j, hj, hlt, hchain, hcan, hnone⟩
  · rw [hdef] at hready
    exact absurd hready (Nat.not_lt_zero _)
  rw [hchain] at hready
  change _ < C.origin j at hready
  -- the origin of the block is canonical, because it is below a canonical one
  have hcred := h.credible (k + 1) le_rfl (by omega)
  have hhead := hcan.1
  have hcanonical' : C.Canonical (k + 1) := hcred.resolve_left (by omega)
  obtain ⟨hnext, -⟩ := (hsrv.rules k hk (by omega)).resolve_left fun hc => by omega
  have hbelow : C.Canonical k := by
    refine ⟨by omega, ?_⟩
    have hne : (C.chain k).l1Origin ≠ t.n.l1Origin := fun hc => by
      have hnum : C.origin k = C.origin (k + 1) := by rw [origin, hc, hn, origin]
      omega
    rw [Search.checkParent] at hcheck
    split_ifs at hcheck with hpre hzero horigin
    rw [not_and, not_not, hblock hcanonical'.1, hn] at horigin
    rw [← horigin hcanonical'.2, hnext]
    exact (hsrv.parentHash _ (hsrv.names k hk (by omega)).base_le (by omega)).symm
  have hall : ∀ i, k ≤ i → i < stop → C.Plausible i := forall_from (.inr hbelow) h.credible
  obtain ⟨u, rfl, hu, hutop, hlatest⟩ := h.exists_unsafeHead (by omega) hcred
  refine ⟨u, by dsimp only; rw [hlatest, hfin], hk, by omega, hutop,
    fun i hi hle => hall i hi (by omega),
    fun v hv hvtop => ⟨u + 1, by omega, hv, h.reorged (by omega)⟩,
    .inr ⟨j, by omega, by omega, hcan, fun i hi hle hc => ?_, by omega⟩⟩
  refine hsrv.origin_mono (hk.trans hi) (le_of_not_gt fun hlt' => ?_) (by omega)
  exact hnone i hlt' (by omega) hc

variable {prevUnsafe : L2BlockRef}

lemma WalksAt.iterate (h : C.WalksAt k s) (hsrv : C.Serves l1 l2)
    (hskip : cfg.skipSyncStartCheck = false) (hcred : C.Plausible C.final)
    (hback : ∀ k, C.final ≤ k → k ≤ C.top → C.origin k + cfg.syncLookback < 2 ^ 64)
    {r : Search ⊕ FindHeadsResult} (hv : Search.Visited cfg l1 s t) (ha : Search.Advanced cfg l2 t r) :
    (∃ s' k, r = .inl s' ∧ C.WalksAt k s') ∨
      ∃ heads safe u, r = .inr heads ∧ C.StartsFrom cfg heads safe u := by
  obtain ⟨stop, hcand⟩ := h.candidates
  have htop := hcand.stop_le
  have hle := hcand.le_stop
  have hn : t.n = C.chain k := hv.n.trans h.n
  have hfinalized : t.result.finalized = C.chain C.final := hv.finalized.trans h.finalized
  have hnum : t.n.number = k := by rw [hn, hsrv.number k h.final_le (by omega)]
  have hnumber' : t.result.finalized.number = C.final := by
    rw [hfinalized, hsrv.number _ le_rfl hsrv.final_le]
  have hfet := hsrv.fetched (hsrv.names k h.final_le (by omega)) h.n h.keeps hv.fetched
  obtain ⟨hkeeps, stop, hcandidates'⟩ := hcand.visit hsrv h.final_le h.n h.keeps hv
  cases ha with
  | finalized hfin =>
    obtain rfl : k = C.final := by omega
    obtain ⟨u, hu⟩ := hcandidates'.startsFrom_final cfg hsrv hcred hfinalized
    rw [hn]
    exact .inr ⟨_, _, u, rfl, hu⟩
  | jump _ hon => exact absurd (hon.symm.trans hskip) nofun
  | parent hne _ hget hcheck =>
    obtain ⟨j, rfl⟩ : ∃ j, k = j + 1 := ⟨k - 1, by have := h.final_le; omega⟩
    have hj : C.final ≤ j := by have := h.final_le; omega
    rw [hn, hsrv.parent j hj (by omega)] at hget
    cases hget
    rw [Search.enterParent]
    split_ifs with hready
    · rw [hv.ready, h.ready, Bool.false_or, decide_eq_true_eq, h.n] at hready
      obtain ⟨-, hbelow, hseq⟩ := hready
      rw [show (C.chain (j + 1)).l1Origin.number = C.origin (j + 1) from rfl,
        add64, Nat.mod_eq_of_lt (hback (j + 1) h.final_le (by omega))] at hbelow
      obtain ⟨u, hu⟩ := hcandidates'.startsFrom_parent hsrv hj hn hfinalized
        (fun hhead => (hfet.resolve_left fun hc => by omega).2.1) hbelow hseq hcheck
      exact .inr ⟨_, _, u, rfl, hu⟩
    · exact .inl ⟨_, j, rfl, rfl, hj, hfinalized, Bool.eq_false_iff.mpr hready, hkeeps, stop,
        ⟨hcandidates'.1, hcandidates'.2, hcandidates'.3, hcandidates'.4, hcandidates'.5,
          hcandidates'.6⟩⟩

/-- The line of blocks. -/
def line : Chains := ⟨lineL1Block, 0, 3, lineBlock, 0, 3⟩

end Chains

end FightNight.Node
