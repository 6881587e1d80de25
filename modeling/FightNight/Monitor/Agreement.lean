import FightNight.Challenger.Split
import FightNight.Monitor.Resolve

/-!
# The contract and the monitor resolve games alike

On chain a game is resolved claim by claim, by calls that visit as many children of a claim as
they are asked to and leave a checkpoint for the next call.  The monitor computes all counters at
once from the claims.  Whatever the order and the sizes of the calls are, the counters that are
stored when the root claim is resolved are those of the monitor.

The invariant says, of each claim, that its counter is the one of the monitor once it is resolved
and the old one before, and that its checkpoint is the result for the children that have been
visited.
-/

namespace FightNight.Monitor

open Option FightNight.Except Forest Run Function
open List hiding getElem?_eq_some_iff
open Challenger (getAllClaims decodeClaim Claim)
open Dispute Game ResolutionCheckpoint

/-- `GameStatusFromUint8` for the status of the contract. -/
def GameStatus.ofChain : Dispute.GameStatus → GameStatus
  | .inProgress => .inProgress
  | .challengerWins => .challengerWon
  | .defenderWins => .defenderWon

/-- A move or a step. -/
def IsPlay : GameCall → Prop
  | .move .. | .step .. => True
  | _ => False

/-- A call of `resolveClaim`. -/
def IsResolveClaim : GameCall → Prop
  | .resolveClaim .. => True
  | _ => False

instance : DecidablePred IsPlay
  | .move .. | .step .. => isTrue trivial
  | .challengeRootL2Block .. | .resolveClaim .. | .resolve => isFalse id

instance : DecidablePred IsResolveClaim
  | .resolveClaim .. => isTrue trivial
  | .move .. | .step .. | .challengeRootL2Block .. | .resolve => isFalse id

variable {env : GameEnv} {tx : GameTx} {s s' s₀ : Game} {i : ℕ} {c : ClaimData}

/-! ## Games before their resolution -/

/-- What moves and steps lead to: nothing is resolved, and only claims of the greatest depth are
countered. -/
structure Played (env : GameEnv) (s : Game) : Prop where
  grown : Grown env s
  unresolved : ∀ i, s.resolvedSubgames i = false
  checkpoints : ∀ i, s.resolutionCheckpoints i = ⟨false, 0, 0, 0⟩
  unchallenged : s.l2BlockNumberChallenged = false
  depth_of_countered : ∀ c ∈ s.claimData, c.counteredBy ≠ 0 → c.position.log2 = env.maxGameDepth

lemma Played.call {call : GameCall} (hs : Played env s) (hplay : IsPlay call)
    (h : Effect env tx s call s') : Played env s' := by
  have hgrown := hs.grown.call h
  cases h with
  | move _ h =>
    obtain rfl := h.eq
    refine ⟨hgrown, hs.unresolved, hs.checkpoints, hs.unchallenged, fun c hc hctr => ?_⟩
    rcases mem_append.mp hc with hc | hc
    · exact hs.depth_of_countered c hc hctr
    · rw [mem_singleton.mp hc] at hctr
      exact absurd rfl hctr
  | step hc _ hdepth =>
    refine ⟨hgrown, hs.unresolved, hs.checkpoints, hs.unchallenged, fun d hd hctr => ?_⟩
    rcases mem_or_eq_of_mem_set hd with hd | rfl
    · exact hs.depth_of_countered d hd hctr
    · rw [(hs.grown.tree.depth_move (mem_of_getElem? hc) _).2] at hdepth
      exact Nat.succ_injective hdepth
  | challengeRootL2Block _ | leaf _ _ _ | scan _ _ _ _ _ | settle _ _ _ _ _ | resolve _ =>
    exact absurd hplay id

lemma played_created {anchor : OutputRoot} (h : created env tx anchor = .ok s) :
    Played env s := by
  have hgrown := grown_created h
  simp only [created, initializeGame, bind_eq_ok, pure_eq_ok] at h
  obtain ⟨-, -, -, -, -, -, -, -, rfl⟩ := h
  refine ⟨hgrown, fun _ => rfl, fun _ => rfl, rfl, fun c hc hctr => ?_⟩
  rw [show c = _ from mem_singleton.mp hc] at hctr
  exact absurd rfl hctr

lemma Played.open_of_subgames (hs : Played env s) (hc : s.claimData[i]? = some c)
    (hi : ¬(s.subgames i = [] ∧ i ≠ 0)) : c.counteredBy = 0 := by
  by_contra hctr
  have hdepth := hs.depth_of_countered c (mem_of_getElem? hc) hctr
  by_cases hroot : i = 0
  · obtain ⟨r, hr, -, hpos⟩ := hs.grown.tree.root
    rw [hroot, hr] at hc
    rw [← some.inj hc, hpos] at hdepth
    have := env.splitDepth_lt
    rw [← hdepth] at this
    exact absurd this (Nat.not_lt_zero _)
  · obtain ⟨j, hj⟩ := exists_mem_of_ne_nil _ fun hnil => hi ⟨hnil, hroot⟩
    rw [hs.grown.subgames_eq] at hj
    obtain ⟨hj0, d, hd, hpar⟩ := mem_children.mp hj
    obtain ⟨p, hp, hlog, -⟩ := hs.grown.tree.exists_parent hd hj0
    rw [hpar, hc] at hp
    cases hp
    have := hs.grown.tree.depth_le d (mem_of_getElem? hd)
    omega

/-! ## What the monitor reads -/

/-- The tree that the monitor makes of the claims of a game. -/
def treeOf (s : Game) : List BidirectionalClaim := withChildren (getAllClaims s)

lemma createBidirectionalTree_getAllClaims (hs : Grown env s) :
    createBidirectionalTree (getAllClaims s) = .ok (treeOf s) := by
  rw [createBidirectionalTree, foldlM_add (Challenger.linked_getAllClaims hs.tree)]
  · rfl
  intro i b hb
  rw [Challenger.getElem?_getAllClaims, map_eq_some_iff] at hb
  obtain ⟨c, -, rfl⟩ := hb
  rfl

lemma length_treeOf (s : Game) : (treeOf s).length = s.claimData.length := by
  rw [treeOf, withChildren, length_mapIdx, getAllClaims, length_mapIdx]

lemma getElem?_treeOf (hs : Grown env s) (i : ℕ) :
    (treeOf s)[i]? = s.claimData[i]?.map fun c => ⟨decodeClaim c i, s.subgames i⟩ := by
  have hpars : (getAllClaims s).map Claim.parentContractIndex =
      s.claimData.map ClaimData.parentIndex := by
    apply ext_getElem?
    intro j
    rw [getElem?_map, getElem?_map, Challenger.getElem?_getAllClaims, Option.map_map]
    rfl
  rw [treeOf, getElem?_withChildren, Challenger.getElem?_getAllClaims, Option.map_map,
    children_congr hpars, ← hs.subgames_eq]
  rfl

section Readings

variable (hs : Grown env s) (hc : s.claimData[i]? = some c)

include hs hc

lemma counterAt_treeOf : counterAt (treeOf s) i = c.counteredBy := by
  rw [counterAt, getElem?_treeOf hs, hc, map_some]
  rfl

lemma claimantAt_treeOf : claimantAt (treeOf s) i = c.claimant := by
  rw [claimantAt, getElem?_treeOf hs, hc, map_some]
  rfl

lemma childrenAt_treeOf : childrenAt (treeOf s) i = s.subgames i := by
  rw [childrenAt, getElem?_treeOf hs, hc, map_some, elim_some]

lemma indexAt_treeOf : c.position = 2 ^ c.position.log2 + indexAt (treeOf s) i := by
  obtain ⟨hvalid, hgidx, hdepth⟩ := Challenger.decodeClaim_position hs.tree (mem_of_getElem? hc) i
  rw [indexAt, getElem?_treeOf hs, hc, map_some, elim_some, ← hdepth, ← hvalid.toGIndex_eq]
  exact hgidx.symm

end Readings

variable {checkpoint : ResolutionCheckpoint} {j : ℕ}

lemma lt_of_mem_subgames (hs : Grown env s) (hj : j ∈ s.subgames i) :
    i < j ∧ ∃ d, s.claimData[j]? = some d ∧ d.parentIndex = i := by
  rw [hs.subgames_eq] at hj
  obtain ⟨hj0, d, hd, hpar⟩ := mem_children.mp hj
  exact ⟨hpar ▸ hs.tree.parent_lt hd hj0, d, hd, hpar⟩

lemma position_lt_iff (hs : Grown env s) {k : ℕ} {d e : ClaimData} (hj : j ∈ s.subgames i)
    (hk : k ∈ s.subgames i) (hd : s.claimData[j]? = some d) (he : s.claimData[k]? = some e) :
    d.position < e.position ↔ indexAt (treeOf s) j < indexAt (treeOf s) k := by
  have hlog : ∀ {m f}, m ∈ s.subgames i → s.claimData[m]? = some f →
      ∃ p, s.claimData[i]? = some p ∧ f.position.log2 = p.position.log2 + 1 := by
    intro m f hm hf
    obtain ⟨hlt, g, hg, hpar⟩ := lt_of_mem_subgames hs hm
    obtain rfl := some.inj (hg.symm.trans hf)
    obtain ⟨p, hp, hlog, -⟩ := hs.tree.exists_parent hf (by omega)
    exact ⟨p, hpar ▸ hp, hlog⟩
  obtain ⟨p, hp, hdlog⟩ := hlog hj hd
  obtain ⟨q, hq, helog⟩ := hlog hk he
  obtain rfl := some.inj (hp.symm.trans hq)
  have hdindex := indexAt_treeOf hs hd
  have heindex := indexAt_treeOf hs he
  rw [hdlog] at hdindex
  rw [helog] at heindex
  rw [hdindex, heindex]
  exact Nat.add_lt_add_iff_left

/-- The counters that the monitor computes. -/
def monitored (s : Game) : ℕ → Address := counterAt (resolve (treeOf s)).2

lemma monitored_eq (hs : Grown env s) (hc : s.claimData[i]? = some c) :
    monitored s i = ((Counters.leftmost (indexAt (treeOf s)) (monitored s) (s.subgames i)).map
      (claimantAt (treeOf s))).getD c.counteredBy := by
  have hchild : ∀ i, ∀ j ∈ childrenAt (treeOf s) i, i < j ∧ j < (treeOf s).length := by
    intro i j hj
    cases hd : s.claimData[i]? with
    | none =>
      rw [childrenAt, getElem?_treeOf hs, hd] at hj
      cases hj
    | some d =>
      rw [childrenAt_treeOf hs hd] at hj
      obtain ⟨hlt, e, he, -⟩ := lt_of_mem_subgames hs hj
      rw [length_treeOf]
      exact ⟨hlt, (getElem?_eq_some_iff.mp he).1⟩
  have hi : i < (treeOf s).length := by grind [length_treeOf]
  have hset := (resolveBelow_spec (le_refl _) hchild).2.2 i hi
  rwa [← resolve_snd, childrenAt_treeOf hs hc, counterAt_treeOf hs hc] at hset

/-! ## Checkpoints -/

/-- What a checkpoint has of the leftmost child among those that were visited. -/
def leftmostSeen (s : Game) (best : Option ℕ) : ℕ × Address :=
  best.elim (2 ^ 128 - 1, 0) fun j =>
    (s.claimData[j]?.elim 0 ClaimData.position, claimantAt (treeOf s) j)

/-- A checkpoint of a claim: the children before its index are resolved, and it has the leftmost
uncountered one of them. -/
structure Visited (s₀ s : Game) (i : ℕ) (checkpoint : ResolutionCheckpoint) : Prop where
  le : checkpoint.subgameIndex ≤ (s₀.subgames i).length
  resolved : ∀ j ∈ (s₀.subgames i).take checkpoint.subgameIndex, s.resolvedSubgames j = true
  started : checkpoint.initialCheckpointComplete = true →
    (checkpoint.leftmostPosition, checkpoint.counteredBy) = leftmostSeen s₀
      (Counters.leftmost (indexAt (treeOf s₀)) (monitored s₀)
        ((s₀.subgames i).take checkpoint.subgameIndex))
  fresh : checkpoint.initialCheckpointComplete = false →
    checkpoint.subgameIndex = 0 ∧ checkpoint.counteredBy = 0

/-- The resolution of a game that was played: the counters of resolved claims are those of the
monitor, the other ones are as they were. -/
structure Resolving (s₀ s : Game) : Prop where
  same : SameTree s₀ s
  unchallenged : s.l2BlockNumberChallenged = false
  counteredBy_eq : ∀ {i c}, s.claimData[i]? = some c → s.resolvedSubgames i = true →
    c.counteredBy = monitored s₀ i
  children : ∀ {i j}, s.resolvedSubgames i = true → j ∈ s₀.subgames i → s.resolvedSubgames j = true
  untouched : ∀ {i c}, s.claimData[i]? = some c → s.resolvedSubgames i = false →
    s₀.claimData[i]? = some c
  visited : ∀ i, Visited s₀ s i (s.resolutionCheckpoints i)

/-- What one visit does to the leftmost position and the counter of a checkpoint. -/
def visitIn (s : Game) (acc : ℕ × Address) (j : ℕ) : ℕ × Address :=
  s.claimData[j]?.elim acc fun c =>
    if c.counteredBy = 0 ∧ c.position < acc.1 then (c.position, c.claimant) else acc

lemma visitChildren_ok {l : List ℕ} {checkpoint' : ResolutionCheckpoint}
    (h : s.visitChildren l checkpoint = .ok checkpoint') :
    (∀ j ∈ l, s.resolvedSubgames j = true) ∧
      checkpoint'.initialCheckpointComplete = checkpoint.initialCheckpointComplete ∧
      (checkpoint'.leftmostPosition, checkpoint'.counteredBy) =
        l.foldl (visitIn s) (checkpoint.leftmostPosition, checkpoint.counteredBy) := by
  induction l generalizing checkpoint with
  | nil =>
    cases h
    exact ⟨nofun, rfl, rfl⟩
  | cons j l ih =>
    simp only [visitChildren, bind_eq_ok, revertIf_eq_ok, claimAt_eq_ok] at h
    obtain ⟨-, hres, c, hc, h⟩ := h
    obtain ⟨hrest, hcomp, hfold⟩ := ih h
    have hvisit : (visit checkpoint c).initialCheckpointComplete =
          checkpoint.initialCheckpointComplete ∧
        ((visit checkpoint c).leftmostPosition, (visit checkpoint c).counteredBy) =
            visitIn s (checkpoint.leftmostPosition, checkpoint.counteredBy) j := by
      rw [visitIn, hc, elim_some, visit]
      split <;> exact ⟨rfl, rfl⟩
    refine ⟨?_, hcomp.trans hvisit.1, by rw [hfold, hvisit.2, foldl_cons]⟩
    intro k hk
    rcases mem_cons.mp hk with rfl | hk
    · simpa using hres
    · exact hrest k hk

lemma Visited.start (h : Visited s₀ s i checkpoint) (n m : ℕ) :
    Visited s₀ s i (startCheckpoint checkpoint n m).1 ∧
      (startCheckpoint checkpoint n m).1.initialCheckpointComplete = true := by
  rw [startCheckpoint]
  split
  · rename_i hcomp
    exact ⟨h, hcomp⟩
  · rename_i hcomp
    obtain ⟨hidx, hctr⟩ := h.fresh (by simpa using hcomp)
    refine ⟨⟨h.le, h.resolved, fun _ => ?_, fun hfalse => nomatch hfalse⟩, rfl⟩
    rw [hidx, hctr, take_zero]
    rfl

lemma Resolving.exists_claim (hs : Resolving s₀ s) (hc : s.claimData[i]? = some c) :
    ∃ c₀, s₀.claimData[i]? = some c₀ ∧ c.claimant = c₀.claimant ∧ c.position = c₀.position := by
  obtain ⟨c₀, hc₀, hcore⟩ := exists_core_eq hs.same.core_eq hc
  have hclm : c.core.claimant = c₀.core.claimant := congrArg _ hcore
  have hpos : c.core.position = c₀.core.position := congrArg _ hcore
  exact ⟨c₀, hc₀, hclm, hpos⟩

/-- Visiting a resolved child is what the monitor does with it. -/
theorem Resolving.visitIn_eq (hs : Resolving s₀ s) (hplay : Played env s₀) {best : Option ℕ}
    (hbest : ∀ k ∈ best, k ∈ s₀.subgames i) (hj : j ∈ s₀.subgames i)
    (hres : s.resolvedSubgames j = true) :
    visitIn s (leftmostSeen s₀ best) j = leftmostSeen s₀
      (if monitored s₀ j = 0 ∧ ∀ k ∈ best, indexAt (treeOf s₀) j < indexAt (treeOf s₀) k then some j
        else best) := by
  have hgrown := hplay.grown
  obtain ⟨-, d, hd, -⟩ := lt_of_mem_subgames hgrown hj
  obtain ⟨c, hc, -⟩ := exists_core_eq hs.same.core_eq.symm hd
  obtain ⟨c₀, hc₀, hclm, hpos⟩ := hs.exists_claim hc
  have hview : leftmostSeen s₀ (some j) = (c.position, c.claimant) := by
    rw [leftmostSeen, elim_some, hc₀, elim_some, claimantAt_treeOf hgrown hc₀, hclm, hpos]
  have hleft : (∀ k ∈ best, indexAt (treeOf s₀) j < indexAt (treeOf s₀) k) ↔
      c.position < (leftmostSeen s₀ best).1 := by
    cases best with
    | none =>
      have hlt := (hgrown.tree.position (mem_of_getElem? hc₀)).2
      have hmax : 2 ^ 126 < 2 ^ 128 - 1 := by decide
      rw [← hpos] at hlt
      exact iff_of_true nofun (lt_trans hlt hmax)
    | some k =>
      obtain ⟨-, e, he, -⟩ := lt_of_mem_subgames hgrown (hbest k rfl)
      rw [leftmostSeen, elim_some, he, elim_some, hpos,
        position_lt_iff hgrown hj (hbest k rfl) hc₀ he]
      simp
  rw [visitIn, hc, elim_some, hs.counteredBy_eq hc hres]
  by_cases hbet : monitored s₀ j = 0 ∧ c.position < (leftmostSeen s₀ best).1
  · grind
  · grind

lemma length_subgames_lt (hs : Grown env s) (i : ℕ) : (s.subgames i).length < 2 ^ 32 := by
  have hle : (s.subgames i).length ≤ s.claimData.length := by
    rw [hs.subgames_eq]
    exact (length_filter_le _ _).trans_eq length_range
  have hlen := hs.tree.length_lt
  rw [noParent] at hlen
  omega

/-- A call goes on from the checkpoint. -/
theorem Resolving.scan (hs : Resolving s₀ s) (hplay : Played env s₀) {n : ℕ}
    (h : s.scanChildren i n = .ok checkpoint) :
    Visited s₀ s i checkpoint ∧ checkpoint.initialCheckpointComplete = true := by
  obtain ⟨hstart, hcomp⟩ := (hs.visited i).start n (s.subgames i).length
  simp only [scanChildren, bind_eq_ok, pure_eq_ok, Checked.add_eq_ok] at h
  obtain ⟨last, ⟨-, rfl⟩, checkpoint', hvisit, rfl⟩ := h
  obtain ⟨hres, hcomplete', hfold⟩ := visitChildren_ok hvisit
  rw [hs.same.subgames_eq] at hres hcomplete' hfold hstart hcomp ⊢
  generalize startCheckpoint (s.resolutionCheckpoints i) n (s₀.subgames i).length = start
    at hres hcomplete' hfold hstart hcomp ⊢
  have hle := hstart.le
  have hlen := length_subgames_lt hplay.grown i
  generalize hfin : min (start.1.subgameIndex + start.2) (s₀.subgames i).length = final
    at hres hcomplete' hfold ⊢
  -- The children up to the new cursor are those before the call and those of the loop.
  have hsplit : (s₀.subgames i).take start.1.subgameIndex ++
      ((s₀.subgames i).take final).drop start.1.subgameIndex = (s₀.subgames i).take final := by
    have := take_append_drop start.1.subgameIndex ((s₀.subgames i).take final)
    rwa [take_take, min_eq_left (by omega)] at this
  have hall : ∀ j ∈ (s₀.subgames i).take final, s.resolvedSubgames j = true := by
    intro j hj
    rw [← hsplit] at hj
    exact (mem_append.mp hj).elim (hstart.resolved j) (hres j)
  have hsub : ∀ j ∈ (s₀.subgames i).take final, j ∈ s₀.subgames i := fun j hj => mem_of_mem_take hj
  have hview : ∀ best : Option ℕ, (∀ k ∈ best, k ∈ (s₀.subgames i).take start.1.subgameIndex ++
        ((s₀.subgames i).take final).drop start.1.subgameIndex) →
      ∀ j ∈ ((s₀.subgames i).take final).drop start.1.subgameIndex,
      visitIn s (leftmostSeen s₀ best) j = leftmostSeen s₀
        (if monitored s₀ j = 0 ∧ ∀ k ∈ best, indexAt (treeOf s₀) j < indexAt (treeOf s₀) k then some j
          else best) := by
    intro best hbest j hj
    rw [hsplit] at hbest
    have hj' := mem_of_mem_drop hj
    exact hs.visitIn_eq hplay (fun k hk => hsub k (hbest k hk)) (hsub j hj') (hall j hj')
  have hloop := Counters.foldl_leftmost (leftmostSeen s₀) (visitIn s) _ _ hview
  rw [hsplit, ← hstart.started hcomp, ← hfold] at hloop
  have hmod : final % 2 ^ 32 = final := Nat.mod_eq_of_lt (by omega)
  rw [hmod]
  exact ⟨⟨by dsimp only; omega, hall, fun _ => hloop,
    fun hfalse => absurd (hfalse.symm.trans (hcomplete'.trans hcomp)) (by decide)⟩,
    hcomplete'.trans hcomp⟩

/-! ## Resolution -/

lemma Visited.mono (h : Visited s₀ s i checkpoint)
    (hmono : ∀ j, s.resolvedSubgames j = true → s'.resolvedSubgames j = true) :
    Visited s₀ s' i checkpoint :=
  ⟨h.le, fun j hj => hmono j (h.resolved j hj), h.started, h.fresh⟩

lemma Played.resolving (hs : Played env s) : Resolving s s := by
  have hnone : ∀ i, ¬s.resolvedSubgames i = true := fun i h => nomatch (hs.unresolved i).symm.trans h
  refine ⟨⟨rfl, rfl, rfl, rfl⟩, hs.unchallenged, fun _ h => absurd h (hnone _),
    fun h => absurd h (hnone _), fun hc _ => hc, fun i => ?_⟩
  rw [hs.checkpoints]
  exact ⟨Nat.zero_le _, fun j hj => (nomatch hj), nofun, fun _ => ⟨rfl, rfl⟩⟩

lemma Resolving.withCheckpoint (hs : Resolving s₀ s) (h : Visited s₀ s i checkpoint) :
    Resolving s₀ (s.withCheckpoint i checkpoint) := by
  refine ⟨⟨hs.same.core_eq, hs.same.subgames_eq, hs.same.startingOutputRoot_eq,
    hs.same.wethBalance_eq⟩, hs.unchallenged, hs.counteredBy_eq, hs.children, hs.untouched, fun j => ?_⟩
  have hvis : Visited s₀ s j (update s.resolutionCheckpoints i checkpoint j) := by
    rw [update_apply]
    split
    · rename_i hj
      rwa [hj]
    · exact hs.visited j
  exact ⟨hvis.le, hvis.resolved, hvis.started, hvis.fresh⟩

/-- A claim is resolved with the counter of the monitor after all of its children. -/
theorem Resolving.settle (hs : Resolving s₀ s) (hc : s.claimData[i]? = some c) {recipient a : Address}
    (ha : a = monitored s₀ i) (hchild : ∀ j ∈ s₀.subgames i, s.resolvedSubgames j = true) :
    Resolving s₀ (s.settle i c recipient a) := by
  have hmono : ∀ j, s.resolvedSubgames j = true →
      (s.settle i c recipient a).resolvedSubgames j = true := by
    intro j hj
    rw [settle_resolvedSubgames, update_apply]
    split <;> first | rfl | exact hj
  have hcore := map_core_set hc a
  refine ⟨⟨hcore.trans hs.same.core_eq, hs.same.subgames_eq, hs.same.startingOutputRoot_eq,
    hs.same.wethBalance_eq⟩, hs.unchallenged, ?_, ?_, ?_, fun j => (hs.visited j).mono hmono⟩
  · intro j d hd hres
    rw [settle_claimData, getElem?_set] at hd
    rw [settle_resolvedSubgames, update_apply] at hres
    by_cases hj : j = i
    · grind
    · rw [if_neg (Ne.symm hj)] at hd
      rw [if_neg hj] at hres
      exact hs.counteredBy_eq hd hres
  · intro j k hj hk
    rw [settle_resolvedSubgames, update_apply] at hj
    by_cases hji : j = i
    · exact hmono k (hchild k (hji ▸ hk))
    · rw [if_neg hji] at hj
      exact hmono k (hs.children hj hk)
  · intro j d hd hopen
    rw [settle_resolvedSubgames, update_apply] at hopen
    by_cases hj : j = i
    · rw [if_pos hj] at hopen
      cases hopen
    · rw [if_neg hj] at hopen
      rw [settle_claimData, getElem?_set_ne (Ne.symm hj)] at hd
      exact hs.untouched hd hopen

lemma Resolving.call {call : GameCall} (hplay : Played env s₀) (hs : Resolving s₀ s)
    (hcall : IsResolveClaim call) (h : Effect env tx s call s') : Resolving s₀ s' := by
  cases h with
  | move _ _ | step _ _ _ | challengeRootL2Block _ | resolve _ => exact absurd hcall id
  | leaf hc hopen hleaf =>
    have hc₀ := hs.untouched hc hopen
    rw [hs.same.subgames_eq] at hleaf
    refine hs.settle hc ?_ fun j hj => ?_
    · rw [monitored_eq hplay.grown hc₀, hleaf.1]
      rfl
    · rw [hleaf.1] at hj
      cases hj
  | scan _ _ _ hscan _ => exact hs.withCheckpoint (hs.scan hplay hscan).1
  | @settle i n c checkpoint hc hopen hleaf hscan hlast =>
    have hc₀ := hs.untouched hc hopen
    obtain ⟨hvis, hcomp⟩ := hs.scan hplay hscan
    rw [hs.same.subgames_eq] at hleaf hlast
    have hall : (s₀.subgames i).take checkpoint.subgameIndex = s₀.subgames i := by
      rw [hlast, take_length]
    have hseen := congrArg Prod.snd (hvis.started hcomp)
    have hres := hvis.resolved
    rw [hall] at hseen hres
    refine (hs.withCheckpoint hvis).settle hc ?_ hres
    have hroot : ¬s.RootChallenged i := fun h => nomatch hs.unchallenged.symm.trans h.2
    rw [counter, if_neg hroot, monitored_eq hplay.grown hc₀, hplay.open_of_subgames hc₀ hleaf]
    refine hseen.trans ?_
    cases Counters.leftmost (indexAt (treeOf s₀)) (monitored s₀) (s₀.subgames i) <;> rfl

lemma Resolving.all_resolved (hplay : Played env s₀) (hs : Resolving s₀ s)
    (hroot : s.resolvedSubgames 0 = true) :
    ∀ i < s₀.claimData.length, s.resolvedSubgames i = true := by
  intro i
  induction i using Nat.strongRecOn with
  | ind i ih =>
    intro hi
    by_cases h0 : i = 0
    · rwa [h0]
    · have hc := getElem?_eq_getElem hi
      have hlt := hplay.grown.tree.parent_lt hc h0
      refine hs.children (ih _ hlt (lt_trans hlt hi)) ?_
      rw [hplay.grown.subgames_eq]
      exact mem_children.mpr ⟨h0, _, hc, rfl⟩

lemma counters_eq_of_counterAt {tree : List BidirectionalClaim} {claims : List ClaimData}
    (hlen : tree.length = claims.length)
    (h : ∀ i c, claims[i]? = some c → c.counteredBy = counterAt tree i) :
    tree.map (fun c => c.claim.counteredBy) = claims.map ClaimData.counteredBy := by
  apply ext_getElem
  · rw [length_map, length_map, hlen]
  · intro i hi hi'
    rw [length_map] at hi hi'
    rw [getElem_map, getElem_map, h i _ (getElem?_eq_getElem hi'), counterAt,
      getElem?_eq_getElem, elim_some]

/-- However the claims of a game are resolved, once the root claim is resolved, the counters are those
that the monitor computes from the claims before the resolution, and so is the status. -/
theorem resolution_agrees {anchor : OutputRoot} {plays resolutions : List (GameTx × GameCall)}
    (hcreated : created env tx anchor = .ok s) (hplays : ∀ c ∈ plays, IsPlay c.2)
    (hresolutions : ∀ c ∈ resolutions, IsResolveClaim c.2)
    (hroot : (runAll (exec env) (plays ++ resolutions) s).resolvedSubgames 0 = true) :
    ∃ tree, createBidirectionalTree (getAllClaims (runAll (exec env) plays s)) = .ok tree ∧
      (resolve tree).2.map (fun c => c.claim.counteredBy) =
        (runAll (exec env) (plays ++ resolutions) s).claimData.map ClaimData.counteredBy ∧
      ∀ last s', exec env (last, .resolve) (runAll (exec env) (plays ++ resolutions) s) = .ok s' →
        GameStatus.ofChain s'.status = (resolve tree).1 := by
  have hplay : Played env (runAll (exec env) plays s) := by
    have hstep : ∀ c ∈ plays, ∀ s s', Played env s → exec env c s = .ok s' → Played env s' :=
      fun c hc _ _ hs hexec => hs.call (hplays c hc) (exec_effect hexec)
    exact runAll_inv hstep (played_created hcreated)
  rw [runAll_append] at hroot ⊢
  generalize runAll (exec env) plays s = s₀ at hplay hroot ⊢
  have hres : Resolving s₀ (runAll (exec env) resolutions s₀) := by
    have hstep : ∀ c ∈ resolutions, ∀ s s', Resolving s₀ s → exec env c s = .ok s' →
        Resolving s₀ s' :=
      fun c hc _ _ hs hexec => hs.call hplay (hresolutions c hc) (exec_effect hexec)
    exact runAll_inv hstep hplay.resolving
  generalize runAll (exec env) resolutions s₀ = s₁ at hres hroot ⊢
  have hlen : s₁.claimData.length = s₀.claimData.length := by
    have := congrArg length hres.same.core_eq
    rwa [length_map, length_map] at this
  have hctrs : ∀ i c, s₁.claimData[i]? = some c → c.counteredBy = monitored s₀ i := by
    intro i c hc
    have hi := (getElem?_eq_some_iff.mp hc).1
    exact hres.counteredBy_eq hc (hres.all_resolved hplay hroot i (hlen ▸ hi))
  refine ⟨treeOf s₀, createBidirectionalTree_getAllClaims hplay.grown, ?_, fun last s' hexec => ?_⟩
  · refine counters_eq_of_counterAt ?_ hctrs
    rw [length_resolve, length_treeOf, hlen]
  · rw [resolve_fst]
    cases exec_effect hexec with
    | resolve hfirst =>
      have hctr := hctrs 0 _ hfirst
      rw [monitored] at hctr
      rw [← hctr]
      split <;> rfl

/-- Two attacks on the root claim, the first of which is attacked down to the greatest depth. -/
def samplePlays : List (GameTx × GameCall) :=
  walkCalls ++ [sampleMove (sampleHash 0 1) 0 (sampleHash 1 7) true]

/-- The children of the root claim are visited one by one. -/
def sampleResolutions : List (GameTx × GameCall) :=
  [(3, 0), (4, 7), (2, 0), (1, 1), (0, 1), (0, 1)].map fun c => (sampleTx 0 1000, .resolveClaim c.1 c.2)

/-- The sample game, in which the root claim is countered. -/
theorem resolution_agrees_sample :
    (runAll (exec walkEnv) (samplePlays ++ sampleResolutions)
        (sampleGame walkEnv)).resolvedSubgames 0 = true ∧
      ∃ tree, createBidirectionalTree
          (getAllClaims (runAll (exec walkEnv) samplePlays (sampleGame walkEnv))) = .ok tree ∧
        (resolve tree).2.map (fun c => c.claim.counteredBy) = [1, 0, 1, 0, 0] := by
  have hroot : (runAll (exec walkEnv) (samplePlays ++ sampleResolutions)
      (sampleGame walkEnv)).resolvedSubgames 0 = true := by decide
  have hctrs : (runAll (exec walkEnv) (samplePlays ++ sampleResolutions)
      (sampleGame walkEnv)).claimData.map ClaimData.counteredBy = [1, 0, 1, 0, 0] := by decide
  have hcr : created walkEnv (sampleTx 0 0) ⟨sampleHash 0 3, 0⟩ = .ok (sampleGame walkEnv) :=
    rfl
  obtain ⟨tree, htree, hsame, -⟩ := resolution_agrees hcr (by decide) (by decide) hroot
  exact ⟨hroot, tree, htree, hsame.trans hctrs⟩

end FightNight.Monitor
