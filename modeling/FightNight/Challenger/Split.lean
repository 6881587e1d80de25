import FightNight.Challenger.Types
import FightNight.Dispute.Walks

/-!
# Which outputs an execution game is about

Below the split depth the challenger needs a trace of the execution between two outputs.
`NewSplitProviderSelector` (`op-challenger/game/fault/trace/split/split.go`) finds the claims about
them by comparing trace indices, and `CreateLocalContext`
(`op-challenger/game/fault/trace/outputs/split_adapter.go`) hashes them.  The contract finds them by
comparing positions.  In every game that can be reached on chain, the results are the same.
-/

namespace FightNight.Challenger

open FightNight.Except Forest
open List hiding getElem?_eq_some_iff
open Preimage (Hash)
open Dispute (Game GameEnv ClaimData SplitAt OutputsAt)
open Bisection Dispute Claim

/-! ## Reading the contract -/

def decodeClaim (c : ClaimData) (contractIndex : ℕ) : Claim where
  value := c.claim
  position := Position.newPositionFromGIndex c.position
  counteredBy := c.counteredBy
  claimant := c.claimant
  contractIndex := contractIndex
  parentContractIndex := c.parentIndex

def getAllClaims (s : Game) : List Claim := s.claimData.mapIdx fun i c => decodeClaim c i

/-- The game state that the agent works with: `newGameFromContracts`. -/
def newGameFromContracts (env : GameEnv) (s : Game) : GameState :=
  newGameState env.keccak256 (getAllClaims s) env.maxGameDepth

/-! ## Selecting claims -/

def findAncestorAtDepth (game : GameState) (claim : Claim) (depth : ℕ) :
    Except ChallengerError Claim :=
  game.climb (fun c => .ok (decide (c.position.depth ≤ depth))) (game.claims.length + 1) claim

def findAncestorWithTraceIndex (game : GameState) (ref : Claim) (depth traceIdx : ℕ) :
    Except ChallengerError Claim :=
  game.climb (GameState.hasTraceIndex depth traceIdx) (game.claims.length + 1) ref

/-- The part of `NewSplitProviderSelector` that finds the claims before and after the execution game.
The first one is `Claim{}` for an execution game that starts at the anchor. -/
def splitClaims (topDepth : ℕ) (game : GameState) (ref : Claim) (pos : Position) :
    Except ChallengerError (Option Claim × Claim) := do
  let topLeaf ← findAncestorAtDepth game ref topDepth
  let posIdx ← pos.traceIndex pos.depth
  let leafIdx ← topLeaf.position.traceIndex pos.depth
  if leafIdx < posIdx then do
    let preTraceIdx ← topLeaf.position.traceIndex topDepth
    let post ← findAncestorWithTraceIndex game topLeaf topDepth (preTraceIdx + 1)
    pure (some topLeaf, post)
  else do
    let postTraceIdx ← topLeaf.position.traceIndex topDepth
    if postTraceIdx = 0 then pure (none, topLeaf)
    else do
      let pre ← findAncestorWithTraceIndex game topLeaf topDepth (postTraceIdx - 1)
      pure (some pre, topLeaf)

/-- A trace provider: the one of the outputs, or one of an execution game, for positions relative to
its root. -/
inductive Selected (P Q : Type) where
  | top (provider : P)
  | translate (provider : Q) (rootDepth : ℕ)

def newSplitProviderSelector {P Q : Type} (topProvider : P) (topDepth : ℕ)
    (bottomProviderCreator : ℕ → Option Claim → Claim → Except ChallengerError Q)
    (game : GameState) (ref : Claim) (pos : Position) : Except ChallengerError (Selected P Q) :=
  if pos.depth ≤ topDepth then .ok (.top topProvider)
  else do
    revertIf (ref.position.depth < topDepth) .refClaimNotDeepEnough
    let (pre, post) ← splitClaims topDepth game ref pos
    let bottomDepth := (game.depth + (2 ^ 64 - topDepth) + (2 ^ 64 - 1)) % 2 ^ 64
    let provider ← bottomProviderCreator bottomDepth pre post
    pure (.translate provider (topDepth + 1))

/-- `FillBytes` for 32 bytes, which panics when the number does not fit. -/
def fillBytes32 (x : ℕ) : Except ChallengerError Bytes :=
  if x < 2 ^ 256 then .ok (beBytes 32 x) else .error .panic

/-- `encodeClaim` in `localContextPreimage`. -/
def encodeClaim (c : Claim) : Except ChallengerError Bytes := do
  let position ← fillBytes32 c.position.toGIndex
  pure (c.value.1 ++ position)

def localContextPreimage (pre : Option Claim) (post : Claim) : Except ChallengerError Bytes := do
  let preData ← pre.elim (.ok []) encodeClaim
  let postData ← encodeClaim post
  pure (preData ++ postData)

def createLocalContext (keccak256 : Bytes → Hash) (pre : Option Claim) (post : Claim) :
    Except ChallengerError Hash := do
  let preimage ← localContextPreimage pre post
  pure (keccak256 preimage)

/-! ## The claims on and off chain -/

variable {env : GameEnv} {s : Game} {i : ℕ} {c : ClaimData}

lemma getElem?_getAllClaims (s : Game) (i : ℕ) :
    (getAllClaims s)[i]? = s.claimData[i]?.map fun c => decodeClaim c i := by
  rw [getAllClaims, getElem?_mapIdx]

variable {b : Claim} {B : List ClaimData} {A : List Claim} {D idx : ℕ}

lemma mem_getAllClaims (hb : b ∈ getAllClaims s) :
    ∃ i, ∃ c : ClaimData, s.claimData[i]? = some c ∧ b = decodeClaim c i := by
  obtain ⟨i, hi⟩ := getElem?_of_mem hb
  rw [getElem?_getAllClaims, Option.map_eq_some_iff] at hi
  obtain ⟨c, hc, rfl⟩ := hi
  exact ⟨i, c, hc, rfl⟩

/-- What the contract and the challenger both know of a claim: the value, the position and the parent
index. -/
def Claim.view (b : Claim) : Hash × ℕ × ℕ := (b.value, b.gIndex, b.parentContractIndex)

/-- What the contract and the challenger both know of a claim. -/
def chainView (c : ClaimData) : Hash × ℕ × ℕ := (c.claim, c.position, c.parentIndex)

lemma exists_view_mem (hview : A.map view = B.map chainView) {a : ClaimData} (ha : a ∈ B) :
    ∃ b ∈ A, b.value = a.claim ∧ b.gIndex = a.position := by
  have hmem : chainView a ∈ A.map view := hview ▸ mem_map_of_mem ha
  obtain ⟨b, hb, hsame⟩ := mem_map.mp hmem
  simp only [view, chainView, Prod.mk.injEq] at hsame
  exact ⟨b, hb, hsame.1, hsame.2.1⟩

lemma map_position_of_view (hview : A.map view = B.map chainView) :
    A.map gIndex = B.map ClaimData.position := by
  have hmap := congrArg (map fun v => v.2.1) hview
  rwa [map_map, map_map] at hmap

lemma hasTraceIndex_eq (hvalid : b.position.Valid) (hdepth : b.position.depth ≤ D) :
    GameState.hasTraceIndex D idx b = .ok (decide (reach D b.gIndex = idx + 1 + 2 ^ D)) := by
  obtain ⟨t, htrace, ht⟩ := exists_traceIndex hvalid hdepth
  rw [GameState.hasTraceIndex, htrace, ok_bind, ← ht]
  have hiff : t = idx ↔ t + 1 + 2 ^ D = idx + 1 + 2 ^ D := by omega
  simp only [hiff]
  rfl

section

variable (h : Tree env s.claimData)

include h

lemma decodeClaim_position (hc : c ∈ s.claimData) (i : ℕ) :
    (decodeClaim c i).position.Valid ∧ (decodeClaim c i).gIndex = c.position ∧
      (decodeClaim c i).position.depth = c.position.log2 := by
  obtain ⟨hvalid, hidx⟩ := Position.newPositionFromGIndex_eq (h.position hc).1.ne_zero
  exact ⟨hvalid, hidx, hvalid.log2_toGIndex.symm.trans (congrArg Nat.log2 hidx)⟩

lemma linked_getAllClaims : Linked (getAllClaims s) := by
  constructor
  · intro i b hb
    rw [getElem?_getAllClaims, Option.map_eq_some_iff] at hb
    obtain ⟨c, hc, rfl⟩ := hb
    obtain ⟨hvalid, hidx, -⟩ := decodeClaim_position h (mem_of_getElem? hc) i
    rw [isRoot_iff hvalid, hidx]
    constructor
    · intro hone
      by_contra hi
      obtain ⟨p, -, hlog, -⟩ := h.exists_parent hc hi
      rw [hone] at hlog
      exact absurd hlog (Nat.succ_ne_zero _).symm
    · rintro rfl
      obtain ⟨r, hr, -, hpos⟩ := h.root
      rw [Option.some.inj (hc.symm.trans hr), hpos]
  · intro i b hb hi
    rw [getElem?_getAllClaims, Option.map_eq_some_iff] at hb
    obtain ⟨c, hc, rfl⟩ := hb
    exact h.parent_lt hc hi

lemma ancestors_view (i : ℕ) :
    (ancestors (getAllClaims s) i).map view =
      (lineage ClaimData.parentIndex s.claimData i).map chainView := by
  have hviews : (getAllClaims s).map view = s.claimData.map chainView := by
    refine ext_getElem? fun j => ?_
    rw [getElem?_map, getElem?_map, getElem?_getAllClaims]
    cases hc : s.claimData[j]? with
    | none => rfl
    | some c =>
      have hidx := (decodeClaim_position h (mem_of_getElem? hc) j).2.1
      rw [Option.map_some, Option.map_some, view, hidx]
      rfl
  have hread : lineage (fun v => v.2.2) ((getAllClaims s).map view) i =
      (ancestors (getAllClaims s) i).map view := lineage_map (fun _ => rfl) _ i
  have hchain : lineage (fun v => v.2.2) (s.claimData.map chainView) i =
      (lineage ClaimData.parentIndex s.claimData i).map chainView := lineage_map (fun _ => rfl) _ i
  rw [← hread, ← hchain, hviews]

lemma valid_of_mem (hb : b ∈ getAllClaims s) : b.position.Valid := by
  obtain ⟨i, c, hc, rfl⟩ := mem_getAllClaims hb
  exact (decodeClaim_position h (mem_of_getElem? hc) i).1

/-! ## The leaf of the output game -/

lemma ancestors_line (hc : s.claimData[i]? = some c) :
    Line 1 ((ancestors (getAllClaims s) i).map gIndex) := by
  rw [map_position_of_view (ancestors_view h i)]
  exact (h.staged hc).line

/-- The challenger goes up to the same output claim as the contract. -/
theorem findAncestorAtDepth_eq (hc : s.claimData[i]? = some c) {r o : ClaimData}
    {M : List ClaimData} (hsplit : SplitAt env s i r o M) :
    ∃ j b, (getAllClaims s)[j]? = some b ∧ b.value = o.claim ∧ b.gIndex = o.position ∧
      (ancestors (getAllClaims s) j).map view =
        (lineage ClaimData.parentIndex s.claimData r.parentIndex).map chainView ∧
      findAncestorAtDepth (newGameFromContracts env s) (decodeClaim c i) env.splitDepth = .ok b := by
  have hlinked : Linked (newGameFromContracts env s).claims := linked_getAllClaims h
  have hline := ancestors_line h hc
  have hview := ancestors_view h i
  rw [hsplit.line_eq, append_cons, map_append, map_eq_append_iff] at hview
  obtain ⟨A, B, hAB, hA, hB⟩ := hview
  obtain ⟨l, hl, -, -⟩ := h.lineage_cons hsplit.output_eq
  obtain ⟨b, B, rfl⟩ : ∃ b B', B = b :: B' := by
    refine exists_cons_of_ne_nil ?_
    rintro rfl
    rw [hl] at hB
    cases hB
  have hb := hB
  rw [hl, map_cons, map_cons, cons.injEq, view, chainView, Prod.mk.injEq, Prod.mk.injEq] at hb
  have hmem : ∀ a ∈ A ++ b :: B, a ∈ getAllClaims s := fun a ha => mem_of_mem_lineage (hAB ▸ ha)
  have hdepth : ∀ a ∈ A ++ b :: B, a.position.depth = a.gIndex.log2 :=
    fun a ha => (log2_gIndex (valid_of_mem h (hmem a ha))).symm
  have hleaf : decide (b.position.depth ≤ env.splitDepth) = true := by
    rw [hdepth b (by simp), hb.1.2.1, hsplit.output_depth, decide_eq_true_iff]
  -- The claims that are passed on the way are below the split.
  have hbelow : ∀ a ∈ A, decide (a.position.depth ≤ env.splitDepth) = false := by
    intro a ha
    have hB_len : B.length = env.splitDepth := by
      have hlog := (h.line hl).line.log2_eq_length
      rw [length_map, hsplit.output_depth] at hlog
      rw [hlog, ← length_map (f := chainView), ← hb.2, length_map]
    obtain ⟨A₁, A₂, hA₁₂⟩ := append_of_mem ha
    rw [hAB, hA₁₂, append_assoc, cons_append, map_append] at hline
    have hlog := hline.log2_of_append
    rw [length_map, length_append, length_cons] at hlog
    rw [hdepth a (mem_append_left _ ha), decide_eq_false_iff_not]
    omega
  have hi : i < (getAllClaims s).length + 1 := by grind [getAllClaims, length_mapIdx]
  have hfind : (ancestors (getAllClaims s) i).find?
      (fun a => decide (a.position.depth ≤ env.splitDepth)) = some b := by
    have hnone : A.find? (fun a => decide (a.position.depth ≤ env.splitDepth)) = none :=
      find?_eq_none.mpr fun a ha => by rw [hbelow a ha]; decide
    rw [hAB, find?_append, hnone, Option.none_or]
    exact find?_cons_of_pos hleaf
  have hget : (getAllClaims s)[i]? = some (decodeClaim c i) := by
    rw [getElem?_getAllClaims, hc, Option.map_some]
  have htest : ∀ a ∈ ancestors (getAllClaims s) i,
      (fun a : Claim => (.ok (decide (a.position.depth ≤ env.splitDepth)) :
        Except ChallengerError Bool)) a = .ok (decide (a.position.depth ≤ env.splitDepth)) :=
    fun _ _ => rfl
  obtain ⟨j, hj, hdrop, hclimb⟩ := hlinked.climb_eq_ok hget hi htest hfind
  refine ⟨j, b, hj, hb.1.1, hb.1.2.1, ?_, hclimb⟩
  change ancestors (getAllClaims s) j = (ancestors (getAllClaims s) i).dropWhile _ at hdrop
  rw [hdrop, hAB, dropWhile_append_of_pos, dropWhile_cons_of_neg, hB]
  · simp [hleaf]
  · intro a ha
    simp [hbelow a ha]

/-! ## The other output -/

/-- The challenger finds the claim above the leaf that stands for a given output. -/
theorem findAncestorWithTraceIndex_eq {j : ℕ} (hb : (getAllClaims s)[j]? = some b)
    (hdepth : b.position.depth ≤ D) {a : Claim} (ha : a ∈ ancestors (getAllClaims s) j)
    (hreach : reach D a.gIndex = idx + 1 + 2 ^ D) :
    findAncestorWithTraceIndex (newGameFromContracts env s) b D idx = .ok a := by
  have hlinked : Linked (newGameFromContracts env s).claims := linked_getAllClaims h
  obtain ⟨i, c, hc, rfl⟩ := mem_getAllClaims (mem_of_getElem? hb)
  have hj : j = i := by
    rw [getElem?_getAllClaims, Option.map_eq_some_iff] at hb
    obtain ⟨d, -, hd⟩ := hb
    exact congrArg contractIndex hd
  subst hj
  have hline := ancestors_line h hc
  obtain ⟨l, hl⟩ : ∃ l, ancestors (getAllClaims s) j = decodeClaim c j :: l :=
    ⟨_, hlinked.ancestors_cons hb⟩
  rw [hl] at hline
  have hmem : ∀ y ∈ decodeClaim c j :: l, y ∈ getAllClaims s :=
    fun y hy => mem_of_mem_lineage (hl ▸ hy)
  have htop : (decodeClaim c j).gIndex.log2 ≤ D := by
    rwa [log2_gIndex (valid_of_mem h (hmem _ mem_cons_self))]
  have hle : ∀ y ∈ decodeClaim c j :: l, y.position.depth ≤ D := by
    intro y hy
    rw [← log2_gIndex (valid_of_mem h (hmem y hy))]
    refine le_trans (hline.log2_le _ ?_) htop
    exact mem_map_of_mem hy
  have hfind : (ancestors (getAllClaims s) j).find?
      (fun y => decide (reach D y.gIndex = idx + 1 + 2 ^ D)) = some a := by
    rw [hl] at ha ⊢
    refine hline.find?_eq one_pos htop ha fun y _ => ?_
    rw [decide_eq_true_iff, hreach]
  have hj : j < (getAllClaims s).length := (getElem?_eq_some_iff.mp hb).1
  have htest : ∀ y ∈ ancestors (getAllClaims s) j, GameState.hasTraceIndex D idx y =
      .ok (decide (reach D y.gIndex = idx + 1 + 2 ^ D)) := by
    intro y hy
    rw [hl] at hy
    exact hasTraceIndex_eq (valid_of_mem h (hmem y hy)) (hle y hy)
  obtain ⟨-, -, -, hclimb⟩ := hlinked.climb_eq_ok hb (Nat.lt_succ_of_lt hj) htest hfind
  exact hclimb

/-! ## Agreement -/

/-- The claims that the challenger selects are those that the contract returns, with no first one when
the contract falls back to the anchor. -/
structure SplitAgrees (s : Game) (outputs : Game.Outputs) (pre : Option Claim) (post : Claim) :
    Prop where
  post_mem : post ∈ getAllClaims s
  post_value : post.value = outputs.disputedClaim
  post_position : post.position.toGIndex = outputs.disputedPos
  pre_some : ∀ p, pre = some p → p ∈ getAllClaims s ∧ p.value = outputs.startingClaim ∧
    p.position.toGIndex = outputs.startingPos
  pre_none_iff : pre = none ↔ outputs.startingPos = 0
  anchor : pre = none → outputs.startingClaim = s.startingOutputRoot.root

lemma splitClaims_eq (hc : s.claimData[i]? = some c) (hdepth : env.splitDepth < c.position.log2) :
    ∃ outputs pre post, s.findStartingAndDisputedOutputs env i = .ok outputs ∧
      SplitAgrees s outputs pre post ∧
      splitClaims env.splitDepth (newGameFromContracts env s) (decodeClaim c i)
        (decodeClaim c i).position = .ok (pre, post) := by
  obtain ⟨r, o, M, outputs, hsplit, hout, hfind⟩ := h.findStartingAndDisputedOutputs hc hdepth
  obtain ⟨j, b, hj, hvalue, hidx, hview, hleaf⟩ := findAncestorAtDepth_eq h hc hsplit
  have hb : b ∈ getAllClaims s := mem_of_getElem? hj
  have hbvalid := valid_of_mem h hb
  have hbdepth : b.position.depth = env.splitDepth := by
    rw [← log2_gIndex hbvalid, hidx, hsplit.output_depth]
  obtain ⟨hcvalid, hcindex, hcdepth⟩ := decodeClaim_position h (mem_of_getElem? hc) i
  obtain ⟨hattack_le, hdefend_lt⟩ := hsplit.reach_output h hc hdepth
  obtain ⟨t, htrace, ht⟩ := exists_traceIndex hbvalid (le_of_eq hbdepth)
  obtain ⟨posIdx, hpos, hposIdx⟩ := exists_traceIndex hcvalid (le_refl _)
  obtain ⟨leafIdx, hleafTrace, hleafIdx⟩ := exists_traceIndex hbvalid
    (D := (decodeClaim c i).position.depth) (by omega)
  rw [hidx, ← hsplit.output_depth] at ht
  rw [hcindex, hcdepth, reach_self] at hposIdx
  rw [hidx, hcdepth] at hleafIdx
  obtain ⟨-, -, -, hstart⟩ := h.outputs_reach hc hdepth hfind
  have hself : reach env.splitDepth o.position = o.position + 1 := by
    rw [← hsplit.output_depth, reach_self]
  rw [hsplit.output_depth] at ht
  rw [splitClaims, hleaf, ok_bind, hpos, ok_bind, hleafTrace, ok_bind, htrace, ok_bind, ok_bind]
  cases hout with
  | anchor hatk hfirst =>
    rw [hsplit.output_depth] at hfirst
    rw [if_neg (by omega), if_pos (by omega)]
    refine ⟨_, none, b, hfind, ⟨hb, hvalue, hidx, fun p hp => (nomatch hp), ?_, fun _ => rfl⟩, rfl⟩
    exact iff_of_true rfl rfl
  | @attack a hatk ha hreach =>
    obtain ⟨g, hg, hgvalue, hgidx⟩ := exists_view_mem hview ha
    have hane := (h.position (mem_of_mem_lineage ha)).1.ne_zero
    have hfloor := two_pow_lt_reach hane (hstart hane).1
    have hgreach : reach env.splitDepth g.gIndex = t - 1 + 1 + 2 ^ env.splitDepth := by
      rw [hgidx]
      omega
    have hsearch := findAncestorWithTraceIndex_eq h hj (le_of_eq hbdepth) hg hgreach
    rw [if_neg (by omega), if_neg (by omega), hsearch]
    refine ⟨_, some g, b, hfind, ⟨hb, hvalue, hidx, ?_, ?_, nofun⟩, rfl⟩
    · rintro p ⟨⟩
      exact ⟨mem_of_mem_lineage hg, hgvalue, hgidx⟩
    · exact iff_of_false (by simp) hane
  | @defend a hdef ha hreach =>
    obtain ⟨g, hg, hgvalue, hgidx⟩ := exists_view_mem hview ha
    have hgreach : reach env.splitDepth g.gIndex = t + 1 + 1 + 2 ^ env.splitDepth := by
      rw [hgidx]
      omega
    have hsearch := findAncestorWithTraceIndex_eq h hj (le_of_eq hbdepth) hg hgreach
    rw [if_pos (by omega), hsearch]
    refine ⟨_, some b, g, hfind, ⟨mem_of_mem_lineage hg, hgvalue, hgidx, ?_, ?_, nofun⟩, rfl⟩
    · rintro p ⟨⟩
      exact ⟨hb, hvalue, hidx⟩
    · exact iff_of_false (by simp) (h.position (mem_of_getElem? hsplit.output_eq)).1.ne_zero

/-- The local context of the challenger is the one of the contract. -/
theorem SplitAgrees.createLocalContext {outputs : Game.Outputs} {pre : Option Claim}
    {post : Claim} (hagr : SplitAgrees s outputs pre post) :
    createLocalContext env.keccak256 pre post = .ok (Game.computeLocalContext env outputs) := by
  have henc : ∀ {b : Claim}, b ∈ getAllClaims s →
      encodeClaim b = .ok (b.value.1 ++ beBytes 32 b.position.toGIndex) := by
    intro b hb
    obtain ⟨i, c, hc, rfl⟩ := mem_getAllClaims hb
    have hidx := (decodeClaim_position h (mem_of_getElem? hc) i).2.1
    have hlt := (h.position (mem_of_getElem? hc)).2
    have hfits : (decodeClaim c i).position.toGIndex < 2 ^ 256 := by
      rw [show (decodeClaim c i).position.toGIndex = c.position from hidx]
      exact lt_trans hlt (by decide)
    rw [encodeClaim, fillBytes32, if_pos hfits]
    rfl
  rw [Challenger.createLocalContext, localContextPreimage, henc hagr.post_mem,
    hagr.post_value, hagr.post_position, Game.computeLocalContext]
  cases pre with
  | none =>
    rw [if_pos (hagr.pre_none_iff.mp rfl)]
    rfl
  | some p =>
    obtain ⟨hp, hvalue, hposition⟩ := hagr.pre_some p rfl
    have hpos : outputs.startingPos ≠ 0 := fun h0 => nomatch hagr.pre_none_iff.mpr h0
    rw [if_neg hpos, Option.elim_some, henc hp, hvalue, hposition]
    simp only [ok_bind, append_assoc]
    rfl

/-- The selector creates the provider for the claims that the contract finds. -/
theorem newSplitProviderSelector_eq (hc : s.claimData[i]? = some c)
    (hdepth : env.splitDepth < c.position.log2) :
    ∃ outputs pre post, s.findStartingAndDisputedOutputs env i = .ok outputs ∧
      SplitAgrees s outputs pre post ∧
      ∀ {P Q : Type} (topProvider : P)
        (creator : ℕ → Option Claim → Claim → Except ChallengerError Q),
        newSplitProviderSelector topProvider env.splitDepth creator (newGameFromContracts env s)
          (decodeClaim c i) (decodeClaim c i).position =
            (creator (env.maxGameDepth - env.splitDepth - 1) pre post).map
              fun provider => .translate provider (env.splitDepth + 1) := by
  obtain ⟨outputs, pre, post, hfind, hagr, hsplit⟩ := splitClaims_eq h hc hdepth
  refine ⟨outputs, pre, post, hfind, hagr, fun topProvider creator => ?_⟩
  have hpos := (decodeClaim_position h (mem_of_getElem? hc) i).2.2
  have hbot : ((newGameFromContracts env s).depth + (2 ^ 64 - env.splitDepth) + (2 ^ 64 - 1)) %
      2 ^ 64 = env.maxGameDepth - env.splitDepth - 1 := by
    have hmax : env.maxGameDepth ≤ 125 := env.maxGameDepth_le
    have hlt := env.splitDepth_lt
    change (env.maxGameDepth + (2 ^ 64 - env.splitDepth) + (2 ^ 64 - 1)) % 2 ^ 64 = _
    omega
  rw [newSplitProviderSelector, if_neg (by omega), revertIf_bind (by omega), hsplit, ok_bind]
  simp only [hbot]
  cases creator (env.maxGameDepth - env.splitDepth - 1) pre post <;> rfl

end

/-- Split selection agrees with the contract: for a claim below the split and its own position, the
challenger finds the claims that the contract finds, and their local context. -/
theorem split_selection_agrees (hs : Game.Reachable env s) (hc : s.claimData[i]? = some c)
    (hdepth : env.splitDepth < LibPosition.depth c.position) :
    ∃ outputs pre post, s.findStartingAndDisputedOutputs env i = .ok outputs ∧
      SplitAgrees s outputs pre post ∧
      createLocalContext env.keccak256 pre post = .ok (Game.computeLocalContext env outputs) ∧
      ∀ {P Q : Type} (topProvider : P)
        (creator : ℕ → Option Claim → Claim → Except ChallengerError Q),
        newSplitProviderSelector topProvider env.splitDepth creator (newGameFromContracts env s)
          (decodeClaim c i) (decodeClaim c i).position =
            (creator (env.maxGameDepth - env.splitDepth - 1) pre post).map
              fun provider => .translate provider (env.splitDepth + 1) := by
  have htree := hs.grown.tree
  rw [htree.depth_eq (mem_of_getElem? hc)] at hdepth
  obtain ⟨outputs, pre, post, hfind, hagr, hselect⟩ := newSplitProviderSelector_eq htree hc hdepth
  exact ⟨outputs, pre, post, hfind, hagr, hagr.createLocalContext htree, hselect⟩

/-- The outputs behind the last claim of a game with three attacks. -/
theorem split_selection_agrees_sample :
    ∃ c, walkGame.claimData[3]? = some c ∧ ∃ outputs pre post,
      walkGame.findStartingAndDisputedOutputs walkEnv 3 = .ok outputs ∧
      SplitAgrees walkGame outputs pre post ∧
      createLocalContext walkEnv.keccak256 pre post =
        .ok (Game.computeLocalContext walkEnv outputs) := by
  obtain ⟨c, hc, hpos, -⟩ := walkGame_claim
  have hdepth : walkEnv.splitDepth < LibPosition.depth c.position := by
    rw [hpos]
    decide
  obtain ⟨outputs, pre, post, hfind, hagr, hctx, -⟩ :=
    split_selection_agrees walkGame_reachable hc hdepth
  exact ⟨c, hc, outputs, pre, post, hfind, hagr, hctx⟩

end FightNight.Challenger
