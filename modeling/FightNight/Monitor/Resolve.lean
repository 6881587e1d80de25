import Mathlib.Data.ZMod.Defs
import FightNight.Challenger.Types
import FightNight.Library.Counters

/-!
# How the monitor resolves a game

`CreateBidirectionalTree` (`op-dispute-mon/mon/transform/tree.go`) gives each claim the list of its
children, and `Resolve` (`op-dispute-mon/mon/resolve.go`) goes through the claims from the last one to
the first one: a claim is countered by the leftmost of its children that is not countered.  The pointer
to a claim is its place in the list of claims.
-/

namespace FightNight.Monitor

open Option Forest Function
open List hiding getElem?_eq_some_iff
open Challenger (Claim ChallengerError Linked)

inductive GameStatus where
  | inProgress
  | challengerWon
  | defenderWon
  deriving DecidableEq

structure BidirectionalClaim where
  claim : Claim
  children : List ℕ
  deriving DecidableEq

/-! ## The tree -/

/-- What `CreateBidirectionalTree` builds: the claims so far, and where the claim with a given index
is. -/
structure TreeBuilder where
  claimMap : ℕ → Option ℕ
  res : List BidirectionalClaim

/-- One round of the loop of `CreateBidirectionalTree`.  A parent that is not in the map is a nil
pointer. -/
def TreeBuilder.add (b : TreeBuilder) (claim : Claim) : Except ChallengerError TreeBuilder :=
  let claimMap := update b.claimMap claim.contractIndex (some b.res.length)
  let res := b.res ++ [⟨claim, []⟩]
  if claim.isRoot = true then .ok ⟨claimMap, res⟩
  else
    match claimMap claim.parentContractIndex with
    | none => .error .panic
    | some parent =>
      .ok ⟨claimMap, res.modify parent fun p => { p with children := p.children ++ [b.res.length] }⟩

def createBidirectionalTree (claims : List Claim) : Except ChallengerError (List BidirectionalClaim) :=
  (claims.foldlM TreeBuilder.add ⟨fun _ => none, []⟩).map TreeBuilder.res

/-! ## Resolution -/

/-- One round of the inner loop of `Resolve`: the counter so far, and the index of the leftmost child
so far. -/
def visitChild (tree : List BidirectionalClaim) (acc : Address × Option ℕ) (child : ℕ) :
    Address × Option ℕ :=
  match tree[child]? with
  | none => acc
  | some child =>
    if child.claim.counteredBy ≠ 0 then acc
    else if ∀ leftmostCounter ∈ acc.2, child.claim.position.indexAtDepth < leftmostCounter then
      (child.claim.claimant, some child.claim.position.indexAtDepth)
    else acc

/-- The claim with the counter that the inner loop of `Resolve` finds. -/
def BidirectionalClaim.countered (tree : List BidirectionalClaim) (c : BidirectionalClaim) :
    BidirectionalClaim :=
  { c with claim := { c.claim with
    counteredBy := (c.children.foldl (visitChild tree) (c.claim.counteredBy, none)).1 } }

/-- One round of the outer loop of `Resolve`. -/
def resolveAt (tree : List BidirectionalClaim) (i : ℕ) : List BidirectionalClaim :=
  tree.modify i (BidirectionalClaim.countered tree)

/-- The outer loop of `Resolve`, from the claim before a given one to the first one. -/
def resolveBelow : ℕ → List BidirectionalClaim → List BidirectionalClaim
  | 0, tree => tree
  | i + 1, tree => resolveBelow i (resolveAt tree i)

/-- `Resolve`: the status, and the tree with the counters it leaves there. -/
def resolve (tree : List BidirectionalClaim) : GameStatus × List BidirectionalClaim :=
  let tree := resolveBelow tree.length tree
  match tree[0]? with
  | none => (.defenderWon, tree)
  | some root => (if root.claim.counteredBy = 0 then .defenderWon else .challengerWon, tree)

/-! ## The tree of linked claims -/

variable {claims : List Claim}

/-- Each claim with the list of its children. -/
def withChildren (claims : List Claim) : List BidirectionalClaim :=
  claims.mapIdx fun i c => ⟨c, children Claim.parentContractIndex claims i⟩

lemma getElem?_withChildren (claims : List Claim) (i : ℕ) :
    (withChildren claims)[i]? = claims[i]?.map fun c =>
      ⟨c, children Claim.parentContractIndex claims i⟩ := by
  rw [withChildren, getElem?_mapIdx]

lemma withChildren_concat {c : Claim} (h : Linked (claims ++ [c])) (hne : claims ≠ []) :
    withChildren (claims ++ [c]) = modify (withChildren claims ++ [⟨c, []⟩]) c.parentContractIndex
        fun p => { p with children := p.children ++ [claims.length] } := by
  have hlen : (withChildren claims).length = claims.length := length_mapIdx
  have hpos : claims.length ≠ 0 := fun h0 => hne (length_eq_zero_iff.mp h0)
  have hpar : c.parentContractIndex < claims.length := h.parent_lt (getElem?_concat_length ..) hpos
  apply ext_getElem?
  intro i
  rw [getElem?_withChildren, getElem?_modify, children_concat hne]
  rcases lt_trichotomy i claims.length with hi | rfl | hi
  · rw [getElem?_append_left hi, getElem?_append_left (by omega), getElem?_withChildren,
      getElem?_eq_getElem hi]
    by_cases hp : c.parentContractIndex = i <;> simp [hp]
  · -- The claims before the new one do not refer to it.
    have hnone : children Claim.parentContractIndex claims claims.length = [] := by
      rw [eq_nil_iff_forall_not_mem]
      intro j hj
      obtain ⟨hj0, d, hd, hdparent⟩ := mem_children.mp hj
      have hlt := (getElem?_eq_some_iff.mp hd).1
      have := h.parent_lt ((getElem?_append_left hlt).trans hd) hj0
      omega
    rw [← hlen, getElem?_concat_length, hlen, hnone]
    simp [ne_of_lt hpar]
  · have hnone : ∀ {α : Type} {l : List α} {x : α}, l.length = claims.length → (l ++ [x])[i]? = none :=
      fun hl => getElem?_eq_none (by rw [length_append, hl]; exact hi)
    rw [hnone rfl, hnone hlen]
    rfl

lemma Linked.of_append {claims' : List Claim} (h : Linked (claims ++ claims')) : Linked claims := by
  have hget : ∀ {i c}, claims[i]? = some c → (claims ++ claims')[i]? = some c :=
    fun hc => (getElem?_append_left (getElem?_eq_some_iff.mp hc).1).trans hc
  exact ⟨fun hc => h.isRoot_iff (hget hc), fun hc => h.parent_lt (hget hc)⟩

/-- The claims of a game have their places as indices. -/
def Indexed (claims : List Claim) : Prop :=
  ∀ (i : ℕ) (c : Claim), claims[i]? = some c → c.contractIndex = i

lemma foldlM_add (h : Linked claims) (hindexed : Indexed claims) :
    claims.foldlM TreeBuilder.add ⟨fun _ => none, []⟩ =
      .ok ⟨fun i => if i < claims.length then some i else none, withChildren claims⟩ := by
  induction claims using reverseRecOn with
  | nil => rfl
  | append_singleton claims c ih =>
    have hget : (claims ++ [c])[claims.length]? = some c := getElem?_concat_length ..
    have hpre : Indexed claims := fun _ _ hd =>
      hindexed _ _ ((getElem?_append_left (getElem?_eq_some_iff.mp hd).1).trans hd)
    have hlen : (withChildren claims).length = claims.length := length_mapIdx
    have hmap : update (fun i => if i < claims.length then some i else none) claims.length
        (some claims.length) = fun i => if i < (claims ++ [c]).length then some i else none := by
      funext i
      rw [update_apply, length_append, length_singleton]
      by_cases hi : i = claims.length
      · simp [hi]
      · grind
    rw [foldlM_append, ih (Linked.of_append h) hpre, Except.ok_bind, foldlM_cons]
    simp only [foldlM_nil, bind_pure, TreeBuilder.add, hindexed _ _ hget, hlen, hmap]
    by_cases hroot : claims.length = 0
    · obtain rfl := length_eq_zero_iff.mp hroot
      rw [if_pos ((h.isRoot_iff hget).mpr rfl)]
      rfl
    · have hpar : c.parentContractIndex < (claims ++ [c]).length := by
        have := h.parent_lt hget hroot
        rw [length_append]
        omega
      rw [if_neg fun hr => hroot ((h.isRoot_iff hget).mp hr), if_pos hpar]
      rw [withChildren_concat h fun hnil => hroot (length_eq_zero_iff.mpr hnil)]

/-! ## The counters -/

/-- The counter of a claim, and nobody for a claim that does not exist. -/
def counterAt (tree : List BidirectionalClaim) (i : ℕ) : Address :=
  tree[i]?.elim 0 fun c => c.claim.counteredBy

def claimantAt (tree : List BidirectionalClaim) (i : ℕ) : Address :=
  tree[i]?.elim 0 fun c => c.claim.claimant

def childrenAt (tree : List BidirectionalClaim) (i : ℕ) : List ℕ :=
  tree[i]?.elim [] fun c => c.children

def indexAt (tree : List BidirectionalClaim) (i : ℕ) : ℕ :=
  tree[i]?.elim 0 fun c => c.claim.position.indexAtDepth

/-- What the resolution leaves as it is. -/
def BidirectionalClaim.core (c : BidirectionalClaim) : BidirectionalClaim :=
  { c with claim := { c.claim with counteredBy := 0 } }

variable {tree tree' : List BidirectionalClaim} {i : ℕ}

lemma eq_of_core_eq (h : tree'.map BidirectionalClaim.core = tree.map BidirectionalClaim.core) :
    claimantAt tree' = claimantAt tree ∧ childrenAt tree' = childrenAt tree ∧
      indexAt tree' = indexAt tree := by
  have hget : ∀ {β : Type} (d : β) (f : BidirectionalClaim → β), (∀ c, f c.core = f c) → ∀ i : ℕ,
      tree'[i]?.elim d f = tree[i]?.elim d f := by
    intro β d f hf i
    have hi := congrArg (fun l => l[i]?.elim d f) h
    simp only [getElem?_map, elim_map] at hi
    simpa only [comp_def, hf] using hi
  exact ⟨funext (hget _ _ fun _ => rfl), funext (hget _ _ fun _ => rfl),
    funext (hget _ _ fun _ => rfl)⟩

/-- The inner loop finds the leftmost child that is not countered. -/
theorem foldl_visitChild {children : List ℕ} (hchild : ∀ j ∈ children, j < tree.length)
    (a : Address) :
    (children.foldl (visitChild tree) (a, none)).1 =
      ((Counters.leftmost (indexAt tree) (counterAt tree) children).map (claimantAt tree)).getD a := by
  have hvisit : ∀ best : Option ℕ, (∀ k ∈ best, k ∈ [] ++ children) → ∀ j ∈ children,
      visitChild tree ((best.map (claimantAt tree)).getD a, best.map (indexAt tree)) j =
        (fun best => ((best.map (claimantAt tree)).getD a, best.map (indexAt tree)))
          (if counterAt tree j = 0 ∧ ∀ k ∈ best, indexAt tree j < indexAt tree k then some j
            else best) := by
    intro best _ j hj
    have hlt := hchild j hj
    have hget := getElem?_eq_getElem hlt
    have hctr : counterAt tree j = tree[j].claim.counteredBy := by
      rw [counterAt, hget, elim_some]
    have hidx : indexAt tree j = tree[j].claim.position.indexAtDepth := by
      rw [indexAt, hget, elim_some]
    have hclm : claimantAt tree j = tree[j].claim.claimant := by
      rw [claimantAt, hget, elim_some]
    rw [visitChild, hget]
    dsimp only
    rw [← hctr, ← hidx, ← hclm]
    by_cases hopen : counterAt tree j = 0
    · by_cases hleft : ∀ k ∈ best, indexAt tree j < indexAt tree k
      · rw [if_neg (not_not.mpr hopen), if_pos (by simpa using hleft), if_pos ⟨hopen, hleft⟩]
        rfl
      · rw [if_neg (not_not.mpr hopen), if_neg (by simpa using hleft), if_neg fun h => hleft h.2]
    · grind
  exact congrArg Prod.fst (Counters.foldl_leftmost _ (visitChild tree) [] children hvisit)

lemma getElem?_resolveAt (tree : List BidirectionalClaim) (i j : ℕ) :
    (resolveAt tree i)[j]? =
      if i = j then tree[j]?.map (BidirectionalClaim.countered tree) else tree[j]? := by
  rw [resolveAt, getElem?_modify]
  split
  · rfl
  · exact map_id'

lemma resolveAt_spec (hi : i < tree.length) (hchild : ∀ j ∈ childrenAt tree i, j < tree.length) :
    (resolveAt tree i).map BidirectionalClaim.core = tree.map BidirectionalClaim.core ∧
      (∀ j, j ≠ i → (resolveAt tree i)[j]? = tree[j]?) ∧
      counterAt (resolveAt tree i) i =
        ((Counters.leftmost (indexAt tree) (counterAt tree) (childrenAt tree i)).map
          (claimantAt tree)).getD (counterAt tree i) := by
  have hget := getElem?_eq_getElem hi
  refine ⟨?_, ?_, ?_⟩
  · apply ext_getElem?
    intro j
    rw [getElem?_map, getElem?_map, getElem?_resolveAt]
    split
    · exact map_map ..
    · rfl
  · grind [getElem?_resolveAt]
  · rw [← foldl_visitChild hchild, counterAt, getElem?_resolveAt, if_pos rfl, childrenAt, counterAt,
      hget, elim_some]
    rfl

/-- The outer loop settles the claims it visits and leaves the other ones. -/
theorem resolveBelow_spec {n : ℕ} (hn : n ≤ tree.length)
    (hchild : ∀ i, ∀ j ∈ childrenAt tree i, i < j ∧ j < tree.length) :
    (resolveBelow n tree).map BidirectionalClaim.core = tree.map BidirectionalClaim.core ∧
      (∀ j, n ≤ j → (resolveBelow n tree)[j]? = tree[j]?) ∧
      ∀ i < n, counterAt (resolveBelow n tree) i =
        ((Counters.leftmost (indexAt tree) (counterAt (resolveBelow n tree)) (childrenAt tree i)).map
          (claimantAt tree)).getD (counterAt tree i) := by
  induction n generalizing tree with
  | zero => exact ⟨rfl, fun _ _ => rfl, fun i hi => absurd hi (Nat.not_lt_zero i)⟩
  | succ n ih =>
    obtain ⟨hcore, hother, hset⟩ := resolveAt_spec hn fun j hj => (hchild n j hj).2
    obtain ⟨hclm, hsame, hidx⟩ := eq_of_core_eq hcore
    have hlen : (resolveAt tree n).length = tree.length := length_modify ..
    have hchildren' : ∀ i, ∀ j ∈ childrenAt (resolveAt tree n) i,
        i < j ∧ j < (resolveAt tree n).length := by
      rwa [hsame, hlen]
    obtain ⟨hcore', hother', hbelow⟩ := ih (by omega) hchildren'
    have hlater : ∀ j, n < j → (resolveBelow n (resolveAt tree n))[j]? = tree[j]? :=
      fun j hj => (hother' j (by omega)).trans (hother j (by omega))
    rw [resolveBelow]
    refine ⟨hcore'.trans hcore, fun j hj => hlater j hj, fun i hi => ?_⟩
    rcases Nat.lt_succ_iff_lt_or_eq.mp hi with hi | rfl
    · have hinitial : counterAt (resolveAt tree n) i = counterAt tree i := by grind [counterAt]
      have := hbelow i hi
      rwa [hclm, hsame, hidx, hinitial] at this
    · -- The children come later, so they keep the counters with which this claim was settled.
      have hkept : ∀ j ∈ childrenAt tree i,
          counterAt tree j = counterAt (resolveBelow i (resolveAt tree i)) j := by grind [counterAt]
      rw [counterAt, hother' i (le_refl i), ← counterAt, hset, Counters.leftmost_congr hkept]

lemma resolve_snd (tree : List BidirectionalClaim) :
    (resolve tree).2 = resolveBelow tree.length tree := by
  rw [resolve]
  split <;> rfl

lemma length_resolve (tree : List BidirectionalClaim) : (resolve tree).2.length = tree.length := by
  have hbelow : ∀ n (tree : List BidirectionalClaim), (resolveBelow n tree).length = tree.length := by
    intro n
    induction n with
    | zero => exact fun _ => rfl
    | succ n ih => exact fun tree => (ih _).trans (length_modify ..)
  rw [resolve_snd, hbelow]

lemma resolve_fst (tree : List BidirectionalClaim) :
    (resolve tree).1 = if counterAt (resolve tree).2 0 = 0 then .defenderWon else .challengerWon := by
  rw [resolve, counterAt]
  split
  · rename_i hnone
    rw [hnone]
    rfl
  · rename_i root hroot
    rw [hroot, elim_some]

end FightNight.Monitor
