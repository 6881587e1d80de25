import Mathlib.Data.Nat.Bitwise
import FightNight.Contracts.Basic
import FightNight.Library.Bisection
import FightNight.Library.Forest
import FightNight.Preimage.Keccak

/-!
# Positions, claims and games of the challenger

The package `op-challenger/game/fault/types`: a position is a depth, of 64 bits, and an index at
this depth, a claim has its place in the contract and the one of its parent, and a game state is
the list of claims with their identifiers.  The hash function of the identifiers is a parameter.

Each operation on positions is followed by what it does to the number of the node in the tree,
which is how the contract represents a position.
-/

namespace FightNight.Challenger

open Function
open List hiding getElem?_eq_some_iff
open Preimage (Hash)
open Bisection

/-- What stops the challenger: the errors of the code, a panic, and a loop that does not end. -/
inductive ChallengerError where
  | panic
  | stuck
  | claimNotFound
  | refClaimNotDeepEnough
  | indexTooBig
  | unavailable
  | invalidPrestate
  | gameDepthReached
  | stepNonLeafNode
  | positionDepthTooSmall
  deriving DecidableEq

/-! ## Positions -/

structure Position where
  depth : ℕ
  indexAtDepth : ℕ
  deriving DecidableEq

namespace Position

def bigMSB (x : ℕ) : ℕ := if x = 0 then 0 else x.log2

/-- `NewPositionFromGIndex`: the highest bit is the depth, the other ones are the index. -/
def newPositionFromGIndex (x : ℕ) : Position where
  depth := bigMSB x
  indexAtDepth := Nat.ldiff x (1 <<< bigMSB x)

def rootPosition : Position := newPositionFromGIndex 1

def moveRight (p : Position) : Position := { p with indexAtDepth := p.indexAtDepth + 1 }

def isRootPosition (p : Position) : Bool := p.depth = 0 ∧ p.indexAtDepth = 0

/-- `TraceIndex`, which panics when the position is too deep. -/
def traceIndex (p : Position) (maxDepth : ℕ) : Except ChallengerError ℕ :=
  if maxDepth < p.depth then .error .panic
  else
    let rd := maxDepth - p.depth
    .ok (p.indexAtDepth <<< rd ||| (1 <<< rd - 1))

def move (p : Position) (right : Bool) : Position where
  depth := (p.depth + 1) % 2 ^ 64
  indexAtDepth := p.indexAtDepth <<< 1 ||| right.toNat

def rightOf (p parent : Position) : Bool := p.indexAtDepth / 2 ≠ parent.indexAtDepth

def parent (p : Position) : Position where
  depth := (p.depth + (2 ^ 64 - 1)) % 2 ^ 64
  indexAtDepth := p.indexAtDepth / 2

def attack (p : Position) : Position := p.move false

def defend (p : Position) : Position := (p.parent.move true).move false

def toGIndex (p : Position) : ℕ := 1 <<< p.depth ||| p.indexAtDepth

/-- A position of the tree: the index exists at its depth. -/
def Valid (p : Position) : Prop := p.indexAtDepth < 2 ^ p.depth

variable {p : Position}

lemma Valid.toGIndex_eq (h : p.Valid) : p.toGIndex = 2 ^ p.depth + p.indexAtDepth := by
  rw [toGIndex, ← Nat.shiftLeft_add_eq_or_of_lt h, Nat.shiftLeft_eq, one_mul]

lemma Valid.toGIndex_ne_zero (h : p.Valid) : p.toGIndex ≠ 0 := by
  have := Nat.two_pow_pos p.depth
  rw [h.toGIndex_eq]
  omega

lemma Valid.log2_toGIndex (h : p.Valid) : p.toGIndex.log2 = p.depth := by
  rw [Nat.log2_eq_iff h.toGIndex_ne_zero, h.toGIndex_eq]
  have : p.indexAtDepth < 2 ^ p.depth := h
  omega

lemma ldiff_two_pow {d r : ℕ} (hr : r < 2 ^ d) : Nat.ldiff (2 ^ d + r) (2 ^ d) = r := by
  have hor := Nat.two_pow_add_eq_or_of_lt hr 1
  rw [mul_one] at hor
  apply Nat.eq_of_testBit_eq
  intro i
  rw [Nat.testBit_ldiff, hor, Nat.testBit_or]
  by_cases hi : d = i
  · rw [← hi, Nat.testBit_lt_two_pow hr]
    simp
  · simp [hi]

lemma newPositionFromGIndex_eq {x : ℕ} (hx : x ≠ 0) :
    (newPositionFromGIndex x).Valid ∧ (newPositionFromGIndex x).toGIndex = x := by
  have hlow := Nat.log2_self_le hx
  have hlt : x - 2 ^ x.log2 < 2 ^ x.log2 := by
    have := Nat.lt_log2_self (n := x)
    omega
  have hidx : Nat.ldiff x (1 <<< x.log2) = x - 2 ^ x.log2 := by
    have hdiff := ldiff_two_pow hlt
    rw [Nat.add_sub_cancel' hlow] at hdiff
    rw [Nat.shiftLeft_eq, one_mul, hdiff]
  have hvalid : (newPositionFromGIndex x).Valid := by
    rwa [newPositionFromGIndex, bigMSB, if_neg hx, hidx]
  refine ⟨hvalid, ?_⟩
  rw [hvalid.toGIndex_eq, newPositionFromGIndex, bigMSB, if_neg hx, hidx]
  exact Nat.add_sub_cancel' hlow

lemma Valid.traceIndex_eq_ok (h : p.Valid) {D t : ℕ} :
    p.traceIndex D = .ok t ↔ p.depth ≤ D ∧ t + 1 + 2 ^ D = reach D p.toGIndex := by
  by_cases hD : D < p.depth
  · grind [traceIndex]
  · have hle : p.depth ≤ D := le_of_not_gt hD
    have hpow := Nat.two_pow_pos (D - p.depth)
    have hsum : 2 ^ D = 2 ^ p.depth * 2 ^ (D - p.depth) := by
      rw [← pow_add, Nat.add_sub_cancel' hle]
    have hreach : reach D p.toGIndex =
        p.indexAtDepth * 2 ^ (D - p.depth) + 2 ^ (D - p.depth) + 2 ^ D := by
      rw [reach, h.log2_toGIndex, h.toGIndex_eq, hsum]
      ring
    rw [traceIndex, if_neg hD]
    dsimp only
    rw [Nat.shiftLeft_eq 1, one_mul, ← Nat.shiftLeft_add_eq_or_of_lt (Nat.sub_lt hpow Nat.one_pos),
      Except.ok.injEq]
    omega

lemma Valid.isRootPosition_iff (h : p.Valid) : p.isRootPosition = true ↔ p.toGIndex = 1 := by
  rw [isRootPosition, decide_eq_true_iff, h.toGIndex_eq]
  constructor
  · rintro ⟨hdepth, hzero⟩
    rw [hdepth, hzero, pow_zero]
  · intro hone
    have hdepth : p.depth = 0 := by
      by_contra hne
      have := Nat.one_lt_two_pow hne
      omega
    rw [hdepth] at hone
    exact ⟨hdepth, by omega⟩

lemma Valid.attack (h : p.Valid) (hdepth : p.depth < 2 ^ 63) :
    p.attack.Valid ∧ p.attack.depth = p.depth + 1 ∧ p.attack.toGIndex = 2 * p.toGIndex := by
  have hidx : p.indexAtDepth < 2 ^ p.depth := h
  have hd : p.attack.depth = p.depth + 1 := Nat.mod_eq_of_lt (by omega)
  have hi : p.attack.indexAtDepth = 2 * p.indexAtDepth := by
    rw [Position.attack, move, Bool.toNat_false, Nat.or_zero, Nat.shiftLeft_eq, mul_comm]
  have hvalid : p.attack.Valid := by
    rw [Valid, hd, hi]
    omega
  refine ⟨hvalid, hd, ?_⟩
  rw [hvalid.toGIndex_eq, h.toGIndex_eq, hd, hi]
  omega

lemma Valid.defend (h : p.Valid) (hpos : p.depth ≠ 0) (hdepth : p.depth < 2 ^ 63) :
    p.defend.Valid ∧ p.defend.depth = p.depth + 1 ∧
      p.defend.toGIndex = 2 * (p.toGIndex / 2 * 2 + 1) := by
  have hidx : p.indexAtDepth < 2 ^ p.depth := h
  obtain ⟨d, hd⟩ := Nat.exists_eq_succ_of_ne_zero hpos
  have hd' : p.defend.depth = p.depth + 1 := by
    change (((p.depth + (2 ^ 64 - 1)) % 2 ^ 64 + 1) % 2 ^ 64 + 1) % 2 ^ 64 = p.depth + 1
    omega
  have hi : p.defend.indexAtDepth = 2 * (p.indexAtDepth / 2 * 2 + 1) := by
    have hor := Nat.shiftLeft_add_eq_or_of_lt (i := 1) (b := 1) one_lt_two (p.indexAtDepth / 2)
    change (((p.indexAtDepth / 2) <<< 1 ||| 1) <<< 1 ||| 0) = _
    rw [Nat.or_zero, Nat.shiftLeft_eq]
    omega
  have hvalid : p.defend.Valid := by
    rw [Valid, hd']
    rw [hd, pow_succ] at hidx
    rw [hd, pow_succ]
    omega
  refine ⟨hvalid, hd', ?_⟩
  rw [hvalid.toGIndex_eq, h.toGIndex_eq, hd', hi, hd]
  omega

end Position

/-! ## Claims -/

/-- `Claim`, without its bond and its clock. -/
structure Claim where
  value : Hash
  position : Position
  counteredBy : Address
  claimant : Address
  contractIndex : ℕ
  parentContractIndex : ℕ
  deriving DecidableEq

/-- `big.Int.Bytes`: the bytes of a number, the highest first, without leading zeros. -/
def bigBytes (x : ℕ) : Bytes := beBytes (if x = 0 then 0 else x.log2 / 8 + 1) x

lemma lt_pow_bigBytes (x : ℕ) : x < 256 ^ (bigBytes x).length := by
  rw [bigBytes, length_beBytes]
  split
  · rename_i h
    rw [h]
    decide
  · rw [show 256 = 2 ^ 8 by decide, ← pow_mul]
    exact lt_of_lt_of_le Nat.lt_log2_self (Nat.pow_le_pow_right (by decide) (by omega))

lemma bigBytes_inj {x y : ℕ} : bigBytes x = bigBytes y ↔ x = y := by
  constructor
  · intro h
    have hlen := congrArg length h
    have hx := lt_pow_bigBytes x
    have hy := lt_pow_bigBytes y
    rw [← hlen] at hy
    have hbytes : ∀ z, bigBytes z = beBytes (bigBytes z).length z := by
      intro z
      rw [bigBytes, length_beBytes]
    rw [hbytes, hbytes y, ← hlen] at h
    exact (beBytes_inj hx hy).mp h
  · rintro rfl
    rfl

lemma length_bigBytes_le {x k : ℕ} (h : x < 256 ^ k) : (bigBytes x).length ≤ k := by
  rw [bigBytes, length_beBytes]
  split
  · exact Nat.zero_le k
  · rename_i hx
    rw [show 256 = 2 ^ 8 by decide, ← pow_mul, ← Nat.log2_lt hx] at h
    omega

namespace Claim

/-- `ID`, for the function that is used as `crypto.Keccak256Hash`. -/
def id (keccak256 : Bytes → Hash) (c : Claim) : Hash :=
  keccak256 (bigBytes c.position.toGIndex ++ c.value.1 ++ bigBytes c.parentContractIndex)

def isRoot (c : Claim) : Bool := c.position.isRootPosition

/-- The node of the tree that a claim is at. -/
def gIndex (c : Claim) : ℕ := c.position.toGIndex

variable {c : Claim}

section

variable (h : c.position.Valid)
include h

lemma gIndex_ne_zero : c.gIndex ≠ 0 := h.toGIndex_ne_zero

lemma log2_gIndex : c.gIndex.log2 = c.position.depth := h.log2_toGIndex

lemma isRoot_iff : c.isRoot = true ↔ c.gIndex = 1 := h.isRootPosition_iff

lemma depth_ne_zero (hroot : ¬c.isRoot = true) : c.position.depth ≠ 0 := by
  intro h0
  have hidx : c.position.indexAtDepth < 2 ^ c.position.depth := h
  rw [h0, pow_zero, Nat.lt_one_iff] at hidx
  exact hroot (decide_eq_true ⟨h0, hidx⟩)

lemma exists_traceIndex {D : ℕ} (hdepth : c.position.depth ≤ D) :
    ∃ t, c.position.traceIndex D = .ok t ∧ t + 1 + 2 ^ D = reach D c.gIndex := by
  have hlow := two_pow_lt_reach (D := D) (gIndex_ne_zero h) (by rwa [log2_gIndex h])
  have ht : reach D c.gIndex - 1 - 2 ^ D + 1 + 2 ^ D = reach D c.gIndex := by omega
  exact ⟨_, h.traceIndex_eq_ok.mpr ⟨hdepth, ht⟩, ht⟩

end

end Claim

/-! ## Games -/

structure GameState where
  claims : List Claim
  claimIDs : Hash → Bool
  depth : ℕ

def newGameState (keccak256 : Bytes → Hash) (claims : List Claim) (depth : ℕ) : GameState where
  claims := claims
  claimIDs := claims.foldl (fun ids c => update ids (c.id keccak256) true) fun _ => false
  depth := depth

namespace GameState

def isDuplicate (keccak256 : Bytes → Hash) (g : GameState) (claim : Claim) : Bool :=
  g.claimIDs (claim.id keccak256)

def getParent? (g : GameState) (claim : Claim) : Option Claim :=
  if claim.isRoot = true then none else g.claims[claim.parentContractIndex]?

def getParent (g : GameState) (claim : Claim) : Except ChallengerError Claim :=
  match g.getParent? claim with
  | some parent => .ok parent
  | none => .error .claimNotFound

def defendsParent (g : GameState) (claim : Claim) : Bool :=
  match g.getParent? claim with
  | some parent => claim.position.rightOf parent.position
  | none => false

/-- The loops that go from a claim to its parents until a test succeeds.  A loop that visits more
claims than there are does not end. -/
def climb (g : GameState) (test : Claim → Except ChallengerError Bool) :
    ℕ → Claim → Except ChallengerError Claim
  | 0, _ => .error .stuck
  | visits + 1, claim => do
    let found ← test claim
    if found then pure claim
    else do
      let parent ← g.getParent claim
      climb g test visits parent

def hasTraceIndex (depth idx : ℕ) (claim : Claim) : Except ChallengerError Bool := do
  let traceIdx ← claim.position.traceIndex depth
  pure (decide (traceIdx = idx))

end GameState

lemma newGameState_claimIDs {keccak256 : Bytes → Hash} {claims : List Claim} {depth : ℕ} {h : Hash} :
    (newGameState keccak256 claims depth).claimIDs h = true ↔
      ∃ c ∈ claims, c.id keccak256 = h := by
  have hfold : ∀ (claims : List Claim) (ids : Hash → Bool),
      claims.foldl (fun ids c => update ids (c.id keccak256) true) ids h = true ↔
        ids h = true ∨ ∃ c ∈ claims, c.id keccak256 = h := by
    intro claims
    induction claims with
    | nil => simp
    | cons c claims ih =>
      intro ids
      rw [foldl_cons, ih, update_apply]
      by_cases hc : h = c.id keccak256
      · simp [hc]
      · simp [hc, Ne.symm]
  exact (hfold claims _).trans (by simp)

/-! ## Lines of ancestors -/

/-- The claims of a game refer to their parents: the root claim, which is the first one, is the only
one at the root position, and the other ones come after their parents. -/
structure Linked (claims : List Claim) : Prop where
  isRoot_iff : ∀ {i c}, claims[i]? = some c → (c.isRoot = true ↔ i = 0)
  parent_lt : ∀ {i c}, claims[i]? = some c → i ≠ 0 → c.parentContractIndex < i

abbrev ancestors (claims : List Claim) (i : ℕ) : List Claim :=
  Forest.lineage Claim.parentContractIndex claims i

namespace Linked

variable {claims : List Claim} {i : ℕ} {c : Claim}

lemma ancestors_cons (h : Linked claims) (hc : claims[i]? = some c) :
    ancestors claims i = c :: if i = 0 then [] else ancestors claims c.parentContractIndex := by
  by_cases hi : i = 0
  · rw [if_pos hi]
    exact Forest.lineage_of_le hc (hi ▸ Nat.zero_le _)
  · rw [if_neg hi]
    exact Forest.lineage_of_lt hc (h.parent_lt hc hi)

lemma exists_parent (h : Linked claims) (hc : claims[i]? = some c) (hi : i ≠ 0) :
    ∃ p, claims[c.parentContractIndex]? = some p := by
  have hlt := lt_trans (h.parent_lt hc hi) (getElem?_eq_some_iff.mp hc).1
  exact ⟨_, getElem?_eq_getElem hlt⟩

lemma getParent? {g : GameState} (h : Linked g.claims) (hc : g.claims[i]? = some c) :
    g.getParent? c = if i = 0 then none else g.claims[c.parentContractIndex]? := by
  rw [GameState.getParent?]
  simp only [h.isRoot_iff hc]

lemma getParent {g : GameState} (h : Linked g.claims) (hc : g.claims[i]? = some c) (hi : i ≠ 0)
    {p : Claim} (hp : g.claims[c.parentContractIndex]? = some p) : g.getParent c = .ok p := by
  rw [GameState.getParent, h.getParent? hc, if_neg hi, hp]

/-- Going from a claim to its parents is a search through the line of ancestors. -/
theorem climb_eq_ok {g : GameState} (h : Linked g.claims) {test : Claim → Except ChallengerError Bool}
    {t : Claim → Bool} {visits : ℕ} {a : Claim} (hc : g.claims[i]? = some c) (hvis : i < visits)
    (htest : ∀ b ∈ ancestors g.claims i, test b = .ok (t b))
    (hfind : (ancestors g.claims i).find? t = some a) :
    ∃ j, g.claims[j]? = some a ∧
      ancestors g.claims j = (ancestors g.claims i).dropWhile (fun b => !t b) ∧
      g.climb test visits c = .ok a := by
  induction visits generalizing i c with
  | zero => exact absurd hvis (Nat.not_lt_zero i)
  | succ visits ih =>
    rw [h.ancestors_cons hc] at htest hfind ⊢
    rw [GameState.climb, htest c mem_cons_self, Except.ok_bind]
    cases ht : t c with
    | true =>
      rw [find?_cons_of_pos ht] at hfind
      cases hfind
      refine ⟨i, hc, ?_, rfl⟩
      rw [dropWhile_cons_of_neg (by simp [ht]), h.ancestors_cons hc]
    | false =>
      rw [find?_cons_of_neg (by simp [ht])] at hfind
      by_cases hi : i = 0
      · rw [if_pos hi] at hfind
        cases hfind
      · rw [if_neg hi] at hfind htest ⊢
        obtain ⟨p, hp⟩ := h.exists_parent hc hi
        have hlt := h.parent_lt hc hi
        obtain ⟨j, hj, hdrop, hclimb⟩ := ih hp (by omega)
          (fun b hb => htest b (mem_cons_of_mem _ hb)) hfind
        refine ⟨j, hj, ?_, ?_⟩
        · rw [dropWhile_cons_of_pos (by simp [ht]), hdrop]
        · rw [if_neg (by decide), h.getParent hc hi hp, Except.ok_bind, hclimb]

end Linked

end FightNight.Challenger
