import FightNight.Challenger.Types

/-!
# The solver of the challenger

The package `op-challenger/game/fault/solver`.  `CalculateNextActions` visits the claims in the
order of the contract and keeps track of those that an honest actor makes.  It answers a claim, by
a move or by a step at the greatest depth, unless it is such a claim itself, answers a claim that
was ignored, or is to the right of the honest answer to the same claim.

What is asked of the trace of the program is a parameter, `TraceAccessor`.  The data that is
loaded into the oracle before a step is left out.
-/

namespace FightNight.Challenger

open FightNight.Except
open Preimage (Hash)

/-! ## Traces -/

/-- `InvalidL2BlockNumberChallenge`: the output and the header, encoded. -/
structure InvalidL2BlockNumberChallenge where
  output : Bytes
  header : Bytes
  deriving DecidableEq

/-- `TraceAccessor`.  The step data are the state before the step and the proof.  There is no
challenge when the error `ErrL2BlockNumberValid` is returned. -/
structure TraceAccessor where
  get : GameState → Claim → Position → Except ChallengerError Hash
  getStepData : GameState → Claim → Position → Except ChallengerError (Bytes × Bytes)
  getL2BlockNumberChallenge :
    GameState → Except ChallengerError (Option InvalidL2BlockNumberChallenge)

structure TraceProvider where
  get : Position → Except ChallengerError Hash
  getStepData : Position → Except ChallengerError (Bytes × Bytes)
  getL2BlockNumberChallenge : Except ChallengerError (Option InvalidL2BlockNumberChallenge)

def newSimpleTraceAccessor (trace : TraceProvider) : TraceAccessor where
  get := fun _ _ pos => trace.get pos
  getStepData := fun _ _ pos => trace.getStepData pos
  getL2BlockNumberChallenge := fun game =>
    match game.claims with
    | [] => .error .panic
    | _ :: _ => trace.getL2BlockNumberChallenge

/-! ## Traces of subtrees -/

/-- `RelativeToAncestorAtDepth`.  The number of nodes is an `int`, and `Mod` of `big.Int` panics for
zero. -/
def Position.relativeToAncestorAtDepth (p : Position) (ancestor : ℕ) :
    Except ChallengerError Position :=
  if p.depth < ancestor then .error .positionDepthTooSmall
  else
    let newPosDepth := p.depth - ancestor
    let nodesAtDepth : ℤ := ((1 <<< newPosDepth : ℕ) : ℤ).bmod (2 ^ 64)
    if nodesAtDepth = 0 then .error .panic
    else .ok ⟨newPosDepth, (p.indexAtDepth % nodesAtDepth).toNat⟩

/-- `Translate`: the trace of a subtree, whose root is at a depth of the game. -/
def translate (provider : TraceProvider) (rootDepth : ℕ) : TraceProvider where
  get := fun pos => do
    let relativePos ← pos.relativeToAncestorAtDepth rootDepth
    provider.get relativePos
  getStepData := fun pos => do
    let relativePos ← pos.relativeToAncestorAtDepth rootDepth
    provider.getStepData relativePos
  getL2BlockNumberChallenge := provider.getL2BlockNumberChallenge

namespace Position

variable {p : Position} {a : ℕ}

lemma indexAtDepth_iterate_parent (p : Position) (k : ℕ) :
    (parent^[k] p).indexAtDepth = p.indexAtDepth / 2 ^ k := by
  induction k with
  | zero => exact (Nat.div_one _).symm
  | succ k ih =>
    rw [Function.iterate_succ_apply', pow_succ, ← Nat.div_div_eq_div_mul, ← ih]
    rfl

/-- Up to 63 levels the number of nodes is a power of two, or its negative, and the remainder is the
index in the subtree.  From 64 levels on, the number of nodes is zero. -/
lemma relativeToAncestorAtDepth_eq (ha : a ≤ p.depth) :
    p.relativeToAncestorAtDepth a = if p.depth - a < 64 then
      .ok ⟨p.depth - a, p.indexAtDepth % 2 ^ (p.depth - a)⟩ else .error .panic := by
  rw [relativeToAncestorAtDepth, if_neg (not_lt_of_ge ha)]
  dsimp only
  rw [Nat.shiftLeft_eq, one_mul]
  rcases lt_trichotomy (p.depth - a) 63 with hk | hk | hk
  · have hlt : 2 ^ (p.depth - a) < 2 ^ 63 := Nat.pow_lt_pow_right (by decide) hk
    have hpos := Nat.two_pow_pos (p.depth - a)
    rw [Int.bmod_eq_of_le (by omega) (by omega), if_neg (by omega), if_pos (by omega)]
    norm_cast
  · rw [hk]
    have hmod : ((2 ^ 63 : ℕ) : ℤ).bmod (2 ^ 64) = -((2 ^ 63 : ℕ) : ℤ) := by decide
    rw [hmod, if_neg (by decide), if_pos (by decide), Int.emod_neg]
    norm_cast
  · obtain ⟨j, hj⟩ := Nat.exists_eq_add_of_le (show 64 ≤ p.depth - a from hk)
    have hzero : ((2 ^ (64 + j) : ℕ) : ℤ).bmod (2 ^ 64) = 0 := by grind
    rw [hj, hzero, if_pos rfl, if_neg (by omega)]

lemma traceIndex_mod {k D t : ℕ} (hk : k ≤ p.depth) (h : p.traceIndex D = .ok t) :
    (⟨k, p.indexAtDepth % 2 ^ k⟩ : Position).traceIndex (D - (p.depth - k)) =
      .ok (t % 2 ^ (D - (p.depth - k))) := by
  rw [traceIndex] at h
  split at h
  case isTrue => cases h
  case isFalse hD =>
    have hval : ∀ x, x <<< (D - p.depth) ||| (1 <<< (D - p.depth) - 1) =
        2 ^ (D - p.depth) * x + (2 ^ (D - p.depth) - 1) := by
      intro x
      rw [Nat.shiftLeft_eq 1, one_mul, ← Nat.shiftLeft_add_eq_or_of_lt, Nat.shiftLeft_eq, mul_comm]
      exact Nat.sub_lt (Nat.two_pow_pos _) Nat.one_pos
    have hlow := Nat.sub_lt (Nat.two_pow_pos (D - p.depth)) Nat.one_pos
    rw [Except.ok.injEq, hval] at h
    rw [traceIndex, if_neg (by dsimp only; omega)]
    dsimp only
    rw [show D - (p.depth - k) - k = D - p.depth by omega, hval, ← h,
      show D - (p.depth - k) = D - p.depth + k by omega, pow_add, Nat.mod_mul, Nat.mul_add_mod,
      Nat.mod_eq_of_lt hlow, Nat.mul_add_div (Nat.two_pow_pos _), Nat.div_eq_of_lt hlow, add_zero,
      add_comm]

/-- A position is found in the subtree below its ancestor, and the trace of the subtree is asked at the
trace index there, if and only if it is less than 64 levels below the ancestor. -/
theorem relative_to_ancestor_iff (ha : a ≤ p.depth) :
    (∃ q, p.relativeToAncestorAtDepth a = .ok q ∧ q.depth = p.depth - a ∧
        p.indexAtDepth =
          (parent^[p.depth - a] p).indexAtDepth * 2 ^ (p.depth - a) + q.indexAtDepth ∧
        (∀ D t, p.traceIndex D = .ok t → q.traceIndex (D - a) = .ok (t % 2 ^ (D - a))) ∧
        ∀ provider, (translate provider a).get p = provider.get q ∧
          (translate provider a).getStepData p = provider.getStepData q) ↔
      p.depth - a < 64 := by
  have hrel := relativeToAncestorAtDepth_eq ha
  constructor
  · rintro ⟨q, hq, -⟩
    by_contra hk
    rw [hq, if_neg hk] at hrel
    cases hrel
  · intro hk
    rw [if_pos hk] at hrel
    refine ⟨_, hrel, rfl, ?_, fun D t ht => ?_, fun provider => ⟨?_, ?_⟩⟩
    · rw [indexAtDepth_iterate_parent, mul_comm]
      exact (Nat.div_add_mod _ _).symm
    · have hmod := traceIndex_mod (Nat.sub_le p.depth a) ht
      rwa [Nat.sub_sub_self ha] at hmod
    · exact congrArg (· >>= provider.get) hrel
    · exact congrArg (· >>= provider.getStepData) hrel

theorem relative_to_ancestor_two : ∃ q, (⟨3, 6⟩ : Position).relativeToAncestorAtDepth 1 = .ok q ∧
    q.depth = 2 ∧ 6 = 1 * 4 + q.indexAtDepth := by
  obtain ⟨q, hq, hd, hi, -⟩ := (@relative_to_ancestor_iff ⟨3, 6⟩ 1 (by decide)).mpr (by decide)
  exact ⟨q, hq, hd, hi⟩

/-- A game of depth 125 has such positions. -/
theorem relative_to_root_panics :
    (⟨64, 0⟩ : Position).relativeToAncestorAtDepth 0 = .error .panic := by
  decide

end Position

/-! ## Honest claims -/

structure HonestClaimTracker where
  agreed : Hash → Bool
  counters : Hash → Option Claim

namespace HonestClaimTracker

variable (keccak256 : Bytes → Hash)

/-- `newHonestClaimTracker`. -/
def new : HonestClaimTracker where
  agreed := fun _ => false
  counters := fun _ => none

/-- `AddHonestClaim`; the parent `Claim{}` is none. -/
def addHonestClaim (a : HonestClaimTracker) (parent : Option Claim) (claim : Claim) :
    HonestClaimTracker where
  agreed := Function.update a.agreed (claim.id keccak256) true
  counters :=
    match parent with
    | none => a.counters
    | some parent => Function.update a.counters (parent.id keccak256) (some claim)

def isHonest (a : HonestClaimTracker) (claim : Claim) : Bool := a.agreed (claim.id keccak256)

def honestCounter (a : HonestClaimTracker) (parent : Claim) : Option Claim :=
  a.counters (parent.id keccak256)

end HonestClaimTracker

/-! ## Answers to one claim -/

structure StepData where
  leafClaim : Claim
  isAttack : Bool
  preState : Bytes
  proofData : Bytes

inductive Action where
  | move (parentClaim : Claim) (isAttack : Bool) (value : Hash)
  | step (parentClaim : Claim) (isAttack : Bool) (preState proofData : Bytes)
  | challengeL2BlockNumber (challenge : InvalidL2BlockNumberChallenge)
  deriving DecidableEq

/-- `claimSolver`, and the function that is used as `crypto.Keccak256Hash`. -/
structure ClaimSolver where
  keccak256 : Bytes → Hash
  trace : TraceAccessor
  gameDepth : ℕ

namespace ClaimSolver

variable (s : ClaimSolver)

def shouldCounter (game : GameState) (claim : Claim) (honestClaims : HonestClaimTracker) :
    Except ChallengerError Bool :=
  if honestClaims.isHonest s.keccak256 claim = true then .ok false
  else if claim.isRoot = true then .ok true
  else do
    let parent ← game.getParent claim
    if honestClaims.isHonest s.keccak256 parent = true then pure true
    else
      match honestClaims.honestCounter s.keccak256 parent with
      | none => pure false
      | some counter => do
        let honestIdx ← counter.position.traceIndex game.depth
        let claimIdx ← claim.position.traceIndex game.depth
        pure (decide (claimIdx ≤ honestIdx))

def agreeWithClaim (game : GameState) (claim : Claim) : Except ChallengerError Bool := do
  let ourValue ← s.trace.get game claim claim.position
  pure (decide (ourValue = claim.value))

/-- The claim with a value at a position, as an answer to a claim. -/
def answer (claim : Claim) (position : Position) (value : Hash) : Claim where
  value := value
  position := position
  counteredBy := 0
  claimant := 0
  contractIndex := 0
  parentContractIndex := claim.contractIndex

def attack (game : GameState) (claim : Claim) : Except ChallengerError (Option Claim) := do
  let value ← s.trace.get game claim claim.position.attack
  pure (some (answer claim claim.position.attack value))

def defend (game : GameState) (claim : Claim) : Except ChallengerError (Option Claim) :=
  if claim.isRoot = true then .ok none
  else do
    let value ← s.trace.get game claim claim.position.defend
    pure (some (answer claim claim.position.defend value))

def nextMove (claim : Claim) (game : GameState) (honestClaims : HonestClaimTracker) :
    Except ChallengerError (Option Claim) := do
  revertIf (claim.position.depth = s.gameDepth) .gameDepthReached
  let counter ← s.shouldCounter game claim honestClaims
  if counter then do
    let agree ← s.agreeWithClaim game claim
    if agree then s.defend game claim else s.attack game claim
  else pure none

lemma nextMove_eq_some {claim : Claim} {game : GameState} {honestClaims : HonestClaimTracker}
    {move : Claim} (h : s.nextMove claim game honestClaims = .ok (some move)) :
    ∃ value, move = answer claim claim.position.attack value ∨
      ¬claim.isRoot = true ∧ move = answer claim claim.position.defend value := by
  rw [nextMove, bind_eq_ok] at h
  obtain ⟨-, -, h⟩ := h
  obtain ⟨counter, -, h⟩ := bind_eq_ok.mp h
  by_cases hctr : counter = true
  · rw [if_pos hctr, bind_eq_ok] at h
    obtain ⟨agree, -, h⟩ := h
    by_cases hagree : agree = true
    · rw [if_pos hagree, defend] at h
      by_cases hroot : claim.isRoot = true
      · rw [if_pos hroot] at h
        cases h
      · rw [if_neg hroot, bind_eq_ok] at h
        obtain ⟨value, -, h⟩ := h
        exact ⟨value, .inr ⟨hroot, (Option.some.inj (pure_eq_ok.mp h)).symm⟩⟩
    · rw [if_neg hagree, attack, bind_eq_ok] at h
      obtain ⟨value, -, h⟩ := h
      exact ⟨value, .inl (Option.some.inj (pure_eq_ok.mp h)).symm⟩
  · rw [if_neg hctr] at h
    cases h

def attemptStep (game : GameState) (claim : Claim) (honestClaims : HonestClaimTracker) :
    Except ChallengerError (Option StepData) := do
  revertIf (claim.position.depth ≠ s.gameDepth) .stepNonLeafNode
  let counter ← s.shouldCounter game claim honestClaims
  if counter then do
    let claimCorrect ← s.agreeWithClaim game claim
    let position := if claimCorrect then claim.position.moveRight else claim.position
    let (preState, proofData) ← s.trace.getStepData game claim position
    pure (some ⟨claim, !claimCorrect, preState, proofData⟩)
  else pure none

/-! ## Answers to all claims -/

def calculateStep (game : GameState) (claim : Claim) (agreedClaims : HonestClaimTracker) :
    Except ChallengerError (Option Action) :=
  if claim.counteredBy ≠ 0 then .ok none
  else do
    let step ← s.attemptStep game claim agreedClaims
    pure (step.map fun d => .step d.leafClaim d.isAttack d.preState d.proofData)

/-- `calculateMove`, with the claims that are tracked afterwards. -/
def calculateMove (game : GameState) (claim : Claim) (honestClaims : HonestClaimTracker) :
    Except ChallengerError (Option Action × HonestClaimTracker) := do
  let move ← s.nextMove claim game honestClaims
  match move with
  | none => pure (none, honestClaims)
  | some move =>
    let honestClaims := honestClaims.addHonestClaim s.keccak256 (some claim) move
    if game.isDuplicate s.keccak256 move = true then pure (none, honestClaims)
    else
      match game.claims[move.parentContractIndex]? with
      | none => .error .panic
      | some parentClaim =>
        pure (some (.move parentClaim (!game.defendsParent move) move.value), honestClaims)

/-- The body of the loop of `CalculateNextActions`. -/
def respond (game : GameState) (claim : Claim) (agreedClaims : HonestClaimTracker) :
    Except ChallengerError (Option Action × HonestClaimTracker) :=
  if claim.position.depth = game.depth then do
    let action ← s.calculateStep game claim agreedClaims
    pure (action, agreedClaims)
  else s.calculateMove game claim agreedClaims

/-- The actions that are returned with an error; a panic does not return. -/
def returned (actions : List Action) : ChallengerError → List Action × Option ChallengerError
  | .panic => ([], some .panic)
  | err => (actions, some err)

/-- The loop of `CalculateNextActions`. -/
def respondAll (game : GameState) : List Claim → HonestClaimTracker → List Action →
    List Action × Option ChallengerError
  | [], _, actions => (actions, none)
  | claim :: rest, agreedClaims, actions =>
    match s.respond game claim agreedClaims with
    | .error err => returned actions err
    | .ok (action, agreedClaims) => respondAll game rest agreedClaims (actions ++ action.toList)

/-- `CalculateNextActions`: the actions, and the error if there is one. -/
def calculateNextActions (game : GameState) : List Action × Option ChallengerError :=
  match game.claims with
  | [] => ([], some .panic)
  | root :: _ =>
    match s.agreeWithClaim game root with
    | .error err => ([], some err)
    | .ok false => s.respondAll game game.claims .new []
    | .ok true =>
      match s.trace.getL2BlockNumberChallenge game with
      | .error err => ([], some err)
      | .ok (some challenge) => ([.challengeL2BlockNumber challenge], none)
      | .ok none =>
        s.respondAll game game.claims
          (HonestClaimTracker.new.addHonestClaim s.keccak256 none root) []

end ClaimSolver

end FightNight.Challenger
