import FightNight.Challenger.Solver
import FightNight.Challenger.Split

/-!
# Duplicate claims

The challenger does not post a claim whose identifier is in the game: the hash of the position,
the value and the index of the parent, the numbers without leading zeros
(`op-challenger/game/fault/types/types.go`).  The position is not delimited, so that the same
bytes can be read with a longer position and a shorter index.  A claim that is such a shifted
reading of a move keeps the challenger from making it.
-/

namespace FightNight.Challenger

open FightNight.Except Dispute ClaimSolver
open List hiding getElem?_eq_some_iff
open Preimage (Hash)
open Dispute (Game GameEnv ClaimData)

/-! ## The bytes of an identifier -/

/-- What the identifier of a claim hashes. -/
def Claim.encoded (c : Claim) : Bytes :=
  bigBytes c.gIndex ++ c.value.1 ++ bigBytes c.parentContractIndex

/-- The claims have the same position, value and parent. -/
structure Same (c b : Claim) : Prop where
  gIndex_eq : c.gIndex = b.gIndex
  value_eq : c.value = b.value
  parent_eq : c.parentContractIndex = b.parentContractIndex

/-- The position of `b` takes `k` bytes from the value of `c`, the value of `b` starts with the
other ones, and the parent of `c` has the last `k` bytes of the value of `b` before those of the
parent of `b`. -/
structure ShiftedBy (k : ℕ) (c b : Claim) : Prop where
  position_eq : bigBytes b.gIndex = bigBytes c.gIndex ++ c.value.1.take k
  value_eq : b.value.1.take (32 - k) = c.value.1.drop k
  parent_eq : bigBytes c.parentContractIndex =
    b.value.1.drop (32 - k) ++ bigBytes b.parentContractIndex

/-- The bytes of one claim are those of the other one, cut at other places. -/
def Shifted (c b : Claim) : Prop := ∃ k, 0 < k ∧ k < 16 ∧ (ShiftedBy k c b ∨ ShiftedBy k b c)

variable {c b : Claim}

/-- The positions of a game have up to sixteen bytes. -/
def InRange (c : Claim) : Prop := c.gIndex ≠ 0 ∧ c.gIndex < 2 ^ 128

lemma InRange.length_bounds (h : InRange c) :
    0 < (bigBytes c.gIndex).length ∧ (bigBytes c.gIndex).length ≤ 16 := by
  constructor
  · refine pos_of_ne_zero fun h0 => h.1 ?_
    have hlt := lt_pow_bigBytes c.gIndex
    rwa [h0, pow_zero, Nat.lt_one_iff] at hlt
  · exact length_bigBytes_le (lt_of_lt_of_le h.2 (by decide))

variable {i k n : ℕ}

lemma encoded_eq_iff_shiftedBy (hk : k < 16)
    (hlen : (bigBytes b.gIndex).length = (bigBytes c.gIndex).length + k) :
    c.encoded = b.encoded ↔ ShiftedBy k c b := by
  have hc : c.value.1.length = 32 := c.value.2
  have hb : b.value.1.length = 32 := b.value.2
  rw [Claim.encoded, Claim.encoded,
    append_eq_append_iff_shift (hc.trans hb.symm) hlen (by omega), hc]
  exact ⟨fun ⟨hp, hv, hi⟩ => ⟨hp, hv, hi⟩, fun ⟨hp, hv, hi⟩ => ⟨hp, hv, hi⟩⟩

lemma ShiftedBy.length_eq (hk : k < 16) (h : ShiftedBy k c b) :
    (bigBytes b.gIndex).length = (bigBytes c.gIndex).length + k := by
  have hc : c.value.1.length = 32 := c.value.2
  rw [h.position_eq, length_append, length_take, min_eq_left (by omega)]

lemma shiftedBy_zero : ShiftedBy 0 c b ↔ Same c b := by
  have hb : b.value.1.length = 32 := b.value.2
  constructor
  · rintro ⟨hp, hv, hi⟩
    rw [take_zero, append_nil, bigBytes_inj] at hp
    rw [take_of_length_le (le_of_eq hb)] at hv
    rw [drop_eq_nil_of_le (le_of_eq hb), nil_append, bigBytes_inj] at hi
    exact ⟨hp.symm, Subtype.ext hv.symm, hi⟩
  · rintro ⟨hp, hv, hi⟩
    refine ⟨?_, ?_, ?_⟩
    · rw [take_zero, append_nil, hp]
    · grind
    · grind

lemma encoded_eq_iff (hc : InRange c) (hb : InRange b) :
    c.encoded = b.encoded ↔ Same c b ∨ Shifted c b := by
  obtain ⟨hc₀, hc₁⟩ := hc.length_bounds
  obtain ⟨hb₀, hb₁⟩ := hb.length_bounds
  constructor
  · intro h
    rcases lt_trichotomy (bigBytes c.gIndex).length (bigBytes b.gIndex).length with hlt | heq | hgt
    · obtain ⟨k, hk⟩ := Nat.exists_eq_add_of_lt hlt
      exact .inr ⟨k + 1, Nat.succ_pos k, by omega,
        .inl ((encoded_eq_iff_shiftedBy (by omega) hk).mp h)⟩
    · exact .inl (shiftedBy_zero.mp ((encoded_eq_iff_shiftedBy (by decide) heq.symm).mp h))
    · obtain ⟨k, hk⟩ := Nat.exists_eq_add_of_lt hgt
      exact .inr ⟨k + 1, Nat.succ_pos k, by omega,
        .inr ((encoded_eq_iff_shiftedBy (by omega) hk).mp h.symm)⟩
  · rintro (h | ⟨k, -, hk, h | h⟩)
    · rw [Claim.encoded, Claim.encoded, h.gIndex_eq, h.value_eq, h.parent_eq]
    · exact (encoded_eq_iff_shiftedBy hk (h.length_eq hk)).mpr h
    · exact ((encoded_eq_iff_shiftedBy hk (h.length_eq hk)).mpr h).symm

/-! ## Exactness -/

variable {env : GameEnv} {s : Game}

/-- A claim that the solver can propose: a move that it calculates, for some trace and some honest
claims, as an answer to a claim of the game. -/
def Proposable (env : GameEnv) (s : Game) (b : Claim) : Prop :=
  ∃ (trace : TraceAccessor) (honestClaims : HonestClaimTracker), ∃ c ∈ getAllClaims s,
    nextMove ⟨env.keccak256, trace, env.maxGameDepth⟩ c (newGameFromContracts env s)
      honestClaims = .ok (some b)

lemma inRange_of_mem (h : Tree env s.claimData) (hc : c ∈ getAllClaims s) : InRange c := by
  obtain ⟨i, d, hd, rfl⟩ := mem_getAllClaims hc
  have hmem := mem_of_getElem? hd
  obtain ⟨-, hidx, -⟩ := decodeClaim_position h hmem i
  obtain ⟨hcan, hlt⟩ := h.position hmem
  rw [InRange, hidx]
  exact ⟨hcan.ne_zero, lt_trans hlt (by decide)⟩

/-- The position of a move is at most one level below a position of the game. -/
theorem Proposable.inRange (hb : Proposable env s b) (h : Tree env s.claimData) :
    InRange b := by
  obtain ⟨trace, honestClaims, c, hc, hmove⟩ := hb
  obtain ⟨i, d, hd, rfl⟩ := mem_getAllClaims hc
  have hmem := mem_of_getElem? hd
  obtain ⟨hvalid, hidx, hdepth⟩ := decodeClaim_position h hmem i
  obtain ⟨hcan, hlt⟩ := h.position hmem
  have hlog : d.position.log2 < 126 := (Nat.log2_lt hcan.ne_zero).mpr hlt
  have hrange : ∀ {p : Position}, p.toGIndex = 2 * d.position ∨
      p.toGIndex = 2 * (d.position / 2 * 2 + 1) →
      ∀ value, InRange (answer (decodeClaim d i) p value) := by
    intro p hp value
    change p.toGIndex ≠ 0 ∧ p.toGIndex < 2 ^ 128
    have := hcan.ne_zero
    omega
  have hshort : (decodeClaim d i).position.depth < 2 ^ 63 := by omega
  obtain ⟨value, rfl | ⟨hroot, rfl⟩⟩ := nextMove_eq_some _ hmove
  · exact hrange (.inl ((hvalid.attack hshort).2.2.trans (congrArg (2 * ·) hidx))) value
  · have hne := Claim.depth_ne_zero hvalid hroot
    exact hrange (.inr ((hvalid.defend hne hshort).2.2.trans
      (congrArg (fun x => 2 * (x / 2 * 2 + 1)) hidx))) value

/-- Duplicate detection is exact for a move exactly when the move is in the game, or no claim of the
game is a shifted reading of it. -/
theorem duplicate_exact_iff (hs : Game.Reachable env s) (hb : Proposable env s b)
    (hinj : Set.InjOn env.keccak256 (Claim.encoded '' {c | c ∈ getAllClaims s ∨ c = b})) :
    ((newGameFromContracts env s).isDuplicate env.keccak256 b = true ↔
        ∃ c ∈ getAllClaims s, Same c b) ↔
      (∃ c ∈ getAllClaims s, Same c b) ∨ ∀ c ∈ getAllClaims s, ¬Shifted c b := by
  have htree := hs.grown.tree
  have henc : (newGameFromContracts env s).isDuplicate env.keccak256 b = true ↔
      ∃ c ∈ getAllClaims s, c.encoded = b.encoded := by
    rw [GameState.isDuplicate, newGameFromContracts, newGameState_claimIDs]
    refine exists_congr fun c => and_congr_right fun hc => ?_
    exact hinj.eq_iff (Set.mem_image_of_mem _ (.inl hc)) (Set.mem_image_of_mem _ (.inr rfl))
  have hsplit : (∃ c ∈ getAllClaims s, c.encoded = b.encoded) ↔
      (∃ c ∈ getAllClaims s, Same c b) ∨ ∃ c ∈ getAllClaims s, Shifted c b := by
    rw [← exists_or]
    refine exists_congr fun c => ?_
    rw [← and_or_left]
    exact and_congr_right fun hc => encoded_eq_iff (inRange_of_mem htree hc) (hb.inRange htree)
  have hnone : (∀ c ∈ getAllClaims s, ¬Shifted c b) ↔ ¬∃ c ∈ getAllClaims s, Shifted c b := by
    simp only [not_exists, not_and]
  rw [henc, hsplit, or_iff_left_iff_imp, imp_iff_or_not, hnone]

/-! ## A crowded game -/

/-- The values of the claims: the index of the claim, and a mark.  The last one is chosen against the
challenger. -/
def crowdedValue (n : ℕ) : Hash :=
  if n = 266 then Hash.ofBytes [0, 10, 254]
  else Hash.ofBytes [UInt8.ofNat (n / 256), UInt8.ofNat (n % 256), 255]

/-- Nine claims that attack one another, then 256 attacks on the root, and an attack on the last one of
them. -/
def crowdedParent (n : ℕ) : ℕ := if n ≤ 9 then n - 1 else if n ≤ 265 then 0 else 265

def crowdedDepth (n : ℕ) : ℕ := if n ≤ 9 then n else if n ≤ 265 then 1 else 2

def crowdedClaim (n : ℕ) : ClaimData where
  parentIndex := if n = 0 then Game.noParent else crowdedParent n
  counteredBy := 0
  claimant := 1
  bond := if n = 0 then 0 else 8 * 10 ^ 16
  claim := crowdedValue n
  position := 2 ^ crowdedDepth n
  clock := ⟨0, 0⟩

def crowdedEnv : GameEnv :=
  { sampleEnv 11 12 (by decide) (by decide) with rootClaim := crowdedValue 0 }

/-- The game after `n` of the moves. -/
structure Crowded (n : ℕ) (s : Game) : Prop where
  reachable : Game.Reachable crowdedEnv s
  inProgress : s.status = .inProgress
  unchallenged : s.l2BlockNumberChallenged = false
  claimData_eq : s.claimData = (range (n + 1)).map crowdedClaim
  claims : ∀ h, s.claims h = true → ∃ m ≤ n, h = crowdedValue m
  balance : s.wethBalance = n * (8 * 10 ^ 16)

lemma crowdedParent_lt : ∀ n < 266, crowdedParent (n + 1) < n + 1 ∧
    crowdedDepth (n + 1) = crowdedDepth (crowdedParent (n + 1)) + 1 ∧ crowdedDepth (n + 1) ≤ 9 := by
  decide +kernel

lemma crowdedClaim_succ (hn : n < 266) :
    crowdedClaim (n + 1) = newClaim (sampleTx (8 * 10 ^ 16) 0)
      (crowdedParent (n + 1)) (2 ^ crowdedDepth (n + 1)) 0 (crowdedValue (n + 1)) := by
  have hlt := (crowdedParent_lt n hn).1
  have hidx : crowdedParent (n + 1) % 2 ^ 32 = crowdedParent (n + 1) :=
    Nat.mod_eq_of_lt (lt_trans hlt (by omega))
  rw [newClaim, hidx]
  rfl

lemma crowdedValue_inj {m : ℕ} (hm : m < 267) (hn : n < 267) (h : crowdedValue m = crowdedValue n) :
    m = n := by
  have hkey : ∀ n < 267, (if (crowdedValue n).1.getD 2 0 = 254 then 266
      else 256 * ((crowdedValue n).1.getD 0 0).toNat + ((crowdedValue n).1.getD 1 0).toNat) = n := by
    decide +kernel
  rw [← hkey m hm, h, hkey n hn]

lemma crowded_zero : Crowded 0 (sampleGame crowdedEnv) where
  reachable := ⟨sampleTx 0 0, ⟨sampleHash 0 3, 0⟩, _, [], rfl, rfl⟩
  inProgress := rfl
  unchallenged := rfl
  claimData_eq := by decide
  claims := nofun
  balance := rfl

lemma Crowded.getElem? (h : Crowded n s) (hi : i < n + 1) :
    s.claimData[i]? = some (crowdedClaim i) := by
  rw [h.claimData_eq, getElem?_map, getElem?_range hi, Option.map_some]

lemma Crowded.getChallengerDuration (h : Crowded n s) (hn : n < 267) (hi : i < n + 1) :
    s.getChallengerDuration crowdedEnv (sampleTx (8 * 10 ^ 16) 0) i = .ok 0 := by
  have hpar : s.parentDuration (crowdedClaim i) = .ok 0 := by
    rw [Game.parentDuration]
    split
    · rfl
    · rename_i hne
      have hlt : (crowdedClaim i).parentIndex < n + 1 := by
        by_cases h0 : i = 0
        · exact absurd (if_pos h0) hne
        · obtain ⟨j, rfl⟩ := Nat.exists_eq_succ_of_ne_zero h0
          have hup := (crowdedParent_lt j (by omega)).1
          rw [crowdedClaim_succ (by omega)]
          exact lt_of_le_of_lt (Nat.mod_le _ _) (by omega)
      rw [claimAt_eq_ok.mpr (h.getElem? hlt)]
      rfl
  rw [Game.getChallengerDuration, require_bind h.inProgress,
    claimAt_eq_ok.mpr (h.getElem? hi), ok_bind, hpar]
  rfl

lemma crowded_position : ∀ k ≤ 9, LibPosition.depth (2 ^ k) = k ∧
    Game.getRequiredBond crowdedEnv (2 ^ k) = .ok (8 * 10 ^ 16) := by
  decide

lemma Crowded.succ (h : Crowded n s) (hn : n < 266) : ∃ s', Crowded (n + 1) s' := by
  obtain ⟨hlt, hdepth, hle⟩ := crowdedParent_lt n hn
  have hmove : LibPosition.move (crowdedClaim (crowdedParent (n + 1))).position true =
      2 ^ crowdedDepth (n + 1) := by
    rw [LibPosition.move_attack, hdepth, mul_comm]
    · rfl
    · exact Nat.pow_lt_pow_right (by decide) (by omega)
  obtain ⟨hpos, hbond⟩ := crowded_position _ hle
  have hhash : Game.hashClaimPos crowdedEnv (crowdedValue (n + 1))
      (LibPosition.move (crowdedClaim (crowdedParent (n + 1))).position true)
      (crowdedParent (n + 1)) = crowdedValue (n + 1) := Hash.ofBytes_append _ _
  obtain ⟨s', hmoved⟩ : ∃ s', Moved crowdedEnv (sampleTx (8 * 10 ^ 16) 0)
      (crowdedParent (n + 1)) (crowdedValue (n + 1)) true (crowdedClaim (crowdedParent (n + 1))) 0 s
      s' := ⟨_, {
    inProgress := h.inProgress
    parent_eq := h.getElem? hlt
    isAttack_of := fun _ => rfl
    depth_le := by
      rw [hmove, hpos]
      exact le_trans hle (by decide)
    execRoot := fun h0 => by
      rw [hmove, hpos] at h0
      exact absurd (h0 ▸ hle) (by decide)
    bond := by rw [hmove, hbond]; rfl
    fresh := by
      rw [hhash, ← Bool.not_eq_true]
      intro hused
      obtain ⟨m, hm, heq⟩ := h.claims _ hused
      have := crowdedValue_inj (by omega) (by omega) heq
      omega
    eq := rfl }⟩
  have hexec : Game.exec crowdedEnv (sampleMove (crowdedValue (crowdedParent (n + 1)))
      (crowdedParent (n + 1)) (crowdedValue (n + 1)) true) s = .ok s' := by
    have hsup : ¬etherSupply ≤ s.wethBalance + 8 * 10 ^ 16 := by
      rw [h.balance, etherSupply]
      omega
    refine bind_eq_ok.mpr ⟨(), revertIf_of_not hsup, hmoved.move_eq_ok rfl ?_
      (h.getChallengerDuration (by omega) hlt) (by decide) rfl⟩
    rw [h.unchallenged]
    exact fun h0 => by cases h0.1
  have hcls : ∀ hash, s'.claims hash = true → ∃ m ≤ n + 1, hash = crowdedValue m := by
    intro hash hused
    rw [hmoved.eq, hhash] at hused
    by_cases hsame : hash = crowdedValue (n + 1)
    · exact ⟨n + 1, le_refl _, hsame⟩
    · obtain ⟨m, hm, heq⟩ := h.claims hash ((Function.update_of_ne hsame _ _).symm.trans hused)
      exact ⟨m, Nat.le_succ_of_le hm, heq⟩
  refine ⟨s', ⟨h.reachable.call hexec, ?_, ?_, ?_, hcls, ?_⟩⟩
  · rw [hmoved.eq]
    exact h.inProgress
  · rw [hmoved.eq]
    exact h.unchallenged
  · rw [hmoved.eq, range_succ, map_append, ← h.claimData_eq]
    rw [map_singleton, crowdedClaim_succ hn, hmove]
  · rw [hmoved.eq]
    exact (congrArg (· + 8 * 10 ^ 16) h.balance).trans (Nat.succ_mul n _).symm

lemma exists_crowded (hn : n ≤ 266) : ∃ s, Crowded n s := by
  induction n with
  | zero => exact ⟨_, crowded_zero⟩
  | succ n ih =>
    obtain ⟨s, hs⟩ := ih (by omega)
    exact hs.succ (by omega)

def crowdedView (n : ℕ) : Claim := decodeClaim (crowdedClaim n) n

lemma Crowded.mem_iff (h : Crowded n s) {c : Claim} :
    c ∈ getAllClaims s ↔ ∃ i < n + 1, c = crowdedView i := by
  constructor
  · intro hc
    obtain ⟨i, d, hd, rfl⟩ := mem_getAllClaims hc
    have hi : i < n + 1 := by
      have hlen := (getElem?_eq_some_iff.mp hd).1
      rwa [h.claimData_eq, length_map, length_range] at hlen
    rw [h.getElem? hi] at hd
    exact ⟨i, hi, by rw [crowdedView, Option.some.inj hd]⟩
  · rintro ⟨i, hi, rfl⟩
    refine mem_of_getElem? (i := i) ?_
    rw [getElem?_getAllClaims, h.getElem? hi]
    rfl

def crowdedMove : Claim :=
  answer (crowdedView 9) (crowdedView 9).position.attack
    (Hash.ofBytes ([10, 254] ++ replicate 29 0 ++ [1]))

lemma encoded_crowdedMove : crowdedMove.encoded = (crowdedView 266).encoded ∧
    (∀ n < 267, (crowdedView n).gIndex ≠ crowdedMove.gIndex) ∧
      ∀ i < 10, (crowdedView i).encoded ≠ crowdedMove.encoded := by
  decide +kernel

/-- The identifiers of the claims do not collide: four bytes tell them apart. -/
theorem Crowded.injOn (h : Crowded n s) (hn : n < 267) :
    Set.InjOn crowdedEnv.keccak256
      (Claim.encoded '' {c | c ∈ getAllClaims s ∨ c = crowdedMove}) := by
  let key (hash : Hash) : ℕ :=
    if hash.1.getD 3 0 = 255 then 256 * (hash.1.getD 1 0).toNat + (hash.1.getD 2 0).toNat
    else if hash.1.getD 3 0 = 254 then 266 else (hash.1.getD 3 0).toNat
  have hkey : ∀ j < 267, key (crowdedEnv.keccak256 (crowdedView j).encoded) = j := by decide +kernel
  have hidx : ∀ c, c ∈ getAllClaims s ∨ c = crowdedMove →
      ∃ j < 267, c.encoded = (crowdedView j).encoded := by
    rintro c (hc | rfl)
    · obtain ⟨j, hj, rfl⟩ := h.mem_iff.mp hc
      exact ⟨j, by omega, rfl⟩
    · exact ⟨266, by decide, encoded_crowdedMove.1⟩
  rintro _ ⟨c, hc, rfl⟩ _ ⟨d, hd, rfl⟩ heq
  obtain ⟨j, hj, hcj⟩ := hidx c hc
  obtain ⟨k, hk, hdk⟩ := hidx d hd
  rw [hcj, hdk] at heq ⊢
  rw [← hkey j hj, heq, hkey k hk]

/-- A solver whose trace has the value of the move everywhere. -/
def crowdedSolver : ClaimSolver where
  keccak256 := crowdedEnv.keccak256
  trace := ⟨fun _ _ _ => .ok crowdedMove.value, fun _ _ _ => .error .unavailable, fun _ => .ok none⟩
  gameDepth := crowdedEnv.maxGameDepth

/-- The eighth claim is honest. -/
def crowdedTracker : HonestClaimTracker where
  agreed := fun hash => decide (hash = (crowdedView 8).id crowdedEnv.keccak256)
  counters := fun _ => none

/-- The solver answers the ninth claim, which attacks an honest one. -/
theorem Crowded.proposable (h : Crowded n s) (hn : 9 ≤ n) :
    Proposable crowdedEnv s crowdedMove := by
  refine ⟨crowdedSolver.trace, crowdedTracker, crowdedView 9, h.mem_iff.mpr ⟨9, by omega, rfl⟩, ?_⟩
  change crowdedSolver.nextMove (crowdedView 9) _ crowdedTracker = _
  have hget : (newGameFromContracts crowdedEnv s).claims[8]? = some (crowdedView 8) := by
    change (getAllClaims s)[8]? = _
    rw [getElem?_getAllClaims, h.getElem? (by omega)]
    rfl
  have hpar : (newGameFromContracts crowdedEnv s).getParent (crowdedView 9) =
      .ok (crowdedView 8) := by
    rw [GameState.getParent, GameState.getParent?, if_neg (by decide),
      show (crowdedView 9).parentContractIndex = 8 by decide, hget]
  have hhonest : crowdedTracker.isHonest crowdedSolver.keccak256 (crowdedView 8) = true :=
    decide_eq_true rfl
  have hctr : crowdedSolver.shouldCounter (newGameFromContracts crowdedEnv s) (crowdedView 9)
      crowdedTracker = .ok true := by
    rw [shouldCounter, if_neg (by decide +kernel), hpar, ok_bind, if_pos hhonest]
    rfl
  have hdisagree : crowdedSolver.agreeWithClaim (newGameFromContracts crowdedEnv s) (crowdedView 9) =
      .ok false := congrArg Except.ok (decide_eq_false (by decide))
  rw [nextMove, hctr, ok_bind, hdisagree, ok_bind]
  rfl

/-- The identifier of the move is the one of the last claim, which has another position, another value
and another parent. -/
theorem crowded_game_hides_move : ∃ s, Game.Reachable crowdedEnv s ∧
    Proposable crowdedEnv s crowdedMove ∧
    Set.InjOn crowdedEnv.keccak256 (Claim.encoded '' {c | c ∈ getAllClaims s ∨ c = crowdedMove}) ∧
    (newGameFromContracts crowdedEnv s).isDuplicate crowdedEnv.keccak256 crowdedMove = true ∧
    ∀ c ∈ getAllClaims s, ¬Same c crowdedMove := by
  obtain ⟨s, hs⟩ := exists_crowded (le_refl 266)
  refine ⟨s, hs.reachable, hs.proposable (by decide), hs.injOn (by decide), ?_, ?_⟩
  · refine newGameState_claimIDs.mpr ⟨crowdedView 266, hs.mem_iff.mpr ⟨266, by decide, rfl⟩, ?_⟩
    exact congrArg crowdedEnv.keccak256 encoded_crowdedMove.1.symm
  · intro c hc hsame
    obtain ⟨n, hn, rfl⟩ := hs.mem_iff.mp hc
    exact encoded_crowdedMove.2.1 n hn hsame.gIndex_eq

/-- Before the last claim is made, duplicate detection is exact for the move. -/
theorem duplicate_exact_iff_sample : ∃ s, Game.Reachable crowdedEnv s ∧
    Proposable crowdedEnv s crowdedMove ∧
    ((newGameFromContracts crowdedEnv s).isDuplicate crowdedEnv.keccak256 crowdedMove = true ↔
      ∃ c ∈ getAllClaims s, Same c crowdedMove) := by
  obtain ⟨s, hs⟩ := exists_crowded (n := 9) (by decide)
  have hprop := hs.proposable (le_refl 9)
  refine ⟨s, hs.reachable, hprop,
    (duplicate_exact_iff hs.reachable hprop (hs.injOn (by decide))).mpr (.inr ?_)⟩
  intro c hc hshifted
  have htree := hs.reachable.grown.tree
  have hsame := (encoded_eq_iff (inRange_of_mem htree hc) (hprop.inRange htree)).mpr (.inr hshifted)
  obtain ⟨i, hi, rfl⟩ := hs.mem_iff.mp hc
  exact encoded_crowdedMove.2.2 i hi hsame

end FightNight.Challenger
