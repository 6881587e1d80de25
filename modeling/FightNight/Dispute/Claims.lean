import FightNight.Dispute.FaultDisputeGame
import FightNight.Library.Forest

/-!
# The claims of a game

What each call of a game does, and the tree of its claims over every run.  The root claim has
index zero, the index of a parent is in front of the one of its children, and the positions from
the root to a claim are a line of play in two stages, of which the split depth is the end of the
first.

Parent indices are stored in 32 bits.  They are not cut off, for each move is paid with a bond,
and there is not enough ether for so many of them.
-/

namespace FightNight.Dispute

open Forest Function
open FightNight.Except (bind_eq_ok pure_eq_ok revertIf_eq_ok)
open List hiding getElem?_eq_some_iff
open Preimage (Hash)
open Bisection LibPosition ClaimData Game

variable {env : GameEnv} {s s' : Game} {tx : GameTx}

/-! ## Bonds -/

variable {isAttack : Bool} {claims : List ClaimData} {duration i n : ℕ} {c parent : ClaimData}
  {claim disputed : Hash}

lemma toInt256_nonneg (h : n < 2 ^ 255) : 0 ≤ toInt256 n := by
  rw [toInt256, if_pos h]
  exact Int.natCast_nonneg n

lemma mulWad_eq_ok {x y z : ℕ} (h : mulWad x y = .ok z) : z = x * y / wad ∧ z < 2 ^ 255 := by
  simp only [mulWad, bind_eq_ok, Checked.mul_eq_ok, pure_eq_ok] at h
  obtain ⟨_, ⟨hlt, rfl⟩, rfl⟩ := h
  refine ⟨rfl, Nat.div_lt_of_lt_mul (lt_of_lt_of_le hlt ?_)⟩
  decide

/-- What every move costs at least. -/
def minBond : ℕ := 40000000000000000

lemma le_getRequiredBond {p bond : ℕ} (h : getRequiredBond env p = .ok bond) :
    minBond ≤ bond := by
  simp only [getRequiredBond, bind_eq_ok, revertIf_eq_ok, Checked.mul_eq_ok] at h
  obtain ⟨-, hdepth, _, -, _, -, _, -, numerator, hnumerator, base, hbase, exponent, ⟨-, rfl⟩, rawGas,
    hrawGas, requiredGas, hrequiredGas, -, rfl⟩ := h
  have hbase' : (wad : ℤ) ≤ base :=
    env.fixedPoint.le_expWad (toInt256_nonneg (mulWad_eq_ok hnumerator).2) hbase
  have hexponent : depth p * wad < 2 ^ 255 := by
    have hmax : env.maxGameDepth ≤ 125 := env.maxGameDepth_le
    calc depth p * wad ≤ 125 * wad := Nat.mul_le_mul_right _ (by omega)
      _ < 2 ^ 255 := by decide
  obtain ⟨hlow, hhigh⟩ := env.fixedPoint.powWad_bounds hbase' (toInt256_nonneg hexponent) hrawGas
  -- Half of the base gas at least is charged.
  have hgas : 200000 ≤ requiredGas := by
    rw [(mulWad_eq_ok hrequiredGas).1, Nat.le_div_iff_mul_le (by decide), toUint256]
    omega
  rw [minBond]
  omega

/-! ## What a call does -/

lemma claimAt_eq_ok : s.claimAt i = .ok c ↔ s.claimData[i]? = some c := by
  unfold claimAt
  split
  · rename_i claim hclaim
    rw [hclaim, Except.ok.injEq, Option.some.injEq]
  · rename_i hclaim
    rw [hclaim]
    constructor <;> exact fun h => nomatch h

def newClaim (tx : GameTx) (i position duration : ℕ) (claim : Hash) : ClaimData where
  parentIndex := i % 2 ^ 32
  counteredBy := 0
  claimant := tx.sender
  bond := tx.value % 2 ^ 128
  claim := claim
  position := position
  clock := ⟨duration, tx.timestamp % 2 ^ 64⟩

/-- Everything that a successful move has checked, and what it does. -/
structure Moved (env : GameEnv) (tx : GameTx) (i : ℕ) (claim : Hash) (isAttack : Bool)
    (parent : ClaimData) (duration : ℕ) (s s' : Game) : Prop where
  inProgress : s.status = .inProgress
  parent_eq : s.claimData[i]? = some parent
  isAttack_of : i = 0 ∨ depth (move parent.position isAttack) =
    env.splitDepth + 2 → isAttack = true
  depth_le : depth (move parent.position isAttack) ≤ env.maxGameDepth
  execRoot : depth (move parent.position isAttack) = env.splitDepth + 1 →
    s.verifyExecBisectionRoot env claim i parent.position isAttack = .ok ()
  bond : getRequiredBond env (move parent.position isAttack) = .ok tx.value
  fresh : s.claims (hashClaimPos env claim (move parent.position isAttack) i) = false
  eq : s' = { s with
    claims := update s.claims
      (hashClaimPos env claim (move parent.position isAttack) i) true
    claimData := s.claimData ++
      [newClaim tx i (move parent.position isAttack) duration claim]
    subgames := update s.subgames i (s.subgames i ++ [s.claimData.length])
    wethBalance := s.wethBalance + tx.value }

lemma move_ok (h : s.move env tx disputed i claim isAttack = .ok s') :
    ∃ parent duration, Moved env tx i claim isAttack parent duration s s' := by
  simp only [Game.move, bind_eq_ok, revertIf_eq_ok, pure_eq_ok, claimAt_eq_ok] at h
  obtain ⟨-, hst, parent, hpar, -, -, -, hatk, -, -, -, hdepth, _, hexec, bond, hbond, -,
    hvalue, -, -, -, -, duration, -, -, hfresh, rfl⟩ := h
  refine ⟨parent, duration, ⟨by simpa using hst, hpar, ?_, le_of_not_gt hdepth, ?_, ?_, ?_,
    rfl⟩⟩
  · intro hroot
    cases isAttack with
    | true => rfl
    | false => exact absurd ⟨hroot, rfl⟩ hatk
  · intro hroot
    rwa [checkExecBisectionRoot, if_pos hroot] at hexec
  · rw [hbond, not_not.mp hvalue]
  · simpa using hfresh

lemma Moved.move_eq_ok {d : ℕ} (h : Moved env tx i claim isAttack parent duration s s')
    (hdisp : parent.claim = disputed) (hchal : ¬(s.l2BlockNumberChallenged = true ∧ i = 0))
    (hclock : s.getChallengerDuration env tx i = .ok d) (hd : d ≠ env.maxClockDuration)
    (hextend : Game.extendClock env (depth (move parent.position isAttack)) d = .ok duration) :
    s.move env tx disputed i claim isAttack = .ok s' := by
  have hatk : ¬((i = 0 ∨ depth (move parent.position isAttack) =
      env.splitDepth + 2) ∧ isAttack = false) := by
    rintro ⟨hroot, hfalse⟩
    rw [h.isAttack_of hroot] at hfalse
    cases hfalse
  have hexec : s.checkExecBisectionRoot env (depth (move parent.position
      isAttack)) claim i parent.position isAttack = .ok () := by
    rw [checkExecBisectionRoot]
    split
    · exact h.execRoot ‹_›
    · rfl
  simp only [Game.move, bind_eq_ok, revertIf_eq_ok, pure_eq_ok, claimAt_eq_ok]
  exact ⟨(), not_not.mpr h.inProgress, parent, h.parent_eq, (), not_not.mpr hdisp, (), hatk, (),
    hchal, (), not_lt_of_ge h.depth_le, (), hexec, tx.value, h.bond, (), not_not.mpr rfl, d,
    hclock, (), hd, duration, hextend, (), by simp [h.fresh], h.eq.symm⟩

lemma step_ok {stateData proof : Bytes} (h : s.step env tx i isAttack stateData proof = .ok s') :
    s.status = .inProgress ∧ ∃ c, s.claimData[i]? = some c ∧ c.counteredBy = 0 ∧
      depth (move c.position isAttack) = env.maxGameDepth + 1 ∧
      s' = { s with claimData := s.claimData.set i { c with counteredBy := tx.sender } } := by
  simp only [step, bind_eq_ok, revertIf_eq_ok, pure_eq_ok, claimAt_eq_ok] at h
  obtain ⟨-, hst, c, hc, -, hdepth, -, -, -, -, -, -, -, -, -, -, -, -, -, hctr, rfl⟩ := h
  exact ⟨by simpa using hst, c, hc, by simpa using hctr, by simpa using hdepth, rfl⟩

lemma challengeRootL2Block_ok {proof : OutputRootProof} {headerRLP : Bytes}
    (h : s.challengeRootL2Block env tx proof headerRLP = .ok s') :
    s.status = .inProgress ∧ s.l2BlockNumberChallenged = false ∧
      s' = { s with l2BlockNumberChallenger := tx.sender, l2BlockNumberChallenged := true } := by
  simp only [challengeRootL2Block, bind_eq_ok, revertIf_eq_ok, pure_eq_ok] at h
  obtain ⟨-, hst, -, hfirst, -, -, -, -, _, -, -, -, rfl⟩ := h
  exact ⟨by simpa using hst, by simpa using hfirst, rfl⟩

lemma resolve_ok (h : s.resolve tx = .ok s') :
    ∃ root : ClaimData, s.claimData[0]? = some root ∧ s' = { s with
      status := if root.counteredBy = 0 then .defenderWins else .challengerWins
      resolvedAt := tx.timestamp % 2 ^ 64 } := by
  simp only [resolve, bind_eq_ok, pure_eq_ok, claimAt_eq_ok] at h
  obtain ⟨-, -, -, -, root, hroot, _, -, rfl⟩ := h
  exact ⟨root, hroot, rfl⟩

/-- Who gets the bond of a claim. -/
def payee (c : ClaimData) (counteredBy : Address) : Address :=
  if counteredBy = 0 then c.claimant else counteredBy

/-- The claim with index `i` is resolved, and its bond goes to the recipient. -/
def Game.settle (s : Game) (i : ℕ) (c : ClaimData) (recipient counteredBy : Address) : Game :=
  { s with
    resolvedSubgames := update s.resolvedSubgames i true
    credit := update s.credit recipient (s.credit recipient + c.bond)
    claimData := s.claimData.set i { c with counteredBy := counteredBy } }

section Settle

variable (s : Game) (i : ℕ) (c : ClaimData) (recipient a : Address)

@[simp] lemma settle_resolvedSubgames :
    (s.settle i c recipient a).resolvedSubgames = update s.resolvedSubgames i true := rfl

@[simp] lemma settle_credit : (s.settle i c recipient a).credit =
    update s.credit recipient (s.credit recipient + c.bond) := rfl

@[simp] lemma settle_claimData : (s.settle i c recipient a).claimData =
    s.claimData.set i { c with counteredBy := a } := rfl

end Settle

def Game.withCheckpoint (s : Game) (i : ℕ) (checkpoint : ResolutionCheckpoint) : Game :=
  { s with resolutionCheckpoints := update s.resolutionCheckpoints i checkpoint }

/-- The root claim was challenged by its block number. -/
def Game.RootChallenged (s : Game) (i : ℕ) : Prop := i = 0 ∧ s.l2BlockNumberChallenged = true

instance (s : Game) (i : ℕ) : Decidable (s.RootChallenged i) :=
  inferInstanceAs (Decidable (_ ∧ _))

/-- Who counters a claim whose children have all been visited. -/
def Game.counter (s : Game) (i : ℕ) (checkpoint : ResolutionCheckpoint) : Address :=
  if s.RootChallenged i then s.l2BlockNumberChallenger else checkpoint.counteredBy

/-- Who gets the bond of a claim whose children have all been visited. -/
def Game.recipient (s : Game) (i : ℕ) (c : ClaimData) (checkpoint : ResolutionCheckpoint) : Address :=
  if s.RootChallenged i then s.l2BlockNumberChallenger else payee c checkpoint.counteredBy

lemma distributeBond_ok {recipient : Address} (h : s.distributeBond recipient c = .ok s') :
    s' = { s with credit := update s.credit recipient (s.credit recipient + c.bond) } := by
  simp only [distributeBond, bind_eq_ok, Checked.add_eq_ok, pure_eq_ok] at h
  obtain ⟨_, ⟨-, rfl⟩, rfl⟩ := h
  rfl

lemma settle_self (hc : s.claimData[i]? = some c) (recipient : Address) :
    s.settle i c recipient c.counteredBy = { s with
      resolvedSubgames := update s.resolvedSubgames i true
      credit := update s.credit recipient (s.credit recipient + c.bond) } := by
  obtain ⟨hi, rfl⟩ := getElem?_eq_some_iff.mp hc
  rw [settle, set_getElem_self]

/-- Everything that a successful `resolveClaim` does: it resolves a claim without children, or it
visits some children, and resolves the claim if these are the last ones. -/
theorem resolveClaim_cases (h : s.resolveClaim env tx i n = .ok s') :
    s.status = .inProgress ∧ ∃ c, s.claimData[i]? = some c ∧ s.resolvedSubgames i = false ∧
      ((s.subgames i = [] ∧ i ≠ 0 ∧ s' = s.settle i c (payee c c.counteredBy) c.counteredBy) ∨
        (¬(s.subgames i = [] ∧ i ≠ 0) ∧ ∃ checkpoint, s.scanChildren i n = .ok checkpoint ∧
          ((checkpoint.subgameIndex ≠ (s.subgames i).length ∧ s' = s.withCheckpoint i checkpoint) ∨
            (checkpoint.subgameIndex = (s.subgames i).length ∧
              s' = (s.withCheckpoint i checkpoint).settle i c (s.recipient i c checkpoint)
                (s.counter i checkpoint))))) := by
  simp only [resolveClaim, bind_eq_ok, revertIf_eq_ok, claimAt_eq_ok, length_eq_zero_iff] at h
  obtain ⟨-, hst, c, hc, -, -, -, -, -, hopen, h⟩ := h
  refine ⟨by simpa using hst, c, hc, by simpa using hopen, ?_⟩
  by_cases hleaf : s.subgames i = [] ∧ i ≠ 0
  · rw [if_pos hleaf] at h
    simp only [bind_eq_ok, pure_eq_ok] at h
    obtain ⟨t, ht, rfl⟩ := h
    obtain rfl := distributeBond_ok ht
    exact .inl ⟨hleaf.1, hleaf.2, (settle_self hc _).symm⟩
  · rw [if_neg hleaf] at h
    simp only [bind_eq_ok] at h
    obtain ⟨checkpoint, hscan, h⟩ := h
    refine .inr ⟨hleaf, checkpoint, hscan, ?_⟩
    by_cases hlast : checkpoint.subgameIndex = (s.subgames i).length
    · rw [if_pos hlast] at h
      refine .inr ⟨hlast, ?_⟩
      by_cases hroot : s.RootChallenged i
      · rw [recipient, if_pos hroot, counter, if_pos hroot]
        rw [if_pos (show i = 0 ∧ s.l2BlockNumberChallenged = true from hroot)] at h
        simp only [bind_eq_ok, pure_eq_ok] at h
        obtain ⟨t, ht, rfl⟩ := h
        obtain rfl := distributeBond_ok ht
        rfl
      · rw [recipient, if_neg hroot, counter, if_neg hroot]
        rw [if_neg (show ¬(i = 0 ∧ s.l2BlockNumberChallenged = true) from hroot)] at h
        simp only [bind_eq_ok, pure_eq_ok] at h
        obtain ⟨t, ht, rfl⟩ := h
        obtain rfl := distributeBond_ok ht
        rfl
    · rw [if_neg hlast, pure_eq_ok] at h
      exact .inl ⟨hlast, h.symm⟩

/-- What each call of a game does when it succeeds, with what it has checked. -/
inductive Effect (env : GameEnv) (tx : GameTx) (s : Game) : GameCall → Game → Prop
  | move {disputed claim : Hash} {i duration : ℕ} {isAttack : Bool} {parent : ClaimData} {s' : Game}
    (hsupply : s.wethBalance + tx.value < etherSupply)
    (h : Moved env tx i claim isAttack parent duration s s') :
    Effect env tx s (.move disputed i claim isAttack) s'
  | step {i : ℕ} {isAttack : Bool} {stateData proof : Bytes} {c : ClaimData}
    (hc : s.claimData[i]? = some c) (hopen : c.counteredBy = 0)
    (hdepth : depth (move c.position isAttack) = env.maxGameDepth + 1) :
    Effect env tx s (.step i isAttack stateData proof)
      { s with claimData := s.claimData.set i { c with counteredBy := tx.sender } }
  | challengeRootL2Block {proof : OutputRootProof} {headerRLP : Bytes}
    (hfirst : s.l2BlockNumberChallenged = false) :
    Effect env tx s (.challengeRootL2Block proof headerRLP)
      { s with l2BlockNumberChallenger := tx.sender, l2BlockNumberChallenged := true }
  /-- A claim without children is resolved. -/
  | leaf {i n : ℕ} {c : ClaimData} (hc : s.claimData[i]? = some c)
    (hopen : s.resolvedSubgames i = false) (hleaf : s.subgames i = [] ∧ i ≠ 0) :
    Effect env tx s (.resolveClaim i n) (s.settle i c (payee c c.counteredBy) c.counteredBy)
  /-- Some children are visited, but not the last one. -/
  | scan {i n : ℕ} {c : ClaimData} {checkpoint : ResolutionCheckpoint}
    (hc : s.claimData[i]? = some c) (hopen : s.resolvedSubgames i = false)
    (hleaf : ¬(s.subgames i = [] ∧ i ≠ 0)) (hscan : s.scanChildren i n = .ok checkpoint)
    (hrest : checkpoint.subgameIndex ≠ (s.subgames i).length) :
    Effect env tx s (.resolveClaim i n) (s.withCheckpoint i checkpoint)
  /-- The last children are visited, and the claim is resolved. -/
  | settle {i n : ℕ} {c : ClaimData} {checkpoint : ResolutionCheckpoint}
    (hc : s.claimData[i]? = some c) (hopen : s.resolvedSubgames i = false)
    (hleaf : ¬(s.subgames i = [] ∧ i ≠ 0)) (hscan : s.scanChildren i n = .ok checkpoint)
    (hlast : checkpoint.subgameIndex = (s.subgames i).length) :
    Effect env tx s (.resolveClaim i n) ((s.withCheckpoint i checkpoint).settle i c
      (s.recipient i c checkpoint) (s.counter i checkpoint))
  | resolve {root : ClaimData} (hroot : s.claimData[0]? = some root) :
    Effect env tx s .resolve { s with
      status := if root.counteredBy = 0 then .defenderWins else .challengerWins
      resolvedAt := tx.timestamp % 2 ^ 64 }

lemma exec_effect {call : GameCall} (h : exec env (tx, call) s = .ok s') :
    Effect env tx s call s' := by
  cases call with
  | move disputed i claim isAttack =>
    simp only [exec, bind_eq_ok, revertIf_eq_ok] at h
    obtain ⟨-, hsup, h⟩ := h
    obtain ⟨parent, duration, hmoved⟩ := move_ok h
    exact .move (lt_of_not_ge hsup) hmoved
  | step i isAttack stateData proof =>
    simp only [exec, bind_eq_ok] at h
    obtain ⟨-, -, h⟩ := h
    obtain ⟨-, c, hc, hopen, hdepth, rfl⟩ := step_ok h
    exact .step hc hopen hdepth
  | challengeRootL2Block proof headerRLP =>
    simp only [exec, bind_eq_ok] at h
    obtain ⟨-, -, h⟩ := h
    obtain ⟨-, hfirst, rfl⟩ := challengeRootL2Block_ok h
    exact .challengeRootL2Block hfirst
  | resolveClaim i n =>
    simp only [exec, bind_eq_ok] at h
    obtain ⟨-, -, h⟩ := h
    obtain ⟨-, c, hc, hopen, hcases⟩ := resolveClaim_cases h
    rcases hcases with ⟨hleaf, hi, rfl⟩ | ⟨hleaf, checkpoint, hscan, ⟨hrest, rfl⟩ | ⟨hlast, rfl⟩⟩
    · exact .leaf hc hopen ⟨hleaf, hi⟩
    · exact .scan hc hopen hleaf hscan hrest
    · exact .settle hc hopen hleaf hscan hlast
  | resolve =>
    simp only [exec, bind_eq_ok] at h
    obtain ⟨-, -, h⟩ := h
    obtain ⟨root, hroot, rfl⟩ := resolve_ok h
    exact .resolve hroot

/-! ## The tree of claims -/

/-- What is fixed when a claim is made. -/
def ClaimData.core (c : ClaimData) : ClaimData := { c with counteredBy := 0 }

lemma exists_core_eq {claims' : List ClaimData} {c' : ClaimData}
    (hcore : claims'.map core = claims.map core) (hc' : claims'[i]? = some c') :
    ∃ c, claims[i]? = some c ∧ c'.core = c.core := by
  have hi := congrArg (·[i]?) hcore
  simp only [getElem?_map, hc'] at hi
  obtain ⟨c, hc, hsame⟩ := Option.map_eq_some_iff.mp hi.symm
  exact ⟨c, hc, hsame.symm⟩

/-- The claims of a game as a tree. -/
structure Tree (env : GameEnv) (claims : List ClaimData) : Prop where
  root : ∃ c, claims[0]? = some c ∧ c.parentIndex = noParent ∧ c.position = 1
  parent_lt : ∀ {i c}, claims[i]? = some c → i ≠ 0 → c.parentIndex < i
  staged : ∀ {i c}, claims[i]? = some c → Staged env.splitDepth
    ((lineage ClaimData.parentIndex claims i).map ClaimData.position)
  depth_le : ∀ c ∈ claims, c.position.log2 ≤ env.maxGameDepth
  length_lt : claims.length < noParent

namespace Tree

variable {claims : List ClaimData} {i : ℕ} {c : ClaimData}

section

variable (h : Tree env claims)
include h

lemma lineage_cons (hc : claims[i]? = some c) :
    ∃ l, lineage ClaimData.parentIndex claims i = c :: l ∧ (l = [] ↔ i = 0) ∧
      (i ≠ 0 → l = lineage ClaimData.parentIndex claims c.parentIndex) := by
  by_cases hi : i = 0
  · refine ⟨[], lineage_of_le hc (hi ▸ Nat.zero_le _), by simp [hi], ?_⟩
    exact fun h0 => absurd hi h0
  · have hlt := h.parent_lt hc hi
    refine ⟨_, lineage_of_lt hc hlt, ?_, fun _ => rfl⟩
    have hlen := (getElem?_eq_some_iff.mp hc).1
    rw [lineage_eq (getElem?_eq_getElem (lt_trans hlt hlen))]
    simp [hi]

lemma line {l : List ClaimData} (hl : lineage ClaimData.parentIndex claims i = c :: l) :
    Staged env.splitDepth (c.position :: l.map ClaimData.position) := by
  cases hi : claims[i]? with
  | none =>
    rw [lineage_of_none hi] at hl
    cases hl
  | some d =>
    have hstg := h.staged hi
    rwa [hl] at hstg

lemma position (hc : c ∈ claims) :
    Canonical c.position ∧ c.position < 2 ^ 126 := by
  obtain ⟨i, hi⟩ := getElem?_of_mem hc
  obtain ⟨l, hl, -, -⟩ := h.lineage_cons hi
  refine ⟨(h.line hl).line.canonical one_pos (.inl rfl), ?_⟩
  have hmax : env.maxGameDepth ≤ 125 := env.maxGameDepth_le
  have hdepth := h.depth_le c hc
  calc c.position < 2 ^ (c.position.log2 + 1) := Nat.lt_log2_self
    _ ≤ 2 ^ 126 := Nat.pow_le_pow_right (by decide) (by omega)

lemma exists_parent (hc : claims[i]? = some c) (hi : i ≠ 0) :
    ∃ p, claims[c.parentIndex]? = some p ∧ c.position.log2 = p.position.log2 + 1 ∧
      (c.position = 2 * p.position ∨ c.position = 2 * (p.position + 1) ∧ c.parentIndex ≠ 0) := by
  have hlt := lt_trans (h.parent_lt hc hi) (getElem?_eq_some_iff.mp hc).1
  obtain ⟨l, hl, -, hup⟩ := h.lineage_cons hc
  obtain ⟨m, hm, hroot, -⟩ := h.lineage_cons (getElem?_eq_getElem hlt)
  rw [hup hi, hm] at hl
  have hline := (h.line hl).line
  obtain ⟨hpar, hmove⟩ := hline.cases_cons
  refine ⟨_, getElem?_eq_getElem hlt, hline.log2_cons one_pos hpar, ?_⟩
  rwa [Ne, hroot] at hmove

lemma depth_eq (hc : c ∈ claims) :
    LibPosition.depth c.position = c.position.log2 := by
  obtain ⟨hcan, hlt⟩ := h.position hc
  exact LibPosition.depth_eq hcan.ne_zero (lt_trans hlt (by decide))

lemma congr {claims' : List ClaimData}
    (hcore : claims'.map core = claims.map core) : Tree env claims' := by
  have hlen : claims'.length = claims.length := by
    have := congrArg length hcore
    rwa [length_map, length_map] at this
  have hpositions : ∀ i, (lineage parentIndex claims' i).map ClaimData.position =
      (lineage parentIndex claims i).map ClaimData.position := by
    intro i
    have hmap := congrArg (fun cs => (lineage parentIndex cs i).map
      ClaimData.position) hcore
    simp only [lineage_map, map_map] at hmap
    exact hmap
  refine ⟨?_, ?_, ?_, ?_, hlen ▸ h.length_lt⟩
  · obtain ⟨c, hc, hpar, hpos⟩ := h.root
    obtain ⟨c', hc', hsame⟩ := exists_core_eq hcore.symm hc
    exact ⟨c', hc', (congrArg parentIndex hsame).symm.trans hpar,
      (congrArg ClaimData.position hsame).symm.trans hpos⟩
  · intro i c' hc' hi
    obtain ⟨c, hc, hsame⟩ := exists_core_eq hcore hc'
    have hlt : c.core.parentIndex < i := h.parent_lt (c := c) hc hi
    rwa [← hsame] at hlt
  · intro i c' hc'
    obtain ⟨c, hc, -⟩ := exists_core_eq hcore hc'
    rw [hpositions]
    exact h.staged hc
  · intro c' hc'
    obtain ⟨i, hi⟩ := getElem?_of_mem hc'
    obtain ⟨c, hc, hsame⟩ := exists_core_eq hcore hi
    change c'.core.position.log2 ≤ env.maxGameDepth
    rw [hsame]
    exact h.depth_le c (mem_of_getElem? hc)

lemma staged_move (hc : claims[i]? = some c) {isAttack : Bool}
    (hatk : i = 0 ∨ LibPosition.depth (LibPosition.move c.position isAttack) =
      env.splitDepth + 2 → isAttack = true) :
    Staged env.splitDepth (LibPosition.move c.position isAttack ::
      (lineage ClaimData.parentIndex claims i).map ClaimData.position) := by
  obtain ⟨l, hl, hroot, -⟩ := h.lineage_cons hc
  have hline := h.line hl
  have hlt : c.position < 2 ^ 126 := (h.position (mem_of_getElem? hc)).2
  rw [hl]
  cases isAttack with
  | true =>
    rw [move_attack (by omega)]
    exact hline.attack
  | false =>
    have hi : i ≠ 0 := fun hi => nomatch hatk (.inl hi)
    have hne : l.map ClaimData.position ≠ [] := by
      rwa [Ne, map_eq_nil_iff, hroot]
    rw [move_defend (by omega), Nat.div_mul_cancel (hline.line.even hne).two_dvd] at hatk ⊢
    refine hline.defend hne fun hlen => ?_
    -- A defence at the split would go to the second level below it.
    have hlog := (hline.line.defend hne).log2_eq_length
    rw [length_cons, hlen] at hlog
    have hdepth : depth (2 * (c.position + 1)) = env.splitDepth + 2 := by
      rw [LibPosition.depth_eq (by omega) (by omega), hlog]
    exact nomatch hatk (.inr hdepth)

lemma depth_move (hc : c ∈ claims) (isAttack : Bool) :
    (move c.position isAttack).log2 = c.position.log2 + 1 ∧
      depth (move c.position isAttack) = c.position.log2 + 1 := by
  obtain ⟨hcan, hlt⟩ := h.position hc
  exact ⟨log2_move hcan hlt _, LibPosition.depth_move hcan hlt _⟩

lemma concat (hc : claims[i]? = some c) {d : ClaimData} (hpar : d.parentIndex = i)
    (hstg : Staged env.splitDepth (d.position ::
      (lineage ClaimData.parentIndex claims i).map ClaimData.position))
    (hdepth : d.position.log2 ≤ env.maxGameDepth) (hlen : claims.length + 1 < noParent) :
    Tree env (claims ++ [d]) := by
  have hi : i < claims.length := (getElem?_eq_some_iff.mp hc).1
  refine ⟨?_, ?_, ?_, ?_, by rwa [length_append]⟩
  · obtain ⟨r, hr, hrest⟩ := h.root
    exact ⟨r, by rw [getElem?_append_left (by omega), hr], hrest⟩
  · intro j e he hj
    rcases getElem?_concat_cases he with ⟨he, -⟩ | ⟨rfl, rfl⟩
    · exact h.parent_lt he hj
    · rwa [hpar]
  · intro j e he
    rcases getElem?_concat_cases he with ⟨hold, hj⟩ | ⟨rfl, rfl⟩
    · rw [lineage_append hj]
      exact h.staged hold
    · rwa [lineage_of_lt he (by omega), hpar, lineage_append hi]
  · exact forall_mem_append.mpr ⟨h.depth_le, forall_mem_singleton.mpr hdepth⟩

end

end Tree

/-- What the calls of a game keep: the claims are a tree, the list of subgames of each claim is the
list of its children, and every move has left a bond. -/
structure Grown (env : GameEnv) (s : Game) : Prop where
  tree : Tree env s.claimData
  subgames_eq : ∀ i, s.subgames i = children ClaimData.parentIndex s.claimData i
  funded : (s.claimData.length - 1) * minBond ≤ s.wethBalance
  supply : s.wethBalance < etherSupply

/-- Two games with the same claims, up to who counters them. -/
structure SameTree (s s' : Game) : Prop where
  core_eq : s'.claimData.map core = s.claimData.map core
  subgames_eq : s'.subgames = s.subgames
  startingOutputRoot_eq : s'.startingOutputRoot = s.startingOutputRoot
  wethBalance_eq : s'.wethBalance = s.wethBalance

lemma map_core_set (hc : claims[i]? = some c) (a : Address) :
    (claims.set i { c with counteredBy := a }).map core = claims.map core := by
  have hcore : (claims.map core)[i]? = some c.core := by
    rw [getElem?_map, hc, Option.map_some]
  obtain ⟨hi, hget⟩ := getElem?_eq_some_iff.mp hcore
  have hset : core { c with counteredBy := a } = (claims.map core)[i] := hget.symm
  rw [map_set, hset, set_getElem_self]

lemma Effect.sameTree {call : GameCall} (h : Effect env tx s call s')
    (hmove : ¬∃ disputed i claim isAttack, call = .move disputed i claim isAttack) :
    SameTree s s' := by
  cases h with
  | move _ _ => exact absurd ⟨_, _, _, _, rfl⟩ hmove
  | step hc _ _ | leaf hc _ _ | settle hc _ _ _ _ => exact ⟨map_core_set hc _, rfl, rfl, rfl⟩
  | challengeRootL2Block _ | scan _ _ _ _ _ | resolve _ => exact ⟨rfl, rfl, rfl, rfl⟩

lemma Effect.tree {call : GameCall} (h : Effect env tx s call s') :
    (∃ i claim isAttack parent duration, s.wethBalance + tx.value < etherSupply ∧
        Moved env tx i claim isAttack parent duration s s') ∨ SameTree s s' := by
  by_cases hmove : ∃ disputed i claim isAttack, call = .move disputed i claim isAttack
  · obtain ⟨_, _, _, _, rfl⟩ := hmove
    cases h with
    | move hsup h => exact .inl ⟨_, _, _, _, _, hsup, h⟩
  · exact .inr (h.sameTree hmove)

lemma Grown.congr (hs : Grown env s) (h : SameTree s s') : Grown env s' := by
  have hlen : s'.claimData.length = s.claimData.length := by
    have := congrArg length h.core_eq
    rwa [length_map, length_map] at this
  have hpars := congrArg (map parentIndex) h.core_eq
  rw [map_map, map_map] at hpars
  refine ⟨hs.tree.congr h.core_eq, fun i => ?_, ?_, ?_⟩
  · rw [h.subgames_eq, hs.subgames_eq]
    exact (children_congr hpars i).symm
  · rw [hlen, h.wethBalance_eq]
    exact hs.funded
  · rw [h.wethBalance_eq]
    exact hs.supply

lemma Tree.length_pos (h : Tree env claims) : 0 < claims.length := by
  obtain ⟨c, hc, -⟩ := h.root
  exact (getElem?_eq_some_iff.mp hc).1

lemma Grown.move (hs : Grown env s) (hsup : s.wethBalance + tx.value < etherSupply)
    (h : Moved env tx i claim isAttack parent duration s s') : Grown env s' := by
  have hi : i < s.claimData.length := (getElem?_eq_some_iff.mp h.parent_eq).1
  have hbond := le_getRequiredBond h.bond
  have hlen := hs.tree.length_lt
  have hpos := hs.tree.length_pos
  have hfund : s.claimData.length * minBond ≤ s.wethBalance + tx.value := by
    calc s.claimData.length * minBond = (s.claimData.length - 1) * minBond + minBond := by
          rw [← Nat.succ_mul, Nat.succ_eq_add_one, Nat.sub_add_cancel hpos]
      _ ≤ s.wethBalance + tx.value := add_le_add hs.funded hbond
  have hlen' : s.claimData.length + 1 < noParent := by grind [minBond, etherSupply, noParent]
  have hidx : i % 2 ^ 32 = i := by grind [noParent]
  have hstg := hs.tree.staged_move h.parent_eq h.isAttack_of
  obtain ⟨hlog, hdepth⟩ := hs.tree.depth_move (mem_of_getElem? h.parent_eq) isAttack
  have hdepth_le := h.depth_le
  rw [hdepth, ← hlog] at hdepth_le
  rw [h.eq]
  refine ⟨hs.tree.concat h.parent_eq hidx hstg hdepth_le hlen', ?_, ?_, hsup⟩
  · intro j
    have hne : s.claimData ≠ [] := ne_nil_of_length_pos hpos
    rw [children_concat hne, ← hs.subgames_eq]
    simp only [newClaim, hidx, update_apply]
    by_cases hj : j = i
    · rw [if_pos hj, if_pos hj.symm, hj]
    · grind
  · rwa [length_append, length_singleton]

lemma tree_singleton {root : ClaimData} (hpar : root.parentIndex = noParent)
    (hpos : root.position = 1) : Tree env [root] := by
  have honly : ∀ {i c}, [root][i]? = some c → i = 0 ∧ c = root := fun hc =>
    (@getElem?_concat_cases _ [] _ _ _ hc).resolve_left fun h => Nat.not_lt_zero _ h.2
  have hlen : 1 < noParent := by decide
  refine ⟨⟨root, rfl, hpar, hpos⟩, ?_, ?_, ?_, hlen⟩
  · exact fun hc hi => absurd (honly hc).1 hi
  · intro i c hc
    obtain ⟨rfl, rfl⟩ := honly hc
    rw [lineage_of_le hc (Nat.zero_le _), map_singleton, hpos]
    exact .first .start (Nat.succ_le_succ (Nat.zero_le _))
  · intro c hc
    rw [mem_singleton.mp hc, hpos]
    exact Nat.zero_le _

lemma grown_created {anchor : OutputRoot} (h : created env tx anchor = .ok s) :
    Grown env s := by
  simp only [created, initializeGame, bind_eq_ok, revertIf_eq_ok, pure_eq_ok] at h
  obtain ⟨-, hsup, -, -, -, -, -, -, rfl⟩ := h
  refine ⟨tree_singleton rfl rfl, fun i => ?_, ?_, ?_⟩
  · simp [deployed, children]
  · simp [deployed]
  · simpa [deployed] using hsup

lemma Grown.call {call : GameCall} (hs : Grown env s) (h : Effect env tx s call s') :
    Grown env s' := by
  rcases h.tree with ⟨_, _, _, _, _, hsup, hmoved⟩ | hsame
  · exact hs.move hsup hmoved
  · exact hs.congr hsame

lemma Game.Reachable.grown (h : Reachable env s) : Grown env s := by
  obtain ⟨tx, anchor, s₀, calls, hcr, rfl⟩ := h
  have hstep : ∀ c ∈ calls, ∀ s s', Grown env s → exec env c s = .ok s' → Grown env s' :=
    fun _ _ _ _ hs hexec => hs.call (exec_effect hexec)
  exact Run.runAll_inv hstep (grown_created hcr)

lemma Game.Reachable.call (h : Reachable env s) {call : GameTx × GameCall}
    (hexec : exec env call s = .ok s') : Reachable env s' := by
  obtain ⟨tx, anchor, s₀, calls, hcr, rfl⟩ := h
  refine ⟨tx, anchor, s₀, calls ++ [call], hcr, ?_⟩
  rw [Run.runAll_append, Run.runAll_cons, Run.runAll_nil, Run.attempt_of_ok _ hexec]

end FightNight.Dispute
