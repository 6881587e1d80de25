import FightNight.Contracts.RLPReader
import FightNight.Library.Bisection
import FightNight.Library.Word
import FightNight.Preimage.Keccak

/-!
# Positions of claims

The library `LibPosition` of `packages/contracts-bedrock/src/dispute/lib/LibPosition.sol`.  A
position is a node of a binary tree, numbered from the root; the type is `uint128`, and the
functions work on the whole machine word.  Each function is followed by what it computes on the
positions of a game, whose depth is at most 126.
-/

namespace FightNight.Dispute

open Preimage (Hash)
open Word

/-- The reason a call reverts with: the custom errors of the game and of the library for RLP, and
what the compiler and the machine add. -/
inductive GameRevert where
  /-- A compiler-inserted check failed; `0x11` is arithmetic overflow or underflow, `0x12` division
  by zero, `0x32` an array access out of bounds. -/
  | panic (code : ℕ)
  /-- Value sent to a function that is not payable, or value that nobody owns. -/
  | bare
  /-- A loop that does not end. -/
  | outOfGas
  /-- A contract outside the model reverts. -/
  | outside (code : ℕ)
  | rlp (e : RLPRevert)
  | alreadyInitialized
  | anchorRootNotFound
  | unexpectedRootClaim (rootClaim : Hash)
  | incorrectBondAmount
  | cannotDefendRootClaim
  | claimAlreadyExists
  | invalidDisputedClaimIndex
  | gameNotInProgress
  | clockTimeExceeded
  | clockNotExpired
  | gameDepthExceeded
  | invalidParent
  | invalidPrestate
  | validStep
  | duplicateStep
  | invalidLocalIdent
  | outOfOrderResolution
  | claimAlreadyResolved
  | claimAboveSplit
  | invalidOutputRootProof
  | invalidHeaderRLP
  | blockNumberMatches
  | l2BlockNumberChallenged
  | noCreditToClaim
  | bondTransferFailed
  deriving DecidableEq

namespace LibPosition

open Bisection

/-! ## Depth -/

def maxPositionBitlen : ℕ := 126

/-- The remaining part of `depth`, for a position of at most 32 bits: a De Bruijn lookup. -/
def deBruijn (position : ℕ) : ℕ :=
  let position := position ||| shr 1 position
  let position := position ||| shr 2 position
  let position := position ||| shr 4 position
  let position := position ||| shr 8 position
  let position := position ||| shr 16 position
  byte (shr 251 (mul position (shl 224 0x07c4acdd)))
    0x0009010a0d15021d0b0e10121619031e080c141c0f111807131b17061a05041f

def depth (position : ℕ) : ℕ :=
  let depth := shl 6 (lt 0xffffffffffffffff (shr 0 position))
  let depth := depth ||| shl 5 (lt 0xffffffff (shr depth position))
  depth ||| deBruijn (shr depth position)

lemma byte_lookup : ∀ k < 32, byte (shr 251 (mul (2 ^ (k + 1) - 1) (shl 224 0x07c4acdd)))
      0x0009010a0d15021d0b0e10121619031e080c141c0f111807131b17061a05041f = k := by
  decide

variable {D k p : ℕ}

lemma deBruijn_eq (hp : p ≠ 0) (hlt : p < 2 ^ 32) : deBruijn p = p.log2 := by
  have hcov := (covers_one p).double.double.double.double.double
  have hlog : p.log2 < 32 := (Nat.log2_lt hp).mpr hlt
  rw [deBruijn, hcov.eq_pred hp hlt, byte_lookup _ hlog]

lemma or_deBruijn {j : ℕ} (hj : j < 4) (hle : 2 ^ (32 * j) ≤ p) (hlt : p < 2 ^ (32 * j + 32)) :
    32 * j ||| deBruijn (shr (32 * j) p) = p.log2 := by
  have hor : ∀ j < 4, ∀ x < 32, 32 * j ||| x = x + 32 * j := by decide
  have hpos : shr (32 * j) p ≠ 0 := (Nat.div_pos hle (Nat.two_pow_pos _)).ne'
  have hsmall : shr (32 * j) p < 2 ^ 32 := by
    rwa [shr, Nat.div_lt_iff_lt_mul (Nat.two_pow_pos _), ← pow_add, add_comm]
  have hlog : p.log2 = (shr (32 * j) p).log2 + 32 * j := log2_of_div (pos_of_ne_zero hpos) rfl
  rw [deBruijn_eq hpos hsmall, hor j hj _ ((Nat.log2_lt hpos).mpr hsmall), hlog]

lemma depth_eq (hp : p ≠ 0) (hlt : p < 2 ^ 128) : depth p = p.log2 := by
  have hfirst : shl 6 (lt 0xffffffffffffffff (shr 0 p)) = if 2 ^ 64 ≤ p then 64 else 0 := by
    rw [shr, lt]
    split <;> split <;> first | rfl | omega
  have hsecond : ∀ k, shl 5 (lt 0xffffffff (shr k p)) = if 2 ^ (k + 32) ≤ p then 32 else 0 := by
    intro k
    have hiff : 0xffffffff < shr k p ↔ 2 ^ (k + 32) ≤ p := by
      rw [pow_add, mul_comm, ← Nat.le_div_iff_mul_le (Nat.two_pow_pos k)]
      exact Iff.rfl
    rw [lt]
    simp only [hiff]
    split <;> rfl
  rw [depth, hfirst, hsecond]
  by_cases h64 : 2 ^ 64 ≤ p
  · rw [if_pos h64]
    by_cases h96 : 2 ^ 96 ≤ p
    · rw [if_pos h96]
      exact or_deBruijn (j := 3) (by decide) h96 hlt
    · rw [if_neg h96]
      exact or_deBruijn (j := 2) (by decide) h64 (lt_of_not_ge h96)
  · rw [if_neg h64]
    by_cases h32 : 2 ^ 32 ≤ p
    · rw [if_pos h32]
      exact or_deBruijn (j := 1) (by decide) h32 (lt_of_not_ge h64)
    · rw [if_neg h32]
      exact or_deBruijn (j := 0) (by decide) (pos_of_ne_zero hp) (lt_of_not_ge h32)

/-! ## Indices -/

def indexAtDepth (position : ℕ) : ℕ := sub position (shl (depth position) 1)

def parent (position : ℕ) : ℕ := shr 1 position

def rightIndex (position maxDepth : ℕ) : ℕ :=
  let remaining := sub maxDepth (depth position)
  shl remaining position ||| sub (shl remaining 1) 1

def traceIndex (position maxDepth : ℕ) : ℕ :=
  let remaining := sub maxDepth (depth position)
  sub (shl remaining position ||| sub (shl remaining 1) 1)
    (shl maxDepth 1)

def move (position : ℕ) (isAttack : Bool) : ℕ :=
  shl 1 (iszero isAttack.toNat ||| position)

lemma shl_one (hk : k < 256) : shl k 1 = 2 ^ k := by
  rw [shl_of_lt, one_mul]
  rw [one_mul]
  exact Nat.pow_lt_pow_right (by decide) hk

lemma indexAtDepth_eq (hp : p ≠ 0) (hlt : p < 2 ^ 128) : indexAtDepth p = p - 2 ^ p.log2 := by
  have hlog : p.log2 < 128 := (Nat.log2_lt hp).mpr hlt
  rw [indexAtDepth, depth_eq hp hlt, shl_one (by omega),
    sub_of_le (lt_trans hlt (by decide)) (Nat.log2_self_le hp)]

lemma rightIndex_eq (hp : p ≠ 0) (hlt : p.log2 < 128) (hD : p.log2 ≤ D) (hmax : D < 2 ^ 256) :
    rightIndex p D = (reach D p - 1) % 2 ^ 256 := by
  have hremaining : sub D (depth p) = D - p.log2 := by
    rw [depth_eq hp ((Nat.log2_lt hp).mp hlt), sub_of_le hmax hD]
  have hpos := Nat.two_pow_pos (D - p.log2)
  have hones : sub (shl (D - p.log2) 1) 1 = (2 ^ (D - p.log2) - 1) % 2 ^ 256 := by
    rw [shl, one_mul, sub]
    omega
  rw [rightIndex, hremaining, hones, shl, ← Nat.or_mod_two_pow, ← Nat.shiftLeft_eq,
    ← Nat.shiftLeft_add_eq_or_of_lt (Nat.sub_lt hpos one_pos), Nat.shiftLeft_eq, reach,
    Nat.succ_mul, Nat.add_sub_assoc Nat.one_le_two_pow]

lemma traceIndex_eq (hp : p ≠ 0) (hlt : p.log2 < 128) (hD : p.log2 ≤ D) (hmax : D < 2 ^ 256) :
    traceIndex p D = (reach D p - 1 - 2 ^ D) % 2 ^ 256 := by
  have hlow := two_pow_lt_reach hp hD
  have hright : traceIndex p D = sub (rightIndex p D) (shl D 1) := rfl
  rw [hright, rightIndex_eq hp hlt hD hmax, shl, one_mul]
  exact sub_mod (by omega)

lemma move_attack (hlt : p < 2 ^ 128) : move p true = 2 * p := by
  rw [move, Bool.toNat_true, iszero, if_neg one_ne_zero, Nat.zero_or,
    shl_of_lt (by omega), pow_one, mul_comm]

lemma one_or (p : ℕ) : 1 ||| p = p / 2 * 2 + 1 := by
  have hdiv := @Nat.or_div_two 1 p
  have hmod : (1 ||| p) % 2 = 1 := Nat.or_mod_two_eq_one.mpr (.inl rfl)
  rw [Nat.div_eq_of_lt one_lt_two, Nat.zero_or] at hdiv
  omega

lemma move_defend (hlt : p < 2 ^ 128) : move p false = 2 * (p / 2 * 2 + 1) := by
  rw [move, Bool.toNat_false, iszero, if_pos rfl, one_or, shl_of_lt (by omega), pow_one, mul_comm]

lemma log2_move (hp : Canonical p) (hlt : p < 2 ^ 126) (isAttack : Bool) :
    (move p isAttack).log2 = p.log2 + 1 := by
  have hpos := hp.ne_zero
  cases isAttack with
  | true =>
    rw [move_attack (by omega)]
    exact log2_of_div (n := 1) (pos_of_ne_zero hpos) (by omega)
  | false =>
    rcases hp with rfl | ⟨heven, -⟩
    · decide
    · rw [move_defend (by omega), Nat.div_mul_cancel heven.two_dvd, ← log2_succ_of_even hpos heven]
      exact log2_of_div (n := 1) (Nat.succ_pos p) (by omega)

lemma depth_move (hp : Canonical p) (hlt : p < 2 ^ 126) (isAttack : Bool) :
    depth (move p isAttack) = p.log2 + 1 := by
  have hlog := log2_move hp hlt isAttack
  have hp126 : p.log2 < 126 := (Nat.log2_lt hp.ne_zero).mpr hlt
  rw [depth_eq, hlog]
  · intro h0
    rw [h0] at hlog
    exact Nat.succ_ne_zero _ hlog.symm
  · calc move p isAttack < 2 ^ ((move p isAttack).log2 + 1) := Nat.lt_log2_self
      _ ≤ 2 ^ 128 := Nat.pow_le_pow_right (by decide) (by omega)

/-! ## Trace ancestors -/

def traceAncestor (position : ℕ) : ℕ :=
  let lsb := Word.not position &&& add position 1
  let msb := depth lsb
  let a := shr msb position
  a ||| iszero a

lemma not_and_succ {m : ℕ} (hp : p < 2 ^ 128) (h : p = 2 ^ (k + 1) * m + (2 ^ k - 1)) :
    Word.not p &&& add p 1 = 2 ^ k := by
  have hpow := Nat.two_pow_pos k
  have hsucc : p + 1 = 2 ^ (k + 1) * m + 2 ^ k := by omega
  have hk : k < 256 := by
    by_contra hk
    have hle : 2 ^ 256 ≤ 2 ^ k := Nat.pow_le_pow_right (by decide) (Nat.le_of_not_lt hk)
    omega
  rw [add, Nat.mod_eq_of_lt (by omega)]
  apply Nat.eq_of_testBit_eq
  intro i
  rw [Nat.testBit_and, testBit_not (by omega), hsucc, h, Nat.testBit_two_pow_mul_add _ (by rw [pow_succ]; omega),
    Nat.testBit_two_pow_mul_add _ (Nat.pow_lt_pow_succ (by decide)), Nat.testBit_two_pow]
  by_cases hi : i < k + 1
  · rw [if_pos hi, if_pos hi]
    by_cases hik : k = i
    · subst hik
      simp [hk]
    · simp [hik]
  · rw [if_neg hi, if_neg hi]
    have hik : ¬k = i := by omega
    simp [hik]

lemma exists_right_moves (p : ℕ) : ∃ k m, p = 2 ^ (k + 1) * m + (2 ^ k - 1) := by
  induction p using Nat.strong_induction_on with
  | _ p ih =>
    rcases Nat.even_or_odd p with heven | hodd
    · obtain ⟨m, rfl⟩ := heven.two_dvd
      exact ⟨0, m, by simp⟩
    · obtain ⟨q, rfl⟩ := hodd
      obtain ⟨k, m, hq⟩ := ih q (by omega)
      have hpow := Nat.two_pow_pos k
      refine ⟨k + 1, m, ?_⟩
      rw [pow_succ', pow_succ']
      rw [pow_succ'] at hq
      have hmul : 2 * (2 * 2 ^ k) * m = 2 * (2 * 2 ^ k * m) := mul_assoc _ _ _
      omega

/-- The trace ancestor is the canonical node with the same reach. -/
theorem traceAncestor_spec (hp : p ≠ 0) (hlt : p + 1 < 2 ^ 128) :
    Canonical (traceAncestor p) ∧ ∀ D, p.log2 ≤ D → reach D (traceAncestor p) = reach D p := by
  obtain ⟨k, m, hkm⟩ := exists_right_moves p
  have hpow := Nat.two_pow_pos k
  have hk : depth (2 ^ k) = k := by
    rw [depth_eq hpow.ne' (by omega), Nat.log2_two_pow]
  have ha : shr k p = 2 * m := by
    rw [shr, hkm, pow_succ, mul_assoc, Nat.mul_add_div hpow,
      Nat.div_eq_of_lt (Nat.sub_lt hpow one_pos), add_zero]
  have hanc : traceAncestor p = 2 * m ||| iszero (2 * m) := by
    rw [traceAncestor, not_and_succ (by omega) hkm, hk, ha]
  rw [hanc]
  by_cases hm : m = 0
  · -- Only right moves: the position stands for the last leaf, as the root does.
    have hroot : 2 * m ||| iszero (2 * m) = 1 := by rw [hm]; rfl
    rw [hroot]
    rw [hm, mul_zero] at hkm
    refine ⟨.inl rfl, fun D hD => ?_⟩
    obtain ⟨j, rfl⟩ : ∃ j, k = j + 1 := by
      refine Nat.exists_eq_succ_of_ne_zero ?_
      rintro rfl
      exact hp hkm
    exact reach_shiftRight one_pos (k := j) (by omega) hD
  · have hzero : iszero (2 * m) = 0 := if_neg (by omega)
    rw [hzero, Nat.or_zero]
    refine ⟨.inr ⟨even_two_mul m, by omega⟩, fun D hD => ?_⟩
    apply reach_shiftRight (k := k) (by omega) _ hD
    rw [pow_succ, mul_assoc] at hkm
    rw [add_mul, mul_comm]
    omega

lemma log2_traceAncestor_le (hp : p ≠ 0) (hlt : p + 1 < 2 ^ 128) :
    (traceAncestor p).log2 ≤ p.log2 := by
  obtain ⟨hcan, hreach⟩ := traceAncestor_spec hp hlt
  exact hcan.log2_le (le_max_right p.log2 _) (hreach _ (le_max_left _ _))

lemma eq_traceAncestor {q : ℕ} (hp : p ≠ 0) (hlt : p + 1 < 2 ^ 128) (hD : p.log2 ≤ D)
    (hq : Canonical q) (hqD : q.log2 ≤ D) (h : reach D q = reach D p) : q = traceAncestor p := by
  obtain ⟨hcan, hreach⟩ := traceAncestor_spec hp hlt
  exact hq.ext hcan hqD ((log2_traceAncestor_le hp hlt).trans hD) (h.trans (hreach D hD).symm)

def traceAncestorBounded (position upperBoundExclusive : ℕ) : Except GameRevert ℕ := do
  Except.revertIf (depth position ≤ upperBoundExclusive) .claimAboveSplit
  let ancestor := traceAncestor position
  pure (if depth ancestor ≤ upperBoundExclusive then rightIndex ancestor (upperBoundExclusive + 1)
    else ancestor)

lemma traceAncestorBounded_eq {S : ℕ} (hp : S < depth p) (hanc : S < depth (traceAncestor p)) :
    traceAncestorBounded p S = .ok (traceAncestor p) := by
  rw [traceAncestorBounded, Except.revertIf_bind (not_le_of_gt hp)]
  exact congrArg Except.ok (if_neg (not_le_of_gt hanc))

end LibPosition

end FightNight.Dispute
