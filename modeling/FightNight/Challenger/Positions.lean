import FightNight.Dispute.Position
import FightNight.Challenger.Types

/-!
# Positions on chain and off chain

The contract has the number of a node in a machine word, and the challenger its depth and its index
there, as integers of any size.  Both compute the same from them, the trace index in a word; and
what the contract calls a trace ancestor is the highest position with the same trace index
(`positions_agree`).
-/

namespace FightNight.Challenger

open Bisection Dispute LibPosition
open Position (newPositionFromGIndex newPositionFromGIndex_eq)

variable {D a p q : ℕ}

/-- The trace index of a node, as the challenger computes it. -/
def traceIndexAt (D p : ℕ) : Except ChallengerError ℕ := (newPositionFromGIndex p).traceIndex D

/-- Of the positions with the trace index of `p` at an allowed depth, the one of smallest depth. -/
structure Highest (D p : ℕ) (allowed : ℕ → Prop) (a : ℕ) : Prop where
  ne_zero : a ≠ 0
  depth_allowed : allowed (depth a)
  same : traceIndexAt D a = traceIndexAt D p
  least : ∀ q ≠ 0, q < 2 ^ 127 → allowed (depth q) → traceIndexAt D q = traceIndexAt D p → q ≠ a →
    depth a < depth q

lemma traceIndexAt_eq_ok (hp : p ≠ 0) {t : ℕ} :
    traceIndexAt D p = .ok t ↔ p.log2 ≤ D ∧ t + 1 + 2 ^ D = reach D p := by
  obtain ⟨hvalid, hnode⟩ := newPositionFromGIndex_eq hp
  rw [traceIndexAt, hvalid.traceIndex_eq_ok, ← hvalid.log2_toGIndex, hnode]

lemma exists_traceIndexAt (hp : p ≠ 0) (hD : p.log2 ≤ D) :
    ∃ t, traceIndexAt D p = .ok t ∧ t + 1 + 2 ^ D = reach D p := by
  have hlow := two_pow_lt_reach hp hD
  have ht : reach D p - 1 - 2 ^ D + 1 + 2 ^ D = reach D p := by omega
  exact ⟨_, (traceIndexAt_eq_ok hp).mpr ⟨hD, ht⟩, ht⟩

lemma highest_of_reach (hp : p ≠ 0) (hlog : p.log2 < 127) (hD : p.log2 ≤ D) {allowed : ℕ → Prop}
    (ha : a ≠ 0) (halog : a.log2 ≤ p.log2) (hreach : reach D a = reach D p)
    (hdepth : allowed a.log2)
    (hleast : ∀ q, allowed q.log2 → reach D q = reach D a → a.log2 ≤ q.log2) :
    Highest D p allowed a := by
  obtain ⟨t, ht, hsum⟩ := exists_traceIndexAt hp hD
  have hok : ∀ q ≠ 0, traceIndexAt D q = traceIndexAt D p ↔ q.log2 ≤ D ∧ reach D q = reach D a := by
    intro q hq
    rw [ht, traceIndexAt_eq_ok hq]
    omega
  have ha128 := depth_eq ha ((Nat.log2_lt ha).mp (by omega))
  refine ⟨ha, ha128.symm ▸ hdepth, (hok a ha).mpr ⟨halog.trans hD, rfl⟩,
    fun q hq hlt hdepth' hsame hne => ?_⟩
  obtain ⟨-, hreach'⟩ := (hok q hq).mp hsame
  rw [depth_eq hq (by omega)] at hdepth' ⊢
  rw [ha128]
  exact lt_of_le_of_ne (hleast q hdepth' hreach') fun heq => hne (eq_of_reach heq.symm hreach')

/-- What the contract and the challenger compute for a position. -/
theorem positions_agree (hp : p ≠ 0) (hlt : p < 2 ^ 127) (hD : depth p ≤ D) :
    (newPositionFromGIndex p).depth = depth p ∧
    (newPositionFromGIndex p).indexAtDepth = indexAtDepth p ∧
    ((newPositionFromGIndex p).attack.Valid ∧
      (newPositionFromGIndex p).attack.toGIndex = move p true) ∧
    (p ≠ 1 → (newPositionFromGIndex p).defend.Valid ∧
      (newPositionFromGIndex p).defend.toGIndex = move p false) ∧
    (D < 2 ^ 256 → ∃ t, traceIndexAt D p = .ok t ∧ traceIndex p D = t % 2 ^ 256) ∧
    Highest D p (fun _ => True) (traceAncestor p) ∧
    ∀ u < depth p, ∃ a, traceAncestorBounded p u = .ok a ∧ Highest D p (u < ·) a := by
  obtain ⟨hvalid, hnode⟩ := newPositionFromGIndex_eq hp
  have hlog : p.log2 < 127 := (Nat.log2_lt hp).mpr hlt
  have hindex := hvalid.toGIndex_eq
  have hdepth := hvalid.log2_toGIndex
  rw [hnode] at hindex hdepth
  have hshort : (newPositionFromGIndex p).depth < 2 ^ 63 := hdepth ▸ lt_trans hlog (by decide)
  obtain ⟨hcan, hreach⟩ := traceAncestor_spec hp (by omega)
  have hanc := log2_traceAncestor_le hp (by omega)
  have hanc128 := depth_eq hcan.ne_zero ((Nat.log2_lt hcan.ne_zero).mp (by omega))
  rw [depth_eq hp (by omega)] at hD ⊢
  have hhighest : ∀ allowed : ℕ → Prop, allowed (traceAncestor p).log2 →
      Highest D p allowed (traceAncestor p) := fun _ hallowed =>
    highest_of_reach hp hlog hD hcan.ne_zero hanc (hreach D hD) hallowed fun q _ hq =>
      hcan.log2_le (hanc.trans hD) hq.symm
  refine ⟨hdepth.symm, ?_, ?_, fun hne => ?_, fun hmax => ?_, hhighest _ trivial, fun u hu => ?_⟩
  · rw [indexAtDepth_eq hp (by omega), hdepth]
    omega
  · obtain ⟨hattack, -, heq⟩ := hvalid.attack hshort
    exact ⟨hattack, by rw [heq, hnode, move_attack (by omega)]⟩
  · have hpos : (newPositionFromGIndex p).depth ≠ 0 := fun h0 => by
      have hself := @Nat.lt_log2_self p
      rw [hdepth, h0] at hself
      omega
    obtain ⟨hdefend, -, heq⟩ := hvalid.defend hpos hshort
    exact ⟨hdefend, by rw [heq, hnode, move_defend (by omega)]⟩
  · obtain ⟨t, ht, hsum⟩ := exists_traceIndexAt hp hD
    refine ⟨t, ht, ?_⟩
    rw [traceIndex_eq hp (by omega) hD hmax, ← hsum]
    omega
  · rw [traceAncestorBounded, Except.revertIf_bind (by rw [depth_eq hp (by omega)]; omega)]
    refine ⟨_, rfl, ?_⟩
    rw [hanc128]
    split
    case isTrue hle =>
      -- the last position of the subtree, just below the bound
      obtain ⟨hlast, hsame⟩ := @last_below _ hcan.ne_zero (u + 1) (by omega)
      have hne : reach (u + 1) (traceAncestor p) - 1 ≠ 0 := fun h0 => by
        rw [h0] at hlast
        cases hlast
      rw [rightIndex_eq hcan.ne_zero (by omega) (by omega) (by omega),
        Nat.mod_eq_of_lt ((Nat.log2_lt hne).mp (by omega))]
      exact highest_of_reach hp hlog hD hne (by omega) ((hsame D (by omega)).trans (hreach D hD))
        (by omega) fun q hq _ => by omega
    case isFalse hgt => exact hhighest _ (lt_of_not_ge hgt)

theorem positions_agree_second_level :
    Highest 3 5 (fun _ => True) 2 ∧ ∃ a, traceAncestorBounded 5 1 = .ok a ∧ Highest 3 5 (1 < ·) a := by
  obtain ⟨-, -, -, -, -, hanc, hbounded⟩ :=
    @positions_agree 3 5 (by decide) (by decide) (by decide)
  exact ⟨hanc, hbounded 1 (by decide)⟩

/-- With more than `2 ^ 256` leaves, the trace index of the contract can be another one. -/
theorem trace_index_overflows :
    traceIndexAt 257 1 = .ok (2 ^ 257 - 1) ∧ traceIndex 1 257 = 2 ^ 256 - 1 := by
  decide +kernel

end FightNight.Challenger
