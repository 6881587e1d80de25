import FightNight.Dispute.Walks

/-!
# Clocks

What `move` computes from the clocks: the time that the challenger has used, and the clock of the new
claim, with an extension when little time is left.  In a game whose calls come in the order of time,
the first is always computed.  The constructor admits parameters for which the second is not.
-/

namespace FightNight.Dispute

open FightNight.Except Checked Game List
open LibPosition (depth move)
open Preimage (Hash)

variable {env : GameEnv} {tx : GameTx} {s s' : Game} {i now d D next : ℕ} {c : ClaimData}
  {disputed claim : Hash} {isAttack : Bool}

/-! ## Extensions -/

/-- When a challenger who has used the time `d` can move to a depth and leave the granted time: at
the end of the clock there must be a depth above the split depth, and the doubled extension must fit
into the clock, or what is left of it. -/
def Extends (env : GameEnv) (depth d : ℕ) : Prop :=
  (env.maxClockDuration < d + env.clockExtension → env.splitDepth ≠ 0) ∧
    (depth + 1 = env.splitDepth → 2 * env.clockExtension +
      (if env.maxClockDuration < d + env.clockExtension then 0 else d) ≤ env.maxClockDuration)

lemma extendClock_eq (env : GameEnv) (depth d : ℕ) : extendClock env depth d =
    if env.maxClockDuration < d + env.clockExtension then
      extensionPeriod env depth >>= sub (.panic 0x11) env.maxClockDuration
    else .ok d := by
  have hle := env.clockExtension_le
  have hiff : env.maxClockDuration - env.clockExtension < d ↔
      env.maxClockDuration < d + env.clockExtension := by omega
  rw [extendClock, sub, if_pos hle, ok_bind]
  simp only [hiff]
  rfl

lemma extendClock_le (hd : d ≤ env.maxClockDuration) (h : extendClock env D d = .ok next) :
    next ≤ env.maxClockDuration := by
  rw [extendClock_eq] at h
  split at h
  · obtain ⟨_, -, h⟩ := bind_eq_ok.mp h
    obtain ⟨-, rfl⟩ := sub_eq_ok.mp h
    exact Nat.sub_le _ _
  · cases h
    exact hd

/-! ## Clocks of a game -/

/-- The clocks of all claims have started, and none shows more than the greatest duration. -/
def Clocked (env : GameEnv) (now : ℕ) (s : Game) : Prop :=
  ∀ c ∈ s.claimData, c.clock.duration ≤ env.maxClockDuration ∧ c.clock.timestamp ≤ now

lemma getChallengerDuration_le (h : s.getChallengerDuration env tx i = .ok d) :
    d ≤ env.maxClockDuration := by
  simp only [getChallengerDuration, bind_eq_ok, pure_eq_ok] at h
  obtain ⟨-, -, -, -, -, -, -, -, -, -, rfl⟩ := h
  split <;> omega

lemma move_clock (h : s.move env tx disputed i claim isAttack = .ok s') :
    ∃ parent d next, s.claimData[i]? = some parent ∧ s.getChallengerDuration env tx i = .ok d ∧
      extendClock env (depth (move parent.position isAttack)) d = .ok next ∧
      s'.claimData = s.claimData ++ [newClaim tx i (move parent.position isAttack) next claim] := by
  simp only [Game.move, bind_eq_ok, pure_eq_ok, claimAt_eq_ok] at h
  obtain ⟨-, -, parent, hpar, -, -, -, -, -, -, -, -, -, -, -, -, -, -, d, hd, -, -, next, hnext, -, -,
    rfl⟩ := h
  exact ⟨parent, d, next, hpar, hd, hnext, rfl⟩

lemma Clocked.call {call : GameTx × GameCall} (hs : Clocked env now s)
    (hnow : call.1.timestamp ≤ now) (h : exec env call s = .ok s') : Clocked env now s' := by
  obtain ⟨tx, call⟩ := call
  by_cases hmove : ∃ disputed j claim isAttack, call = .move disputed j claim isAttack
  · obtain ⟨_, _, _, _, rfl⟩ := hmove
    obtain ⟨-, -, h⟩ := bind_eq_ok.mp h
    obtain ⟨parent, d, next, -, hd, hnext, hdata⟩ := move_clock h
    intro c hc
    rw [hdata, mem_append, mem_singleton] at hc
    rcases hc with hc | rfl
    · exact hs c hc
    · exact ⟨extendClock_le (getChallengerDuration_le hd) hnext, (Nat.mod_le _ _).trans hnow⟩
  · have hsame := (exec_effect h).sameTree hmove
    intro c' hc'
    obtain ⟨j, hj⟩ := getElem?_of_mem hc'
    obtain ⟨c, hc, hcore⟩ := exists_core_eq hsame.core_eq hj
    have hclock := congrArg ClaimData.clock hcore
    change c'.clock = c.clock at hclock
    rw [hclock]
    exact hs c (mem_of_getElem? hc)

end FightNight.Dispute
