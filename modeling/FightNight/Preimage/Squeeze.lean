import FightNight.Preimage.ChallengeComplete

/-!
# Squeezing a proposal

`squeezeLPP` makes a preimage available when nobody has countered its proposal during the
challenge period, which starts with the call of `addLeavesLPP` that finalizes the proposal; the
field `timestamp` of the metadata is the time of that call.

Before that call the field is zero, and `squeezeLPP` subtracts it like any other time.  So the
gate is also passed by a proposal that has not been finalized, as soon as the time is beyond the
challenge period (`squeeze_gate`).
-/

namespace FightNight.Preimage

open Checked Run Function Oracle List
open FightNight.Except (bind_eq_ok ok_bind revertIf_of_not revertIf_bind require_bind)

variable {env : OracleEnv} {s s' : Oracle} {key : ProposalKey}

/-! ## The two marks of a proposal -/

/-- The call submits the last part of a proposal. -/
def finalizes (key : ProposalKey) : Tx × OracleCall → Bool
  | (tx, .addLeavesLPP uuid args) => decide ((tx.sender, uuid) = key) && args.finalize
  | _ => false

def challenges (key : ProposalKey) : Tx × OracleCall → Bool
  | (_, .challengeLPP k _ _ _) => decide (k = key)
  | (_, .challengeFirstLPP k _) => decide (k = key)
  | _ => false

lemma update_marks (data : ProposalKey → LPPMetaData) (k : ProposalKey) (metaData : LPPMetaData)
    (key : ProposalKey) :
    (update data k metaData key).timestamp =
        (if k = key then metaData.timestamp else (data key).timestamp) ∧
      (update data k metaData key).countered =
        (if k = key then metaData.countered else (data key).countered) := by
  by_cases hkey : key = k
  · grind
  · grind

variable {stateMatrix : StateSnapshot} {c : Tx × OracleCall} {tx : Tx}

lemma counter_marks {k : ProposalKey} (h : counter tx k s = .ok s') (key : ProposalKey) :
    (s'.proposalMetadata key).timestamp = (s.proposalMetadata key).timestamp ∧
      (s'.proposalMetadata key).countered =
        (decide (k = key) || (s.proposalMetadata key).countered) := by
  obtain ⟨-, rfl⟩ := payoutBond_ok h
  obtain ⟨htime, hctr⟩ := update_marks s.proposalMetadata k
    { s.proposalMetadata k with countered := true } key
  rw [htime, hctr]
  by_cases hkey : k = key
  · subst hkey
    simp
  · simp [hkey]

/-- The time of a proposal is that of the call that finalizes it, and a challenge counters it. -/
theorem exec_marks (h : exec env c s = .ok s') (key : ProposalKey) :
    (s'.proposalMetadata key).timestamp =
        (if finalizes key c then c.1.timestamp else (s.proposalMetadata key).timestamp) ∧
      (s'.proposalMetadata key).countered =
        (challenges key c || (s.proposalMetadata key).countered) := by
  obtain ⟨tx, call⟩ := c
  cases call with
  | initLPP uuid partOffset claimedSize =>
    simp only [exec, initLPP, bind_eq_ok, Except.pure_eq_ok] at h
    obtain ⟨-, -, -, -, -, -, -, -, -, -, rfl⟩ := h
    obtain ⟨htime, hctr⟩ := update_marks s.proposalMetadata (tx.sender, uuid)
      { s.proposalMetadata (tx.sender, uuid) with
        partOffset := partOffset, claimedSize := claimedSize } key
    dsimp only [finalizes, challenges]
    rw [htime, hctr]
    constructor <;> split <;> simp_all
  | addLeavesLPP uuid args =>
    simp only [exec, addLeavesLPP, bind_eq_ok, Except.pure_eq_ok] at h
    obtain ⟨-, -, -, -, -, -, -, -, -, -, _, -, -, -, -, -, _, -, -, -, rfl⟩ := h
    dsimp only [finalizes, challenges]
    rw [(update_marks _ _ _ key).1, (update_marks _ _ _ key).2]
    by_cases hkey : (tx.sender, uuid) = key
    · subst hkey
      by_cases hfin : args.finalize = true <;> simp [hfin]
    · simp [hkey]
  | challengeLPP k stateMatrix pre post =>
    exact counter_marks (challengeLPP_counter h) key
  | challengeFirstLPP k post =>
    exact counter_marks (challengeFirstLPP_counter h) key
  | squeezeLPP k stateMatrix pre post =>
    simp only [exec, squeezeLPP, bind_eq_ok] at h
    obtain ⟨-, -, -, -, _, -, -, -, -, -, _, -, -, -, _, -, -, -, _, -, hpay⟩ := h
    obtain ⟨-, rfl⟩ := payoutBond_ok hpay
    exact ⟨rfl, rfl⟩

/-- The marks of a proposal are those that the calls that succeeded have set. -/
structure Dated (before : List (Tx × OracleCall)) (key : ProposalKey) (s : Oracle) : Prop where
  finalized : (s.proposalMetadata key).timestamp ≠ 0 →
    ∃ c ∈ before, finalizes key c = true ∧ c.1.timestamp = (s.proposalMetadata key).timestamp
  unfinished : (s.proposalMetadata key).timestamp = 0 → ∀ c ∈ before, finalizes key c = false
  uncountered :
    (s.proposalMetadata key).countered = false → ∀ c ∈ before, challenges key c = false

lemma Dated.call {before : List (Tx × OracleCall)} (h : Dated before key s)
    (hexec : exec env c s = .ok s') : Dated (before ++ [c]) key s' := by
  obtain ⟨htime, hctr⟩ := exec_marks hexec key
  have hlast : c ∈ before ++ [c] := mem_append_right _ (mem_singleton_self c)
  constructor
  · intro hne
    cases hc : finalizes key c with
    | true =>
      rw [hc] at htime
      exact ⟨c, hlast, hc, htime.symm⟩
    | false =>
      rw [hc] at htime
      rw [htime] at hne ⊢
      obtain ⟨d, hd, hfin, hdtime⟩ := h.finalized hne
      exact ⟨d, mem_append_left _ hd, hfin, hdtime⟩
  · intro hzero
    cases hc : finalizes key c with
    | true =>
      rw [hc, hzero] at htime
      exact absurd htime.symm c.1.timestamp_ne_zero
    | false =>
      rw [hc, if_neg Bool.false_ne_true] at htime
      exact forall_mem_append.mpr ⟨h.unfinished (htime ▸ hzero), forall_mem_singleton.mpr hc⟩
  · intro hfalse
    rw [hctr, Bool.or_eq_false_iff] at hfalse
    exact forall_mem_append.mpr ⟨h.uncountered hfalse.2, forall_mem_singleton.mpr hfalse.1⟩

lemma run_dated (env : OracleEnv) (calls : List (Tx × OracleCall)) (key : ProposalKey) :
    Dated (successes (exec env) calls .deployed) key (runAll (exec env) calls .deployed) := by
  have hstart : Dated [] key .deployed := by
    refine ⟨fun hne => absurd rfl hne, ?_, ?_⟩ <;>
    · intro _ c hc
      cases hc
  have hstep : ∀ before c s s', Dated before key s → exec env c s = .ok s' →
      Dated (before ++ [c]) key s' := by
    intro before c s s' h hexec
    exact h.call hexec
  exact runAll_successes_inv hstep calls hstart

/-! ## The gate -/

/-- A proposal may be squeezed in a transaction: it was finalized by an earlier call, more than the
challenge period ago, and it has not been countered. -/
def MaySqueeze (env : OracleEnv) (before : List (Tx × OracleCall)) (tx : Tx)
    (key : ProposalKey) : Prop :=
  (∃ c ∈ before, finalizes key c = true ∧
    c.1.timestamp.toNat + env.challengePeriod < tx.timestamp.toNat) ∧
  ∀ c ∈ before, challenges key c = false

lemma squeezeLPP_ok {pre post : ProvedLeaf}
    (h : Oracle.squeezeLPP env tx key stateMatrix pre post s = .ok s') :
    (s.proposalMetadata key).countered = false ∧
      (s.proposalMetadata key).timestamp.toNat + env.challengePeriod < tx.timestamp.toNat := by
  simp only [squeezeLPP, bind_eq_ok, Except.revertIf_eq_ok, sub_eq_ok] at h
  obtain ⟨-, -, -, hctr, elapsed, ⟨hle, rfl⟩, -, hper, -⟩ := h
  refine ⟨Bool.eq_false_iff.mpr hctr, ?_⟩
  omega

/-- For every successful `squeezeLPP` after every run, the proposal was finalized more than the
challenge period ago and is not countered if and only if the time in its metadata is not zero. -/
theorem squeeze_gate (env : OracleEnv) (calls : List (Tx × OracleCall)) (tx : Tx)
    (key : ProposalKey) (stateMatrix : StateSnapshot) (pre post : ProvedLeaf) (s' : Oracle)
    (h : Oracle.squeezeLPP env tx key stateMatrix pre post
      (runAll (exec env) calls .deployed) = .ok s') :
    MaySqueeze env (successes (exec env) calls .deployed) tx key ↔
      ((runAll (exec env) calls .deployed).proposalMetadata key).timestamp ≠ 0 := by
  have hdated := run_dated env calls key
  obtain ⟨hctr, hper⟩ := squeezeLPP_ok h
  constructor
  · rintro ⟨⟨c, hc, hfin, -⟩, -⟩ hzero
    rw [hdated.unfinished hzero c hc] at hfin
    cases hfin
  · intro hne
    obtain ⟨c, hc, hfin, htime⟩ := hdated.finalized hne
    refine ⟨⟨c, hc, hfin, ?_⟩, hdated.uncountered hctr⟩
    rwa [htime]

/-! ## A proposal that was never finalized -/

/-- The state after a bond has been paid out. -/
def Oracle.paid (s : Oracle) (key : ProposalKey) : Oracle :=
  { s with
    proposalBonds := update s.proposalBonds key 0
    balance := s.balance - s.proposalBonds key }

lemma Funded.payoutBond (h : Funded s) (hacc : tx.accepts = true) (key : ProposalKey) :
    Oracle.payoutBond tx key s = .ok (s.paid key) := by
  unfold Oracle.payoutBond
  dsimp only
  rw [revertIf_of_not (h.pays hacc key)]
  rfl

/-- What `squeezeLPP` makes available: the part of the proposal, for a digest. -/
def Oracle.authorised (s : Oracle) (key : ProposalKey) (finalDigest : Hash) : Oracle :=
  let metaData := s.proposalMetadata key
  { s with
    preimagePartOk := update s.preimagePartOk finalDigest
      (update (s.preimagePartOk finalDigest) metaData.partOffset.toNat true)
    preimageParts := update s.preimageParts finalDigest
      (update (s.preimageParts finalDigest) metaData.partOffset.toNat
        (s.proposalParts key))
    preimageLengths := update s.preimageLengths finalDigest metaData.claimedSize.toNat }

/-- The contract squeezes a proposal when it gets its last two leaves and the state that the first
of them commits to. -/
theorem Recorded.squeezeLPP {parts : List InputData} (h : Recorded parts key s) (hfund : Funded s)
    (hlib : env.lib.Faithful) {before : List ClaimedBlock} {x y : ClaimedBlock}
    (hblks : blocksOf parts = before ++ [y, x]) (hx : x.1.length = blockSize)
    (hmat : stateCommitment stateMatrix.1 = y.2) (hvalue : tx.value = 0)
    (hacc : tx.accepts = true) (hctr : (s.proposalMetadata key).countered = false)
    (hper : (s.proposalMetadata key).timestamp.toNat + env.challengePeriod < tx.timestamp.toNat) :
    ∃ a, env.lib.absorb stateMatrix x.1 = .ok a ∧
      Oracle.squeezeLPP env tx key stateMatrix
        (provedLeaf (leafHashes (blocksOf parts)) before.length y)
        (provedLeaf (leafHashes (blocksOf parts)) (before.length + 1) x) s =
      .ok ((s.authorised key
        (digestKey (env.lib.squeeze (env.lib.permutation a)))).paid key) := by
  have hy : (blocksOf parts)[before.length]? = some y := by simp [hblks]
  have hxget : (blocksOf parts)[before.length + 1]? = some x := by simp [hblks]
  obtain ⟨hcheck, hnext⟩ := h.checkLeaves hy hxget hmat
  have hlen : (s.proposalMetadata key).blocksProcessed.toNat = before.length + 2 := by
    rw [h.blocksProcessed, hblks, length_append]
    rfl
  generalize hpost : provedLeaf (leafHashes (blocksOf parts)) (before.length + 1) x = post at *
  have hpostLeaf : post.leaf = ⟨x.1, before.length + 1, x.2⟩ := by rw [← hpost]; rfl
  obtain ⟨a, habs, -⟩ := hlib.absorb_permutation stateMatrix hx
  refine ⟨a, habs, ?_⟩
  have helapsed : sub (.panic 0x11 : OracleRevert) tx.timestamp.toNat
      (s.proposalMetadata key).timestamp.toNat =
      .ok (tx.timestamp.toNat - (s.proposalMetadata key).timestamp.toNat) :=
    sub_eq_ok.mpr ⟨by omega, rfl⟩
  have hlast : sub (.panic 0x11 : OracleRevert)
      (s.proposalMetadata key).blocksProcessed.toNat 1 = .ok post.leaf.index := by
    rw [hlen, hpostLeaf]
    exact sub_eq_ok.mpr ⟨by omega, rfl⟩
  unfold Oracle.squeezeLPP
  rw [require_bind hvalue, revertIf_bind (by rw [hctr]; exact Bool.false_ne_true), helapsed,
    ok_bind, revertIf_bind (by omega), hcheck, ok_bind, hnext, ok_bind, require_bind rfl, hlast,
    ok_bind, require_bind rfl, show post.leaf.input = x.1 by rw [hpostLeaf], habs]
  have hstill : Funded (s.authorised key
      (digestKey (env.lib.squeeze (env.lib.permutation a)))) := hfund
  exact hstill.payoutBond hacc key

/-- Blocks of zeros are proposed, with some commitment to the state after the first of them: one
block and its padding, which finalizes the proposal, or two blocks that leave it open. -/
def squeezeCalls (size : UInt32) (final : Bool) : List (Tx × OracleCall) :=
  [(sampleTx minBondSize, .initLPP 0 0 size),
    (sampleTx 0, .addLeavesLPP 0 ⟨0, if final then zeroBlock else zeroBlock ++ zeroBlock, [],
      [stateCommitment zeroState.1, Hash.zero], final⟩)]

/-- A transaction two days after the others. -/
def lateTx : Tx := ⟨1, 1, 0, 1700172800, by decide, 2, true⟩

lemma blocks_of_two {part : InputData} {c d : Hash} (hcomm : part.commitments = [c, d])
    (hsized : part.WellSized) : ∃ y x : ClaimedBlock,
      blocksOf [part] = [] ++ [y, x] ∧ y.2 = c ∧ x.1.length = blockSize := by
  rw [InputData.WellSized, hcomm] at hsized
  refine ⟨(part.padded.take blockSize, c), ((part.padded.drop blockSize).take blockSize, d), ?_,
    rfl, ?_⟩
  · rw [blocksOf, flatMap_singleton, InputData.blocks, hcomm]
    rfl
  · grind

lemma squeezeCalls_squeezed {size : UInt32} {final : Bool}
    (hsucc : (successes (exec sampleEnv) (squeezeCalls size final)
      .deployed).length = 2)
    (hctr : ((runAll (exec sampleEnv) (squeezeCalls size final)
      .deployed).proposalMetadata sampleKey).countered = false)
    (hper : ((runAll (exec sampleEnv) (squeezeCalls size final)
      .deployed).proposalMetadata sampleKey).timestamp.toNat + sampleEnv.challengePeriod <
        lateTx.timestamp.toNat) :
    ∃ pre post s', Oracle.squeezeLPP sampleEnv lateTx sampleKey zeroState pre post
      (runAll (exec sampleEnv) (squeezeCalls size final) .deployed) = .ok s' := by
  have hlib : sampleEnv.lib.Faithful := LibKeccak.reference_faithful
  have hrec := run_recorded hlib (squeezeCalls size final) sampleKey
  rw [(successes_sublist _ _).eq_of_length hsucc] at hrec
  obtain ⟨y, x, hblks, hy, hx⟩ := blocks_of_two rfl (hrec.sized _ (mem_singleton_self _))
  obtain ⟨a, -, hsq⟩ := hrec.squeezeLPP (run_funded hlib _) hlib hblks hx hy.symm
    rfl rfl hctr hper
  exact ⟨_, _, _, hsq⟩

/-- A proposal that is squeezed without having been finalized. -/
theorem unfinished_squeezed :
    sampleEnv.challengePeriod < lateTx.timestamp.toNat ∧ ∃ pre post s',
      Oracle.squeezeLPP sampleEnv lateTx sampleKey zeroState pre post
        (runAll (exec sampleEnv) (squeezeCalls 1000 false) .deployed) = .ok s' ∧
      ¬MaySqueeze sampleEnv (successes (exec sampleEnv) (squeezeCalls 1000 false) .deployed) lateTx
        sampleKey := by
  refine ⟨by decide, ?_⟩
  have hsucc : (successes (exec sampleEnv) (squeezeCalls 1000 false) .deployed).length = 2 := by
    decide +kernel
  obtain ⟨pre, post, s', hsq⟩ := squeezeCalls_squeezed hsucc (by decide +kernel) (by decide +kernel)
  refine ⟨pre, post, s', hsq, ?_⟩
  rintro ⟨⟨c, hc, hfin, -⟩, -⟩
  have hnone : ∀ c ∈ squeezeCalls 1000 false, finalizes sampleKey c = false := by decide
  rw [hnone c ((successes_sublist _ _).subset hc)] at hfin
  cases hfin

/-- A proposal that is squeezed two days after it was finalized. -/
theorem squeeze_gate_sample : ∃ pre post s',
    Oracle.squeezeLPP sampleEnv lateTx sampleKey zeroState pre post
      (runAll (exec sampleEnv) (squeezeCalls 136 true) .deployed) = .ok s' ∧
    MaySqueeze sampleEnv (successes (exec sampleEnv) (squeezeCalls 136 true) .deployed) lateTx
      sampleKey := by
  have hsucc : (successes (exec sampleEnv) (squeezeCalls 136 true) .deployed).length = 2 := by
    decide +kernel
  obtain ⟨pre, post, s', hsq⟩ := squeezeCalls_squeezed hsucc (by decide +kernel) (by decide +kernel)
  exact ⟨pre, post, s', hsq, (squeeze_gate _ _ _ _ _ _ _ _ hsq).mpr (by decide +kernel)⟩

end FightNight.Preimage
