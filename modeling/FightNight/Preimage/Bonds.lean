import FightNight.Preimage.ChallengeComplete

/-!
# The accounts of the oracle

Ether comes into the contract `PreimageOracle` with `initLPP` and leaves it with `_payoutBond`.
Over every run, what was paid in is what was paid out, the bonds that are stored, and the bonds
that were overwritten by an `initLPP` for a proposal that had one (`paidIn_eq`).  A bond that is
overwritten stays in the contract, but no call pays it out.
-/

namespace FightNight.Preimage

open FightNight.Except Finset Run Function

/-! ## What a call moves -/

def deposit : Tx × OracleCall → Oracle → ℕ
  | (tx, .initLPP ..), _ => tx.value
  | _, _ => 0

/-- The ether that a call pays out: the bond of the proposal. -/
def payout : Tx × OracleCall → Oracle → ℕ
  | (_, .challengeLPP key ..), s => s.proposalBonds key
  | (_, .challengeFirstLPP key _), s => s.proposalBonds key
  | (_, .squeezeLPP key ..), s => s.proposalBonds key
  | _, _ => 0

/-- The bond that a call overwrites. -/
def overwritten : Tx × OracleCall → Oracle → ℕ
  | (tx, .initLPP uuid ..), s => s.proposalBonds (tx.sender, uuid)
  | _, _ => 0

def paidIn (env : OracleEnv) (calls : List (Tx × OracleCall)) (s : Oracle) : ℕ :=
  total (Oracle.exec env) deposit calls s

def paidOut (env : OracleEnv) (calls : List (Tx × OracleCall)) (s : Oracle) : ℕ :=
  total (Oracle.exec env) payout calls s

def Oracle.totalBonds (s : Oracle) : ℕ := ∑ k ∈ s.proposals.toFinset, s.proposalBonds k

/-- A call that initializes a proposal finds no bond of it. -/
def InitsUnbonded : Tx × OracleCall → Oracle → Prop
  | (tx, .initLPP uuid ..), s => s.proposalBonds (tx.sender, uuid) = 0
  | _, _ => True

lemma initsUnbonded_iff (c : Tx × OracleCall) (s : Oracle) :
    InitsUnbonded c s ↔ overwritten c s = 0 := by
  obtain ⟨tx, call⟩ := c
  cases call with
  | initLPP => exact Iff.rfl
  | addLeavesLPP | challengeLPP | challengeFirstLPP | squeezeLPP => exact iff_of_true trivial rfl

/-- What a successful call does to the proposals, the bonds and the balance. -/
inductive Moves (c : Tx × OracleCall) (s s' : Oracle) : Prop where
  /-- A part of a preimage is added. -/
  | nothing (hin : deposit c s = 0) (hout : payout c s = 0) (hlost : overwritten c s = 0)
      (hproposals : s'.proposals = s.proposals) (hfunds : KeepsFunds s s')
  /-- A bond is paid in, and replaces the bond that was there. -/
  | sets (key : ProposalKey) (hout : payout c s = 0) (hlost : overwritten c s = s.proposalBonds key)
      (hproposals : s'.proposals = s.proposals ++ [key])
      (hbonds : s'.proposalBonds = update s.proposalBonds key (deposit c s))
      (hbalance : s'.balance = s.balance + deposit c s)
  /-- A bond is paid out. -/
  | pays (key : ProposalKey) (hin : deposit c s = 0) (hlost : overwritten c s = 0)
      (hout : payout c s = s.proposalBonds key) (hproposals : s'.proposals = s.proposals)
      (hbonds : s'.proposalBonds = update s.proposalBonds key 0)
      (hle : s.proposalBonds key ≤ s.balance)
      (hbalance : s'.balance = s.balance - s.proposalBonds key)

variable {env : OracleEnv} {s s' : Oracle} {c : Tx × OracleCall}

lemma counter_moves {tx : Tx} {key : ProposalKey} (hin : deposit c s = 0)
    (hlost : overwritten c s = 0) (hout : payout c s = s.proposalBonds key)
    (h : Oracle.counter tx key s = .ok s') : Moves c s s' := by
  obtain ⟨hle, rfl⟩ := payoutBond_ok h
  exact .pays key hin hlost hout rfl rfl hle rfl

lemma exec_moves (h : Oracle.exec env c s = .ok s') : Moves c s s' := by
  obtain ⟨tx, call⟩ := c
  cases call with
  | initLPP uuid partOffset claimedSize =>
    simp only [Oracle.exec, Oracle.initLPP, bind_eq_ok, revertIf_eq_ok, pure_eq_ok] at h
    obtain ⟨-, -, -, -, -, -, -, -, -, -, rfl⟩ := h
    exact .sets (tx.sender, uuid) rfl rfl rfl rfl rfl
  | addLeavesLPP uuid args =>
    simp only [Oracle.exec, Oracle.addLeavesLPP, bind_eq_ok, pure_eq_ok] at h
    obtain ⟨-, -, -, -, -, -, -, -, -, -, _, -, -, -, -, -, _, -, -, -, rfl⟩ := h
    exact .nothing rfl rfl rfl rfl ⟨rfl, rfl⟩
  | challengeLPP key stateMatrix pre post =>
    exact counter_moves rfl rfl rfl (challengeLPP_counter h)
  | challengeFirstLPP key post =>
    exact counter_moves rfl rfl rfl (challengeFirstLPP_counter h)
  | squeezeLPP key stateMatrix pre post =>
    simp only [Oracle.exec, Oracle.squeezeLPP, bind_eq_ok] at h
    obtain ⟨-, -, -, -, _, -, -, -, -, -, _, -, -, -, _, -, -, -, _, -, hpay⟩ := h
    obtain ⟨hle, rfl⟩ := payoutBond_ok hpay
    exact .pays key rfl rfl rfl rfl rfl hle rfl

/-! ## One call -/

/-- The bonds are those of the proposals that were initialized. -/
def Listed (s : Oracle) : Prop := ∀ key, key ∉ s.proposals → s.proposalBonds key = 0

lemma listed_deployed : Listed .deployed := fun _ _ => rfl

lemma Listed.totalBonds_eq (h : Listed s) (key : ProposalKey) :
    s.totalBonds = ∑ k ∈ insert key s.proposals.toFinset, s.proposalBonds k := by
  apply sum_subset (subset_insert _ _)
  intro k _ hk
  exact h k fun hmem => hk (List.mem_toFinset.mpr hmem)

lemma Listed.exec (h : Listed s) (hexec : Oracle.exec env c s = .ok s') : Listed s' := by
  intro key hkey
  rcases exec_moves hexec with ⟨-, -, -, hprop, hfunds⟩ | ⟨k, -, -, hprop, hbonds, -⟩ |
    ⟨k, -, -, -, hprop, hbonds, -, -⟩
  · rw [hprop] at hkey
    rw [hfunds.bonds]
    exact h key hkey
  · rw [hprop, List.mem_append, List.mem_singleton, not_or] at hkey
    rw [hbonds, update_of_ne hkey.2]
    exact h key hkey.1
  · rw [hprop] at hkey
    rw [hbonds, update_apply, h key hkey, ite_self]

lemma exec_balance (hexec : Oracle.exec env c s = .ok s') :
    s.balance + deposit c s = s'.balance + payout c s := by
  rcases exec_moves hexec with ⟨hin, hout, -, -, hfunds⟩ | ⟨k, hout, -, -, -, hbal⟩ |
    ⟨k, hin, -, hout, -, -, hle, hbal⟩
  · rw [hin, hout, hfunds.balance]
  · rw [hout, hbal, add_zero]
  · omega

lemma Listed.exec_totalBonds (h : Listed s) (hexec : Oracle.exec env c s = .ok s') :
    s.totalBonds + deposit c s = s'.totalBonds + (payout c s + overwritten c s) := by
  rcases exec_moves hexec with ⟨hin, hout, hlost, hprop, hfunds⟩ |
    ⟨k, hout, hlost, hprop, hbonds, -⟩ | ⟨k, hin, hlost, hout, hprop, hbonds, -, -⟩
  · rw [hin, hout, hlost, Oracle.totalBonds, Oracle.totalBonds, hprop, hfunds.bonds]
  · have hset : s'.proposals.toFinset = insert k s.proposals.toFinset := by
      rw [hprop, List.toFinset_append, List.toFinset_cons, List.toFinset_nil,
        insert_empty_eq, union_singleton]
    have hsum := sum_update_add s.proposalBonds (deposit c s)
      (mem_insert_self k s.proposals.toFinset)
    rw [hout, hlost, zero_add, h.totalBonds_eq, Oracle.totalBonds, hset, hbonds, hsum]
  · have hsum := sum_update_add s.proposalBonds 0 (mem_insert_self k s.proposals.toFinset)
    rw [← hprop, ← hbonds, ← (h.exec hexec).totalBonds_eq k, hprop, ← h.totalBonds_eq] at hsum
    rw [hin, hout, hlost, add_zero (s.proposalBonds k), hsum]

/-! ## Runs -/

lemma balance_eq (env : OracleEnv) (calls : List (Tx × OracleCall)) :
    paidIn env calls .deployed =
      (runAll (Oracle.exec env) calls .deployed).balance + paidOut env calls .deployed := by
  have hstep : ∀ c s s', True → Oracle.exec env c s = .ok s' →
      s.balance + deposit c s = s'.balance + payout c s := fun _ _ _ _ hexec => exec_balance hexec
  have htotal := total_balance (fun _ _ _ _ _ => trivial) hstep calls (s := Oracle.deployed) trivial
  exact (zero_add _).symm.trans htotal

lemma paidIn_eq (env : OracleEnv) (calls : List (Tx × OracleCall)) :
    paidIn env calls .deployed = (runAll (Oracle.exec env) calls .deployed).totalBonds +
        (paidOut env calls .deployed +
          total (Oracle.exec env) overwritten calls .deployed) := by
  have hkeep : ∀ c s s', Listed s → Oracle.exec env c s = .ok s' → Listed s' :=
    fun _ _ _ hs hexec => hs.exec hexec
  have hstep : ∀ c s s', Listed s → Oracle.exec env c s = .ok s' →
      s.totalBonds + deposit c s = s'.totalBonds + (payout c s + overwritten c s) :=
    fun _ _ _ hs hexec => hs.exec_totalBonds hexec
  have htotal := total_balance hkeep hstep calls listed_deployed
  rw [total_add] at htotal
  exact (zero_add _).symm.trans htotal

/-- After every run, what was paid in and not paid out is the sum of the bonds, which is all that
the contract holds, if and only if no `initLPP` succeeded for a proposal that had a bond. -/
theorem bond_accounting (env : OracleEnv) (calls : List (Tx × OracleCall)) :
    let s := runAll (Oracle.exec env) calls .deployed
    (paidIn env calls .deployed = paidOut env calls .deployed + s.totalBonds ∧
      s.balance = s.totalBonds) ↔
    SuccessesMeet (Oracle.exec env) (fun _ c s => InitsUnbonded c s) [] calls .deployed := by
  intro s
  have hbal : paidIn env calls .deployed = s.balance + paidOut env calls .deployed :=
    balance_eq env calls
  have hpaid : paidIn env calls .deployed = s.totalBonds + (paidOut env calls .deployed +
      total (Oracle.exec env) overwritten calls .deployed) := paidIn_eq env calls
  simp only [initsUnbonded_iff]
  rw [← total_eq_zero_iff]
  omega

/-- A proposal is initialized twice. -/
def repeatedInit : List (Tx × OracleCall) :=
  [(sampleTx Oracle.minBondSize, .initLPP 0 0 136), (sampleTx Oracle.minBondSize, .initLPP 0 0 136)]

/-- The first of two bonds for one proposal is in the contract, and not among the bonds. -/
theorem repeated_init_loses_bond :
    let s := runAll (Oracle.exec sampleEnv) repeatedInit .deployed
    paidIn sampleEnv repeatedInit .deployed = 2 * Oracle.minBondSize ∧
      paidOut sampleEnv repeatedInit .deployed = 0 ∧ s.totalBonds = Oracle.minBondSize ∧
      s.balance = 2 * Oracle.minBondSize := by
  decide

end FightNight.Preimage
