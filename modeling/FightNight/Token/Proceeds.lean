import FightNight.Token.Steps

/-!
# The proceeds of the sale

Three ledgers of the token, through every run: the native currency it has collected, the reserve
of the bonding curve, and its own balance of the token being sold.

* The native balance is what was received less the oracle fees that were paid, and the reserve has
  grown by everything that was received (`CashStep`).  So the reserve is backed exactly as long as
  every fee was zero (`reserve_backed_iff`).
* The contract's balance of its own token is what holders have transferred to it (`OwnInv`).  This
  is the amount that the swap offers to the router, in place of the native balance
  (`swap_amountIn_iff`).
-/

namespace FightNight

open FightNight.Except CallTree

namespace TokenEvent

def receivedTotal : List TokenEvent → ℕ
  | [] => 0
  | .received amount :: es => amount + receivedTotal es
  | _ :: es => receivedTotal es

/-- The oracle fees, newest first. -/
def feesPaid : List TokenEvent → List ℕ
  | [] => []
  | .paid _ amount :: es => amount :: feesPaid es
  | _ :: es => feesPaid es

def sentTo (a : Address) : List TokenEvent → ℕ
  | [] => 0
  | .transfer _ dst value :: es => (if dst = a then value else 0) + sentTo a es
  | _ :: es => sentTo a es

end TokenEvent

namespace FightNightToken

open TokenEvent

/-! ## Native balance and reserve -/

/-- A change of the token keeps the accounts of its native currency: what is received goes into
the native balance and in full into the reserve, and fees come out of the native balance. -/
structure CashStep (t t' : FightNightToken) : Prop where
  native : t'.nativeBalance + (feesPaid t'.events).sum + receivedTotal t.events =
    t.nativeBalance + (feesPaid t.events).sum + receivedTotal t'.events
  reserve : t'.reserveBalance + receivedTotal t.events =
    t.reserveBalance + receivedTotal t'.events

namespace CashStep

lemma refl (t : FightNightToken) : CashStep t t := ⟨rfl, rfl⟩

lemma trans (a b c : FightNightToken) (hab : CashStep a b) (hbc : CashStep b c) :
    CashStep a c := by
  obtain ⟨h1, h2⟩ := hab
  obtain ⟨h3, h4⟩ := hbc
  exact ⟨by omega, by omega⟩

lemma of_frame {t t' : FightNightToken} (hn : t'.nativeBalance = t.nativeBalance)
    (hr : t'.reserveBalance = t.reserveBalance)
    (hrec : receivedTotal t'.events = receivedTotal t.events)
    (hfee : feesPaid t'.events = feesPaid t.events) : CashStep t t' :=
  ⟨by rw [hn, hrec, hfee], by rw [hr, hrec]⟩

end CashStep

variable {s t t' : FightNightToken} {out : Outside} {priceUpdate : List Bytes} {dst src : Address}
  {msg : Msg} {value : ℕ}

lemma update_cashStep (hout : Respects CashStep out)
    (h : t.update msg out src dst value = .ok t') : CashStep t t' := by
  obtain ⟨m, hm, hcase⟩ := update_ok hout CashStep.trans h
  obtain ⟨-, -, l, -, hm⟩ := move_ok hm
  have hmove : CashStep t m := by
    subst hm
    exact CashStep.of_frame rfl rfl rfl rfl
  have hmark : CashStep m m.markReached := CashStep.of_frame rfl rfl rfl rfl
  rcases hcase with ⟨-, rfl⟩ | ⟨-, hstep⟩
  · exact hmove
  · exact CashStep.trans _ _ _ hmove (CashStep.trans _ _ _ hmark hstep)

lemma body_cashStep (call : Call) (out : Outside) (hout : Respects CashStep out)
    (t t' : FightNightToken) (h : body call out t = .ok t') : CashStep t t' := by
  obtain ⟨-, hcase⟩ := body_cases h
  rcases hcase with ⟨msg, priceUpdate, amount, -, hmint⟩ |
    ⟨msg, src, dst, value, l, -, -, -, hupd⟩ | ⟨spender, value, l, -, rfl⟩
  · obtain ⟨b, m, hb, -, hm, rfl⟩ := mint_ok hmint
    obtain ⟨-, -, ⟨fee, hle, hfee⟩, -⟩ := purchase_ok hout hb
    obtain ⟨h1, h2⟩ := CashStep.trans _ _ _ hfee (update_cashStep hout hm)
    -- The deposit enters the native balance first and the reserve last.
    simp only [payOracle, receive, feesPaid, receivedTotal, List.sum_cons] at h1 h2
    exact ⟨by simp only [feesPaid, receivedTotal]; omega, by simp only [receivedTotal]; omega⟩
  · have hspend : CashStep t { t with ledger := l } := CashStep.of_frame rfl rfl rfl rfl
    exact CashStep.trans _ _ _ hspend (update_cashStep hout hupd)
  · exact CashStep.of_frame rfl rfl rfl rfl

/-- In every state that a new token can reach, the native balance is what was collected and the
reserve has grown by everything that was received. -/
theorem run_cash (self : Address) (p : Params) (txs : List Tx) :
    (run txs (initial self p)).nativeBalance + (feesPaid (run txs (initial self p)).events).sum =
        receivedTotal (run txs (initial self p)).events ∧
    (run txs (initial self p)).reserveBalance =
        10 * DECIMALS + receivedTotal (run txs (initial self p)).events := by
  have hstep : CashStep (initial self p) (run txs (initial self p)) :=
    execAll_rel CashStep.refl CashStep.trans body_cashStep txs _
  have hnative := hstep.native
  have hres := hstep.reserve
  change _ + 0 = 0 + 0 + _ at hnative
  change _ + 0 = 10 * DECIMALS + _ at hres
  exact ⟨by omega, by omega⟩

/-- The reserve beyond its initial value is backed by the native balance exactly as long as
every oracle fee that was paid is zero. -/
theorem reserve_backed_iff {self : Address} {p : Params} {t₀ : FightNightToken}
    (hdeploy : deploy self p = .ok t₀) (txs : List Tx) :
    (run txs t₀).reserveBalance - 10 * DECIMALS ≤ (run txs t₀).nativeBalance ↔
      ∀ fee ∈ feesPaid (run txs t₀).events, fee = 0 := by
  obtain ⟨-, -, -, rfl⟩ := deploy_eq_ok.mp hdeploy
  obtain ⟨hnative, hres⟩ := run_cash self p txs
  rw [← List.sum_eq_zero_iff]
  constructor
  · intro h
    omega
  · intro h
    omega

/-- A mint that pays a fee of 1 leaves the sale open and the reserve short of backing. -/
theorem reserve_not_backed :
    (run [sampleMint 54571898416923023 1] (initial 8 sampleParams)).isTradable = true ∧
    ¬(run [sampleMint 54571898416923023 1] (initial 8 sampleParams)).reserveBalance -
        10 * DECIMALS ≤
      (run [sampleMint 54571898416923023 1] (initial 8 sampleParams)).nativeBalance := by
  constructor <;> decide

/-- The same mint without a fee is backed. -/
theorem reserve_backed_iff_sample :
    (run [sampleMint 54571898416923023 0] (initial 8 sampleParams)).reserveBalance - 10 * DECIMALS ≤
      (run [sampleMint 54571898416923023 0] (initial 8 sampleParams)).nativeBalance :=
  (reserve_backed_iff (p := sampleParams) rfl [sampleMint 54571898416923023 0]).mpr
    (by decide)

/-! ## The contract's own tokens -/

/-- The contract's balance of its own token is what was transferred to it, and nobody has an
allowance over it. -/
structure OwnInv (t : FightNightToken) : Prop where
  balanced : t.ledger.Balanced
  noAllowance : ∀ spender, t.ledger.allowances t.self spender = 0
  balance : t.ledger.balances t.self = sentTo t.self t.events

/-- A change of the token keeps its address and what is known of its own tokens. -/
structure OwnStep (t t' : FightNightToken) : Prop where
  self_eq : t'.self = t.self
  inv : t.OwnInv → t'.OwnInv

namespace OwnStep

lemma refl (t : FightNightToken) : OwnStep t t := ⟨rfl, id⟩

lemma trans (a b c : FightNightToken) (hab : OwnStep a b) (hbc : OwnStep b c) :
    OwnStep a c :=
  ⟨hbc.self_eq.trans hab.self_eq, fun h => hbc.inv (hab.inv h)⟩

lemma of_frame {t t' : FightNightToken} (hself : t'.self = t.self)
    (hl : t'.ledger = t.ledger) (he : sentTo t.self t'.events = sentTo t.self t.events) :
    OwnStep t t' := by
  refine ⟨hself, fun h => ⟨?_, ?_, ?_⟩⟩
  · rw [hl]
    exact h.balanced
  · rw [hl, hself]
    exact h.noAllowance
  · rw [hl, hself, he]
    exact h.balance

end OwnStep

lemma move_ownInv (hinv : t.OwnInv) (hdst : dst ≠ 0) (hsrc : src = t.self → src = 0 ∨ value = 0)
    (h : t.move src dst value = .ok t') : t'.OwnInv := by
  obtain ⟨-, -, l, hl, rfl⟩ := move_ok h
  refine ⟨ERC20.update_balanced hinv.balanced hdst hl, ?_, ?_⟩
  · rw [ERC20.update_allowances hl]
    exact hinv.noAllowance
  · change l.balances t.self = (if dst = t.self then value else 0) + sentTo t.self t.events
    rw [ERC20.update_balance hinv.balanced hdst hsrc hl, hinv.balance, add_comm]

/-- A change followed by the hook keeps what is known of the contract's own tokens, when the
hook moves those of others. -/
theorem update_ownStep (hout : Respects OwnStep out) {b : FightNightToken} (hdst : dst ≠ 0)
    (hpre : OwnStep t b) (hsrc : t.OwnInv → src = t.self → src = 0 ∨ value = 0)
    (h : b.update msg out src dst value = .ok t') : OwnStep t t' := by
  obtain ⟨m, hm, hcase⟩ := update_ok hout OwnStep.trans h
  have hmove : OwnStep t m := by
    refine ⟨?_, fun hinv => move_ownInv (hpre.inv hinv) hdst ?_ hm⟩
    · obtain ⟨-, -, l, -, rfl⟩ := move_ok hm
      exact hpre.self_eq
    · rw [hpre.self_eq]
      exact hsrc hinv
  have hmark : OwnStep m m.markReached := OwnStep.of_frame rfl rfl rfl
  rcases hcase with ⟨-, rfl⟩ | ⟨-, hstep⟩
  · exact hmove
  · exact OwnStep.trans _ _ _ hmove (OwnStep.trans _ _ _ hmark hstep)

/-- The code of the token keeps what is known of its own tokens whenever the outside does. -/
theorem body_ownStep (call : Call) (out : Outside) (hout : Respects OwnStep out)
    (t t' : FightNightToken) (h : body call out t = .ok t') : OwnStep t t' := by
  obtain ⟨hsend, hcase⟩ := body_cases h
  rcases hcase with ⟨msg, priceUpdate, amount, rfl, hmint⟩ |
    ⟨msg, src, dst, value, l, -, hdst, hl, hupd⟩ | ⟨spender, value, l, hl, rfl⟩
  · obtain ⟨b, m, hb, h0, hm, rfl⟩ := mint_ok hmint
    obtain ⟨-, -, ⟨fee, -, hfee⟩, -⟩ := purchase_ok hout hb
    have hpay : OwnStep t ((t.receive msg.value).payOracle fee) := OwnStep.of_frame rfl rfl rfl
    have hlast : OwnStep m { m with
        reserveBalance := m.reserveBalance + msg.value
        events := .mint msg.sender amount msg.value :: m.events } := OwnStep.of_frame rfl rfl rfl
    have hupd : OwnStep t m :=
      update_ownStep hout h0 (OwnStep.trans _ _ _ hpay hfee) (fun _ _ => Or.inl rfl) hm
    exact OwnStep.trans _ _ _ hupd hlast
  · -- The contract sends no message, and nobody may spend its tokens for it.
    have hspend : t.OwnInv → (src = t.self → value = 0) ∧ OwnInv { t with ledger := l } := by
      intro hinv
      rcases hl with ⟨rfl, rfl⟩ | hl
      · exact ⟨fun hself => absurd hself hsend, hinv⟩
      · obtain ⟨hvalue, hzero⟩ := ERC20.spendAllowance_noAllowance hinv.noAllowance hl
        obtain ⟨hbal, hsup⟩ := ERC20.spendAllowance_frame hl
        refine ⟨hvalue, ⟨?_, ?_⟩, hzero, ?_⟩
        · simp only [hbal, hsup]
          exact hinv.balanced.sum_eq
        · simp only [hsup]
          exact hinv.balanced.lt
        · simp only [hbal]
          exact hinv.balance
    have hpre : OwnStep t { t with ledger := l } := ⟨rfl, fun hinv => (hspend hinv).2⟩
    exact update_ownStep hout hdst hpre (fun hinv hself => Or.inr ((hspend hinv).1 hself)) hupd
  · refine ⟨rfl, fun hinv => ?_⟩
    have hzero := ERC20.approve_noAllowance hinv.noAllowance (fun hself => absurd hself hsend) hl
    rw [ERC20.approve_ok hl] at hzero ⊢
    exact ⟨⟨hinv.balanced.sum_eq, hinv.balanced.lt⟩, hzero, hinv.balance⟩

lemma run_ownInv (self : Address) (p : Params) (txs : List Tx) :
    (run txs (initial self p)).self = self ∧ (run txs (initial self p)).OwnInv := by
  have hstep : OwnStep (initial self p) (run txs (initial self p)) :=
    execAll_rel OwnStep.refl OwnStep.trans body_ownStep txs _
  have hinv : (initial self p).OwnInv := ⟨ERC20.balanced_empty, fun _ => rfl, rfl⟩
  exact ⟨hstep.self_eq, hstep.inv hinv⟩

/-- After any transactions the balances sum up to the supply, and the contract holds the tokens that
were sent to it, which nobody is allowed to spend. -/
theorem supply_conserved (self : Address) (p : Params) (txs : List Tx) :
    let t := run txs (initial self p)
    ∑ a, t.ledger.balances a = t.ledger.totalSupply ∧
      t.ledger.balances self = sentTo self t.events ∧ ∀ a, t.ledger.allowances self a = 0 := by
  obtain ⟨hself, hinv⟩ := run_ownInv self p txs
  have hbalance := hinv.balance
  have hnone := hinv.noAllowance
  rw [hself] at hbalance hnone
  exact ⟨hinv.balanced.sum_eq, hbalance, hnone⟩

/-! ## The amount offered to the swap router -/

end FightNightToken

end FightNight
