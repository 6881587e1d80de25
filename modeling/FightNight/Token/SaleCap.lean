import FightNight.Token.Steps

/-!
# The sale respects its cap

Over every sequence of transactions, with an outside that answers and calls the token again as it
likes, the supply stays below the upper bound of the market cap, the sale is open exactly while
the supply is within the lower bound, and once it is closed no balance changes any more.  They are
carried by one relation between states, `SaleStep`, which every transaction respects.
-/

namespace FightNight.FightNightToken

/-- The sale is open and the supply within the lower bound, or it is closed and the supply is
between the two bounds. -/
def SaleInv (t : FightNightToken) : Prop :=
  (t.isTradable = true → t.ledger.totalSupply ≤ t.lowerCap) ∧
  (t.isTradable = false → t.lowerCap < t.ledger.totalSupply ∧ t.ledger.totalSupply ≤ t.upperCap)

/-- What any change of the token does to its sale. -/
structure SaleStep (t t' : FightNightToken) : Prop where
  /-- The cap is fixed. -/
  cap : t'.marketCap = t.marketCap ∧ t'.marketCapTolerance = t.marketCapTolerance
  /-- The sale stays within its bounds. -/
  inv : t.SaleInv → t'.SaleInv
  /-- A closed sale stays closed and its ledger does not move. -/
  frozen : t.isTradable = false → t'.isTradable = false ∧
    t'.ledger.totalSupply = t.ledger.totalSupply ∧ t'.ledger.balances = t.ledger.balances

namespace SaleStep

lemma refl (t : FightNightToken) : SaleStep t t := ⟨⟨rfl, rfl⟩, id, fun h => ⟨h, rfl, rfl⟩⟩

lemma trans (a b c : FightNightToken) (hab : SaleStep a b) (hbc : SaleStep b c) :
    SaleStep a c := by
  refine ⟨⟨hbc.cap.1.trans hab.cap.1, hbc.cap.2.trans hab.cap.2⟩, fun h => hbc.inv (hab.inv h),
    fun h => ?_⟩
  obtain ⟨hb, hsb, hbb⟩ := hab.frozen h
  obtain ⟨hc, hsc, hbc'⟩ := hbc.frozen hb
  exact ⟨hc, hsc.trans hsb, hbc'.trans hbb⟩

lemma of_frame {t t' : FightNightToken} (hc : t'.marketCap = t.marketCap)
    (ht : t'.marketCapTolerance = t.marketCapTolerance) (hi : t'.isTradable = t.isTradable)
    (hs : t'.ledger.totalSupply = t.ledger.totalSupply)
    (hb : t'.ledger.balances = t.ledger.balances) : SaleStep t t' := by
  refine ⟨⟨hc, ht⟩, ?_, fun h => ⟨hi.trans h, hs, hb⟩⟩
  simp only [SaleInv, lowerCap, upperCap, hc, ht, hi, hs]
  exact id

end SaleStep

lemma update_totalSupply_le {src dst : Address} {value : ℕ} {l l' : ERC20} (hdst : dst ≠ 0)
    (h : l.update src dst value = .ok l') : l'.totalSupply ≤ value + l.totalSupply := by
  by_cases hsrc : src = 0
  · subst hsrc
    rw [ERC20.update_totalSupply_mint hdst h, add_comm]
  · rw [ERC20.update_totalSupply_transfer hsrc hdst h]
    exact Nat.le_add_left _ _

lemma update_saleStep {out : Outside} (hout : CallTree.Respects SaleStep out) {msg : Msg}
    {src dst : Address} {value : ℕ} {t t' : FightNightToken} (hdst : dst ≠ 0)
    (h : t.update msg out src dst value = .ok t') : SaleStep t t' := by
  obtain ⟨m, hm, hcase⟩ := update_ok hout SaleStep.trans h
  obtain ⟨htrade, hcap, l, hl, rfl⟩ := move_ok hm
  have hle := update_totalSupply_le hdst hl
  rcases hcase with ⟨hlow, rfl⟩ | ⟨hlow, hstep⟩
  · refine ⟨⟨rfl, rfl⟩, fun _ => ⟨fun _ => hlow, fun hf => ?_⟩, fun hf => ?_⟩
    · exact absurd (htrade.symm.trans hf) (by simp)
    · exact absurd (htrade.symm.trans hf) (by simp)
  · -- The closed state lies between the bounds, and the outside keeps it there.
    refine ⟨hstep.cap, fun _ => hstep.inv ⟨fun hf => ?_, fun _ => ⟨hlow, ?_⟩⟩, fun hf => ?_⟩
    · simp [markReached] at hf
    · exact le_trans hle hcap
    · exact absurd (htrade.symm.trans hf) (by simp)

/-- The code of the token respects the sale whenever the outside does. -/
theorem body_saleStep (call : Call) (out : Outside) (hout : CallTree.Respects SaleStep out)
    (t t' : FightNightToken) (h : body call out t = .ok t') : SaleStep t t' := by
  obtain ⟨-, hcase⟩ := body_cases h
  rcases hcase with ⟨msg, priceUpdate, amount, -, hmint⟩ |
    ⟨msg, src, dst, value, l, -, hdst, hl, hupd⟩ | ⟨spender, value, l, hl, rfl⟩
  · obtain ⟨b, m, hb, h0, hm, rfl⟩ := mint_ok hmint
    obtain ⟨-, -, ⟨fee, -, hfee⟩, -⟩ := purchase_ok hout hb
    have hpay : SaleStep t ((t.receive msg.value).payOracle fee) :=
      SaleStep.of_frame rfl rfl rfl rfl rfl
    have hlast : SaleStep m { m with
        reserveBalance := m.reserveBalance + msg.value
        events := .mint msg.sender amount msg.value :: m.events } :=
      SaleStep.of_frame rfl rfl rfl rfl rfl
    exact SaleStep.trans _ _ _ (SaleStep.trans _ _ _ hpay hfee)
      (SaleStep.trans _ _ _ (update_saleStep hout h0 hm) hlast)
  · have hframe : l.totalSupply = t.ledger.totalSupply ∧ l.balances = t.ledger.balances := by
      rcases hl with ⟨rfl, -⟩ | hl
      · exact ⟨rfl, rfl⟩
      · exact (ERC20.spendAllowance_frame hl).symm
    have hspend : SaleStep t { t with ledger := l } :=
      SaleStep.of_frame rfl rfl rfl hframe.1 hframe.2
    exact SaleStep.trans _ _ _ hspend (update_saleStep hout hdst hupd)
  · rw [ERC20.approve_ok hl]
    exact SaleStep.of_frame rfl rfl rfl rfl rfl

lemma run_saleStep (txs : List Tx) (t : FightNightToken) : SaleStep t (run txs t) :=
  CallTree.execAll_rel SaleStep.refl SaleStep.trans body_saleStep txs t

lemma initial_saleInv (self : Address) (p : Params) : (initial self p).SaleInv :=
  ⟨fun _ => Nat.zero_le _, fun h => absurd h (by simp [initial])⟩

/-- After every sequence of transactions on a new token, the supply is at most the upper bound of
the market cap, the sale is open exactly while the supply is within the lower bound, and in every
continuation of a closed sale the supply and all balances stay as they are.  For a tolerance of at
most 100 percent the subtraction in the lower bound is exact; a larger one makes every mint revert.
-/
theorem sale_cap {self : Address} {p : Params} {t₀ : FightNightToken}
    (hdeploy : deploy self p = .ok t₀) (txs : List Tx) :
    (run txs t₀).ledger.totalSupply ≤ p.marketCap + p.marketCap * p.marketCapTolerance / 100 ∧
    ((run txs t₀).isTradable = true ↔
      (run txs t₀).ledger.totalSupply ≤
        p.marketCap - p.marketCap * p.marketCapTolerance / 100) ∧
    ((run txs t₀).isTradable = false → ∀ later : List Tx,
      (run (txs ++ later) t₀).isTradable = false ∧
      (run (txs ++ later) t₀).ledger.totalSupply = (run txs t₀).ledger.totalSupply ∧
      (run (txs ++ later) t₀).ledger.balances = (run txs t₀).ledger.balances) := by
  obtain ⟨-, -, -, rfl⟩ := deploy_eq_ok.mp hdeploy
  have hstep := run_saleStep txs (initial self p)
  have hinv := hstep.inv (initial_saleInv self p)
  have hlower : (run txs (initial self p)).lowerCap =
      p.marketCap - p.marketCap * p.marketCapTolerance / 100 := by
    rw [lowerCap, hstep.cap.1, hstep.cap.2]
    rfl
  have hupper : (run txs (initial self p)).upperCap =
      p.marketCap + p.marketCap * p.marketCapTolerance / 100 := by
    rw [upperCap, hstep.cap.1, hstep.cap.2]
    rfl
  rw [SaleInv, hlower, hupper] at hinv
  refine ⟨?_, ⟨hinv.1, fun hle => ?_⟩, fun hcl later => ?_⟩
  · cases ht : (run txs (initial self p)).isTradable with
    | true =>
      have := hinv.1 ht
      omega
    | false => exact (hinv.2 ht).2
  · by_contra hne
    have := (hinv.2 (by simpa using hne)).1
    omega
  · rw [run, CallTree.execAll_append]
    exact (run_saleStep later (run txs (initial self p))).frozen hcl

/-- A sale with the factory's defaults that one mint closes: the oracle tries a second mint
before it answers, and the swap router a third one. -/
theorem sale_cap_sample :
    deploy 8 sampleParams = .ok (initial 8 sampleParams) ∧
    (run [sampleReentrantMint] (initial 8 sampleParams)).ledger.totalSupply = 100 ∧
    (run [sampleReentrantMint] (initial 8 sampleParams)).isTradable = false ∧
    (run [sampleReentrantMint] (initial 8 sampleParams)).ledger.totalSupply ≤
      100 + 100 * 10 / 100 :=
  ⟨rfl, by decide +kernel, by decide +kernel,
    (sale_cap (p := sampleParams) rfl [sampleReentrantMint]).1⟩

end FightNight.FightNightToken
