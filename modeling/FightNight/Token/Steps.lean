import FightNight.Token.FightNightToken

/-!
# What the functions of the token can do

One inversion lemma for each function of the token contract.  A function that hands control to the
outside is described relative to a relation `R` between states that the outside respects: between
its own steps, the state changes along `R` and in no other way.  The invariants of the token are
all derived from these lemmas.
-/

namespace FightNight.FightNightToken

open Checked
open FightNight.Except (bind_eq_ok revertIf_eq_ok)

/-! ## The bounds of the market cap -/

def upperCap (t : FightNightToken) : ℕ := t.marketCap + t.marketCap * t.marketCapTolerance / 100

def lowerCap (t : FightNightToken) : ℕ := t.marketCap - t.marketCap * t.marketCapTolerance / 100

variable {t t' : FightNightToken} {msg : Msg} {amount n value : ℕ} {out : Outside}
  {dst src : Address} {u : Unit}

lemma marketCapUpperBound_ok (h : t.marketCapUpperBound = .ok n) : n = t.upperCap := by
  obtain ⟨m, hm, h⟩ := bind_eq_ok.mp h
  obtain ⟨-, rfl⟩ := mul_eq_ok.mp hm
  exact (add_eq_ok.mp h).2.symm

lemma marketCapLowerBound_ok (h : t.marketCapLowerBound = .ok n) : n = t.lowerCap := by
  obtain ⟨m, hm, h⟩ := bind_eq_ok.mp h
  obtain ⟨-, rfl⟩ := mul_eq_ok.mp hm
  exact (sub_eq_ok.mp h).2.symm

lemma checkWithinMarketCap_ok (h : t.checkWithinMarketCap amount = .ok u) :
    amount + t.ledger.totalSupply ≤ t.upperCap := by
  obtain ⟨s, hs, h⟩ := bind_eq_ok.mp h
  obtain ⟨b, hb, h⟩ := bind_eq_ok.mp h
  obtain ⟨-, rfl⟩ := add_eq_ok.mp hs
  rw [← marketCapUpperBound_ok hb]
  exact not_lt.mp (revertIf_eq_ok.mp h)

lemma whenTradable_ok (h : t.whenTradable = .ok u) : t.isTradable = true := by
  simpa using revertIf_eq_ok.mp h

/-! ## Moving tokens -/

lemma move_ok (h : t.move src dst value = .ok t') :
    t.isTradable = true ∧ value + t.ledger.totalSupply ≤ t.upperCap ∧
      ∃ l, t.ledger.update src dst value = .ok l ∧
        t' = { t with ledger := l, events := .transfer src dst value :: t.events } := by
  obtain ⟨u, hu, h⟩ := bind_eq_ok.mp h
  obtain ⟨v, hv, h⟩ := bind_eq_ok.mp h
  obtain ⟨l, hl, h⟩ := bind_eq_ok.mp h
  exact ⟨whenTradable_ok hu, checkWithinMarketCap_ok hv, l, hl, (Except.ok.inj h).symm⟩

section Outside

variable {R : FightNightToken → FightNightToken → Prop} {out : Outside}
  (hout : CallTree.Respects R out)

include hout

variable {priceUpdate : List Bytes} {msg : Msg}

lemma swapForUSDC_ok {t t' : FightNightToken} {amount : ℕ}
    (h : t.swapForUSDC msg out = .ok (t', amount)) : R t t' := by
  obtain ⟨⟨s, a⟩, hs, h⟩ := bind_eq_ok.mp h
  obtain ⟨n, -, h⟩ := bind_eq_ok.mp h
  cases h
  exact hout _ _ _ _ hs

lemma bridgeFunds_ok {amount : ℕ} {t t' : FightNightToken} {messageId : ℕ}
    (h : t.bridgeFunds amount out = .ok (t', messageId)) : R t t' := by
  obtain ⟨⟨_, _⟩, -, h⟩ := bind_eq_ok.mp h
  obtain ⟨_, -, h⟩ := bind_eq_ok.mp h
  obtain ⟨⟨_, _⟩, -, h⟩ := bind_eq_ok.mp h
  obtain ⟨_, -, h⟩ := bind_eq_ok.mp h
  obtain ⟨⟨s, a⟩, hs, h⟩ := bind_eq_ok.mp h
  obtain ⟨_, -, h⟩ := bind_eq_ok.mp h
  cases h
  exact hout _ _ _ _ hs

lemma updatePrice_ok {t t' : FightNightToken} (h : t.updatePrice priceUpdate out = .ok t') :
    ∃ fee ≤ t.nativeBalance, R (t.payOracle fee) t' := by
  obtain ⟨⟨_, _⟩, -, h⟩ := bind_eq_ok.mp h
  obtain ⟨fee, -, h⟩ := bind_eq_ok.mp h
  obtain ⟨u, hu, h⟩ := bind_eq_ok.mp h
  obtain ⟨⟨s, a⟩, hs, h⟩ := bind_eq_ok.mp h
  cases h
  exact ⟨fee, not_lt.mp (revertIf_eq_ok.mp hu), hout _ _ _ _ hs⟩

lemma purchase_ok {t t' : FightNightToken} {amount : ℕ}
    (h : t.purchase msg priceUpdate out = .ok (t', amount)) :
    t.isTradable = true ∧ msg.value ≠ 0 ∧
      (∃ fee ≤ t.nativeBalance + msg.value, R ((t.receive msg.value).payOracle fee) t') ∧
      calculatePurchase t'.ledger.totalSupply t'.reserveBalance t'.reserveRatio msg.value =
        .ok amount := by
  obtain ⟨u, hu, h⟩ := bind_eq_ok.mp h
  obtain ⟨v, hv, h⟩ := bind_eq_ok.mp h
  obtain ⟨s, hs, h⟩ := bind_eq_ok.mp h
  obtain ⟨a, ha, h⟩ := bind_eq_ok.mp h
  cases h
  exact ⟨whenTradable_ok hu, revertIf_eq_ok.mp hv, updatePrice_ok hout hs, ha⟩

variable (htrans : ∀ a b c, R a b → R b c → R a c)

include htrans

lemma closeSale_ok {t t' : FightNightToken} (h : t.closeSale msg out = .ok t') :
    R t.markReached t' := by
  obtain ⟨⟨s, amount⟩, hs, h⟩ := bind_eq_ok.mp h
  obtain ⟨⟨s', _⟩, hs', h⟩ := bind_eq_ok.mp h
  cases h
  exact htrans _ _ _ (swapForUSDC_ok hout hs) (bridgeFunds_ok hout hs')

/-- The hook moves the tokens, and then either the supply is still within the lower bound and
nothing else happens, or it has passed the bound and the sale is closed. -/
theorem update_ok {src dst : Address} {value : ℕ} {t t' : FightNightToken}
    (h : t.update msg out src dst value = .ok t') :
    ∃ m, t.move src dst value = .ok m ∧
      (m.ledger.totalSupply ≤ m.lowerCap ∧ t' = m ∨
        m.lowerCap < m.ledger.totalSupply ∧ R m.markReached t') := by
  obtain ⟨m, hm, h⟩ := bind_eq_ok.mp h
  obtain ⟨b, hb, h⟩ := bind_eq_ok.mp h
  rw [marketCapLowerBound_ok hb] at h
  refine ⟨m, hm, ?_⟩
  split at h
  · exact Or.inr ⟨‹_›, closeSale_ok hout htrans h⟩
  · exact Or.inl ⟨not_lt.mp ‹_›, (Except.ok.inj h).symm⟩

end Outside

/-- Transfers from or to the zero address are refused; any other goes through the hook. -/
theorem transferTokens_ok (h : t.transferTokens msg out src dst value = .ok t') :
    src ≠ 0 ∧ dst ≠ 0 ∧ t.update msg out src dst value = .ok t' := by
  obtain ⟨u, hu, h⟩ := bind_eq_ok.mp h
  obtain ⟨v, hv, h⟩ := bind_eq_ok.mp h
  exact ⟨revertIf_eq_ok.mp hu, revertIf_eq_ok.mp hv, h⟩

/-! ## Transactions -/

/-- The three parts of a mint: the purchase, the creation of the tokens, and the entry in the
reserve. -/
theorem mint_ok {priceUpdate : List Bytes} (h : t.mint msg priceUpdate out = .ok (t', amount)) :
    ∃ b m, t.purchase msg priceUpdate out = .ok (b, amount) ∧ msg.sender ≠ 0 ∧
      b.update msg out 0 msg.sender amount = .ok m ∧
      t' = { m with
        reserveBalance := m.reserveBalance + msg.value
        events := .mint msg.sender amount msg.value :: m.events } := by
  obtain ⟨⟨b, a⟩, hb, h⟩ := bind_eq_ok.mp h
  obtain ⟨m, hm, h⟩ := bind_eq_ok.mp h
  obtain ⟨r, hr, h⟩ := bind_eq_ok.mp h
  obtain ⟨n, hn, hr⟩ := bind_eq_ok.mp hr
  obtain ⟨-, rfl⟩ := add_eq_ok.mp hn
  cases hr
  cases h
  obtain ⟨_, -, hm⟩ := bind_eq_ok.mp hm
  obtain ⟨u, hu, hm⟩ := bind_eq_ok.mp hm
  exact ⟨b, m, hb, revertIf_eq_ok.mp hu, hm, rfl⟩

/-- A successful transaction is a mint, a transfer whose allowance was charged when it was made
for another account, or an approval; its sender is not the contract itself. -/
theorem body_cases {call : Call} (h : body call out t = .ok t') :
    call.msg.sender ≠ t.self ∧
    ((∃ msg priceUpdate amount, call = .mint msg priceUpdate ∧
        t.mint msg priceUpdate out = .ok (t', amount)) ∨
      (∃ msg src dst value l, src ≠ 0 ∧ dst ≠ 0 ∧
        (l = t.ledger ∧ src = call.msg.sender ∨
          t.ledger.spendAllowance src call.msg.sender value = .ok l) ∧
        { t with ledger := l }.update msg out src dst value = .ok t') ∨
      (∃ spender value l, t.ledger.approve call.msg.sender spender value = .ok l ∧
        t' = { t with
          ledger := l
          events := .approval call.msg.sender spender value :: t.events })) := by
  obtain ⟨u, hu, h⟩ := bind_eq_ok.mp h
  refine ⟨revertIf_eq_ok.mp hu, ?_⟩
  cases call with
  | mint msg priceUpdate =>
    obtain ⟨⟨s, amount⟩, hs, rfl⟩ := Except.map_eq_ok.mp h
    exact Or.inl ⟨msg, priceUpdate, amount, rfl, hs⟩
  | transfer msg dst value =>
    obtain ⟨_, -, h⟩ := bind_eq_ok.mp h
    obtain ⟨hsrc, hdst, h⟩ := transferTokens_ok h
    exact Or.inr (Or.inl ⟨msg, msg.sender, dst, value, t.ledger, hsrc, hdst, Or.inl ⟨rfl, rfl⟩, h⟩)
  | transferFrom msg src dst value =>
    obtain ⟨_, -, h⟩ := bind_eq_ok.mp h
    obtain ⟨l, hl, h⟩ := bind_eq_ok.mp h
    obtain ⟨hsrc, hdst, h⟩ := transferTokens_ok h
    exact Or.inr (Or.inl ⟨msg, src, dst, value, l, hsrc, hdst, Or.inr hl, h⟩)
  | approve msg spender value =>
    obtain ⟨_, -, h⟩ := bind_eq_ok.mp h
    obtain ⟨l, hl, h⟩ := bind_eq_ok.mp h
    exact Or.inr (Or.inr ⟨spender, value, l, hl, (Except.ok.inj h).symm⟩)

lemma deploy_eq_ok {self : Address} {p : Params} :
    deploy self p = .ok t ↔
      p.initialOwner ≠ 0 ∧ p.marketCap ≠ 0 ∧ p.marketCapTolerance ≠ 0 ∧ t = initial self p := by
  unfold deploy checkValidMarketCap
  simp only [bind_eq_ok, revertIf_eq_ok, exists_const, not_or, Except.ok.injEq,
    and_assoc, @eq_comm _ t]

/-! ## A sample sale

A token with the cap, tolerance and ratio of the factory, and mints whose outside answers every
call.  A deposit of 54571898416923023 is the smallest that the curve accepts from a new token
and buys nothing; one of 54571898417075865 buys 100 tokens and closes the sale. -/

/-- The factory's defaults, with made-up addresses. -/
def sampleParams : Params where
  initialOwner := 1
  marketCap := 100
  marketCapTolerance := 10
  reserveRatio := 10
  ccipBridge := 2
  ccipReceiverAddress := 3
  uniswapRouter := 4
  usdcAddress := 5
  nativeAddress := 6
  pythAddress := 7

/-- An outside in which every call succeeds and the oracle charges `fee`. -/
def sampleReply (fee : ℕ) : ExternalCall → Except Revert Answer
  | .getUpdateFee _ => .ok (.word fee)
  | .updatePriceFeeds _ _ => .ok .nothing
  | .exactInputSingle _ => .ok (.word 5)
  | .constructMessage .. => .ok (.message ⟨[], [], [], 0, []⟩)
  | .balanceOf _ => .ok (.word 6)
  | .sendMessagePayNative .. => .ok (.word 7)

/-- A mint with the given deposit and oracle fee, and no re-entrant calls. -/
def sampleMint (deposit fee : ℕ) : Tx :=
  .mk (.mint ⟨9, deposit, 1000⟩ []) (fun _ => []) (sampleReply fee)

/-- A mint that buys 100 tokens, during which every outside contract tries to mint as well. -/
def sampleReentrantMint : Tx :=
  .mk (.mint ⟨9, 54571898417075865, 1000⟩ []) (fun _ => [sampleMint 54571898416923022 0])
    (sampleReply 1)

end FightNight.FightNightToken
