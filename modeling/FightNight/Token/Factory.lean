import FightNight.Token.Bridge
import FightNight.Token.Steps

/-!
# The factory, and the end of the sale

The contract `FightNightTokenFactory` creates the sale tokens and tells each of them which bridge
to send its proceeds to.  The token, once the market cap is reached, calls the bridge itself; the
bridge sends messages for its owner only (`sendMessagePayNative_owner`), and no token becomes
one.  So a mint that reaches the market cap always reverts, and the sale cannot end.
-/

namespace FightNight

open FightNight.Except (bind_eq_ok map_eq_ok)

structure FightNightTokenFactory where
  owner : Address
  deployedTokens : List Address
  marketCap : ℕ
  marketCapTolerance : ℕ
  reserveRatio : ℕ
  ccipBridge : Address
  ccipBridgeReceiver : Address
  uniswapRouter : Address
  usdcAddress : Address
  nativeAddress : Address
  pythAddress : Address

namespace FightNightTokenFactory

/-- The constructor, called by `deployer`, with the default market cap, tolerance and ratio. -/
def deploy (deployer ccipBridge ccipBridgeReceiver uniswapRouter usdcAddress nativeAddress
    pythAddress : Address) : Except Revert FightNightTokenFactory := do
  Except.revertIf (deployer = 0) (.ownableInvalidOwner 0)
  .ok ⟨deployer, [], 100, 10, 10, ccipBridge, ccipBridgeReceiver, uniswapRouter, usdcAddress,
    nativeAddress, pythAddress⟩

/-- The modifier `onlyOwner`. -/
def onlyOwner (sender : Address) (f : FightNightTokenFactory) : Except Revert Unit :=
  Except.revertIf (sender ≠ f.owner) (.ownableUnauthorizedAccount sender)

/-- The arguments with which the factory creates a token for `sender`. -/
def tokenParams (sender : Address) (f : FightNightTokenFactory) : FightNightToken.Params where
  initialOwner := sender
  marketCap := f.marketCap
  marketCapTolerance := f.marketCapTolerance
  reserveRatio := f.reserveRatio
  ccipBridge := f.ccipBridge
  ccipReceiverAddress := f.ccipBridgeReceiver
  uniswapRouter := f.uniswapRouter
  usdcAddress := f.usdcAddress
  nativeAddress := f.nativeAddress
  pythAddress := f.pythAddress

/-- `createToken`; the new contract gets the address `tokenAddress`. -/
def createToken (sender tokenAddress : Address) (f : FightNightTokenFactory) :
    Except Revert (FightNightTokenFactory × FightNightToken) := do
  let token ← FightNightToken.deploy tokenAddress (f.tokenParams sender)
  .ok ({ f with deployedTokens := f.deployedTokens ++ [tokenAddress] }, token)

def setMarketCap (sender : Address) (marketCap marketCapTolerance : ℕ)
    (f : FightNightTokenFactory) : Except Revert FightNightTokenFactory := do
  f.onlyOwner sender
  .ok { f with marketCap := marketCap, marketCapTolerance := marketCapTolerance }

def setCCIPBridge (sender ccipBridge : Address) (f : FightNightTokenFactory) :
    Except Revert FightNightTokenFactory := do
  f.onlyOwner sender
  .ok { f with ccipBridge := ccipBridge }

def setReserveRatio (sender : Address) (reserveRatio : ℕ) (f : FightNightTokenFactory) :
    Except Revert FightNightTokenFactory := do
  f.onlyOwner sender
  .ok { f with reserveRatio := reserveRatio }

end FightNightTokenFactory

namespace FightNightToken

/-! ## The token and its bridge -/

/-- The answers that the token at the address `caller` gets when its bridge runs
`ProgrammableTokenTransfers`: `router` answers the bridge, and `others` is everything else. -/
def withBridge (caller : Address) (bridge : ProgrammableTokenTransfers) (router : BridgeOutside)
    (others : ExternalCall → Except Revert Answer) : ExternalCall → Except Revert Answer
  | .constructMessage receiver text token amount feeTokenAddress =>
    .ok (.message (ProgrammableTokenTransfers.constructMessage receiver text token amount
      feeTokenAddress))
  | .sendMessagePayNative selector receiver text token amount =>
    (bridge.sendMessagePayNative caller router selector receiver text token amount).map
      fun r => .word r.2
  | call => others call

lemma bridgeFunds_sends {amount : ℕ} {out : Outside} {t : FightNightToken}
    {r : FightNightToken × ℕ} (h : t.bridgeFunds amount out = .ok r) :
    ∃ text balance answer, out (.sendMessagePayNative 16015286601757825753
      t.ccipReceiverAddress text t.usdcAddress balance) t = .ok answer := by
  obtain ⟨⟨_, _⟩, -, h⟩ := bind_eq_ok.mp h
  obtain ⟨message, -, h⟩ := bind_eq_ok.mp h
  obtain ⟨⟨_, _⟩, -, h⟩ := bind_eq_ok.mp h
  obtain ⟨balance, -, h⟩ := bind_eq_ok.mp h
  obtain ⟨answer, hans, -⟩ := bind_eq_ok.mp h
  exact ⟨message.data, balance, answer, hans⟩

lemma bridgeFunds_not_ok {caller : Address} {bridge : ProgrammableTokenTransfers}
    (howner : bridge.owner ≠ caller) (router : BridgeOutside)
    (others : ExternalCall → Except Revert Answer) (reenter : ExternalCall → List Tx)
    (amount : ℕ) (t : FightNightToken) (r : FightNightToken × ℕ) :
    t.bridgeFunds amount
      (CallTree.outside body reenter (withBridge caller bridge router others)) ≠ .ok r := by
  intro h
  obtain ⟨text, balance, answer, hans⟩ := bridgeFunds_sends h
  obtain ⟨word, hword, -⟩ := map_eq_ok.mp hans
  obtain ⟨sent, hsent, -⟩ := map_eq_ok.mp hword
  have hcaller := (ProgrammableTokenTransfers.sendMessagePayNative_owner hsent).1
  exact howner hcaller.symm

lemma mint_bridges {msg : Msg} {priceUpdate : List Bytes} {out : Outside}
    {t t' b : FightNightToken} {amount bought : ℕ}
    (hpur : t.purchase msg priceUpdate out = .ok (b, amount))
    (habove : b.lowerCap < b.ledger.totalSupply + amount)
    (h : t.mint msg priceUpdate out = .ok (t', bought)) :
    ∃ (s : FightNightToken) (proceeds : ℕ) (r : FightNightToken × ℕ),
      s.bridgeFunds proceeds out = .ok r := by
  obtain ⟨b', m, hb, hsend, hm, -⟩ := mint_ok h
  cases hpur.symm.trans hb
  obtain ⟨m', hmove, hclose⟩ := bind_eq_ok.mp hm
  obtain ⟨bound, hbound, hclose⟩ := bind_eq_ok.mp hclose
  obtain ⟨-, -, l, hl, rfl⟩ := move_ok hmove
  have hsup := ERC20.update_totalSupply_mint hsend hl
  -- The branch that keeps the sale open is excluded: the supply has passed the bound.
  have hlt : bound < l.totalSupply := by
    rwa [marketCapLowerBound_ok hbound, hsup]
  rw [if_pos hlt] at hclose
  obtain ⟨⟨s, proceeds⟩, -, hclose⟩ := bind_eq_ok.mp hclose
  obtain ⟨r, hr, -⟩ := bind_eq_ok.mp hclose
  exact ⟨s, proceeds, r, hr⟩

/-- The sale of a token from the factory cannot end.  Whatever happened to the token and its bridge,
and however the oracle and the routers answer, a mint that brings the supply above the lower bound
reverts, since the bridge belongs to its deployer and not to the token. -/
theorem sale_cannot_end {f f' : FightNightTokenFactory} {creator self : Address}
    {t₀ : FightNightToken} (hcreate : f.createToken creator self = .ok (f', t₀))
    {deployer routerAddress : Address} {b₀ : ProgrammableTokenTransfers}
    (hbridge : ProgrammableTokenTransfers.deploy deployer routerAddress = .ok b₀)
    (hdeployer : deployer ≠ self) (router : BridgeOutside)
    (calls : List (Address × ProgrammableTokenTransfers.Call))
    (hcalls : (self, ProgrammableTokenTransfers.Call.acceptOwnership) ∉ calls)
    (txs : List Tx) (msg : Msg) (priceUpdate : List Bytes) (reenter : ExternalCall → List Tx)
    (others : ExternalCall → Except Revert Answer) {t : FightNightToken} {amount : ℕ}
    (hpurchase : (run txs t₀).purchase msg priceUpdate (CallTree.outside body reenter
      (withBridge t₀.self (.run router calls b₀) router others)) = .ok (t, amount))
    (habove : t.lowerCap < t.ledger.totalSupply + amount) (t' : FightNightToken) :
    CallTree.exec body (.mk (.mint msg priceUpdate) reenter
      (withBridge t₀.self (.run router calls b₀) router others)) (run txs t₀) ≠ .ok t' := by
  intro h
  have hself : t₀.self = self := by
    obtain ⟨token, htoken, hcreate⟩ := bind_eq_ok.mp hcreate
    cases hcreate
    rw [(deploy_eq_ok.mp htoken).2.2.2]
    rfl
  obtain ⟨_, -, hbridge⟩ := bind_eq_ok.mp hbridge
  obtain ⟨_, -, hbridge⟩ := bind_eq_ok.mp hbridge
  cases hbridge
  have howner : (ProgrammableTokenTransfers.run router calls
      ⟨deployer, 0, routerAddress, fun _ => false, 0⟩).owner ≠ t₀.self := by
    rw [hself]
    exact ProgrammableTokenTransfers.run_owner_ne hdeployer hcalls
  obtain ⟨_, -, hmint⟩ := bind_eq_ok.mp h
  obtain ⟨⟨_, bought⟩, hmint, -⟩ := map_eq_ok.mp hmint
  obtain ⟨s, proceeds, r, hr⟩ := mint_bridges hpurchase habove hmint
  exact bridgeFunds_not_ok howner router others reenter proceeds s r hr

/-! ### A sale that reaches its cap -/

/-- A router that charges 3 for every message, and accounts that accept payments. -/
def sampleRouter : BridgeOutside where
  getFee _ _ := .ok 3
  approve _ _ _ := .ok true
  ccipSend _ _ _ := .ok 7
  accepts _ := true

/-- The deployer of the bridge allows the destination chain, and somebody funds the bridge. -/
def sampleBridgeCalls : List (Address × ProgrammableTokenTransfers.Call) :=
  [(1, .allowlistDestinationChain 16015286601757825753 true), (9, .receive 1000)]

/-- The bridge of the sample sale, as the account 1 deployed it. -/
def sampleBridge : ProgrammableTokenTransfers := ⟨1, 0, 10, fun _ => false, 0⟩

/-- The answers of the sample sale: everything succeeds, except what the bridge refuses. -/
def sampleAnswers : ExternalCall → Except Revert Answer :=
  withBridge 8 (.run sampleRouter sampleBridgeCalls sampleBridge) sampleRouter (sampleReply 1)

/-- The mint that closes the sample sale. -/
def sampleClosingTx : Tx :=
  .mk (.mint ⟨9, 54571898417075865, 1000⟩ []) (fun _ => []) sampleAnswers

def sampleFactory : FightNightTokenFactory := ⟨1, [], 100, 10, 10, 2, 3, 4, 5, 6, 7⟩

/-- What the sample factory creates for the account 1 at the address 8. -/
def sampleToken : FightNightToken := initial 8 (sampleFactory.tokenParams 1)

/-- The chain is allow-listed, the bridge has more native currency than the fee, every other
contract answers, and the mint buys 100 tokens, which lies between the bounds 90 and 110; but it
reverts in the access check of the bridge. -/
theorem sale_end_refused :
    (ProgrammableTokenTransfers.run sampleRouter sampleBridgeCalls
      sampleBridge).allowlistedDestinationChains 16015286601757825753 = true ∧
    (ProgrammableTokenTransfers.run sampleRouter sampleBridgeCalls
      sampleBridge).nativeBalance = 1000 ∧
    ((sampleToken.purchase ⟨9, 54571898417075865, 1000⟩ []
      (CallTree.outside body (fun _ => []) sampleAnswers)).map fun r =>
        (r.1.lowerCap, r.1.ledger.totalSupply + r.2, r.1.upperCap)) = .ok (90, 100, 110) ∧
    ((CallTree.exec body sampleClosingTx sampleToken).map fun t => t.isTradable) =
      .error (.require "Only callable by owner") := by
  refine ⟨?_, ?_, ?_, ?_⟩ <;> decide

/-- The sample sale meets the assumptions, and its closing mint reverts. -/
theorem sale_cannot_end_sample :
    sampleFactory.createToken 1 8 =
      .ok ({ sampleFactory with deployedTokens := [8] }, sampleToken) ∧
    ProgrammableTokenTransfers.deploy 1 10 = .ok sampleBridge ∧
    ∀ t', CallTree.exec body sampleClosingTx sampleToken ≠ .ok t' := by
  have hcr : sampleFactory.createToken 1 8 =
      .ok ({ sampleFactory with deployedTokens := [8] }, sampleToken) := rfl
  have hbr : ProgrammableTokenTransfers.deploy 1 10 = .ok sampleBridge := rfl
  have hobs : ((run [] sampleToken).purchase ⟨9, 54571898417075865, 1000⟩ []
      (CallTree.outside body (fun _ => []) sampleAnswers)).toOption.map
        (fun r => (r.1.lowerCap, r.1.ledger.totalSupply + r.2)) = some (90, 100) := by
    decide
  obtain ⟨⟨t, amount⟩, hpur, hpair⟩ := Except.exists_of_map_eq_some hobs
  have habove : t.lowerCap < t.ledger.totalSupply + amount := by
    rw [show t.lowerCap = 90 from congrArg Prod.fst hpair,
      show t.ledger.totalSupply + amount = 100 from congrArg Prod.snd hpair]
    decide
  exact ⟨hcr, hbr, sale_cannot_end hcr hbr (by decide) sampleRouter
    sampleBridgeCalls (by decide) [] _ [] (fun _ => []) (sampleReply 1) hpur habove⟩

end FightNightToken

end FightNight
