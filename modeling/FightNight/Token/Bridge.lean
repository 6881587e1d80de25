import FightNight.Library.Run
import FightNight.Token.FightNightToken

/-!
# The bridge contract

The contract `ProgrammableTokenTransfers` with the parts of its base contracts that it uses: the
owner with a two-step transfer (`OwnerIsCreator`) and the router it was created with
(`CCIPReceiver`).  The receiving side, the payments in LINK and the withdrawal of tokens are
left out: nothing that the sale token reaches depends on them.

The calls to the router and to the bridged token are answered by a parameter, `BridgeOutside`.
-/

namespace FightNight

open FightNight.Except (bind_eq_ok)

/-- What the contracts that the bridge calls answer. -/
structure BridgeOutside where
  getFee : ℕ → EVM2AnyMessage → Except Revert ℕ
  /-- `IERC20.approve` on the bridged token. -/
  approve : Address → Address → ℕ → Except Revert Bool
  /-- `IRouterClient.ccipSend`, with the value that is sent. -/
  ccipSend : ℕ → ℕ → EVM2AnyMessage → Except Revert ℕ
  /-- Whether an account accepts native currency. -/
  accepts : Address → Bool

/-- The state of the bridge contract. -/
structure ProgrammableTokenTransfers where
  /-- `s_owner`. -/
  owner : Address
  /-- `s_pendingOwner`. -/
  pendingOwner : Address
  /-- `i_ccipRouter`. -/
  router : Address
  allowlistedDestinationChains : ℕ → Bool
  /-- `address(this).balance`. -/
  nativeBalance : ℕ

namespace ProgrammableTokenTransfers

/-! ## The functions of the contract -/

/-- The constructor, called by `deployer`, who becomes the owner. -/
def deploy (deployer router : Address) : Except Revert ProgrammableTokenTransfers := do
  Except.revertIf (router = 0) (.invalidRouter 0)
  Except.revertIf (deployer = 0) (.require "Cannot set owner to zero")
  .ok ⟨deployer, 0, router, fun _ => false, 0⟩

/-- The modifier `onlyOwner`. -/
def onlyOwner (sender : Address) (b : ProgrammableTokenTransfers) : Except Revert Unit :=
  Except.revertIf (sender ≠ b.owner) (.require "Only callable by owner")

def transferOwnership (sender newOwner : Address) (b : ProgrammableTokenTransfers) :
    Except Revert ProgrammableTokenTransfers := do
  b.onlyOwner sender
  Except.revertIf (newOwner = sender) (.require "Cannot transfer to self")
  .ok { b with pendingOwner := newOwner }

def acceptOwnership (sender : Address) (b : ProgrammableTokenTransfers) :
    Except Revert ProgrammableTokenTransfers := do
  Except.revertIf (sender ≠ b.pendingOwner) (.require "Must be proposed owner")
  .ok { b with owner := sender, pendingOwner := 0 }

def allowlistDestinationChain (sender : Address) (destinationChainSelector : ℕ) (allowed : Bool)
    (b : ProgrammableTokenTransfers) : Except Revert ProgrammableTokenTransfers := do
  b.onlyOwner sender
  .ok { b with allowlistedDestinationChains :=
    Function.update b.allowlistedDestinationChains destinationChainSelector allowed }

/-- The ABI encoding of a single string argument. -/
def abiEncodeString (text : Bytes) : Bytes :=
  beBytes 32 32 ++ beBytes 32 text.length ++ text ++
    List.replicate ((32 - text.length % 32) % 32) 0

/-- `Client._argsToBytes`: the tag of version 1 of the extra arguments, and the gas limit. -/
def argsToBytes (gasLimit : ℕ) : Bytes := beBytes 4 0x97a657c9 ++ beBytes 32 gasLimit

def buildCCIPMessage (receiver : Address) (text : Bytes) (token : Address) (amount : ℕ)
    (feeTokenAddress : Address) : EVM2AnyMessage where
  receiver := beBytes 32 receiver
  data := abiEncodeString text
  tokenAmounts := [(token, amount)]
  extraArgs := argsToBytes 200000
  feeToken := feeTokenAddress

def constructMessage (receiver : Address) (text : Bytes) (token : Address) (amount : ℕ)
    (feeTokenAddress : Address) : EVM2AnyMessage :=
  buildCCIPMessage receiver text token amount feeTokenAddress

def sendMessagePayNative (sender : Address) (out : BridgeOutside)
    (destinationChainSelector : ℕ) (receiver : Address) (text : Bytes) (token : Address)
    (amount : ℕ) (b : ProgrammableTokenTransfers) :
    Except Revert (ProgrammableTokenTransfers × ℕ) := do
  b.onlyOwner sender
  Except.revertIf (b.allowlistedDestinationChains destinationChainSelector = false)
    (.destinationChainNotAllowed destinationChainSelector)
  Except.revertIf (receiver = 0) .invalidReceiverAddress
  let evm2AnyMessage := buildCCIPMessage receiver text token amount 0
  let fees ← out.getFee destinationChainSelector evm2AnyMessage
  Except.revertIf (b.nativeBalance < fees) (.notEnoughBalance b.nativeBalance fees)
  let _ ← out.approve token b.router amount
  let messageId ← out.ccipSend fees destinationChainSelector evm2AnyMessage
  .ok ({ b with nativeBalance := b.nativeBalance - fees }, messageId)

/-- `receive`: the contract accepts native currency from anyone. -/
def receive (value : ℕ) (b : ProgrammableTokenTransfers) : ProgrammableTokenTransfers :=
  { b with nativeBalance := b.nativeBalance + value }

def withdraw (sender : Address) (out : BridgeOutside) (beneficiary : Address)
    (b : ProgrammableTokenTransfers) : Except Revert ProgrammableTokenTransfers := do
  b.onlyOwner sender
  Except.revertIf (b.nativeBalance = 0) .nothingToWithdraw
  Except.revertIf (out.accepts beneficiary = false)
    (.failedToWithdrawEth sender beneficiary b.nativeBalance)
  .ok { b with nativeBalance := 0 }

/-! ## Runs -/

inductive Call where
  | transferOwnership (newOwner : Address)
  | acceptOwnership
  | allowlistDestinationChain (destinationChainSelector : ℕ) (allowed : Bool)
  | sendMessagePayNative (destinationChainSelector : ℕ) (receiver : Address) (text : Bytes)
    (token : Address) (amount : ℕ)
  | receive (value : ℕ)
  | withdraw (beneficiary : Address)
  deriving DecidableEq

/-- The code of the bridge, for a sender and a call. -/
def exec (out : BridgeOutside) : Address × Call → ProgrammableTokenTransfers →
    Except Revert ProgrammableTokenTransfers
  | (sender, .transferOwnership newOwner), b => b.transferOwnership sender newOwner
  | (sender, .acceptOwnership), b => b.acceptOwnership sender
  | (sender, .allowlistDestinationChain selector allowed), b =>
    b.allowlistDestinationChain sender selector allowed
  | (sender, .sendMessagePayNative selector receiver text token amount), b =>
    (b.sendMessagePayNative sender out selector receiver text token amount).map Prod.fst
  | (_, .receive value), b => .ok (b.receive value)
  | (sender, .withdraw beneficiary), b => b.withdraw sender out beneficiary

abbrev run (out : BridgeOutside) (calls : List (Address × Call))
    (b : ProgrammableTokenTransfers) : ProgrammableTokenTransfers :=
  Run.runAll (exec out) calls b

variable {b : ProgrammableTokenTransfers} {out : BridgeOutside} {sender : Address}

lemma sendMessagePayNative_owner {receiver token : Address} {selector amount : ℕ} {text : Bytes}
    {r : ProgrammableTokenTransfers × ℕ}
    (h : b.sendMessagePayNative sender out selector receiver text token amount = .ok r) :
    sender = b.owner ∧ r.1.owner = b.owner := by
  obtain ⟨_, howner, h⟩ := bind_eq_ok.mp h
  obtain ⟨_, -, h⟩ := bind_eq_ok.mp h
  obtain ⟨_, -, h⟩ := bind_eq_ok.mp h
  obtain ⟨fees, -, h⟩ := bind_eq_ok.mp h
  obtain ⟨_, -, h⟩ := bind_eq_ok.mp h
  obtain ⟨_, -, h⟩ := bind_eq_ok.mp h
  obtain ⟨messageId, -, h⟩ := bind_eq_ok.mp h
  cases h
  exact ⟨not_not.mp (Except.revertIf_eq_ok.mp howner), rfl⟩

lemma exec_owner {call : Call} {b' : ProgrammableTokenTransfers}
    (h : exec out (sender, call) b = .ok b') :
    b'.owner = b.owner ∨ call = .acceptOwnership ∧ b'.owner = sender := by
  cases call with
  | transferOwnership newOwner =>
    obtain ⟨_, -, h⟩ := bind_eq_ok.mp h
    obtain ⟨_, -, h⟩ := bind_eq_ok.mp h
    cases h
    exact Or.inl rfl
  | acceptOwnership =>
    obtain ⟨_, -, h⟩ := bind_eq_ok.mp h
    cases h
    exact Or.inr ⟨rfl, rfl⟩
  | allowlistDestinationChain selector allowed =>
    obtain ⟨_, -, h⟩ := bind_eq_ok.mp h
    cases h
    exact Or.inl rfl
  | sendMessagePayNative selector receiver text token amount =>
    obtain ⟨r, hr, rfl⟩ := Except.map_eq_ok.mp h
    exact Or.inl (sendMessagePayNative_owner hr).2
  | receive value =>
    cases h
    exact Or.inl rfl
  | withdraw beneficiary =>
    obtain ⟨_, -, h⟩ := bind_eq_ok.mp h
    obtain ⟨_, -, h⟩ := bind_eq_ok.mp h
    obtain ⟨_, -, h⟩ := bind_eq_ok.mp h
    cases h
    exact Or.inl rfl

/-- An account that is not the owner and never accepts the ownership does not become the owner,
whatever anyone else does. -/
theorem run_owner_ne {a : Address} {calls : List (Address × Call)} (hb : b.owner ≠ a)
    (hnot : (a, Call.acceptOwnership) ∉ calls) : (run out calls b).owner ≠ a := by
  refine Run.runAll_inv (P := fun b : ProgrammableTokenTransfers => b.owner ≠ a) ?_ hb
  intro c hc b b' hb h
  obtain ⟨sender, call⟩ := c
  rcases exec_owner h with howner | ⟨rfl, howner⟩
  · rwa [howner]
  · grind

end ProgrammableTokenTransfers

end FightNight
