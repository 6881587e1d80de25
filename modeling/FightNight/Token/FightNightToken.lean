import FightNight.Library.CallTree
import FightNight.Token.ERC20

/-!
# The sale token

The contract `FightNightToken`: an ERC-20 token sold along a bonding curve until its supply is
close to a market cap.  `mint` takes a deposit, pays the price oracle for an update and mints the
purchased amount; the hook `update` checks the cap on every movement of tokens, and closes the
sale when the supply has passed the lower bound: it stops all further movements, swaps the
proceeds for USDC and sends them over the bridge.

The state holds the storage and the immutable variables that the functions read, the native
balance of the contract, and its events, newest first, with the native currency received and
paid.  `hasSwapped`, `pythFeedId`, `_pullBasePrice` and `name` are not modelled: no function below
reads them.

The calls of the oracle, the swap router, the USDC token and the bridge are call sites in the
sense of `CallTree`: where they may change state the outside can call the token again before it
answers; calls of `view` and `pure` functions cannot change the state.
-/

namespace FightNight

open FightNight.Except Checked

/-- What the token leaves behind: its events, and the native currency it received and paid. -/
inductive TokenEvent where
  | received (amount : ℕ)
  | paid (receiver : Address) (amount : ℕ)
  | transfer (src dst : Address) (value : ℕ)
  | approval (owner spender : Address) (value : ℕ)
  | mint (receiver : Address) (amountMinted amountDeposited : ℕ)
  | marketCapReached (marketCap marketCapTolerance totalSupply : ℕ)
  deriving DecidableEq

/-- A message for another chain, as the bridge builds it. -/
structure EVM2AnyMessage where
  receiver : Bytes
  data : Bytes
  tokenAmounts : List (Address × ℕ)
  feeToken : Address
  extraArgs : Bytes
  deriving DecidableEq

structure ExactInputSingleParams where
  tokenIn : Address
  tokenOut : Address
  fee : ℕ
  recipient : Address
  deadline : ℕ
  amountIn : ℕ
  amountOutMinimum : ℕ
  sqrtPriceLimitX96 : ℕ
  deriving DecidableEq

/-- The calls the token makes to other contracts. -/
inductive ExternalCall where
  | getUpdateFee (priceUpdate : List Bytes)
  | updatePriceFeeds (value : ℕ) (priceUpdate : List Bytes)
  | exactInputSingle (params : ExactInputSingleParams)
  | constructMessage (receiver : Address) (text : Bytes) (token : Address) (amount : ℕ)
    (feeTokenAddress : Address)
  | balanceOf (account : Address)
  | sendMessagePayNative (destinationChainSelector : ℕ) (receiver : Address) (text : Bytes)
    (token : Address) (amount : ℕ)
  deriving DecidableEq

/-- What another contract returns. -/
inductive Answer where
  | nothing
  | word (value : ℕ)
  | message (m : EVM2AnyMessage)
  deriving DecidableEq

namespace Answer

/-- Decode a returned word. -/
def toWord : Answer → Except Revert ℕ
  | .word value => .ok value
  | _ => .error .bare

/-- Decode a returned message. -/
def toMessage : Answer → Except Revert EVM2AnyMessage
  | .message m => .ok m
  | _ => .error .bare

end Answer

structure FightNightToken where
  /-- `address(this)`. -/
  self : Address
  ledger : ERC20
  marketCap : ℕ
  marketCapTolerance : ℕ
  isTradable : Bool
  reserveBalance : ℕ
  reserveRatio : ℕ
  ccipBridge : Address
  ccipReceiverAddress : Address
  swapRouter : Address
  usdcAddress : Address
  nativeAddress : Address
  pyth : Address
  /-- `address(this).balance`. -/
  nativeBalance : ℕ
  events : List TokenEvent

namespace FightNightToken

/-- The outside of the token during one of its transactions. -/
abbrev Outside := CallTree.Outside ExternalCall Answer Revert FightNightToken

def DECIMALS : ℕ := 18 ^ 10

/-! ## Market cap logic -/

def checkValidMarketCap (cap capTolerance : ℕ) : Except Revert Unit :=
  revertIf (cap = 0 ∨ capTolerance = 0) (.errMarketCapInvalid cap capTolerance)

def marketCapUpperBound (t : FightNightToken) : Except Revert ℕ := do
  let product ← mul .overflow t.marketCap t.marketCapTolerance
  add .overflow t.marketCap (product / 100)

def marketCapLowerBound (t : FightNightToken) : Except Revert ℕ := do
  let product ← mul .overflow t.marketCap t.marketCapTolerance
  sub .overflow t.marketCap (product / 100)

def checkWithinMarketCap (amount : ℕ) (t : FightNightToken) : Except Revert Unit := do
  let newSupply ← add .overflow amount t.ledger.totalSupply
  let upperBound ← t.marketCapUpperBound
  revertIf (upperBound < newSupply)
    (.errMarketCapExceeded t.marketCap t.marketCapTolerance t.ledger.totalSupply amount)

/-- The modifier `whenTradable`. -/
def whenTradable (t : FightNightToken) : Except Revert Unit :=
  revertIf (t.isTradable = false)
    (.errMarketCapReached t.marketCap t.marketCapTolerance t.ledger.totalSupply)

/-! ## Bonding curve logic -/

/-- The loop of `_sqrt`.  Each round replaces `y` by the smaller `z`, so that `y` rounds are
enough. -/
def sqrtLoop (x : ℕ) : ℕ → ℕ → ℕ → Except Revert ℕ
  | 0, _, y => .ok y
  | rounds + 1, z, y =>
    if z < y then do
      let quotient ← div .divisionByZero x z
      let sum ← add .overflow quotient z
      sqrtLoop x rounds (sum / 2) z
    else .ok y

def sqrt (x : ℕ) : Except Revert ℕ := do
  let successor ← add .overflow x 1
  sqrtLoop x x (successor / 2) x

def calculatePurchase (totalSupply reserveBalance reserveRatio depositAmount : ℕ) :
    Except Revert ℕ := do
  let newTotal ← add .overflow totalSupply depositAmount
  let square ← mul .overflow newTotal newTotal
  let newPrice ← mul .overflow (square / DECIMALS) (newTotal / DECIMALS)
  let root ← sqrt newPrice
  let product ← mul .overflow root reserveRatio
  sub .overflow product reserveBalance

/-! ## Swap and bridge logic -/

/-- The parameters of the swap that `_swapForUSDC` requests.  The source calls `amountIn` the
native balance and takes it from the token's own ledger. -/
def swapParams (timestamp : ℕ) (t : FightNightToken) : ExactInputSingleParams where
  tokenIn := t.nativeAddress
  tokenOut := t.usdcAddress
  fee := 3000
  recipient := t.self
  deadline := timestamp
  amountIn := t.ledger.balances t.self
  amountOutMinimum := 0
  sqrtPriceLimitX96 := 0

def swapForUSDC (msg : Msg) (out : Outside) (t : FightNightToken) :
    Except Revert (FightNightToken × ℕ) := do
  let (t, answer) ← out (.exactInputSingle (t.swapParams msg.timestamp)) t
  let amountOut ← answer.toWord
  .ok (t, amountOut)

def bridgeFunds (amount : ℕ) (out : Outside) (t : FightNightToken) :
    Except Revert (FightNightToken × ℕ) := do
  -- `constructMessage` is pure and `balanceOf` is a view: the state they leave is the old one.
  let (_, answer) ←
    out (.constructMessage t.ccipReceiverAddress [] t.usdcAddress amount t.nativeAddress) t
  let message ← answer.toMessage
  let (_, answer) ← out (.balanceOf t.self) t
  let balance ← answer.toWord
  let (t, answer) ← out (.sendMessagePayNative 16015286601757825753 t.ccipReceiverAddress
    message.data t.usdcAddress balance) t
  let messageId ← answer.toWord
  .ok (t, messageId)

/-- The value sent with a call to the oracle leaves the contract. -/
def payOracle (fee : ℕ) (t : FightNightToken) : FightNightToken :=
  { t with
    nativeBalance := t.nativeBalance - fee
    events := .paid t.pyth fee :: t.events }

/-- `_updatePrice`: ask the oracle for its fee and pay it out of the native balance. -/
def updatePrice (priceUpdate : List Bytes) (out : Outside) (t : FightNightToken) :
    Except Revert FightNightToken := do
  let (_, answer) ← out (.getUpdateFee priceUpdate) t
  let fee ← answer.toWord
  revertIf (t.nativeBalance < fee) .bare
  let (t, _) ← out (.updatePriceFeeds fee priceUpdate) (t.payOracle fee)
  .ok t

/-! ## Core logic -/

/-- `super._update`: the hook of the base contract, with its event. -/
def superUpdate (src dst : Address) (value : ℕ) (t : FightNightToken) :
    Except Revert FightNightToken := do
  let ledger ← t.ledger.update src dst value
  .ok { t with ledger := ledger, events := .transfer src dst value :: t.events }

/-- The sale is over: no token moves any more. -/
def markReached (t : FightNightToken) : FightNightToken :=
  { t with
    isTradable := false
    events :=
      .marketCapReached t.marketCap t.marketCapTolerance t.ledger.totalSupply :: t.events }

/-- The part of `_update` up to its branch: the cap check and the movement of tokens. -/
def move (src dst : Address) (value : ℕ) (t : FightNightToken) :
    Except Revert FightNightToken := do
  t.whenTradable
  t.checkWithinMarketCap value
  t.superUpdate src dst value

/-- The branch of `_update` that closes the sale. -/
def closeSale (msg : Msg) (out : Outside) (t : FightNightToken) :
    Except Revert FightNightToken := do
  let (t, amount) ← t.markReached.swapForUSDC msg out
  let (t, _) ← t.bridgeFunds amount out
  .ok t

/-- `_update`: check the cap, move the tokens, and close the sale when the supply has passed
the lower bound. -/
def update (msg : Msg) (out : Outside) (src dst : Address) (value : ℕ) (t : FightNightToken) :
    Except Revert FightNightToken := do
  let t ← t.move src dst value
  let lowerBound ← t.marketCapLowerBound
  if lowerBound < t.ledger.totalSupply then t.closeSale msg out else .ok t

def customMint (msg : Msg) (out : Outside) (account : Address) (value : ℕ)
    (t : FightNightToken) : Except Revert FightNightToken := do
  t.checkWithinMarketCap value
  revertIf (account = 0) (.erc20InvalidReceiver 0)
  t.update msg out 0 account value

/-- The value sent with a message is credited to the contract before its code runs. -/
def receive (amount : ℕ) (t : FightNightToken) : FightNightToken :=
  { t with
    nativeBalance := t.nativeBalance + amount
    events := .received amount :: t.events }

/-- The part of `mint` before the tokens are created: the state after the oracle was paid, and
the purchased amount. -/
def purchase (msg : Msg) (priceUpdate : List Bytes) (out : Outside) (t : FightNightToken) :
    Except Revert (FightNightToken × ℕ) := do
  let t := t.receive msg.value
  t.whenTradable
  revertIf (msg.value = 0) (.require "Deposit must be non-zero.")
  let t ← t.updatePrice priceUpdate out
  let purchasedAmount ←
    calculatePurchase t.ledger.totalSupply t.reserveBalance t.reserveRatio msg.value
  .ok (t, purchasedAmount)

/-- The last part of `mint`: the deposit is added to the reserve. -/
def addReserve (deposit : ℕ) (t : FightNightToken) : Except Revert FightNightToken := do
  let reserveBalance ← add .overflow t.reserveBalance deposit
  .ok { t with reserveBalance := reserveBalance }

def mint (msg : Msg) (priceUpdate : List Bytes) (out : Outside) (t : FightNightToken) :
    Except Revert (FightNightToken × ℕ) := do
  let (t, purchasedAmount) ← t.purchase msg priceUpdate out
  let t ← t.customMint msg out msg.sender purchasedAmount
  let t ← t.addReserve msg.value
  .ok ({ t with events := .mint msg.sender purchasedAmount msg.value :: t.events },
    purchasedAmount)

/-- `_transfer`. -/
def transferTokens (msg : Msg) (out : Outside) (src dst : Address) (value : ℕ)
    (t : FightNightToken) : Except Revert FightNightToken := do
  revertIf (src = 0) (.erc20InvalidSender 0)
  revertIf (dst = 0) (.erc20InvalidReceiver 0)
  t.update msg out src dst value

def transfer (msg : Msg) (out : Outside) (dst : Address) (value : ℕ) (t : FightNightToken) :
    Except Revert FightNightToken :=
  t.transferTokens msg out msg.sender dst value

def transferFrom (msg : Msg) (out : Outside) (src dst : Address) (value : ℕ)
    (t : FightNightToken) : Except Revert FightNightToken := do
  let ledger ← t.ledger.spendAllowance src msg.sender value
  { t with ledger := ledger }.transferTokens msg out src dst value

def approve (msg : Msg) (spender : Address) (value : ℕ) (t : FightNightToken) :
    Except Revert FightNightToken := do
  let ledger ← t.ledger.approve msg.sender spender value
  .ok { t with ledger := ledger, events := .approval msg.sender spender value :: t.events }

/-! ## Creation and transactions -/

/-- The arguments of the constructor that the model keeps. -/
structure Params where
  initialOwner : Address
  marketCap : ℕ
  marketCapTolerance : ℕ
  reserveRatio : ℕ
  ccipBridge : Address
  ccipReceiverAddress : Address
  uniswapRouter : Address
  usdcAddress : Address
  nativeAddress : Address
  pythAddress : Address

/-- The state a token starts with at the address `self`. -/
def initial (self : Address) (p : Params) : FightNightToken where
  self := self
  ledger := .empty
  marketCap := p.marketCap
  marketCapTolerance := p.marketCapTolerance
  isTradable := true
  reserveBalance := 10 * DECIMALS
  reserveRatio := p.reserveRatio
  ccipBridge := p.ccipBridge
  ccipReceiverAddress := p.ccipReceiverAddress
  swapRouter := p.uniswapRouter
  usdcAddress := p.usdcAddress
  nativeAddress := p.nativeAddress
  pyth := p.pythAddress
  nativeBalance := 0
  events := []

/-- The constructor, run at the address `self`. -/
def deploy (self : Address) (p : Params) : Except Revert FightNightToken := do
  revertIf (p.initialOwner = 0) (.ownableInvalidOwner 0)
  checkValidMarketCap p.marketCap p.marketCapTolerance
  .ok (initial self p)

/-- The public functions that change the state. -/
inductive Call where
  | mint (msg : Msg) (priceUpdate : List Bytes)
  | transfer (msg : Msg) (dst : Address) (value : ℕ)
  | transferFrom (msg : Msg) (src dst : Address) (value : ℕ)
  | approve (msg : Msg) (spender : Address) (value : ℕ)

def Call.msg : Call → Msg
  | .mint msg _ | .transfer msg _ _ | .transferFrom msg _ _ _ | .approve msg _ _ => msg

/-- The code of the contract.  The contract never calls itself, so a message from its own
address does not arise; only `mint` accepts value. -/
def body (call : Call) (out : Outside) (t : FightNightToken) : Except Revert FightNightToken := do
  revertIf (call.msg.sender = t.self) .bare
  match call with
  | .mint msg priceUpdate => (t.mint msg priceUpdate out).map Prod.fst
  | .transfer msg dst value => do
    revertIf (msg.value ≠ 0) .bare
    t.transfer msg out dst value
  | .transferFrom msg src dst value => do
    revertIf (msg.value ≠ 0) .bare
    t.transferFrom msg out src dst value
  | .approve msg spender value => do
    revertIf (msg.value ≠ 0) .bare
    t.approve msg spender value

/-- A transaction of the token with everything the outside does during it. -/
abbrev Tx := CallTree Call ExternalCall Answer Revert

abbrev run (txs : List Tx) (t : FightNightToken) : FightNightToken :=
  CallTree.execAll body txs t

end FightNightToken

end FightNight
