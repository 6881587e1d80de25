import Mathlib.Algebra.BigOperators.Group.Finset.Piecewise
import Mathlib.Data.Fintype.Basic
import FightNight.Library.Bytes
import FightNight.Library.Checked

/-!
# Accounts, messages and reverts

What the contracts of `packages/fightnight-contracts` share: addresses, the message that enters
a contract, and the ways a call can revert.  `Revert` lists the custom errors of the contracts
and of the libraries they inherit from, the texts of their `require` statements, and the panics
of checked arithmetic.
-/

namespace FightNight

/-- An account address: 160 bits. -/
abbrev Address := Fin (2 ^ 160)

instance Address.neZero : NeZero (2 ^ 160) := inferInstance

instance Address.lawfulBEq : LawfulBEq Address := inferInstance

/-- A sum over accounts, or over what else amounts are kept for, with another amount for one. -/
lemma sum_update_add {A : Type} [DecidableEq A] (f : A → ℕ) {a : A} (n : ℕ) {s : Finset A}
    (h : a ∈ s) : ∑ b ∈ s, Function.update f a n b + f a = ∑ b ∈ s, f b + n := by
  rw [Finset.sum_update_of_mem h, Finset.sum_eq_add_sum_sdiff_singleton_of_mem h f]
  omega

/-- The message that enters a contract: `msg.sender`, `msg.value` and `block.timestamp`. -/
structure Msg where
  sender : Address
  value : ℕ
  timestamp : ℕ
  deriving DecidableEq

inductive Revert where
  /-- A compiler-inserted check failed; `0x11` is arithmetic overflow, `0x12` division by zero,
  `0x32` an array access out of bounds. -/
  | panic (code : ℕ)
  /-- A failed `require` with its text. -/
  | require (text : String)
  /-- A call without effect on its callee: value sent to a function that is not payable, more
  value sent than the sender owns, or return data that does not decode. -/
  | bare
  /-- An error raised by a contract outside the model. -/
  | outside (code : ℕ)
  | erc20InsufficientBalance (sender : Address) (balance needed : ℕ)
  | erc20InvalidSender (sender : Address)
  | erc20InvalidReceiver (receiver : Address)
  | erc20InsufficientAllowance (spender : Address) (allowance needed : ℕ)
  | erc20InvalidApprover (approver : Address)
  | erc20InvalidSpender (spender : Address)
  | ownableInvalidOwner (owner : Address)
  | ownableUnauthorizedAccount (account : Address)
  | errMarketCapInvalid (marketCap marketCapTolerance : ℕ)
  | errMarketCapExceeded (marketCap marketCapTolerance totalSupply amount : ℕ)
  | errMarketCapReached (marketCap marketCapTolerance totalSupply : ℕ)
  | invalidRouter (router : Address)
  | notEnoughBalance (currentBalance calculatedFees : ℕ)
  | destinationChainNotAllowed (destinationChainSelector : ℕ)
  | invalidReceiverAddress
  | nothingToWithdraw
  | failedToWithdrawEth (owner target : Address) (value : ℕ)
  | gameAlreadyStarted
  | gameStillRunning
  deriving DecidableEq

abbrev Revert.overflow : Revert := .panic 0x11

abbrev Revert.divisionByZero : Revert := .panic 0x12

abbrev Revert.outOfBounds : Revert := .panic 0x32

end FightNight
