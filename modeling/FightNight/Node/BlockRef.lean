import Mathlib.Algebra.Group.Nat.Defs
import Mathlib.Order.Nat

/-!
# References to blocks

The references of `op-service/eth/id.go` to L1 and L2 blocks.  A hash is a number, and the zero
value of Go is the default value of a type.
-/

namespace FightNight.Node

structure BlockID where
  hash : ℕ
  number : ℕ
  deriving DecidableEq, Inhabited

structure L1BlockRef where
  hash : ℕ
  number : ℕ
  parentHash : ℕ
  time : ℕ
  deriving DecidableEq, Inhabited

structure L2BlockRef where
  hash : ℕ
  number : ℕ
  parentHash : ℕ
  time : ℕ
  l1Origin : BlockID
  sequenceNumber : ℕ
  deriving DecidableEq, Inhabited

/-- The sum of two numbers of 64 bits. -/
def add64 (a b : ℕ) : ℕ := (a + b) % 2 ^ 64

end FightNight.Node
