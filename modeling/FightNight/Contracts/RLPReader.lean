import FightNight.Library.Bytes
import FightNight.Library.Checked

/-!
# Reading RLP

The library `RLPReader` of `packages/contracts-bedrock/src/libraries/rlp`: the functions that the
dispute game reads a block header with.  An item is a pointer into memory with a length; it is
modelled by the bytes that it points to.  All reads are within them, for the length of an item is
checked against its header.
-/

namespace FightNight

open FightNight.Except

/-- The errors of `RLPErrors.sol`, and an access behind the end of the array of items. -/
inductive RLPRevert where
  | emptyItem
  | unexpectedString
  | invalidDataRemainder
  | unexpectedList
  | contentLengthMismatch
  | invalidHeader
  | outOfBounds
  deriving DecidableEq

namespace RLPReader

inductive RLPItemType where
  | dataItem
  | listItem
  deriving DecidableEq

def maxListLength : ℕ := 32

def toRLPItem (bs : Bytes) : Except RLPRevert Bytes := do
  revertIf (bs.length = 0) .emptyItem
  pure bs

/-- A header with the length of the content in `lenOfLen` bytes, for long strings and lists. -/
def decodeLong (bs : Bytes) (lenOfLen : ℕ) (type : RLPItemType) :
    Except RLPRevert (ℕ × ℕ × RLPItemType) := do
  revertIf (bs.length ≤ lenOfLen) .contentLengthMismatch
  revertIf (bs.getD 1 0 = 0) .invalidHeader
  let len := beNat (slice 1 (1 + lenOfLen) bs)
  revertIf (len ≤ 55) .invalidHeader
  revertIf (bs.length ≤ lenOfLen + len) .contentLengthMismatch
  pure (1 + lenOfLen, len, type)

/-- `_decodeLength`: the offset and the length of the content of an item, and its type. -/
def decodeLength (bs : Bytes) : Except RLPRevert (ℕ × ℕ × RLPItemType) := do
  revertIf (bs.length = 0) .emptyItem
  let first := (bs.getD 0 0).toNat
  if first ≤ 0x7f then
    pure (0, 1, .dataItem)
  else if first ≤ 0xb7 then do
    let strLen := first - 0x80
    revertIf (bs.length ≤ strLen) .contentLengthMismatch
    revertIf (strLen = 1 ∧ bs.getD 1 0 < 0x80) .invalidHeader
    pure (1, strLen, .dataItem)
  else if first ≤ 0xbf then
    decodeLong bs (first - 0xb7) .dataItem
  else if first ≤ 0xf7 then do
    let listLen := first - 0xc0
    revertIf (bs.length ≤ listLen) .contentLengthMismatch
    pure (1, listLen, .listItem)
  else
    decodeLong bs (first - 0xf7) .listItem

/-- The loop of `readList`, for the bytes that remain and the number of free places in the array
of items. -/
def readItems : ℕ → Bytes → Except RLPRevert (List Bytes)
  | _, [] => pure []
  | 0, b :: bs => do
    let _ ← decodeLength (b :: bs)
    .error .outOfBounds
  | places + 1, b :: bs => do
    let (itemOffset, itemLength, _) ← decodeLength (b :: bs)
    let rest ← readItems places ((b :: bs).drop (itemOffset + itemLength))
    pure ((b :: bs).take (itemLength + itemOffset) :: rest)

def readList (bs : Bytes) : Except RLPRevert (List Bytes) := do
  let (listOffset, listLength, itemType) ← decodeLength bs
  revertIf (itemType ≠ .listItem) .unexpectedString
  revertIf (listOffset + listLength ≠ bs.length) .invalidDataRemainder
  readItems maxListLength (bs.drop listOffset)

def readBytes (bs : Bytes) : Except RLPRevert Bytes := do
  let (itemOffset, itemLength, itemType) ← decodeLength bs
  revertIf (itemType ≠ .dataItem) .unexpectedList
  revertIf (bs.length ≠ itemOffset + itemLength) .invalidDataRemainder
  pure (slice itemOffset (itemOffset + itemLength) bs)

end RLPReader

end FightNight
