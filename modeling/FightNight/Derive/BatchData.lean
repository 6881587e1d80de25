import FightNight.Derive.SpanBatch

/-!
# Batches in a channel

A channel holds batches one after the other (`op-node/rollup/derive/batch.go`, `singular_batch.go` and
`BatchReader` in `channel.go`): each is written as an RLP string, which has the type of the batch as its
first byte.  They are read until the end of the channel, or until the limit on the number of bytes that
may be read from a channel.
-/

namespace FightNight.Derive

open RLP

/-- `InnerBatchData`, and with it `BatchData`. -/
inductive BatchData where
  | singular (batch : SingularBatch)
  | span (raw : RawSpanBatch)
  deriving DecidableEq

inductive BatchError where
  /-- `batch too short`. -/
  | tooShort
  /-- `unrecognized batch type`. -/
  | unrecognizedType (batchType : UInt8)
  | rlp (cause : RLP.Error)
  | span (cause : SpanBatchError)
  deriving DecidableEq

def maxRLPBytesPerChannelBedrock : ℕ := 10000000

def maxRLPBytesPerChannelFjord : ℕ := 100000000

def safeMaxRLPBytesPerChannel : ℕ := maxRLPBytesPerChannelBedrock

/-- `MaxRLPBytesPerChannel`, at a time when Fjord is active or not. -/
def maxRLPBytesPerChannel (isFjord : Bool) : ℕ :=
  if isFjord then maxRLPBytesPerChannelFjord else maxRLPBytesPerChannelBedrock

namespace SingularBatch

def encode (batch : SingularBatch) : Bytes :=
  encodeList (encodeString batch.parentHash.1 ++ encodeNat batch.epochNum.toNat ++
    encodeString batch.epochHash.1 ++ encodeNat batch.timestamp.toNat ++
    encodeList (batch.transactions.map encodeString).flatten)

def decode : Reader RLP.Error SingularBatch := RLP.readList do
  let parentHash ← readFixed 32
  let epochNum ← readUint 64
  let epochHash ← readFixed 32
  let timestamp ← readUint 64
  let transactions ← readList (readElements readString)
  pure ⟨parentHash, UInt64.ofNat epochNum, epochHash, UInt64.ofNat timestamp, transactions⟩

lemma length_encode {batch : SingularBatch} {content : Bytes}
    (hcont : (batch.transactions.map encodeString).flatten = content)
    (hlen : content.length < 2 ^ 63) :
    content.length ≤ batch.encode.length ∧ batch.encode.length ≤ content.length + 200 := by
  have hepoch : (encodeNat batch.epochNum.toNat).length ≤ 41 :=
    length_encodeNat_le (lt_trans batch.epochNum.toNat_lt (by decide))
  have htime : (encodeNat batch.timestamp.toNat).length ≤ 41 :=
    length_encodeNat_le (lt_trans batch.timestamp.toNat_lt (by decide))
  have hhash : ∀ h : Hash, (encodeString h.1).length ≤ 41 := fun h => by
    have hle := @length_encodeString_le h.1 (by rw [h.2]; decide)
    rwa [h.2] at hle
  have hpar := hhash batch.parentHash
  have hblock := hhash batch.epochHash
  have hinner := length_le_encodeList content
  have hinner' := @length_encodeList_le content (by omega)
  set fields := encodeString batch.parentHash.1 ++ encodeNat batch.epochNum.toNat ++
    encodeString batch.epochHash.1 ++ encodeNat batch.timestamp.toNat ++
    encodeList content with hflds
  have hsum : fields.length = (encodeString batch.parentHash.1).length +
      (encodeNat batch.epochNum.toNat).length + (encodeString batch.epochHash.1).length +
      (encodeNat batch.timestamp.toNat).length + (encodeList content).length := by
    simp only [hflds, List.length_append]
  have houter := length_le_encodeList fields
  have houter' := @length_encodeList_le fields (by omega)
  rw [encode, hcont, ← hflds]
  omega

end SingularBatch

namespace BatchData

def encodeTyped : BatchData → Except SpanBatchError Bytes
  | .singular batch => .ok (0 :: batch.encode)
  | .span raw => do
    let bytes ← raw.encode
    .ok (1 :: bytes)

def encodeRLP (b : BatchData) : Except SpanBatchError Bytes := do
  let typed ← b.encodeTyped
  .ok (encodeString typed)

def decodeTyped : Bytes → Except BatchError BatchData
  | [] => .error .tooShort
  | batchType :: data =>
    if batchType = 0 then
      match SingularBatch.decode data with
      | .ok (batch, _) => .ok (.singular batch)
      | .error e => .error (.rlp e)
    else if batchType = 1 then
      match RawSpanBatch.decode data with
      | .ok (raw, _) => .ok (.span raw)
      | .error e => .error (.span e)
    else .error (.unrecognizedType batchType)

/-- The function returned by `BatchReader`: the next batch of what is left of a channel, of which
`remaining` bytes may be read.  There is none at the end. -/
def next (remaining : ℕ) (bs : Bytes) : Except BatchError (Option (BatchData × ℕ × Bytes)) :=
  if bs = [] ∨ remaining = 0 then .ok none
  else
    match readString bs with
    | .error e => .error (.rlp e)
    | .ok (typed, rest) =>
      if remaining < bs.length - rest.length then .error (.rlp .valueTooLarge)
      else do
        let b ← decodeTyped typed
        .ok (some (b, remaining - (bs.length - rest.length), rest))

/-- The batches that are read until the end; at most `fuel` of them. -/
def readAll : ℕ → ℕ → Bytes → Except BatchError (List BatchData)
  | 0, _, _ => .ok []
  | fuel + 1, remaining, bs => do
    match ← next remaining bs with
    | none => .ok []
    | some (b, remaining, rest) =>
      let l ← readAll fuel remaining rest
      .ok (b :: l)

/-- All batches of a channel; a batch takes at least one byte. -/
def batches (limit : ℕ) (bs : Bytes) : Except BatchError (List BatchData) := readAll bs.length limit bs

lemma batches_encodeString {typed : Bytes} {limit : ℕ}
    (hlen : (encodeString typed).length ≤ limit) (hlimit : limit < 2 ^ 64) :
    batches limit (encodeString typed) = (decodeTyped typed).map fun b => [b] := by
  have hread := readString_encode (lt_of_le_of_lt hlen hlimit) []
  rw [List.append_nil] at hread
  have hpos : 0 < (encodeString typed).length := List.length_pos_iff.mpr (encodeString_ne_nil typed)
  have hnext : next limit (encodeString typed) = (decodeTyped typed).map fun b =>
      some (b, limit - (encodeString typed).length, []) := by
    rw [next, if_neg (not_or.mpr ⟨encodeString_ne_nil typed, by omega⟩), hread]
    dsimp only
    rw [List.length_nil, Nat.sub_zero, if_neg (not_lt_of_ge hlen)]
    cases decodeTyped typed <;> rfl
  have hend : ∀ fuel remaining, readAll fuel remaining [] = .ok [] := by
    intro fuel remaining
    cases fuel with
    | zero => rfl
    | succ fuel => rw [readAll, next]; rfl
  obtain ⟨fuel, hfuel⟩ := Nat.exists_eq_add_one.mpr hpos
  rw [batches, hfuel, readAll, hnext]
  cases decodeTyped typed with
  | error e => rfl
  | ok b =>
    show (readAll fuel _ [] >>= fun l => .ok (b :: l)) = _
    rw [hend]
    rfl

end BatchData

end FightNight.Derive
