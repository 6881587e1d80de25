import FightNight.Library.RLP

/-!
# Transactions in span batches

The transactions that a span batch may hold, of the types 0, 1 and 2, with their binary encoding, and the
form in which a span batch stores them (`op-node/rollup/derive/span_batch_tx.go`).  A span batch keeps
the nonce, the gas, the recipient and the signature of a transaction in columns of their own; what is
left of the transaction is encoded like a transaction, with its type in front.
-/

namespace FightNight.Derive

open RLP List

abbrev Hash := FixedBytes 32

/-- `common.Address`. -/
abbrev TxAddress := FixedBytes 20

structure AccessTuple where
  address : TxAddress
  storageKeys : List Hash
  deriving DecidableEq

abbrev AccessList := List AccessTuple

/-- The fields of a transaction that only some types have. -/
inductive TxKind where
  | legacy (gasPrice : ℕ)
  | accessList (chainID gasPrice : ℕ) (accessList : AccessList)
  | dynamicFee (chainID gasTipCap gasFeeCap : ℕ) (accessList : AccessList)
  deriving DecidableEq

instance neZeroUint64 : NeZero (2 ^ 64) := inferInstance

structure Transaction where
  kind : TxKind
  nonce : Fin (2 ^ 64)
  gas : Fin (2 ^ 64)
  toAddr : Option TxAddress
  value : ℕ
  data : Bytes
  v : ℕ
  r : ℕ
  s : ℕ
  deriving DecidableEq

/-- `spanBatchTx`: what is left of a transaction. -/
inductive SpanBatchTx where
  | legacy (value gasPrice : ℕ) (data : Bytes)
  | accessList (value gasPrice : ℕ) (data : Bytes) (accessList : AccessList)
  | dynamicFee (value gasTipCap gasFeeCap : ℕ) (data : Bytes) (accessList : AccessList)
  deriving DecidableEq

inductive TxError where
  /-- `ErrTypedTxTooShort`. -/
  | tooShort
  /-- `ErrTxTypeNotSupported`. -/
  | typeNotSupported
  | rlp (cause : Error)
  deriving DecidableEq

/-! ## Access lists -/

def AccessTuple.encode (t : AccessTuple) : Bytes :=
  encodeList (encodeString t.address.1 ++
    encodeList (t.storageKeys.map fun key => encodeString key.1).flatten)

def encodeAccessList (l : AccessList) : Bytes := encodeList (l.map AccessTuple.encode).flatten

def AccessTuple.read : Reader Error AccessTuple := readList do
  let address ← readFixed 20
  let storageKeys ← readList (readElements (readFixed 32))
  pure ⟨address, storageKeys⟩

def readAccessList : Reader Error AccessList :=
  readList (readElements AccessTuple.read)

lemma AccessTuple.read_encode {t : AccessTuple} (hlen : t.encode.length < 2 ^ 64) (rest : Bytes) :
    AccessTuple.read (t.encode ++ rest) = .ok (t, rest) := by
  refine readList_encode hlen (Reads.nil (.bind (fun _ => readFixed_encode (by decide) _)
    (.pure fun hkeys => readList_encode hkeys ?_)) ?_) rest
  · exact readElements_encode (fun key _ => readFixed_encode (by decide) key)
      fun key _ => encodeString_ne_nil key.1
  · exact lt_of_le_of_lt (length_le_encodeList _) hlen

lemma readAccessList_encode {l : AccessList} (hlen : (encodeAccessList l).length < 2 ^ 64)
    (rest : Bytes) : readAccessList (encodeAccessList l ++ rest) = .ok (l, rest) := by
  refine readList_encode hlen (readElements_encode (fun t ht => ?_) fun t _ =>
    encodeList_ne_nil _) rest
  have hsub : t.encode.Sublist (l.map AccessTuple.encode).flatten :=
    sublist_flatten_of_mem (mem_map_of_mem ht)
  exact AccessTuple.read_encode (lt_of_le_of_lt
    (le_trans hsub.length_le (length_le_encodeList _)) hlen)

/-! ## Transactions -/

namespace Transaction

def txType (tx : Transaction) : ℕ :=
  match tx.kind with
  | .legacy _ => 0
  | .accessList _ _ _ => 1
  | .dynamicFee _ _ _ _ => 2

def encodeTo (tx : Transaction) : Bytes := encodeString (tx.toAddr.elim [] Subtype.val)

def encodeSignature (tx : Transaction) : Bytes :=
  encodeNat tx.v ++ encodeNat tx.r ++ encodeNat tx.s

/-- What is written for the fields of a transaction, in their order. -/
def content (tx : Transaction) : Bytes :=
  match tx.kind with
  | .legacy gasPrice =>
    encodeNat tx.nonce ++ encodeNat gasPrice ++ encodeNat tx.gas ++ tx.encodeTo ++
      encodeNat tx.value ++ encodeString tx.data ++ tx.encodeSignature
  | .accessList chainID gasPrice l =>
    encodeNat chainID ++ encodeNat tx.nonce ++ encodeNat gasPrice ++
      encodeNat tx.gas ++ tx.encodeTo ++ encodeNat tx.value ++ encodeString tx.data ++
      encodeAccessList l ++ tx.encodeSignature
  | .dynamicFee chainID gasTipCap gasFeeCap l =>
    encodeNat chainID ++ encodeNat tx.nonce ++ encodeNat gasTipCap ++
      encodeNat gasFeeCap ++ encodeNat tx.gas ++ tx.encodeTo ++ encodeNat tx.value ++
      encodeString tx.data ++ encodeAccessList l ++ tx.encodeSignature

def marshalBinary (tx : Transaction) : Bytes :=
  match tx.kind with
  | .legacy _ => encodeList tx.content
  | .accessList _ _ _ => 1 :: encodeList tx.content
  | .dynamicFee _ _ _ _ => 2 :: encodeList tx.content

def readLegacy : Reader Error Transaction := do
  let nonce ← readUint 64
  let gasPrice ← readNat
  let gas ← readUint 64
  let toAddr ← readOptional 20
  let value ← readNat
  let data ← readString
  let v ← readNat
  let r ← readNat
  let s ← readNat
  pure ⟨.legacy gasPrice, nonce, gas, toAddr, value, data, v, r, s⟩

def readAccessListTx : Reader Error Transaction := do
  let chainID ← readNat
  let nonce ← readUint 64
  let gasPrice ← readNat
  let gas ← readUint 64
  let toAddr ← readOptional 20
  let value ← readNat
  let data ← readString
  let l ← readAccessList
  let v ← readNat
  let r ← readNat
  let s ← readNat
  pure ⟨.accessList chainID gasPrice l, nonce, gas, toAddr, value, data, v, r, s⟩

def readDynamicFee : Reader Error Transaction := do
  let chainID ← readNat
  let nonce ← readUint 64
  let gasTipCap ← readNat
  let gasFeeCap ← readNat
  let gas ← readUint 64
  let toAddr ← readOptional 20
  let value ← readNat
  let data ← readString
  let l ← readAccessList
  let v ← readNat
  let r ← readNat
  let s ← readNat
  pure ⟨.dynamicFee chainID gasTipCap gasFeeCap l, nonce, gas, toAddr, value, data, v, r, s⟩

end Transaction

/-- The binary encoding of a transaction and of what is left of it in a span batch: a list, with the
type in front of it if the type is not 0. -/
def unmarshalTyped {α : Type} (legacy accessList dynamicFee : Reader Error α) (bs : Bytes) :
    Except TxError α :=
  match bs with
  | [] => .error .tooShort
  | b :: payload =>
    if 127 < b.toNat then (decodeBytes (readList legacy) bs).mapError .rlp
    else if payload = [] then .error .tooShort
    else if b = 1 then (decodeBytes (readList accessList) payload).mapError .rlp
    else if b = 2 then (decodeBytes (readList dynamicFee) payload).mapError .rlp
    else .error .typeNotSupported

section Unmarshal

variable {α : Type} {legacy accessList dynamicFee : Reader Error α} {content : Bytes} {a : α}

section

variable (hlen : (encodeList content).length < 2 ^ 64)
include hlen

lemma decodeBytes_encodeList {r : Reader Error α} (hread : Reads r content a) :
    decodeBytes (readList r) (encodeList content) = .ok a := by
  have hlist := readList_encode hlen
    (hread.nil (lt_of_le_of_lt (length_le_encodeList content) hlen)) []
  rw [append_nil] at hlist
  rw [decodeBytes, hlist]

lemma unmarshalTyped_legacy
    (hread : Reads legacy content a) :
    unmarshalTyped legacy accessList dynamicFee (encodeList content) = .ok a := by
  obtain ⟨b, bs, hbs, hb⟩ := head_encodeList (lt_of_le_of_lt (length_le_encodeList content) hlen)
  have hdec := decodeBytes_encodeList hlen hread
  rw [hbs] at hdec ⊢
  rw [unmarshalTyped, if_pos (by omega), hdec]
  rfl

lemma unmarshalTyped_accessList
    (hread : Reads accessList content a) :
    unmarshalTyped legacy accessList dynamicFee (1 :: encodeList content) = .ok a := by
  rw [unmarshalTyped, if_neg (encodeList_ne_nil content), decodeBytes_encodeList hlen hread]
  rfl

lemma unmarshalTyped_dynamicFee
    (hread : Reads dynamicFee content a) :
    unmarshalTyped legacy accessList dynamicFee (2 :: encodeList content) = .ok a := by
  rw [unmarshalTyped, if_neg (encodeList_ne_nil content), decodeBytes_encodeList hlen hread]
  rfl

end

end Unmarshal

namespace Transaction

def unmarshalBinary (bs : Bytes) : Except TxError Transaction :=
  unmarshalTyped readLegacy readAccessListTx readDynamicFee bs

lemma unmarshalBinary_marshalBinary {tx : Transaction}
    (hlen : (encodeList tx.content).length < 2 ^ 64) :
    unmarshalBinary tx.marshalBinary = .ok tx := by
  obtain ⟨kind, nonce, gas, toAddr, value, data, v, r, s⟩ := tx
  cases kind <;> [refine unmarshalTyped_legacy hlen ?_; refine unmarshalTyped_accessList hlen ?_;
    refine unmarshalTyped_dynamicFee hlen ?_]
  all_goals
    simp only [content, encodeSignature, encodeTo, append_assoc]
    -- Each field is read by the reader of its encoding.
    repeat first
      | refine .bind readNat_encode ?_
      | refine .bind readUint_encode ?_
      | refine .bind (fun _ => readOptional_encode (by decide) (by decide) toAddr) ?_
      | refine .bind readString_encode ?_
      | refine .bind readAccessList_encode ?_
    exact .pure readNat_encode

/-- Whether the signature of a transaction is for one chain only. -/
def isProtected (tx : Transaction) : Bool :=
  match tx.kind with
  | .legacy _ => decide (tx.v ≠ 27 ∧ tx.v ≠ 28 ∧ tx.v ≠ 1 ∧ tx.v ≠ 0)
  | _ => true

def chainId (tx : Transaction) : ℕ :=
  match tx.kind with
  | .legacy _ =>
    if tx.v < 2 ^ 64 then
      if tx.v = 27 ∨ tx.v = 28 then 0 else (tx.v + (2 ^ 64 - 35)) % 2 ^ 64 / 2
    else (tx.v - 35) / 2
  | .accessList chainID _ _ => chainID
  | .dynamicFee chainID _ _ _ => chainID

/-- `newSpanBatchTx`. -/
def toSpanBatchTx (tx : Transaction) : SpanBatchTx :=
  match tx.kind with
  | .legacy gasPrice => .legacy tx.value gasPrice tx.data
  | .accessList _ gasPrice l => .accessList tx.value gasPrice tx.data l
  | .dynamicFee _ gasTipCap gasFeeCap l => .dynamicFee tx.value gasTipCap gasFeeCap tx.data l

end Transaction

namespace SpanBatchTx

/-- `Type`. -/
def txType : SpanBatchTx → ℕ
  | .legacy _ _ _ => 0
  | .accessList _ _ _ _ => 1
  | .dynamicFee _ _ _ _ _ => 2

/-- What is written for the fields, in their order. -/
def content : SpanBatchTx → Bytes
  | .legacy value gasPrice data =>
    encodeNat value ++ encodeNat gasPrice ++ encodeString data
  | .accessList value gasPrice data l =>
    encodeNat value ++ encodeNat gasPrice ++ encodeString data ++ encodeAccessList l
  | .dynamicFee value gasTipCap gasFeeCap data l =>
    encodeNat value ++ encodeNat gasTipCap ++ encodeNat gasFeeCap ++
      encodeString data ++ encodeAccessList l

def marshalBinary (stx : SpanBatchTx) : Bytes :=
  match stx with
  | .legacy _ _ _ => encodeList stx.content
  | .accessList _ _ _ _ => 1 :: encodeList stx.content
  | .dynamicFee _ _ _ _ _ => 2 :: encodeList stx.content

lemma length_encodeList_le (stx : SpanBatchTx) :
    (encodeList stx.content).length ≤ stx.marshalBinary.length := by
  cases stx with
  | legacy value gasPrice data => exact le_refl _
  | accessList value gasPrice data accessList => exact Nat.le_succ _
  | dynamicFee value gasTipCap gasFeeCap data accessList => exact Nat.le_succ _

/-- The fields of `spanBatchLegacyTxData`. -/
def readLegacy : Reader Error SpanBatchTx := do
  let value ← readNat
  let gasPrice ← readNat
  let data ← readString
  pure (.legacy value gasPrice data)

/-- The fields of `spanBatchAccessListTxData`. -/
def readAccessListTx : Reader Error SpanBatchTx := do
  let value ← readNat
  let gasPrice ← readNat
  let data ← readString
  let l ← readAccessList
  pure (.accessList value gasPrice data l)

/-- The fields of `spanBatchDynamicFeeTxData`. -/
def readDynamicFee : Reader Error SpanBatchTx := do
  let value ← readNat
  let gasTipCap ← readNat
  let gasFeeCap ← readNat
  let data ← readString
  let l ← readAccessList
  pure (.dynamicFee value gasTipCap gasFeeCap data l)

def unmarshalBinary (bs : Bytes) : Except TxError SpanBatchTx :=
  unmarshalTyped readLegacy readAccessListTx readDynamicFee bs

lemma unmarshalBinary_marshalBinary {stx : SpanBatchTx}
    (hlen : (encodeList stx.content).length < 2 ^ 64) :
    unmarshalBinary stx.marshalBinary = .ok stx := by
  cases stx <;> [refine unmarshalTyped_legacy hlen ?_; refine unmarshalTyped_accessList hlen ?_;
    refine unmarshalTyped_dynamicFee hlen ?_]
  all_goals
    simp only [content, append_assoc]
    repeat first
      | refine .bind readNat_encode ?_
      | refine .bind readString_encode ?_
    first
      | exact .pure readString_encode
      | exact .pure readAccessList_encode

def convertToFullTx (stx : SpanBatchTx) (nonce gas : Fin (2 ^ 64)) (toAddr : Option TxAddress)
    (chainID v r s : ℕ) : Transaction :=
  match stx with
  | .legacy value gasPrice data => ⟨.legacy gasPrice, nonce, gas, toAddr, value, data, v, r, s⟩
  | .accessList value gasPrice data l =>
    ⟨.accessList chainID gasPrice l, nonce, gas, toAddr, value, data, v, r, s⟩
  | .dynamicFee value gasTipCap gasFeeCap data l =>
    ⟨.dynamicFee chainID gasTipCap gasFeeCap l, nonce, gas, toAddr, value, data, v, r, s⟩

end SpanBatchTx

end FightNight.Derive
