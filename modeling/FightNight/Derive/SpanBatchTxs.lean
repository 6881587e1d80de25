import FightNight.Derive.Transaction

/-!
# The transactions of a span batch

A span batch stores its transactions in columns (`op-node/rollup/derive/span_batch_txs.go`): bit
lists of contract creations, of the parities of the signatures and, for legacy transactions only,
of their protection; and lists of signatures, recipients, remaining data, nonces and gas.  The
values `v` of the signatures are rebuilt from the bits.

`Columns txs b`, that `b` has the columns of the transactions `txs`, is what adding a transaction
preserves, and from it follows that the transactions are read back.
-/

namespace FightNight.Derive

open FightNight.Except Reader RLP List Transaction

def maxSpanBatchElementCount : ℕ := 10000000

structure SpanBatchSignature where
  v : ℕ
  r : ℕ
  s : ℕ
  deriving DecidableEq

structure SpanBatchTxs where
  totalBlockTxCount : ℕ
  contractCreationBits : ℕ
  yParityBits : ℕ
  txSigs : List SpanBatchSignature
  txNonces : List (Fin (2 ^ 64))
  txGases : List (Fin (2 ^ 64))
  txTos : List TxAddress
  txDatas : List Bytes
  protectedBits : ℕ
  txTypes : List ℕ
  totalLegacyTxCount : ℕ
  deriving DecidableEq

/-- The errors of `AddTxs`. -/
inductive AddTxsError where
  /-- `failed to decode tx`. -/
  | decodeTx
  /-- `protected tx has chain ID …, but expected chain ID …`. -/
  | chainID (got expected : ℕ)
  /-- `SetBit` is called with something that is not a bit. -/
  | panic
  deriving DecidableEq

inductive SpanBatchError where
  /-- `ErrTooBigSpanBatchSize`. -/
  | tooBigSpanBatchSize
  /-- `ErrEmptySpanBatch`. -/
  | emptySpanBatch
  /-- `failed to read …`. -/
  | reading (field : String) (cause : ReadError)
  /-- `failed to read …`, for a number that does not fit in 64 bits. -/
  | overflow (field : String)
  /-- `bitfield has … bits, but expected no more than …`, and the like when it is encoded. -/
  | bits (field : String) (bitLen expected : ℕ)
  /-- `failed to read tx RLP prefix`, and the payload behind it. -/
  | rlp (cause : RLP.Error)
  /-- A transaction cannot be decoded. -/
  | tx (cause : TxError)
  /-- `tx type length and tx sigs length mismatch`. -/
  | lengthMismatch
  /-- `invalid tx type`. -/
  | invalidTxType (txType : ℕ)
  /-- `tx to not enough`. -/
  | txToNotEnough
  /-- An access behind the end of a list. -/
  | panic
  deriving DecidableEq

/-! ## Bit lists -/

def bitBytes (bitLength : ℕ) : ℕ := if bitLength % 8 ≠ 0 then bitLength / 8 + 1 else bitLength / 8

def decodeSpanBatchBits (field : String) (bitLength : ℕ) : Reader SpanBatchError ℕ := do
  let buf ← readFull (.reading field) (bitBytes bitLength)
  failIf (bitLength < bitLen (beNat buf)) (.bits field (bitLen (beNat buf)) bitLength)
  pure (beNat buf)

def encodeSpanBatchBits (field : String) (bitLength bits : ℕ) : Except SpanBatchError Bytes :=
  if bitLength < bitLen bits then .error (.bits field (bitLen bits) bitLength)
  else .ok (beBytes (bitBytes bitLength) bits)

variable {bit bitLength bits : ℕ}

lemma encodeSpanBatchBits_of_lt (field : String) (h : bits < 2 ^ bitLength) :
    encodeSpanBatchBits field bitLength bits = .ok (beBytes (bitBytes bitLength) bits) := by
  have hle : bitLen bits ≤ bitLength := bitLen_le.mpr h
  rw [encodeSpanBatchBits, if_neg (not_lt_of_ge hle)]

lemma decodeSpanBatchBits_beBytes (field : String) (h : bits < 2 ^ bitLength) (rest : Bytes) :
    decodeSpanBatchBits field bitLength (beBytes (bitBytes bitLength) bits ++ rest) =
      .ok (bits, rest) := by
  have hbytes : bits < 256 ^ bitBytes bitLength := by
    have hpow : 256 ^ bitBytes bitLength = 2 ^ (8 * bitBytes bitLength) := by rw [Nat.pow_mul]
    rw [hpow]
    refine lt_of_lt_of_le h (Nat.pow_le_pow_right (by decide) ?_)
    unfold bitBytes
    split <;> omega
  have hval : beNat (beBytes (bitBytes bitLength) bits) = bits := beNat_beBytes_of_lt hbytes
  refine andThen (readFull_eq_ok.mpr ⟨length_beBytes _ _, rfl⟩) ?_
  rw [hval]
  refine bind_eq_ok.mpr ⟨(), rest, failIf_eq_ok.mpr ⟨?_, rfl⟩, rfl⟩
  exact not_lt_of_ge (bitLen_le.mpr h)

/-! ## The parity of a signature -/

def convertVToYParity (v txType : ℕ) : ℕ :=
  if txType = 0 then
    if v ≠ 27 ∧ v ≠ 28 then (v + (2 ^ 64 - 35)) % 2 ^ 64 % 2 else v - 27
  else v

/-- The parity of a protected legacy transaction, whose `v` is the double of the chain identifier, the
parity and 35. -/
theorem convertVToYParity_protected {chainID : ℕ} (hbit : bit ≤ 1)
    (hchain : 2 * chainID + 36 < 2 ^ 64) : convertVToYParity (2 * chainID + 35 + bit) 0 = bit := by
  rw [convertVToYParity, if_pos rfl, if_pos (by omega)]
  omega

lemma convertVToYParity_unprotected (hbit : bit ≤ 1) : convertVToYParity (27 + bit) 0 = bit := by
  rw [convertVToYParity, if_pos rfl, if_neg (by omega), Nat.add_sub_cancel_left]

/-! ## Adding transactions -/

namespace SpanBatchTxs

/-- `newSpanBatchTxs` without transactions. -/
def empty : SpanBatchTxs := ⟨0, 0, 0, [], [], [], [], [], 0, [], 0⟩

/-- The bit of a legacy transaction in `AddTxs`. -/
def addProtectedBit (tx : Transaction) (b : SpanBatchTxs) : SpanBatchTxs :=
  { b with
    protectedBits :=
      if tx.txType = 0 then setBit b.protectedBits b.totalLegacyTxCount tx.isProtected
      else b.protectedBits
    totalLegacyTxCount :=
      if tx.txType = 0 then b.totalLegacyTxCount + 1 else b.totalLegacyTxCount }

/-- The signature and the recipient in `AddTxs`. -/
def addSignature (i : ℕ) (tx : Transaction) (b : SpanBatchTxs) : SpanBatchTxs :=
  { b with
    txSigs := b.txSigs ++ [⟨tx.v % 2 ^ 64, tx.r % 2 ^ 256, tx.s % 2 ^ 256⟩]
    txTos := b.txTos ++ tx.toAddr.toList
    contractCreationBits := setBit b.contractCreationBits i tx.toAddr.isNone }

/-- The rest of the columns in `AddTxs`. -/
def addData (i : ℕ) (tx : Transaction) (b : SpanBatchTxs) : SpanBatchTxs :=
  { b with
    yParityBits := setBit b.yParityBits i (convertVToYParity (tx.v % 2 ^ 64) tx.txType = 1)
    txNonces := b.txNonces ++ [tx.nonce]
    txGases := b.txGases ++ [tx.gas]
    txDatas := b.txDatas ++ [tx.toSpanBatchTx.marshalBinary]
    txTypes := b.txTypes ++ [tx.txType] }

/-- One round of the loop of `AddTxs`, after the transaction was decoded. -/
def addDecodedTx (chainID i : ℕ) (tx : Transaction) (b : SpanBatchTxs) :
    SpanBatchTxs × Option AddTxsError :=
  if tx.isProtected = true ∧ tx.chainId ≠ chainID then
    (b.addProtectedBit tx, some (.chainID tx.chainId chainID))
  else if 1 < convertVToYParity (tx.v % 2 ^ 64) tx.txType then
    ((b.addProtectedBit tx).addSignature i tx, some .panic)
  else (((b.addProtectedBit tx).addSignature i tx).addData i tx, none)

/-- The loop of `AddTxs`, with the number of the next transaction. -/
def addTxsLoop (chainID : ℕ) : ℕ → List Bytes → SpanBatchTxs → SpanBatchTxs × Option AddTxsError
  | _, [], b => (b, none)
  | i, bs :: txs, b =>
    match unmarshalBinary bs with
    | .error _ => (b, some .decodeTx)
    | .ok tx =>
      match addDecodedTx chainID i tx b with
      | (b, none) => addTxsLoop chainID (i + 1) txs b
      | (b, some e) => (b, some e)

/-- `AddTxs`; what was added before an error stays. -/
def addTxs (txs : List Bytes) (chainID : ℕ) (b : SpanBatchTxs) :
    SpanBatchTxs × Option AddTxsError :=
  match addTxsLoop chainID b.totalBlockTxCount txs b with
  | (b, none) => ({ b with totalBlockTxCount := b.totalBlockTxCount + txs.length }, none)
  | (b, some e) => (b, some e)

/-- What `AddTxs` asks of a transaction that it can decode. -/
structure Accepts (chainID : ℕ) (tx : Transaction) : Prop where
  chainId_eq : tx.isProtected = true → tx.chainId = chainID
  yParity_le : convertVToYParity (tx.v % 2 ^ 64) tx.txType ≤ 1

/-- The sizes of the transactions are bounded. -/
def SizedWithin (limit : ℕ) (txs : List Transaction) : Prop :=
  ∀ tx ∈ txs, (encodeList tx.toSpanBatchTx.content).length ≤ limit

/-- The columns of a list of transactions. -/
structure Columns (txs : List Transaction) (b : SpanBatchTxs) : Prop where
  creation : HasBits b.contractCreationBits (txs.map fun tx => tx.toAddr.isNone)
  yParity : HasBits b.yParityBits
    (txs.map fun tx => decide (convertVToYParity (tx.v % 2 ^ 64) tx.txType = 1))
  sigs : b.txSigs = txs.map fun tx => ⟨tx.v % 2 ^ 64, tx.r % 2 ^ 256, tx.s % 2 ^ 256⟩
  nonces : b.txNonces = txs.map nonce
  gases : b.txGases = txs.map gas
  tos : b.txTos = txs.filterMap toAddr
  datas : b.txDatas = txs.map fun tx => tx.toSpanBatchTx.marshalBinary
  types : b.txTypes = txs.map txType
  legacyCount : b.totalLegacyTxCount = (txs.filter fun tx => tx.txType = 0).length
  protection : HasBits b.protectedBits
    ((txs.filter fun tx => tx.txType = 0).map isProtected)

lemma columns_empty : Columns [] empty :=
  ⟨hasBits_nil, hasBits_nil, rfl, rfl, rfl, rfl, rfl, rfl, rfl, hasBits_nil⟩

variable {before : List Transaction} {b b' : SpanBatchTxs} {chainID i : ℕ} {txs : List Bytes}

lemma Columns.concat {txs : List Transaction} (h : Columns txs b) (hi : txs.length = i)
    (tx : Transaction) :
    Columns (txs ++ [tx]) (((b.addProtectedBit tx).addSignature i tx).addData i tx) := by
  have hlen : ∀ {β : Type} (f : Transaction → β), (txs.map f).length = i := fun f =>
    (length_map f).trans hi
  have hmap : ∀ {β : Type} {l : List β} {f : Transaction → β}, l = txs.map f →
      l ++ [f tx] = (txs ++ [tx]).map f := by
    rintro _ _ f rfl
    rw [map_append, map_singleton]
  have hto : b.txTos ++ tx.toAddr.toList = (txs ++ [tx]).filterMap toAddr := by
    rw [h.tos, filterMap_append, filterMap_cons]
    cases tx.toAddr <;> rfl
  refine ⟨?_, ?_, hmap h.sigs, hmap h.nonces, hmap h.gases, hto, hmap h.datas, hmap h.types, ?_, ?_⟩
  · rw [map_append]
    exact h.creation.concat (hlen _) _
  · rw [map_append]
    exact h.yParity.concat (hlen _) _
  · rw [filter_append, filter_cons, filter_nil, length_append, ← h.legacyCount]
    by_cases hleg : tx.txType = 0 <;> simp [addData, addSignature, addProtectedBit, hleg]
  · rw [filter_append, filter_cons, filter_nil, map_append]
    have hbits : (((b.addProtectedBit tx).addSignature i tx).addData i tx).protectedBits =
      if tx.txType = 0 then setBit b.protectedBits b.totalLegacyTxCount tx.isProtected
      else b.protectedBits := rfl
    rw [hbits]
    by_cases hleg : tx.txType = 0
    · rw [if_pos hleg, if_pos (decide_eq_true hleg)]
      exact h.protection.concat (by rw [length_map, h.legacyCount]) _
    · rw [if_neg hleg, if_neg (fun hc => hleg (of_decide_eq_true hc)), map_nil, append_nil]
      exact h.protection

lemma addDecodedTx_eq_none {tx : Transaction} :
    addDecodedTx chainID i tx b = (b', none) ↔
      Accepts chainID tx ∧ ((b.addProtectedBit tx).addSignature i tx).addData i tx = b' := by
  unfold addDecodedTx
  by_cases hchain : tx.isProtected = true ∧ tx.chainId ≠ chainID
  · rw [if_pos hchain]
    refine ⟨fun h => ?_, fun h => absurd (h.1.chainId_eq hchain.1) hchain.2⟩
    cases (Prod.mk.inj h).2
  · rw [if_neg hchain]
    by_cases hpar : 1 < convertVToYParity (tx.v % 2 ^ 64) tx.txType
    · rw [if_pos hpar]
      refine ⟨fun h => ?_, fun h => absurd h.1.yParity_le (not_le_of_gt hpar)⟩
      cases (Prod.mk.inj h).2
    · rw [if_neg hpar, Prod.mk.injEq, and_iff_left rfl]
      refine ⟨fun h => ⟨⟨fun hp => ?_, le_of_not_gt hpar⟩, h⟩, fun h => h.2⟩
      by_contra hne
      exact hchain ⟨hp, hne⟩

/-- Transactions are added exactly if all of them are decoded and accepted, and then the columns are
those of the transactions before and of the new ones. -/
theorem addTxsLoop_eq_none (hb : Columns before b) (hi : before.length = i)
    (h : addTxsLoop chainID i txs b = (b', none)) :
    ∃ new : List Transaction, txs.map unmarshalBinary = new.map .ok ∧
      (∀ tx ∈ new, Accepts chainID tx) ∧ Columns (before ++ new) b' ∧
      b'.totalBlockTxCount = b.totalBlockTxCount := by
  induction txs generalizing i before b with
  | nil =>
    obtain rfl : b = b' := (Prod.mk.inj h).1
    exact ⟨[], rfl, nofun, by rwa [append_nil], rfl⟩
  | cons bs txs ih =>
    rw [addTxsLoop] at h
    split at h
    · cases (Prod.mk.inj h).2
    · rename_i tx htx
      split at h
      · rename_i b₁ hadd
        obtain ⟨hacc, rfl⟩ := addDecodedTx_eq_none.mp hadd
        obtain ⟨new, hnew, hall, hcols, htotal⟩ :=
          ih (hb.concat hi tx) (by rw [length_append, hi]; rfl) h
        refine ⟨tx :: new, by rw [map_cons, htx, hnew, map_cons],
          forall_mem_cons.mpr ⟨hacc, hall⟩, ?_, htotal⟩
        rwa [append_cons]
      · cases (Prod.mk.inj h).2

lemma addTxsLoop_of_accepts {new : List Transaction} (hdec : txs.map unmarshalBinary = new.map .ok)
    (hacc : ∀ tx ∈ new, Accepts chainID tx) (b : SpanBatchTxs) :
    ∃ b', addTxsLoop chainID i txs b = (b', none) := by
  induction txs generalizing i new b with
  | nil => exact ⟨b, rfl⟩
  | cons bs txs ih =>
    cases new with
    | nil => cases hdec
    | cons tx new =>
      rw [map_cons, map_cons, cons.injEq] at hdec
      obtain ⟨htx, hnew⟩ := forall_mem_cons.mp hacc
      rw [addTxsLoop, hdec.1]
      dsimp only
      rw [addDecodedTx_eq_none.mpr ⟨htx, rfl⟩]
      exact ih hdec.2 hnew _

lemma addTxs_eq_none (hb : Columns before b) (hcnt : b.totalBlockTxCount = before.length)
    (h : addTxs txs chainID b = (b', none)) :
    ∃ new : List Transaction, txs.map unmarshalBinary = new.map .ok ∧
      (∀ tx ∈ new, Accepts chainID tx) ∧ Columns (before ++ new) b' ∧
      b'.totalBlockTxCount = (before ++ new).length := by
  rw [addTxs] at h
  split at h
  · rename_i b₁ hloop
    obtain ⟨new, hnew, hall, hcols, htotal⟩ := addTxsLoop_eq_none hb hcnt.symm hloop
    obtain rfl := (Prod.mk.inj h).1
    have hlen := congrArg length hnew
    rw [length_map, length_map] at hlen
    refine ⟨new, hnew, hall, ?_, ?_⟩
    · exact ⟨hcols.1, hcols.2, hcols.3, hcols.4, hcols.5, hcols.6, hcols.7,
        hcols.8, hcols.9, hcols.10⟩
    · grind
  · cases (Prod.mk.inj h).2

/-! ## Encoding and decoding -/

def encode (b : SpanBatchTxs) : Except SpanBatchError Bytes := do
  let contractCreation ←
    encodeSpanBatchBits "contract creation bits" b.totalBlockTxCount b.contractCreationBits
  let yParity ← encodeSpanBatchBits "y-parity bits" b.totalBlockTxCount b.yParityBits
  let protection ← encodeSpanBatchBits "protected bits" b.totalLegacyTxCount b.protectedBits
  .ok (contractCreation ++ (yParity ++
    ((b.txSigs.map fun sig => beBytes 32 sig.r ++ beBytes 32 sig.s).flatten ++
    ((b.txTos.map Subtype.val).flatten ++ (b.txDatas.flatten ++
    ((b.txNonces.map fun n => uvarint n.val).flatten ++
    ((b.txGases.map fun n => uvarint n.val).flatten ++ protection)))))))

/-- The values `r` and `s` of a signature. -/
def readSignature : Reader SpanBatchError SpanBatchSignature := do
  let r ← readFull (.reading "tx sig r") 32
  let s ← readFull (.reading "tx sig s") 32
  pure ⟨0, beNat r, beNat s⟩

def readUint64 (field : String) : Reader SpanBatchError (Fin (2 ^ 64)) := do
  let x ← readUvarint (.reading field) (.overflow field)
  pure (Fin.ofNat _ x)

def contractCreationCount (totalBlockTxCount contractCreationBits : ℕ) : ℕ :=
  ((range totalBlockTxCount).filter fun i => contractCreationBits.testBit i).length

/-- The errors of `ReadTxData` from the RLP stream. -/
def rlpError : RLP.Error → SpanBatchError
  | .valueTooLarge => .tooBigSpanBatchSize
  | e => .rlp e

/-- `ReadTxData`: the data of a transaction and its type. -/
def readTxData : Reader SpanBatchError (Bytes × ℕ)
  | [] => .error (.reading "tx initial byte" .eof)
  | b :: bs =>
    if b.toNat ≤ 127 then
      match readRawList maxSpanBatchElementCount bs with
      | .ok (payload, rest) => .ok ((b :: payload, b.toNat), rest)
      | .error e => .error (rlpError e)
    else
      match readRawList maxSpanBatchElementCount (b :: bs) with
      | .ok (payload, rest) => .ok ((payload, 0), rest)
      | .error e => .error (rlpError e)

/-- `decode`, with the number of transactions. -/
def decode (totalBlockTxCount : ℕ) : Reader SpanBatchError SpanBatchTxs := do
  failIf (maxSpanBatchElementCount < totalBlockTxCount) .tooBigSpanBatchSize
  let contractCreationBits ← decodeSpanBatchBits "contract creation bits" totalBlockTxCount
  let yParityBits ← decodeSpanBatchBits "y-parity bits" totalBlockTxCount
  let txSigs ← readMany readSignature totalBlockTxCount
  let txTos ← readMany (readFixed (.reading "tx to address") 20)
    (totalBlockTxCount - contractCreationCount totalBlockTxCount contractCreationBits)
  let txDatas ← readMany readTxData totalBlockTxCount
  let txNonces ← readMany (readUint64 "tx nonce") totalBlockTxCount
  let txGases ← readMany (readUint64 "tx gas") totalBlockTxCount
  let totalLegacyTxCount := (txDatas.filter fun data => data.2 = 0).length
  failIf (maxSpanBatchElementCount < totalLegacyTxCount) .tooBigSpanBatchSize
  let protectedBits ← decodeSpanBatchBits "protected bits" totalLegacyTxCount
  pure ⟨totalBlockTxCount, contractCreationBits, yParityBits, txSigs, txNonces, txGases, txTos,
    txDatas.map Prod.fst, protectedBits, txDatas.map Prod.snd, totalLegacyTxCount⟩

/-- What is not encoded. -/
def withoutV (b : SpanBatchTxs) : SpanBatchTxs :=
  { b with txSigs := b.txSigs.map fun sig => { sig with v := 0 } }

lemma readSignature_write (sig : SpanBatchSignature) (hr : sig.r < 2 ^ 256) (hs : sig.s < 2 ^ 256)
    (rest : Bytes) :
    readSignature (beBytes 32 sig.r ++ beBytes 32 sig.s ++ rest) = .ok ({ sig with v := 0 }, rest) := by
  rw [append_assoc]
  refine andThen (readFull_eq_ok.mpr ⟨length_beBytes _ _, rfl⟩) ?_
  refine andThen (readFull_eq_ok.mpr ⟨length_beBytes _ _, rfl⟩) ?_
  rw [beNat_beBytes_of_lt hr, beNat_beBytes_of_lt hs]
  rfl

lemma readUint64s_write (field : String) {f : Transaction → Fin (2 ^ 64)} {txs : List Transaction}
    {ns : List (Fin (2 ^ 64))} (h : ns = txs.map f) (rest : Bytes) :
    readMany (readUint64 field) txs.length ((ns.map fun n => uvarint n.val).flatten ++ rest) =
      .ok (ns, rest) := by
  have hlen : ns.length = txs.length := by rw [h, length_map]
  rw [← hlen]
  refine readMany_write (fun n _ rest => ?_) rest
  refine andThen (readUvarint_uvarint _ _ n.2 rest) ?_
  exact pure_eq_ok.mpr ⟨Fin.ofNat_val_eq_self n, rfl⟩

lemma readTxData_marshalBinary {stx : SpanBatchTx}
    (hlen : (encodeList stx.content).length ≤ maxSpanBatchElementCount) (rest : Bytes) :
    readTxData (stx.marshalBinary ++ rest) = .ok ((stx.marshalBinary, stx.txType), rest) := by
  have hmax : maxSpanBatchElementCount < 2 ^ 64 := by decide
  have hcont : stx.content.length < 2 ^ 64 :=
    lt_of_le_of_lt (le_trans (length_le_encodeList _) hlen) hmax
  have hraw := readRawList_encode hcont maxSpanBatchElementCount rest
  rw [if_neg (not_lt_of_ge hlen)] at hraw
  cases stx with
  | legacy value gasPrice data =>
    obtain ⟨b, bs, hbs, hb⟩ := head_encodeList hcont
    rw [SpanBatchTx.marshalBinary]
    rw [hbs] at hraw ⊢
    rw [cons_append] at hraw ⊢
    rw [readTxData, if_neg (by omega), hraw]
    rfl
  | accessList _ _ _ _ | dynamicFee _ _ _ _ _ =>
    rw [SpanBatchTx.marshalBinary, cons_append, readTxData, hraw]
    rfl

lemma txType_toSpanBatchTx (tx : Transaction) : tx.toSpanBatchTx.txType = tx.txType := by
  obtain ⟨kind, _⟩ := tx
  cases kind <;> rfl

lemma length_filterMap_toAddr (txs : List Transaction) :
    (txs.filterMap toAddr).length =
      txs.length - (txs.map fun tx => tx.toAddr.isNone).count true := by
  have hle : ∀ txs : List Transaction,
      (txs.map fun tx => tx.toAddr.isNone).count true ≤ txs.length := fun txs =>
    le_trans count_le_length (le_of_eq (length_map _))
  induction txs with
  | nil => rfl
  | cons tx txs ih =>
    have := hle txs
    rw [filterMap_cons, map_cons, length_cons]
    cases tx.toAddr with
    | none => rw [Option.isNone_none, count_cons_self, ih]; omega
    | some a => rw [Option.isNone_some, count_cons_of_ne (by decide), length_cons]; omega

lemma contractCreationCount_eq {x : ℕ} {bits : List Bool} (h : HasBits x bits) :
    contractCreationCount bits.length x = bits.count true := by
  have hbits : bits = (range bits.length).map fun i => x.testBit i := by
    refine ext_getElem (by simp) fun i hi _ => ?_
    rw [getElem_map, getElem_range, h.testBit_eq, getD_eq_getElem]
  rw [contractCreationCount]
  conv_rhs => rw [hbits]
  rw [count, countP_map, countP_eq_length_filter]
  congr 2
  funext i
  simp

section ReadColumns

variable {txs : List Transaction} {b : SpanBatchTxs}

section

variable (h : Columns txs b)
include h

lemma Columns.read_sigs (rest : Bytes) :
    readMany readSignature txs.length
      ((b.txSigs.map fun sig => beBytes 32 sig.r ++ beBytes 32 sig.s).flatten ++ rest) =
        .ok (b.withoutV.txSigs, rest) := by
  have hlen : b.withoutV.txSigs.length = txs.length := by
    rw [withoutV, length_map, h.sigs, length_map]
  have hwrite : (b.txSigs.map fun sig => beBytes 32 sig.r ++ beBytes 32 sig.s) =
      b.withoutV.txSigs.map fun sig => beBytes 32 sig.r ++ beBytes 32 sig.s := by
    rw [withoutV, map_map]
    rfl
  rw [← hlen, hwrite]
  refine readMany_write (fun sig hsig => ?_) rest
  rw [withoutV, h.sigs, map_map] at hsig
  obtain ⟨tx, -, rfl⟩ := mem_map.mp hsig
  exact readSignature_write ⟨0, tx.r % 2 ^ 256, tx.s % 2 ^ 256⟩ (Nat.mod_lt _ (Nat.two_pow_pos 256))
    (Nat.mod_lt _ (Nat.two_pow_pos 256))

lemma Columns.read_tos (rest : Bytes) :
    readMany (readFixed (SpanBatchError.reading "tx to address") 20)
      (txs.length - contractCreationCount txs.length b.contractCreationBits)
      ((b.txTos.map Subtype.val).flatten ++ rest) = .ok (b.txTos, rest) := by
  have hcnt := contractCreationCount_eq h.creation
  rw [length_map] at hcnt
  rw [hcnt, ← length_filterMap_toAddr, ← h.tos]
  exact readMany_write (fun a _ rest => readFixed_eq_ok.mpr rfl) rest

lemma Columns.read_datas (hsize : SizedWithin maxSpanBatchElementCount txs) (rest : Bytes) :
    readMany readTxData txs.length (b.txDatas.flatten ++ rest) =
      .ok (txs.map fun tx => (tx.toSpanBatchTx.marshalBinary, tx.txType), rest) := by
  have hlen : (txs.map fun tx => (tx.toSpanBatchTx.marshalBinary, tx.txType)).length = txs.length :=
    length_map _
  have hwrite : b.txDatas =
      (txs.map fun tx => (tx.toSpanBatchTx.marshalBinary, tx.txType)).map Prod.fst := by
    rw [h.datas, map_map]
    rfl
  conv_lhs => rw [← hlen]
  rw [hwrite]
  refine readMany_write (fun data hdata => ?_) rest
  obtain ⟨tx, htx, rfl⟩ := mem_map.mp hdata
  rw [← txType_toSpanBatchTx]
  exact readTxData_marshalBinary (hsize tx htx)

lemma Columns.legacyCount_eq :
    ((txs.map fun tx => (tx.toSpanBatchTx.marshalBinary, tx.txType)).filter
      fun data => data.2 = 0).length = b.totalLegacyTxCount := by
  rw [filter_map, length_map, h.legacyCount]
  rfl

lemma Columns.creation_lt : b.contractCreationBits < 2 ^ txs.length := by
  have hlt := h.creation.lt
  rwa [length_map] at hlt

lemma Columns.yParity_lt : b.yParityBits < 2 ^ txs.length := by
  have hlt := h.yParity.lt
  rwa [length_map] at hlt

lemma Columns.protection_lt : b.protectedBits < 2 ^ b.totalLegacyTxCount := by
  have hlt := h.protection.lt
  rwa [length_map, ← h.legacyCount] at hlt

lemma Columns.encode_eq (hcnt : b.totalBlockTxCount = txs.length) :
    b.encode = .ok (beBytes (bitBytes txs.length) b.contractCreationBits ++
      (beBytes (bitBytes txs.length) b.yParityBits ++
      ((b.txSigs.map fun sig => beBytes 32 sig.r ++ beBytes 32 sig.s).flatten ++
      ((b.txTos.map Subtype.val).flatten ++ (b.txDatas.flatten ++
      ((b.txNonces.map fun n => uvarint n.val).flatten ++
      ((b.txGases.map fun n => uvarint n.val).flatten ++
      beBytes (bitBytes b.totalLegacyTxCount) b.protectedBits))))))) := by
  rw [encode, hcnt, encodeSpanBatchBits_of_lt _ h.creation_lt, ok_bind,
    encodeSpanBatchBits_of_lt _ h.yParity_lt, ok_bind,
    encodeSpanBatchBits_of_lt _ h.protection_lt, ok_bind]

lemma Columns.le_length_encode (hcnt : b.totalBlockTxCount = txs.length)
    {bytes : Bytes} (henc : b.encode = .ok bytes) :
    txs.length ≤ bytes.length ∧ SizedWithin bytes.length txs := by
  rw [h.encode_eq hcnt, Except.ok.injEq] at henc
  have hnonces := length_le_uvarints (b.txNonces.map Fin.val)
  rw [length_map, map_map, h.nonces, length_map] at hnonces
  have hlen := congrArg length henc
  simp only [length_append] at hlen
  refine ⟨?_, fun tx htx => ?_⟩
  · grind [h.nonces, Function.comp_def]
  · have hdata : tx.toSpanBatchTx.marshalBinary ∈ b.txDatas := by grind [h.datas]
    have hle := (sublist_flatten_of_mem hdata).length_le
    have hlist := tx.toSpanBatchTx.length_encodeList_le
    omega

/-- The columns of transactions are read back, except for the values `v`. -/
theorem Columns.decode_encode (hcnt : b.totalBlockTxCount = txs.length)
    (hmax : txs.length ≤ maxSpanBatchElementCount) (hsize : SizedWithin maxSpanBatchElementCount txs) :
    ∃ bytes, b.encode = .ok bytes ∧
      ∀ rest, SpanBatchTxs.decode txs.length (bytes ++ rest) = .ok (b.withoutV, rest) := by
  have hleg : b.totalLegacyTxCount ≤ maxSpanBatchElementCount := by grind [h.legacyCount]
  rw [h.encode_eq hcnt]
  refine ⟨_, rfl, fun rest => ?_⟩
  simp only [append_assoc]
  refine failIf_andThen (not_lt_of_ge hmax) ?_
  refine andThen (decodeSpanBatchBits_beBytes _ h.creation_lt _) ?_
  refine andThen (decodeSpanBatchBits_beBytes _ h.yParity_lt _) ?_
  refine andThen (h.read_sigs _) ?_
  refine andThen (h.read_tos _) ?_
  refine andThen (h.read_datas hsize _) ?_
  refine andThen (readUint64s_write _ h.nonces _) ?_
  refine andThen (readUint64s_write _ h.gases _) ?_
  rw [h.legacyCount_eq]
  refine failIf_andThen (not_lt_of_ge hleg) ?_
  refine andThen (decodeSpanBatchBits_beBytes _ h.protection_lt _) ?_
  refine pure_eq_ok.mpr ⟨?_, rfl⟩
  rw [withoutV, map_map, map_map, hcnt]
  obtain ⟨_, _, _, _, _, _, hdatas, htypes, _, _⟩ := h
  simp only [Function.comp_def, ← hdatas, ← htypes]

end

end ReadColumns

/-! ## The full transactions -/

/-- The value `v` of a signature, from the bits that are stored for it. -/
def recoveredV (chainID txType bit : ℕ) (protectedBit : Bool) : ℕ :=
  if txType = 0 then
    if protectedBit then (chainID % 2 ^ 64 * 2 + 35 + bit) % 2 ^ 64 else 27 + bit
  else bit

/-- The loop of `recoverV`: the values `v`. -/
def recoverVLoop (chainID yParityBits protectedBits : ℕ) :
    ℕ → ℕ → List ℕ → Except SpanBatchError (List ℕ)
  | _, _, [] => .ok []
  | idx, protectedBitsIdx, txType :: txTypes =>
    if 2 < txType then .error (.invalidTxType txType)
    else do
      let v := recoveredV chainID txType (yParityBits.testBit idx).toNat
        (protectedBits.testBit protectedBitsIdx)
      let vs ← recoverVLoop chainID yParityBits protectedBits (idx + 1)
        (if txType = 0 then protectedBitsIdx + 1 else protectedBitsIdx) txTypes
      .ok (v :: vs)

def recoverV (chainID : ℕ) (b : SpanBatchTxs) : Except SpanBatchError SpanBatchTxs :=
  if b.txTypes.length ≠ b.txSigs.length then .error .lengthMismatch
  else do
    let vs ← recoverVLoop chainID b.yParityBits b.protectedBits 0 0 b.txTypes
    .ok { b with txSigs := b.txSigs.zipWith (fun sig v => { sig with v := v }) vs }

/-- The recipient of a transaction in `fullTxs`, and the index of the next one. -/
def nextTo (b : SpanBatchTxs) (idx toIdx : ℕ) : Except SpanBatchError (Option TxAddress × ℕ) :=
  if b.contractCreationBits.testBit idx then .ok (none, toIdx)
  else
    match b.txTos[toIdx]? with
    | none => .error .txToNotEnough
    | some a => .ok (some a, toIdx + 1)

/-- The column of a list, at an index at which it must have an element. -/
def column {α : Type} (l : List α) (idx : ℕ) : Except SpanBatchError α :=
  match l[idx]? with
  | none => .error .panic
  | some a => .ok a

/-- The loop of `fullTxs`, for the next `n` transactions. -/
def fullTxsLoop (chainID : ℕ) (b : SpanBatchTxs) : ℕ → ℕ → ℕ → Except SpanBatchError (List Bytes)
  | 0, _, _ => .ok []
  | n + 1, idx, toIdx => do
    let txData ← column b.txDatas idx
    let stx ← (SpanBatchTx.unmarshalBinary txData).mapError .tx
    let nonce ← column b.txNonces idx
    let gas ← column b.txGases idx
    let (toAddr, toIdx) ← b.nextTo idx toIdx
    let sig ← column b.txSigs idx
    let tx := stx.convertToFullTx nonce gas toAddr chainID sig.v sig.r sig.s
    let txs ← fullTxsLoop chainID b n (idx + 1) toIdx
    .ok (tx.marshalBinary :: txs)

def fullTxs (chainID : ℕ) (b : SpanBatchTxs) : Except SpanBatchError (List Bytes) :=
  fullTxsLoop chainID b b.totalBlockTxCount 0 0

end SpanBatchTxs

/-- A transaction with the signature values of a chain: a legacy transaction is protected with the
chain identifier or not protected, another one has the chain identifier. -/
structure SignedFor (chainID : ℕ) (tx : Transaction) : Prop where
  r_lt : tx.r < 2 ^ 256
  s_lt : tx.s < 2 ^ 256
  v_eq : match tx.kind with
    | .legacy _ => ∃ bit ≤ 1, tx.v = 27 + bit ∨ tx.v = 2 * chainID + 35 + bit
    | .accessList txChainID _ _ => txChainID = chainID ∧ tx.v ≤ 1
    | .dynamicFee txChainID _ _ _ => txChainID = chainID ∧ tx.v ≤ 1

namespace SignedFor

variable {chainID : ℕ} {tx : Transaction}

section

variable (h : SignedFor chainID tx)
include h

lemma convertToFullTx_eq :
    tx.toSpanBatchTx.convertToFullTx tx.nonce tx.gas tx.toAddr chainID tx.v (tx.r % 2 ^ 256)
      (tx.s % 2 ^ 256) = tx := by
  rw [Nat.mod_eq_of_lt h.r_lt, Nat.mod_eq_of_lt h.s_lt]
  obtain ⟨-, -, hv⟩ := h
  obtain ⟨kind, nonce, gas, toAddr, value, data, v, r, s⟩ := tx
  cases kind with
  | legacy gasPrice => rfl
  | accessList _ _ _ | dynamicFee _ _ _ _ =>
    obtain rfl := hv.1
    rfl

variable (hchain : 2 * chainID + 36 < 2 ^ 64)
include hchain

/-- The value `v` has 64 bits, the parity in it is a bit, and it is recovered from the two bits that are
stored for it. -/
theorem recovers :
    tx.v < 2 ^ 64 ∧ (tx.isProtected = true → tx.chainId = chainID) ∧
      convertVToYParity tx.v tx.txType ≤ 1 ∧
      SpanBatchTxs.recoveredV chainID tx.txType (convertVToYParity tx.v tx.txType)
        tx.isProtected = tx.v := by
  obtain ⟨-, -, hv⟩ := h
  obtain ⟨kind, nonce, gas, toAddr, value, data, v, r, s⟩ := tx
  cases kind with
  | legacy gasPrice =>
    obtain ⟨bit, hbit, rfl | rfl⟩ := hv
    · have hprot : decide (27 + bit ≠ 27 ∧ 27 + bit ≠ 28 ∧ 27 + bit ≠ 1 ∧ 27 + bit ≠ 0) =
        false := decide_eq_false (by omega)
      have hpar := convertVToYParity_unprotected hbit
      refine ⟨lt_of_le_of_lt (Nat.add_le_add_left hbit 27) (by decide), fun hp => ?_,
        hpar.le.trans hbit, ?_⟩
      · exact absurd (hprot.symm.trans hp) Bool.false_ne_true
      · show SpanBatchTxs.recoveredV chainID 0 (convertVToYParity (27 + bit) 0) (decide _) = 27 + bit
        rw [hprot, hpar]
        rfl
    · have hprot : decide (2 * chainID + 35 + bit ≠ 27 ∧ 2 * chainID + 35 + bit ≠ 28 ∧
        2 * chainID + 35 + bit ≠ 1 ∧ 2 * chainID + 35 + bit ≠ 0) = true := decide_eq_true (by omega)
      have hpar := convertVToYParity_protected hbit hchain
      have hlt : 2 * chainID + 35 + bit < 2 ^ 64 := by omega
      refine ⟨hlt, fun _ => ?_, hpar.le.trans hbit, ?_⟩
      · show (if 2 * chainID + 35 + bit < 2 ^ 64 then
          if 2 * chainID + 35 + bit = 27 ∨ 2 * chainID + 35 + bit = 28 then 0
          else (2 * chainID + 35 + bit + (2 ^ 64 - 35)) % 2 ^ 64 / 2
          else (2 * chainID + 35 + bit - 35) / 2) = chainID
        rw [if_pos hlt, if_neg (by omega)]
        omega
      · show SpanBatchTxs.recoveredV chainID 0 (convertVToYParity (2 * chainID + 35 + bit) 0)
          (decide _) = 2 * chainID + 35 + bit
        rw [hprot, SpanBatchTxs.recoveredV, if_pos rfl, if_pos rfl]
        omega
  | accessList _ _ _ | dynamicFee _ _ _ _ =>
    exact ⟨lt_of_le_of_lt hv.2 (by decide), fun _ => hv.1, hv.2, rfl⟩

lemma accepts : SpanBatchTxs.Accepts chainID tx := by
  obtain ⟨hlt, hid, hpar, -⟩ := h.recovers hchain
  exact ⟨hid, by rwa [Nat.mod_eq_of_lt hlt]⟩

/-- A transaction is longer than what is left of it in a span batch by some numbers and the recipient. -/
theorem length_content_le :
    tx.content.length ≤ tx.toSpanBatchTx.content.length + 287 := by
  have hv := length_encodeNat_le (lt_trans (h.recovers hchain).1 (by decide : _ < 2 ^ 256))
  have hr := length_encodeNat_le h.r_lt
  have hs := length_encodeNat_le h.s_lt
  have hnonce := length_encodeNat_le (lt_trans tx.nonce.2 (by decide : _ < 2 ^ 256))
  have hgas := length_encodeNat_le (lt_trans tx.gas.2 (by decide : _ < 2 ^ 256))
  have hid := length_encodeNat_le
    (lt_trans (show chainID < 2 ^ 64 by omega) (by decide : _ < 2 ^ 256))
  have hto : tx.encodeTo.length ≤ 41 := by
    rw [encodeTo]
    cases tx.toAddr with
    | none => decide
    | some a =>
      have hlen : a.1.length < 2 ^ 64 := by rw [a.2]; decide
      have hle := length_encodeString_le hlen
      rw [a.2] at hle
      exact le_trans hle (by decide)
  obtain ⟨-, -, hkind⟩ := h
  obtain ⟨kind, nonce, gas, toAddr, value, data, v, r, s⟩ := tx
  cases kind with
  | legacy gasPrice =>
    simp only [content, encodeSignature, toSpanBatchTx, SpanBatchTx.content, length_append] at *
    omega
  | accessList _ _ _ | dynamicFee _ _ _ _ =>
    obtain rfl := hkind.1
    simp only [content, encodeSignature, toSpanBatchTx, SpanBatchTx.content, length_append] at *
    omega

lemma unmarshalBinary_marshalBinary
    (hsize : (encodeList tx.toSpanBatchTx.content).length ≤ maxSpanBatchElementCount) :
    unmarshalBinary tx.marshalBinary = .ok tx := by
  have hle := h.length_content_le hchain
  have hspan := le_trans (length_le_encodeList tx.toSpanBatchTx.content) hsize
  have hmax : maxSpanBatchElementCount + 287 + 9 < 2 ^ 64 := by decide
  have hlist := @length_encodeList_le tx.content (by omega)
  exact Transaction.unmarshalBinary_marshalBinary (by omega)

end

end SignedFor

namespace SpanBatchTxs

section FullTxs

variable {chainID : ℕ} {txs : List Transaction} {b : SpanBatchTxs}

lemma txType_le (tx : Transaction) : tx.txType ≤ 2 := by
  rw [txType]
  split <;> omega

variable {after before : List Transaction} {tx : Transaction} {α : Type}

lemma hasBits_testBit {f : α → Bool} {before after : List α} {a : α} {x : ℕ}
    (h : HasBits x ((before ++ a :: after).map f)) : x.testBit before.length = f a := by
  rw [h.testBit_eq, map_append, getD_append_right _ _ _ _ (by rw [length_map]),
    length_map, Nat.sub_self]
  rfl

/-- The loop of `recoverV`, behind the transactions `before`. -/
theorem Columns.recoverVLoop_eq (before : List Transaction) (h : Columns (before ++ after) b)
    (hsgn : ∀ tx ∈ after, SignedFor chainID tx) (hchain : 2 * chainID + 36 < 2 ^ 64) :
    recoverVLoop chainID b.yParityBits b.protectedBits before.length
      (before.filter fun tx => tx.txType = 0).length (after.map txType) = .ok (after.map v) := by
  induction after generalizing before with
  | nil => rfl
  | cons tx after ih =>
    obtain ⟨htx, hafter⟩ := forall_mem_cons.mp hsgn
    have hpar := hasBits_testBit h.yParity
    have hnext := ih (before ++ [tx]) (by rwa [← append_cons]) hafter
    have hrecovered : recoveredV chainID tx.txType (b.yParityBits.testBit before.length).toNat
        (b.protectedBits.testBit (before.filter fun tx => tx.txType = 0).length) = tx.v := by
      obtain ⟨hlt, -, hbit, hv⟩ := htx.recovers hchain
      have hone : ∀ n ≤ 1, (decide (n = 1)).toNat = n := by decide
      refine trans ?_ hv
      rw [hpar, Nat.mod_eq_of_lt hlt, hone _ hbit]
      -- the protected bit is only looked at for a legacy transaction
      by_cases hleg : tx.txType = 0
      · have hfilt : (before ++ tx :: after).filter (fun tx => tx.txType = 0) =
            before.filter (fun tx => tx.txType = 0) ++
              tx :: after.filter (fun tx => tx.txType = 0) := by grind
        have hprot := h.protection
        rw [hfilt] at hprot
        rw [hasBits_testBit hprot]
      · grind [recoveredV]
    have hidx : (if tx.txType = 0 then (before.filter fun tx => tx.txType = 0).length + 1
        else (before.filter fun tx => tx.txType = 0).length) =
        ((before ++ [tx]).filter fun tx => tx.txType = 0).length := by
      by_cases hleg : tx.txType = 0 <;> simp [hleg]
    rw [length_append, length_singleton] at hnext
    rw [map_cons, recoverVLoop, if_neg (not_lt_of_ge (txType_le tx)), hrecovered, hidx, hnext]
    rfl

lemma Columns.recoverV_withoutV (h : Columns txs b)
    (hsgn : ∀ tx ∈ txs, SignedFor chainID tx) (hchain : 2 * chainID + 36 < 2 ^ 64) :
    b.withoutV.recoverV chainID = .ok b := by
  have hlen : b.withoutV.txTypes.length = b.withoutV.txSigs.length := by
    rw [withoutV, length_map, h.types, h.sigs, length_map, length_map]
  have hloop := recoverVLoop_eq [] h hsgn hchain
  rw [recoverV, if_neg (not_not.mpr hlen)]
  have htypes : b.withoutV.txTypes = txs.map txType := h.types
  have hloop' : recoverVLoop chainID b.withoutV.yParityBits b.withoutV.protectedBits 0 0
    b.withoutV.txTypes = .ok (txs.map v) := by rw [htypes]; exact hloop
  rw [hloop', ok_bind]
  have hsigs : b.withoutV.txSigs.zipWith (fun sig v => { sig with v := v })
      (txs.map v) = b.txSigs := by
    rw [withoutV, h.sigs, map_map, zipWith_map, zipWith_self]
    refine map_congr_left fun tx htx => ?_
    rw [Nat.mod_eq_of_lt ((hsgn tx htx).recovers hchain).1]
    rfl
  rw [hsigs]
  rfl

lemma column_eq_ok {l : List α} {f : Transaction → α} (h : l = (before ++ tx :: after).map f) :
    column l before.length = .ok (f tx) := by
  have hget : l[before.length]? = some (f tx) := by grind
  rw [column, hget]

lemma Columns.nextTo_eq (h : Columns (before ++ tx :: after) b) :
    b.nextTo before.length (before.filterMap toAddr).length =
      .ok (tx.toAddr, ((before ++ [tx]).filterMap toAddr).length) := by
  rw [nextTo, hasBits_testBit h.creation, filterMap_append, length_append, filterMap_cons]
  cases hto : tx.toAddr with
  | none => rfl
  | some a =>
    have hget : b.txTos[(before.filterMap toAddr).length]? = some a := by
      simp [h.tos, filterMap_append, filterMap_cons, hto, Nat.sub_self]
    rw [hget]
    rfl

/-- The loop of `fullTxs`, behind the transactions `before`. -/
theorem Columns.fullTxsLoop_eq (before : List Transaction) (h : Columns (before ++ after) b)
    (hsgn : ∀ tx ∈ after, SignedFor chainID tx) (hchain : 2 * chainID + 36 < 2 ^ 64)
    (hsize : SizedWithin maxSpanBatchElementCount after) :
    fullTxsLoop chainID b after.length before.length
      (before.filterMap toAddr).length = .ok (after.map marshalBinary) := by
  induction after generalizing before with
  | nil => rfl
  | cons tx after ih =>
    obtain ⟨htx, hafter⟩ := forall_mem_cons.mp hsgn
    obtain ⟨htxSize, hafterSize⟩ := forall_mem_cons.mp hsize
    have hnext := ih (before ++ [tx]) (by rwa [← append_cons]) hafter hafterSize
    rw [length_append, length_singleton] at hnext
    have hdata : SpanBatchTx.unmarshalBinary tx.toSpanBatchTx.marshalBinary = .ok tx.toSpanBatchTx :=
      SpanBatchTx.unmarshalBinary_marshalBinary (lt_of_le_of_lt htxSize (by decide))
    rw [length_cons, fullTxsLoop, column_eq_ok h.datas, ok_bind, hdata, Except.mapError,
      Except.ok_bind, column_eq_ok h.nonces, Except.ok_bind, column_eq_ok h.gases, h.nextTo_eq, ok_bind]
    dsimp only
    rw [column_eq_ok h.sigs, ok_bind, hnext, ok_bind]
    rw [Nat.mod_eq_of_lt (htx.recovers hchain).1, htx.convertToFullTx_eq]
    rfl

lemma Columns.fullTxs_eq (h : Columns txs b) (hcnt : b.totalBlockTxCount = txs.length)
    (hsgn : ∀ tx ∈ txs, SignedFor chainID tx) (hchain : 2 * chainID + 36 < 2 ^ 64)
    (hsize : SizedWithin maxSpanBatchElementCount txs) :
    b.fullTxs chainID = .ok (txs.map marshalBinary) := by
  rw [fullTxs, hcnt]
  exact fullTxsLoop_eq [] h hsgn hchain hsize

end FullTxs

end SpanBatchTxs

end FightNight.Derive
