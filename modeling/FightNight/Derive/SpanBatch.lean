import Mathlib.Algebra.Order.BigOperators.Group.List
import Mathlib.Data.List.Induction
import FightNight.Derive.SpanBatchTxs

/-!
# Span batches

A span batch holds the batches of several consecutive L2 blocks
(`op-node/rollup/derive/span_batch.go`).  It is built by appending singular batches, and encoded
as a raw span batch: in place of the time and the L1 origin of each block it has the time of the
first block, the number of the last L1 origin and one bit for each block that says whether its L1
origin changed.  Deriving rebuilds the blocks from that.
-/

namespace FightNight.Derive

open RLP
open FightNight.Reader (bind_eq_ok bind_of_ok failIf_andThen readFixed_eq_ok)
open List Reader SpanBatchTxs Transaction

structure SingularBatch where
  parentHash : Hash
  epochNum : UInt64
  epochHash : Hash
  timestamp : UInt64
  transactions : List Bytes
  deriving DecidableEq

structure SpanBatchElement where
  epochNum : UInt64
  timestamp : UInt64
  transactions : List Bytes
  deriving DecidableEq

structure SpanBatch where
  parentCheck : FixedBytes 20
  l1OriginCheck : FixedBytes 20
  genesisTimestamp : UInt64
  chainID : ℕ
  batches : List SpanBatchElement
  originBits : ℕ
  blockTxCounts : List ℕ
  sbtxs : SpanBatchTxs
  deriving DecidableEq

structure RawSpanBatch where
  relTimestamp : UInt64
  l1OriginNum : UInt64
  parentCheck : FixedBytes 20
  l1OriginCheck : FixedBytes 20
  blockCount : ℕ
  originBits : ℕ
  blockTxCounts : List ℕ
  txs : SpanBatchTxs
  deriving DecidableEq

/-- Why a batch is not appended. -/
inductive AppendError where
  /-- The panic `span batch is not ordered`. -/
  | notOrdered
  | addTxs (cause : AddTxsError)
  deriving DecidableEq

/-- The first 20 bytes of a hash. -/
def check (hash : Hash) : FixedBytes 20 :=
  ⟨hash.1.take 20, length_take_of_le (by rw [hash.2]; decide)⟩

def noCheck : FixedBytes 20 := ⟨List.replicate 20 0, List.length_replicate⟩

def singularBatchToElement (batch : SingularBatch) : SpanBatchElement :=
  ⟨batch.epochNum, batch.timestamp, batch.transactions⟩

def newSpanBatch (genesisTimestamp : UInt64) (chainID : ℕ) : SpanBatch :=
  ⟨noCheck, noCheck, genesisTimestamp, chainID, [], 0, [], .empty⟩

namespace SpanBatch

/-- The bit of a new block: for the first one, whether its sequence number is zero; for the others,
whether the L1 origin changed. -/
def epochBit (batch : SingularBatch) (seqNum : UInt64) (sb : SpanBatch) : Bool :=
  match sb.batches.getLast? with
  | none => decide (seqNum = 0)
  | some last => decide (last.epochNum < batch.epochNum)

/-- `AppendSingularBatch`; the batch is appended even when its transactions are refused. -/
def appendSingularBatch (batch : SingularBatch) (seqNum : UInt64) (sb : SpanBatch) :
    SpanBatch × Option AppendError :=
  if ∃ last ∈ sb.batches.getLast?, batch.timestamp < last.timestamp then (sb, some .notOrdered)
  else
    let sbtxs := sb.sbtxs.addTxs batch.transactions sb.chainID
    ({ sb with
      batches := sb.batches ++ [singularBatchToElement batch]
      l1OriginCheck := check batch.epochHash
      parentCheck := if sb.batches = [] then check batch.parentHash else sb.parentCheck
      originBits := setBit sb.originBits sb.batches.length (sb.epochBit batch seqNum)
      blockTxCounts := sb.blockTxCounts ++ [batch.transactions.length]
      sbtxs := sbtxs.1 }, sbtxs.2.map .addTxs)

def appendAll : List (SingularBatch × UInt64) → SpanBatch → Except AppendError SpanBatch
  | [], sb => .ok sb
  | (batch, seqNum) :: batches, sb =>
    match sb.appendSingularBatch batch seqNum with
    | (sb, none) => appendAll batches sb
    | (_, some e) => .error e

def toRawSpanBatch (sb : SpanBatch) : Option RawSpanBatch :=
  match sb.batches.head?, sb.batches.getLast? with
  | some spanStart, some spanEnd =>
    some ⟨spanStart.timestamp - sb.genesisTimestamp, spanEnd.epochNum, sb.parentCheck,
      sb.l1OriginCheck, sb.batches.length, sb.originBits, sb.blockTxCounts, sb.sbtxs⟩
  | _, _ => none

end SpanBatch

namespace RawSpanBatch

def encode (raw : RawSpanBatch) : Except SpanBatchError Bytes := do
  let originBits ← encodeSpanBatchBits "origin bits" raw.blockCount raw.originBits
  let txs ← raw.txs.encode
  .ok (uvarint raw.relTimestamp.toNat ++ (uvarint raw.l1OriginNum.toNat ++
    (raw.parentCheck.1 ++ (raw.l1OriginCheck.1 ++ (uvarint raw.blockCount ++ (originBits ++
    ((raw.blockTxCounts.map uvarint).flatten ++ txs)))))))

def readUvarint (field : String) : Reader SpanBatchError ℕ :=
  Reader.readUvarint (.reading field) (.overflow field)

def readBlockTxCount : Reader SpanBatchError ℕ := do
  let blockTxCount ← readUvarint "block tx count"
  failIf (maxSpanBatchElementCount < blockTxCount) .tooBigSpanBatchSize
  pure blockTxCount

def decode : Reader SpanBatchError RawSpanBatch := do
  let relTimestamp ← readUvarint "rel timestamp"
  let l1OriginNum ← readUvarint "l1 origin num"
  let parentCheck ← readFixed (.reading "parent check") 20
  let l1OriginCheck ← readFixed (.reading "l1 origin check") 20
  let blockCount ← readUvarint "block count"
  failIf (maxSpanBatchElementCount < blockCount) .tooBigSpanBatchSize
  failIf (blockCount = 0) .emptySpanBatch
  let originBits ← decodeSpanBatchBits "origin bits" blockCount
  let blockTxCounts ← readMany readBlockTxCount blockCount
  failIf (maxSpanBatchElementCount < blockTxCounts.sum) .tooBigSpanBatchSize
  let txs ← SpanBatchTxs.decode blockTxCounts.sum
  pure ⟨UInt64.ofNat relTimestamp, UInt64.ofNat l1OriginNum, parentCheck, l1OriginCheck, blockCount,
    originBits, blockTxCounts, txs⟩

/-- The first loop of `derive`: the L1 origins of the first `n` blocks, from that of the last of them. -/
def blockOriginNums (originBits : ℕ) : ℕ → UInt64 → List UInt64
  | 0, _ => []
  | i + 1, l1OriginBlockNumber =>
    blockOriginNums originBits i
      (if originBits.testBit i = true ∧ 0 < i then l1OriginBlockNumber - 1 else l1OriginBlockNumber) ++
      [l1OriginBlockNumber]

/-- The second loop of `derive`, from block `i` on. -/
def deriveBlocks (first blockTime : UInt64) :
    ℕ → List UInt64 → List ℕ → List Bytes → Except SpanBatchError (List SpanBatchElement)
  | _, [], _, _ => .ok []
  | _, _ :: _, [], _ => .error .panic
  | i, originNum :: originNums, count :: counts, txs =>
    if txs.length < count then .error .panic
    else do
      let batches ← deriveBlocks first blockTime (i + 1) originNums counts (txs.drop count)
      .ok (⟨originNum, first + blockTime * UInt64.ofNat i, txs.take count⟩ :: batches)

def derive (blockTime genesisTimestamp : UInt64) (chainID : ℕ) (raw : RawSpanBatch) :
    Except SpanBatchError SpanBatch :=
  if raw.blockCount = 0 then .error .emptySpanBatch
  else do
    let txs ← raw.txs.recoverV chainID
    let fullTxs ← txs.fullTxs chainID
    let batches ← deriveBlocks (genesisTimestamp + raw.relTimestamp) blockTime 0
      (blockOriginNums raw.originBits raw.blockCount raw.l1OriginNum) raw.blockTxCounts fullTxs
    .ok ⟨raw.parentCheck, raw.l1OriginCheck, 0, 0, batches, 0, [], .empty⟩

end RawSpanBatch

/-! ## What was appended -/

namespace SpanBatch

/-- A span batch to which some batches with some transactions were appended. -/
structure Holds (genesisTimestamp : UInt64) (chainID : ℕ) (appended : List SingularBatch)
    (txs : List Transaction) (sb : SpanBatch) : Prop where
  genesis_eq : sb.genesisTimestamp = genesisTimestamp
  chainID_eq : sb.chainID = chainID
  batches_eq : sb.batches = appended.map singularBatchToElement
  parentCheck_eq : ∀ first ∈ appended.head?, sb.parentCheck = check first.parentHash
  l1OriginCheck_eq : ∀ last ∈ appended.getLast?, sb.l1OriginCheck = check last.epochHash
  originBits_lt : sb.originBits < 2 ^ appended.length
  originBits_eq : ∀ before batch batch' after, appended = before ++ batch :: batch' :: after →
    sb.originBits.testBit (before.length + 1) = decide (batch.epochNum < batch'.epochNum)
  counts_eq : sb.blockTxCounts = appended.map fun batch => batch.transactions.length
  txs_eq : (appended.flatMap SingularBatch.transactions).map unmarshalBinary = txs.map .ok
  columns : Columns txs sb.sbtxs
  total_eq : sb.sbtxs.totalBlockTxCount = txs.length

lemma holds_new (genesisTimestamp : UInt64) (chainID : ℕ) :
    Holds genesisTimestamp chainID [] [] (newSpanBatch genesisTimestamp chainID) where
  genesis_eq := rfl
  chainID_eq := rfl
  batches_eq := rfl
  parentCheck_eq _ h := nomatch h
  l1OriginCheck_eq _ h := nomatch h
  originBits_lt := one_pos
  originBits_eq before batch batch' after h := by cases before <;> cases h
  counts_eq := rfl
  txs_eq := rfl
  columns := columns_empty
  total_eq := rfl

variable {batch : SingularBatch} {sb' : SpanBatch} {seqNum : UInt64}

lemma length_appendSingularBatch {sb : SpanBatch} {e : Option AppendError}
    (h : sb.appendSingularBatch batch seqNum = (sb', e)) :
    e = some .notOrdered ∧ sb' = sb ∨
      e ≠ some .notOrdered ∧ sb'.batches.length = sb.batches.length + 1 := by
  rw [appendSingularBatch] at h
  split at h
  case isTrue =>
    cases h
    exact .inl ⟨rfl, rfl⟩
  case isFalse =>
    cases h
    refine .inr ⟨?_, length_append⟩
    cases (sb.sbtxs.addTxs batch.transactions sb.chainID).2 <;> exact (nomatch ·)

lemma exists_toRawSpanBatch {sb : SpanBatch}
    (h : sb.appendSingularBatch batch seqNum = (sb', none)) :
    ∃ raw, sb'.toRawSpanBatch = some raw := by
  rw [appendSingularBatch] at h
  split at h
  case isTrue => cases (Prod.mk.inj h).2
  case isFalse =>
    obtain ⟨rfl, -⟩ := Prod.mk.inj h
    have hne : sb.batches ++ [singularBatchToElement batch] ≠ [] :=
      append_ne_nil_of_right_ne_nil _ (cons_ne_nil _ _)
    obtain ⟨first, hfirst⟩ := Option.ne_none_iff_exists'.mp (mt head?_eq_none_iff.mp hne)
    rw [toRawSpanBatch, hfirst, getLast?_concat]
    exact ⟨_, rfl⟩

lemma blockCount_of_toRawSpanBatch {sb : SpanBatch} {raw : RawSpanBatch}
    (h : sb.toRawSpanBatch = some raw) : raw.blockCount = sb.batches.length := by
  rw [toRawSpanBatch] at h
  split at h
  · cases h
    rfl
  · cases h

/-- Whether a batch is in order behind others. -/
def InOrder (appended : List SingularBatch) (batch : SingularBatch) : Prop :=
  ∀ last ∈ appended.getLast?, last.timestamp ≤ batch.timestamp

variable {genesisTimestamp : UInt64} {chainID : ℕ} {appended : List SingularBatch}
  {txs : List Transaction} {sb : SpanBatch}

section

variable (h : Holds genesisTimestamp chainID appended txs sb)
include h

lemma Holds.not_ordered_iff (batch : SingularBatch) :
    (∃ last ∈ sb.batches.getLast?, batch.timestamp < last.timestamp) ↔
      ¬ InOrder appended batch := by
  rw [h.batches_eq, getLast?_map]
  constructor
  · rintro ⟨last, hlast, hlt⟩ hall
    obtain ⟨b, hb, rfl⟩ := Option.map_eq_some_iff.mp hlast
    exact absurd hlt (UInt64.not_lt.mpr (hall b hb))
  · intro hnot
    obtain ⟨last, hlast⟩ := not_forall.mp hnot
    obtain ⟨hmem, hlt⟩ := Classical.not_imp.mp hlast
    exact ⟨_, Option.map_eq_some_iff.mpr ⟨last, hmem, rfl⟩, UInt64.not_le.mp hlt⟩

lemma Holds.originBits_concat
    (batch : SingularBatch) (seqNum : UInt64) {before after : List SingularBatch}
    {batch₁ batch₂ : SingularBatch} (heq : appended ++ [batch] = before ++ batch₁ :: batch₂ :: after) :
    (setBit sb.originBits sb.batches.length (sb.epochBit batch seqNum)).testBit (before.length + 1) =
      decide (batch₁.epochNum < batch₂.epochNum) := by
  have hlen : sb.batches.length = appended.length := by rw [h.batches_eq, length_map]
  rw [testBit_setBit, hlen]
  rcases eq_nil_or_concat after with rfl | ⟨after, c, rfl⟩
  · -- the pair ends with the new batch
    have heq' : appended ++ [batch] = (before ++ [batch₁]) ++ [batch₂] := by
      rw [heq, append_assoc]
      rfl
    obtain ⟨rfl, hbatch⟩ := append_inj' heq' rfl
    obtain rfl := singleton_inj.mp hbatch
    have hlast : sb.batches.getLast? = some (singularBatchToElement batch₁) := by
      rw [h.batches_eq, map_append, map_singleton, getLast?_concat]
    rw [if_pos (by rw [length_append]; rfl), epochBit, hlast]
    rfl
  · have heq' : appended ++ [batch] = (before ++ batch₁ :: batch₂ :: after) ++ [c] := by
      rw [heq]
      simp
    obtain ⟨rfl, -⟩ := append_inj' heq' rfl
    rw [if_neg (by simp only [length_append, length_cons]; omega)]
    exact h.originBits_eq before batch₁ batch₂ after rfl

lemma Holds.append {batch : SingularBatch} {seqNum : UInt64} {sb' : SpanBatch}
    (happ : sb.appendSingularBatch batch seqNum = (sb', none)) :
    InOrder appended batch ∧ ∃ new : List Transaction, (∀ tx ∈ new, Accepts chainID tx) ∧
      Holds genesisTimestamp chainID (appended ++ [batch]) (txs ++ new) sb' := by
  rw [appendSingularBatch] at happ
  by_cases hord : ∃ last ∈ sb.batches.getLast?, batch.timestamp < last.timestamp
  · rw [if_pos hord] at happ
    cases (Prod.mk.inj happ).2
  · rw [if_neg hord] at happ
    obtain ⟨rfl, herror⟩ := Prod.mk.inj happ
    have hadd : sb.sbtxs.addTxs batch.transactions sb.chainID =
        ((sb.sbtxs.addTxs batch.transactions sb.chainID).1, none) :=
      Prod.ext rfl (Option.map_eq_none_iff.mp herror)
    obtain ⟨new, hnew, hacc, hcols, htotal⟩ := addTxs_eq_none h.columns h.total_eq hadd
    refine ⟨not_not.mp fun hnot => hord ((h.not_ordered_iff batch).mpr hnot), new, ?_, ?_⟩
    · rwa [← h.chainID_eq]
    · have hempty : sb.batches = [] ↔ appended = [] := by rw [h.batches_eq, map_eq_nil_iff]
      refine ⟨h.genesis_eq, h.chainID_eq, ?_, fun first hfirst => ?_, fun last hlast => ?_, ?_,
        fun before batch₁ batch₂ after heq => ?_, ?_, ?_, hcols, htotal⟩
      · rw [map_append, ← h.batches_eq]
        rfl
      · cases appended with
        | nil =>
          rw [if_pos (hempty.mpr rfl)]
          cases hfirst
          rfl
        | cons b bs =>
          rw [if_neg fun hc => absurd (hempty.mp hc) (cons_ne_nil _ _)]
          exact h.parentCheck_eq first hfirst
      · rw [getLast?_concat] at hlast
        cases hlast
        rfl
      · have hlen : sb.batches.length = appended.length := by rw [h.batches_eq, length_map]
        rw [length_append, hlen]
        exact setBit_lt h.originBits_lt _
      · exact h.originBits_concat batch seqNum heq
      · rw [map_append, ← h.counts_eq]
        rfl
      · rw [flatMap_append, map_append, map_append, h.txs_eq, flatMap_singleton, hnew]

lemma Holds.append_of_accepts (hord : InOrder appended batch) {new : List Transaction}
    (hdec : batch.transactions.map unmarshalBinary = new.map .ok)
    (hacc : ∀ tx ∈ new, Accepts chainID tx) (seqNum : UInt64) :
    ∃ sb', sb.appendSingularBatch batch seqNum = (sb', none) := by
  rw [← h.chainID_eq] at hacc
  obtain ⟨b, hloop⟩ : ∃ b, addTxsLoop sb.chainID sb.sbtxs.totalBlockTxCount
      batch.transactions sb.sbtxs = (b, none) := addTxsLoop_of_accepts hdec hacc sb.sbtxs
  have hadd : (sb.sbtxs.addTxs batch.transactions sb.chainID).2 = none := by
    rw [addTxs, hloop]
  rw [appendSingularBatch, if_neg fun hc => (h.not_ordered_iff batch).mp hc hord]
  exact ⟨_, Prod.ext rfl (Option.map_eq_none_iff.mpr hadd)⟩

lemma Holds.sum_counts :
    sb.blockTxCounts.sum = txs.length := by
  have hlen := congrArg length h.txs_eq
  rw [length_map, length_map, length_flatMap] at hlen
  rw [h.counts_eq, hlen]

lemma Holds.toRawSpanBatch_eq {first last : SingularBatch} (hfirst : appended.head? = some first)
    (hlast : appended.getLast? = some last) :
    sb.toRawSpanBatch = some ⟨first.timestamp - genesisTimestamp, last.epochNum,
      check first.parentHash, check last.epochHash, appended.length, sb.originBits,
      sb.blockTxCounts, sb.sbtxs⟩ := by
  rw [toRawSpanBatch, h.batches_eq, head?_map, getLast?_map, hfirst, hlast, h.genesis_eq,
    h.parentCheck_eq first hfirst, h.l1OriginCheck_eq last hlast, length_map]
  rfl

end

end SpanBatch

namespace RawSpanBatch

/-- What is not encoded. -/
def withoutV (raw : RawSpanBatch) : RawSpanBatch := { raw with txs := raw.txs.withoutV }

lemma readUvarint_uvarint (field : String) {x : ℕ} (hx : x < 2 ^ 64) (rest : Bytes) :
    readUvarint field (uvarint x ++ rest) = .ok (x, rest) :=
  Reader.readUvarint_uvarint _ _ hx rest

lemma decode_encode (raw : RawSpanBatch) {txs : List Transaction} (hpos : 0 < raw.blockCount)
    (hmax : raw.blockCount ≤ maxSpanBatchElementCount) (hbits : raw.originBits < 2 ^ raw.blockCount)
    (hcounts : raw.blockTxCounts.length = raw.blockCount)
    (hsum : raw.blockTxCounts.sum = txs.length) (htotal : raw.txs.totalBlockTxCount = txs.length)
    (hcols : SpanBatchTxs.Columns txs raw.txs) (htxs : txs.length ≤ maxSpanBatchElementCount)
    (hsize : SizedWithin maxSpanBatchElementCount txs) :
    ∃ bytes, raw.encode = .ok bytes ∧ ∀ rest, decode (bytes ++ rest) = .ok (raw.withoutV, rest) := by
  obtain ⟨txBytes, henc, hdec⟩ := hcols.decode_encode htotal htxs hsize
  rw [encode, encodeSpanBatchBits_of_lt _ hbits, henc]
  refine ⟨_, rfl, fun rest => ?_⟩
  simp only [append_assoc]
  refine andThen (readUvarint_uvarint _ raw.relTimestamp.toNat_lt _) ?_
  refine andThen (readUvarint_uvarint _ raw.l1OriginNum.toNat_lt _) ?_
  refine andThen (readFixed_eq_ok.mpr rfl) ?_
  refine andThen (readFixed_eq_ok.mpr rfl) ?_
  refine andThen (readUvarint_uvarint _ (lt_of_le_of_lt hmax (by decide)) _) ?_
  refine failIf_andThen (not_lt_of_ge hmax) ?_
  refine failIf_andThen hpos.ne' ?_
  refine andThen (decodeSpanBatchBits_beBytes _ hbits _) ?_
  have hread : ∀ count ∈ raw.blockTxCounts, ∀ rest,
      readBlockTxCount (uvarint count ++ rest) = .ok (count, rest) := by
    intro count hcnt rest
    have hle := (single_le_sum (fun _ _ => Nat.zero_le _) _ hcnt).trans (hsum.le.trans htxs)
    refine andThen (readUvarint_uvarint _ (lt_of_le_of_lt hle (by decide)) rest) ?_
    exact bind_eq_ok.mpr ⟨(), rest, failIf_eq_ok.mpr ⟨not_lt_of_ge hle, rfl⟩, rfl⟩
  refine andThen (hcounts ▸ readMany_write hread _) ?_
  rw [hsum]
  refine failIf_andThen (not_lt_of_ge htxs) ?_
  refine andThen (hdec rest) ?_
  rw [UInt64.ofNat_toNat, UInt64.ofNat_toNat]
  rfl

end RawSpanBatch

/-! ## Consecutive blocks -/

/-- Batches of consecutive blocks behind a block with the given time and L1 origin. -/
def Follows (blockTime : ℕ) : ℕ → ℕ → List SingularBatch → Prop
  | _, _, [] => True
  | time, epoch, batch :: batches =>
    batch.timestamp.toNat = time + blockTime ∧
      (batch.epochNum.toNat = epoch ∨ batch.epochNum.toNat = epoch + 1) ∧
      Follows blockTime batch.timestamp.toNat batch.epochNum.toNat batches

instance Follows.decidable (blockTime : ℕ) :
    ∀ (time epoch : ℕ) (batches : List SingularBatch), Decidable (Follows blockTime time epoch batches)
  | _, _, [] => isTrue trivial
  | _, _, batch :: batches =>
    have : Decidable (Follows blockTime batch.timestamp.toNat batch.epochNum.toNat batches) :=
      Follows.decidable blockTime _ _ batches
    inferInstanceAs (Decidable (_ ∧ _ ∧ _))

variable {blockTime genesisTimestamp : UInt64} {batches : List (SingularBatch × UInt64)}
  {sb : SpanBatch} {txs : List Transaction} {raw : RawSpanBatch} {chainID epoch time : ℕ}
  {after appended before : List SingularBatch} {batch : SingularBatch}

lemma Follows.pair {blockTime : ℕ} {batch' : SingularBatch}
    (h : Follows blockTime time epoch (before ++ batch :: batch' :: after)) :
    batch'.timestamp.toNat = batch.timestamp.toNat + blockTime ∧
      (batch'.epochNum.toNat = batch.epochNum.toNat ∨
        batch'.epochNum.toNat = batch.epochNum.toNat + 1) := by
  induction before generalizing time epoch with
  | nil => exact ⟨h.2.2.1, h.2.2.2.1⟩
  | cons b before ih => exact ih h.2.2

lemma Follows.left {blockTime : ℕ} (h : Follows blockTime time epoch (before ++ after)) :
    Follows blockTime time epoch before := by
  induction before generalizing time epoch with
  | nil => trivial
  | cons b before ih => exact ⟨h.1, h.2.1, ih h.2.2⟩

lemma Follows.inOrder {blockTime : ℕ}
    (h : Follows blockTime time epoch (before ++ batch :: after)) :
    SpanBatch.InOrder before batch := by
  intro last hlast
  rcases eq_nil_or_concat before with rfl | ⟨init, last', rfl⟩
  · cases hlast
  · rw [concat_eq_append, getLast?_concat] at hlast
    cases hlast
    rw [concat_eq_append, append_assoc] at h
    have htime := h.pair.1
    rw [UInt64.le_iff_toNat_le]
    omega

namespace RawSpanBatch

lemma blockOriginNums_eq {blockTime time epoch originBits : ℕ} {batches : List SingularBatch}
    (hfol : Follows blockTime time epoch batches)
    (hbits : ∀ before batch batch' after, batches = before ++ batch :: batch' :: after →
      originBits.testBit (before.length + 1) = decide (batch.epochNum < batch'.epochNum))
    {last : SingularBatch} (hlast : batches.getLast? = some last) :
    blockOriginNums originBits batches.length last.epochNum =
      batches.map SingularBatch.epochNum := by
  induction batches using reverseRecOn generalizing last with
  | nil => cases hlast
  | append_singleton init batch ih =>
    rw [getLast?_concat] at hlast
    cases hlast
    rw [length_append, length_singleton, blockOriginNums, map_append]
    rcases eq_nil_or_concat init with rfl | ⟨init', last', rfl⟩
    · rfl
    · rw [concat_eq_append] at hfol hbits ih ⊢
      have hpair : init' ++ [last'] ++ [batch] = init' ++ last' :: batch :: [] := by
        rw [append_assoc]
        rfl
      have hbit := hbits init' last' batch [] hpair
      have hinit := hfol.left
      rw [hpair] at hfol
      -- the bit says whether the number before is smaller by one
      have hprev : (if originBits.testBit (init' ++ [last']).length = true ∧
          0 < (init' ++ [last']).length then batch.epochNum - 1 else batch.epochNum) =
          last'.epochNum := by
        rw [length_append, length_singleton, hbit]
        rcases hfol.pair.2 with hstay | hadv
        · have heq := UInt64.toNat_inj.mp hstay
          rw [heq, if_neg fun hc => absurd (of_decide_eq_true hc.1) (UInt64.lt_irrefl _)]
        · have hlt : last'.epochNum < batch.epochNum := UInt64.lt_iff_toNat_lt.mpr (by omega)
          rw [if_pos ⟨decide_eq_true hlt, Nat.succ_pos _⟩]
          refine UInt64.toNat_inj.mp ?_
          rw [UInt64.toNat_sub_of_le _ _ (UInt64.le_iff_toNat_le.mpr (by
            rw [UInt64.toNat_one]
            omega)), hadv, UInt64.toNat_one, Nat.add_sub_cancel]
      rw [hprev, ih hinit (fun before b b' after heq => hbits before b b' (after ++ [batch]) (by
        rw [heq, append_assoc]
        rfl)) getLast?_concat]
      rfl

lemma deriveBlocks_eq {blockTime first : UInt64} {time epoch : ℕ} {batches : List SingularBatch}
    (hfol : Follows blockTime.toNat time epoch batches) (i : ℕ)
    (hfirst : ∀ batch ∈ batches.head?, batch.timestamp = first + blockTime * UInt64.ofNat i) :
    deriveBlocks first blockTime i (batches.map SingularBatch.epochNum)
      (batches.map fun batch => batch.transactions.length)
      (batches.flatMap SingularBatch.transactions) = .ok (batches.map singularBatchToElement) := by
  induction batches generalizing time epoch i with
  | nil => rfl
  | cons batch batches ih =>
    have htime := hfirst batch rfl
    have hnext : ∀ batch' ∈ batches.head?,
        batch'.timestamp = first + blockTime * UInt64.ofNat (i + 1) := by
      intro batch' hbatch'
      obtain ⟨after, rfl⟩ := head?_eq_some_iff.mp hbatch'
      have hstep := hfol.2.2.1
      have hadd : batch'.timestamp = batch.timestamp + blockTime := by
        refine UInt64.toNat_inj.mp ?_
        rw [UInt64.toNat_add, ← hstep, Nat.mod_eq_of_lt batch'.timestamp.toNat_lt]
      rw [hadd, htime, UInt64.ofNat_add]
      grind
    rw [map_cons, map_cons, flatMap_cons, deriveBlocks, if_neg (by rw [length_append]; omega),
      drop_left, take_left, ih hfol.2.2 (i + 1) hnext, ← htime]
    rfl

variable {raw : RawSpanBatch} {bytes : Bytes}

lemma blockCount_le_of_encode (henc : raw.encode = .ok bytes) :
    raw.blockCount ≤ 8 * bytes.length := by
  rw [encode, Except.bind_eq_ok] at henc
  obtain ⟨originBits, hbits, henc⟩ := henc
  obtain ⟨txs, -, henc⟩ := Except.bind_eq_ok.mp henc
  cases henc
  have hlen : originBits.length = bitBytes raw.blockCount := by
    rw [encodeSpanBatchBits] at hbits
    split at hbits
    · cases hbits
    · cases hbits
      exact length_beBytes _ _
  have hbytes : raw.blockCount ≤ 8 * bitBytes raw.blockCount := by
    unfold bitBytes
    split <;> omega
  simp only [length_append]
  omega

lemma decode_of_encode (henc : raw.encode = .ok bytes) (hlt : raw.blockCount < 2 ^ 64) :
    (maxSpanBatchElementCount < raw.blockCount → decode bytes = .error .tooBigSpanBatchSize) ∧
      ∀ {raw' rest}, decode bytes = .ok (raw', rest) → raw'.blockCount = raw.blockCount := by
  rw [encode, Except.bind_eq_ok] at henc
  obtain ⟨originBits, -, henc⟩ := henc
  obtain ⟨txs, -, henc⟩ := Except.bind_eq_ok.mp henc
  cases henc
  rw [decode, bind_of_ok (readUvarint_uvarint _ raw.relTimestamp.toNat_lt _),
    bind_of_ok (readUvarint_uvarint _ raw.l1OriginNum.toNat_lt _),
    bind_of_ok (readFixed_eq_ok.mpr rfl), bind_of_ok (readFixed_eq_ok.mpr rfl),
    bind_of_ok (readUvarint_uvarint _ hlt _)]
  refine ⟨fun hmany => failIf_bind hmany _ _ _, fun hdec => ?_⟩
  iterate 6 obtain ⟨_, _, -, hdec⟩ := bind_eq_ok.mp hdec
  obtain ⟨rfl, -⟩ := pure_eq_ok.mp hdec
  rfl

end RawSpanBatch

/-! ## The round trip -/

/-- Batches appended to a span batch, which is encoded, decoded and derived. -/
def spanRoundTrip (blockTime genesisTimestamp : UInt64) (chainID : ℕ)
    (batches : List (SingularBatch × UInt64)) : Option SpanBatch := do
  let sb ← (SpanBatch.appendAll batches (newSpanBatch genesisTimestamp chainID)).toOption
  let raw ← sb.toRawSpanBatch
  let bytes ← raw.encode.toOption
  let (raw, _) ← (RawSpanBatch.decode bytes).toOption
  (raw.derive blockTime genesisTimestamp chainID).toOption

/-- An encoded transaction that is signed for a chain and fits in a span batch. -/
def IsSpanTx (chainID : ℕ) (bs : Bytes) : Prop :=
  ∃ tx, SignedFor chainID tx ∧ bs = tx.marshalBinary ∧
    (encodeList tx.toSpanBatchTx.content).length ≤ maxSpanBatchElementCount

lemma exists_transactions (hchain : 2 * chainID + 36 < 2 ^ 64) {bss : List Bytes}
    (h : ∀ bs ∈ bss, IsSpanTx chainID bs) :
    ∃ txs : List Transaction, bss.map unmarshalBinary = txs.map .ok ∧
      (∀ tx ∈ txs, SignedFor chainID tx) ∧ bss = txs.map marshalBinary ∧
      SizedWithin maxSpanBatchElementCount txs := by
  induction bss with
  | nil => exact ⟨[], rfl, nofun, rfl, nofun⟩
  | cons bs bss ih =>
    obtain ⟨⟨tx, hsgn, rfl, hsize⟩, hrest⟩ := forall_mem_cons.mp h
    obtain ⟨txs, hdec, hall, rfl, hsizes⟩ := ih hrest
    refine ⟨tx :: txs, ?_, forall_mem_cons.mpr ⟨hsgn, hall⟩, rfl,
      forall_mem_cons.mpr ⟨hsize, hsizes⟩⟩
    rw [map_cons, hsgn.unmarshalBinary_marshalBinary hchain hsize, hdec, map_cons]

lemma SpanBatch.Holds.appendAll {blockTime : ℕ} (h : Holds genesisTimestamp chainID appended txs sb)
    (hfol : Follows blockTime time epoch (appended ++ batches.map Prod.fst))
    (hchain : 2 * chainID + 36 < 2 ^ 64)
    (htxs : ∀ p ∈ batches, ∀ bs ∈ p.1.transactions, IsSpanTx chainID bs) :
    ∃ sb' txs', SpanBatch.appendAll batches sb = .ok sb' ∧
      Holds genesisTimestamp chainID (appended ++ batches.map Prod.fst) txs' sb' := by
  induction batches generalizing appended txs sb with
  | nil => exact ⟨sb, txs, rfl, by rwa [map_nil, append_nil]⟩
  | cons p batches ih =>
    obtain ⟨hp, hrest⟩ := forall_mem_cons.mp htxs
    obtain ⟨new, hdec, hsgn, -, -⟩ := exists_transactions hchain hp
    have hacc : ∀ tx ∈ new, Accepts chainID tx := fun tx htx =>
      (hsgn tx htx).accepts hchain
    obtain ⟨sb₁, happ⟩ := h.append_of_accepts hfol.inOrder hdec hacc p.2
    obtain ⟨-, new', -, hholds⟩ := h.append happ
    rw [map_cons, append_cons] at hfol ⊢
    obtain ⟨sb', txs', hall, hfin⟩ := ih hholds hfol hrest
    refine ⟨sb', txs', ?_, hfin⟩
    rwa [appendAll, happ]

lemma SpanBatch.Holds.of_appendAll {sb' : SpanBatch}
    (h : Holds genesisTimestamp chainID appended txs sb)
    (happ : SpanBatch.appendAll batches sb = .ok sb') :
    ∃ txs', Holds genesisTimestamp chainID (appended ++ batches.map Prod.fst) txs' sb' := by
  induction batches generalizing appended txs sb with
  | nil =>
    cases happ
    exact ⟨txs, by rwa [map_nil, append_nil]⟩
  | cons p batches ih =>
    rw [SpanBatch.appendAll] at happ
    split at happ
    case h_1 sb₁ hfirst =>
      obtain ⟨-, new, -, hnext⟩ := h.append hfirst
      rw [map_cons, append_cons]
      exact ih hnext happ
    case h_2 => cases happ

lemma SpanBatch.length_batches_of_appendAll
    (happ : SpanBatch.appendAll batches (newSpanBatch genesisTimestamp chainID) = .ok sb) :
    sb.batches.length = batches.length := by
  obtain ⟨txs, hholds⟩ := (holds_new genesisTimestamp chainID).of_appendAll happ
  rw [hholds.batches_eq, nil_append, length_map, length_map]

lemma SpanBatch.appendAll_concat {p : SingularBatch × UInt64} {sb₁ sb₂ : SpanBatch}
    (hall : appendAll batches sb = .ok sb₁) (hlast : sb₁.appendSingularBatch p.1 p.2 = (sb₂, none)) :
    appendAll (batches ++ [p]) sb = .ok sb₂ := by
  induction batches generalizing sb with
  | nil =>
    cases hall
    rw [nil_append, appendAll, hlast]
    rfl
  | cons q batches ih =>
    rw [appendAll] at hall
    rw [cons_append, appendAll]
    split at hall
    case h_1 => exact ih hall
    case h_2 => cases hall

section

variable {batches : List SingularBatch} (h : SpanBatch.Holds genesisTimestamp chainID batches txs sb)
include h

lemma SpanBatch.Holds.signed (hchain : 2 * chainID + 36 < 2 ^ 64)
    (htxs : ∀ batch ∈ batches, ∀ bs ∈ batch.transactions, IsSpanTx chainID bs) :
    (∀ tx ∈ txs, SignedFor chainID tx) ∧
      batches.flatMap SingularBatch.transactions = txs.map marshalBinary ∧
      SizedWithin maxSpanBatchElementCount txs := by
  obtain ⟨txs', hdec, hsgn, hmar, hsize⟩ :=
    exists_transactions hchain (forall_mem_flatMap.mpr htxs)
  obtain rfl : txs = txs' := map_injective_iff.mpr (fun _ _ => Except.ok.inj)
    (h.txs_eq.symm.trans hdec)
  exact ⟨hsgn, hmar, hsize⟩

lemma SpanBatch.Holds.eq_of_toRawSpanBatch (hne : batches ≠ []) :
    ∃ first last, batches.head? = some first ∧ batches.getLast? = some last ∧
      sb.toRawSpanBatch = some ⟨first.timestamp - genesisTimestamp, last.epochNum,
        check first.parentHash, check last.epochHash, batches.length, sb.originBits,
        sb.blockTxCounts, sb.sbtxs⟩ := by
  obtain ⟨first, hfirst⟩ := Option.ne_none_iff_exists'.mp (mt head?_eq_none_iff.mp hne)
  obtain ⟨last, hlast⟩ := Option.ne_none_iff_exists'.mp (mt getLast?_eq_none_iff.mp hne)
  exact ⟨first, last, hfirst, hlast, h.toRawSpanBatch_eq hfirst hlast⟩

/-- A nonempty span batch is encoded, and the numbers of its blocks and transactions and the sizes of
its transactions are bounded by what is written. -/
theorem SpanBatch.Holds.exists_encode (hraw : sb.toRawSpanBatch = some raw) (hne : batches ≠ []) :
    ∃ bytes, raw.encode = .ok bytes ∧ batches.length ≤ bytes.length ∧ txs.length ≤ bytes.length ∧
      SizedWithin bytes.length txs := by
  obtain ⟨first, last, -, -, heq⟩ := h.eq_of_toRawSpanBatch hne
  obtain rfl := Option.some.inj (hraw.symm.trans heq)
  have henc := h.columns.encode_eq h.total_eq
  obtain ⟨htxs, hsizes⟩ := h.columns.le_length_encode h.total_eq henc
  have hcounts := length_le_uvarints sb.blockTxCounts
  rw [h.counts_eq, length_map, ← h.counts_eq] at hcounts
  rw [RawSpanBatch.encode, encodeSpanBatchBits_of_lt _ h.originBits_lt, Except.ok_bind, henc]
  refine ⟨_, rfl, ?_, ?_, fun tx htx => ?_⟩
  · simp only [length_append]
    omega
  · grind
  · have hsize := hsizes tx htx
    simp only [length_append] at hsize ⊢
    omega

/-- The encoding of a nonempty span batch within the limits of the format is decoded, up to the
values `v`, which are not part of it. -/
theorem SpanBatch.Holds.decode_encode (hraw : sb.toRawSpanBatch = some raw)
    (hne : batches ≠ []) (hblks : batches.length ≤ maxSpanBatchElementCount)
    (hcnt : txs.length ≤ maxSpanBatchElementCount)
    (hsize : SizedWithin maxSpanBatchElementCount txs) :
    ∃ bytes, raw.encode = .ok bytes ∧
      ∀ rest, RawSpanBatch.decode (bytes ++ rest) = .ok (raw.withoutV, rest) := by
  obtain ⟨first, last, -, -, heq⟩ := h.eq_of_toRawSpanBatch hne
  obtain rfl := Option.some.inj (hraw.symm.trans heq)
  exact RawSpanBatch.decode_encode _ (length_pos_iff.mpr hne) hblks h.originBits_lt
    (by rw [h.counts_eq, length_map]) h.sum_counts h.total_eq h.columns hcnt hsize

/-- The blocks of a span batch are derived from what is decoded of it. -/
theorem SpanBatch.Holds.derive_eq (hraw : sb.toRawSpanBatch = some raw)
    (hne : batches ≠ []) (hfol : Follows blockTime.toNat time epoch batches)
    (hchain : 2 * chainID + 36 < 2 ^ 64)
    (htxs : ∀ batch ∈ batches, ∀ bs ∈ batch.transactions, IsSpanTx chainID bs) :
    raw.withoutV.derive blockTime genesisTimestamp chainID =
      .ok ⟨raw.parentCheck, raw.l1OriginCheck, 0, 0, batches.map singularBatchToElement, 0, [],
        .empty⟩ := by
  obtain ⟨hsgn, hmar, hsize⟩ := h.signed hchain htxs
  obtain ⟨first, last, hfirst, hlast, heq⟩ := h.eq_of_toRawSpanBatch hne
  obtain rfl := Option.some.inj (hraw.symm.trans heq)
  have hgenesis : genesisTimestamp + (first.timestamp - genesisTimestamp) = first.timestamp := by
    grind
  have htime : ∀ batch ∈ batches.head?,
      batch.timestamp = first.timestamp + blockTime * UInt64.ofNat 0 := by
    intro batch hbatch
    grind
  rw [RawSpanBatch.derive, RawSpanBatch.withoutV, if_neg (length_pos_iff.mpr hne).ne',
    h.columns.recoverV_withoutV hsgn hchain, Except.ok_bind,
    h.columns.fullTxs_eq h.total_eq hsgn hchain hsize, Except.ok_bind, ← hmar, h.counts_eq,
    hgenesis, RawSpanBatch.blockOriginNums_eq hfol h.originBits_eq hlast,
    RawSpanBatch.deriveBlocks_eq hfol 0 htime]
  rfl

end

/-- Consecutive blocks whose transactions are signed for the chain are rebuilt from the encoding of
their span batch, within the limits on the number of blocks and transactions and on the size of a
transaction, and when the values `v` of signatures fit in 64 bits. -/
theorem span_batch_round_trip {blockTime genesisTimestamp : UInt64}
    {chainID parentTime parentEpoch : ℕ} {batches : List (SingularBatch × UInt64)}
    (hne : batches ≠ [])
    (hfollows : Follows blockTime.toNat parentTime parentEpoch (batches.map Prod.fst))
    (htxs : ∀ p ∈ batches, ∀ bs ∈ p.1.transactions, IsSpanTx chainID bs)
    (hchain : 2 * chainID + 36 < 2 ^ 64) (hblocks : batches.length ≤ maxSpanBatchElementCount)
    (hcount : (batches.map fun p => p.1.transactions.length).sum ≤ maxSpanBatchElementCount) :
    ∃ derived, spanRoundTrip blockTime genesisTimestamp chainID batches = some derived ∧
      derived.batches = batches.map (fun p => singularBatchToElement p.1) ∧
      (∀ first ∈ batches.head?, derived.parentCheck = check first.1.parentHash) ∧
      ∀ last ∈ batches.getLast?, derived.l1OriginCheck = check last.1.epochHash := by
  have hnew := SpanBatch.holds_new genesisTimestamp chainID
  obtain ⟨sb, txs, happ, hholds⟩ := hnew.appendAll hfollows hchain htxs
  rw [nil_append] at hholds
  obtain ⟨-, -, hsize⟩ := hholds.signed hchain (forall_mem_map.mpr htxs)
  have hsum : txs.length ≤ maxSpanBatchElementCount := by
    rwa [← hholds.sum_counts, hholds.counts_eq, map_map]
  have hne' : batches.map Prod.fst ≠ [] := map_eq_nil_iff.not.mpr hne
  obtain ⟨first, last, hfirst, hlast, hraw⟩ := hholds.eq_of_toRawSpanBatch hne'
  obtain ⟨bytes, henc, hdecoded⟩ := hholds.decode_encode hraw hne' (by rwa [length_map]) hsum hsize
  have hback := hdecoded []
  rw [append_nil] at hback
  have hderive := hholds.derive_eq hraw hne' hfollows hchain (forall_mem_map.mpr htxs)
  refine ⟨_, .trans ?_ (congrArg Except.toOption hderive), map_map, fun p hp => ?_, fun p hp => ?_⟩
  · simp only [spanRoundTrip, happ, hraw, henc, hback, Except.toOption, Option.bind_eq_bind,
      Option.bind_some]
  · rw [head?_map, Option.mem_def.mp hp] at hfirst
    cases hfirst
    rfl
  · rw [getLast?_map, Option.mem_def.mp hp] at hlast
    cases hlast
    rfl

/-! Two blocks, with an unprotected and a protected legacy transaction and one of each other type. -/

def bareTx (kind : TxKind) (v : ℕ) : Transaction := ⟨kind, 0, 0, none, 0, [], v, 1, 1⟩

/-- A batch of a block that only has a number, which is also its time, an L1 origin and transactions. -/
def bareBatch (epoch number : ℕ) (txs : List Transaction) : SingularBatch :=
  ⟨⟨replicate 32 0, length_replicate⟩, UInt64.ofNat epoch,
    ⟨replicate 32 0, length_replicate⟩, UInt64.ofNat number,
    txs.map marshalBinary⟩

lemma bareTx_isSpanTx {v : ℕ} {kind : TxKind} (hv : match kind with
      | .legacy _ => ∃ bit ≤ 1, v = 27 + bit ∨ v = 2 * chainID + 35 + bit
      | .accessList txChainID _ _ => txChainID = chainID ∧ v ≤ 1
      | .dynamicFee txChainID _ _ _ => txChainID = chainID ∧ v ≤ 1)
    (hsize : (encodeList (bareTx kind v).toSpanBatchTx.content).length ≤ maxSpanBatchElementCount) :
    IsSpanTx chainID (bareTx kind v).marshalBinary :=
  ⟨bareTx kind v, ⟨(by decide : 1 < 2 ^ 256), (by decide : 1 < 2 ^ 256), hv⟩, rfl, hsize⟩

theorem span_batch_round_trip_two_blocks :
    ∃ derived, spanRoundTrip 1 0 10
        [(bareBatch 5 1 [bareTx (.legacy 7) 28, bareTx (.legacy 7) 55], 0),
          (bareBatch 6 2 [bareTx (.accessList 10 7 []) 1, bareTx (.dynamicFee 10 1 7 []) 0], 0)] =
        some derived ∧
      derived.batches = [
        singularBatchToElement (bareBatch 5 1 [bareTx (.legacy 7) 28, bareTx (.legacy 7) 55]),
        singularBatchToElement (bareBatch 6 2
          [bareTx (.accessList 10 7 []) 1, bareTx (.dynamicFee 10 1 7 []) 0])] := by
  obtain ⟨derived, htrip, hbs, -⟩ := @span_batch_round_trip 1 0 10 0 5
    [(bareBatch 5 1 [bareTx (.legacy 7) 28, bareTx (.legacy 7) 55], 0),
      (bareBatch 6 2 [bareTx (.accessList 10 7 []) 1, bareTx (.dynamicFee 10 1 7 []) 0], 0)]
    (cons_ne_nil _ _) (by decide)
    (forall_mem_cons.mpr ⟨forall_mem_cons.mpr
        ⟨bareTx_isSpanTx ⟨1, by decide, .inl rfl⟩ (by decide), forall_mem_cons.mpr
          ⟨bareTx_isSpanTx ⟨0, by decide, .inr rfl⟩ (by decide), nofun⟩⟩,
      forall_mem_cons.mpr ⟨forall_mem_cons.mpr
        ⟨bareTx_isSpanTx ⟨rfl, by decide⟩ (by decide), forall_mem_cons.mpr
          ⟨bareTx_isSpanTx ⟨rfl, by decide⟩ (by decide), nofun⟩⟩, nofun⟩⟩)
    (by decide) (by decide) (by decide)
  exact ⟨derived, htrip, hbs⟩

lemma spanRoundTrip_of_too_many
    (hfol : Follows blockTime.toNat time epoch (batches.map Prod.fst))
    (htxs : ∀ p ∈ batches, ∀ bs ∈ p.1.transactions, IsSpanTx chainID bs)
    (hchain : 2 * chainID + 36 < 2 ^ 64) (hmany : maxSpanBatchElementCount < batches.length)
    (hlt : batches.length < 2 ^ 64) :
    spanRoundTrip blockTime genesisTimestamp chainID batches = none := by
  have hnew := SpanBatch.holds_new genesisTimestamp chainID
  obtain ⟨sb, txs, happ, hholds⟩ := hnew.appendAll hfol hchain htxs
  rw [nil_append] at hholds
  have hne : batches.map Prod.fst ≠ [] := by
    rintro hnil
    rw [map_eq_nil_iff.mp hnil] at hmany
    cases hmany
  obtain ⟨first, last, -, -, hraw⟩ := hholds.eq_of_toRawSpanBatch hne
  simp only [spanRoundTrip, happ, hraw, Except.toOption, Option.bind_eq_bind, Option.bind_some]
  split
  · rename_i bytes henc
    rw [← length_map Prod.fst] at hmany hlt
    rw [Option.bind_some, (RawSpanBatch.decode_of_encode henc hlt).1 hmany]
    rfl
  · rfl

lemma follows_empty {number count : ℕ} (hlt : number + count < 2 ^ 64) :
    Follows 1 number 0 ((range' (number + 1) count).map fun i => bareBatch 0 i []) := by
  induction count generalizing number with
  | zero => trivial
  | succ count ih =>
    have htime : (UInt64.ofNat (number + 1)).toNat = number + 1 :=
      UInt64.toNat_ofNat_of_lt' (by show _ < 2 ^ 64; omega)
    refine ⟨htime, .inl rfl, ?_⟩
    show Follows 1 (UInt64.ofNat (number + 1)).toNat 0 _
    rw [htime]
    exact ih (by omega)

lemma spanRoundTrip_empty {count : ℕ} (hmany : maxSpanBatchElementCount < count)
    (hlt : count < 2 ^ 64) :
    spanRoundTrip 1 0 10 ((range' 1 count).map fun i => (bareBatch 0 i [], 0)) = none := by
  have hlen : ((range' 1 count).map fun i => (bareBatch 0 i [], (0 : UInt64))).length = count := by
    rw [length_map, length_range']
  have hfol : Follows (1 : UInt64).toNat 0 0
      (((range' 1 count).map fun i => (bareBatch 0 i [], (0 : UInt64))).map Prod.fst) := by
    rw [map_map]
    exact follows_empty (by rwa [zero_add])
  refine spanRoundTrip_of_too_many hfol (fun p hp bs hbs => ?_) (by decide) (by rwa [hlen])
    (by rwa [hlen])
  obtain ⟨i, -, rfl⟩ := mem_map.mp hp
  exact (nomatch hbs)

/-- Too many blocks are not rebuilt; and on a chain whose identifier is too large, a protected legacy
transaction comes back with another value `v`. -/
theorem span_batch_round_trip_limits :
    (Follows 1 0 0 ((range' 1 10000001).map fun i => bareBatch 0 i []) ∧
      spanRoundTrip 1 0 10 ((range' 1 10000001).map fun i => (bareBatch 0 i [], 0)) = none) ∧
    IsSpanTx (2 ^ 63) (bareTx (.legacy 7) (2 ^ 64 + 35)).marshalBinary ∧
      (spanRoundTrip 1 0 (2 ^ 63) [(bareBatch 0 1 [bareTx (.legacy 7) (2 ^ 64 + 35)], 0)]).map
          SpanBatch.batches =
        some [singularBatchToElement (bareBatch 0 1 [bareTx (.legacy 7) 35])] ∧
      bareBatch 0 1 [bareTx (.legacy 7) 35] ≠ bareBatch 0 1 [bareTx (.legacy 7) (2 ^ 64 + 35)] :=
  ⟨⟨@follows_empty 0 10000001 (by decide), spanRoundTrip_empty (by decide) (by decide)⟩,
    bareTx_isSpanTx ⟨0, by decide, .inr rfl⟩ (by decide), by decide +kernel,
    by decide⟩

end FightNight.Derive
