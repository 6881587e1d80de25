import FightNight.Derive.ChannelOut

/-!
# Channels of a span batch

`SpanChannelOut` (`op-node/rollup/derive/span_channel_out.go`) collects batches in a single span
batch.  Adding a batch encodes the whole span batch anew, in one of two buffers; the other one
keeps the encoding without the new batch, to which the channel goes back if the new one would make
it too large.  Nothing is output before the channel is full or closed.

The span batch itself is never taken back: a batch that is refused because its transactions cannot
be appended, or because the encoding becomes too long, stays in it.  What is output is the span
batch of the accepted batches exactly if the channel is `Undisturbed`.
-/

namespace FightNight.Derive

open Option RLP List SpanBatch

/-- `ChannelCompressor`: the content of a new buffer, and what `Reset`, `Write` of some data and `Close`
leave in it. -/
structure ChannelCompressor where
  initial : Bytes
  compress : Bytes → Bytes

/-- `SpanChannelOut`; of the two RLP buffers one is active. -/
structure SpanChannelOut extends FrameSource where
  activeRLP : Bytes
  inactiveRLP : Bytes
  lastCompressedRLPSize : ℕ
  target : UInt64
  full : Option ChannelOutError
  spanBatch : SpanBatch
  deriving DecidableEq

namespace SpanChannelOut

variable (c : ChannelCompressor)

/-- `NewSpanChannelOut`, with the random identifier. -/
def newSpanChannelOut (id : ChannelID) (genesisTimestamp : UInt64) (chainID : ℕ)
    (targetOutputSize : UInt64) : SpanChannelOut where
  id := id
  frame := 0
  closed := false
  compressed := .ofBytes c.initial
  activeRLP := []
  inactiveRLP := []
  lastCompressedRLPSize := 0
  target := targetOutputSize
  full := none
  spanBatch := newSpanBatch genesisTimestamp chainID

def swapRLP (co : SpanChannelOut) : SpanChannelOut :=
  { co with activeRLP := co.inactiveRLP, inactiveRLP := co.activeRLP }

def checkFull (co : SpanChannelOut) : SpanChannelOut :=
  { co with full :=
      if co.full = none ∧ co.target.toNat ≤ co.compressed.len then some .compressorFull else co.full }

def compress (co : SpanChannelOut) : SpanChannelOut :=
  checkFull { co with compressed := .ofBytes (c.compress co.activeRLP) }

/-- Whether the compressed data with the growth of the RLP buffer is below the target; the sum is
converted to an unsigned number. -/
def IsBelowTarget (co : SpanChannelOut) : Prop :=
  ((co.compressed.len : ℤ) + ((co.activeRLP.length : ℤ) - co.lastCompressedRLPSize)) % 2 ^ 64 <
    co.target.toNat

instance (co : SpanChannelOut) : Decidable co.IsBelowTarget := inferInstanceAs (Decidable (_ < _))

/-- The part of `AddSingularBatch` behind the check of the RLP length. -/
def compressIfNeeded (co : SpanChannelOut) : SpanChannelOut × Option ChannelOutError :=
  if co.IsBelowTarget then (co, none)
  else
    let co := { co.compress c with lastCompressedRLPSize := co.activeRLP.length }
    match co.full with
    | none => (co, none)
    | some err =>
      if co.spanBatch.batches.length = 1 then (co, none)
      else (co.swapRLP.compress c, some err)

/-- The part of `AddSingularBatch` behind the encoding. -/
def checkRLP (co : SpanChannelOut) : SpanChannelOut × Option ChannelOutError :=
  if safeMaxRLPBytesPerChannel < co.activeRLP.length then
    (co, some (.tooManyRLPBytes co.activeRLP.length co.inactiveRLP.length))
  else co.compressIfNeeded c

def addSingularBatch (batch : SingularBatch) (seqNum : UInt64) (co : SpanChannelOut) :
    SpanChannelOut × Option ChannelOutError :=
  if co.closed then (co, some .alreadyClosed)
  else
    match co.full with
    | some err => (co, some err)
    | none =>
      match co.spanBatch.appendSingularBatch batch seqNum with
      | (sb, some e) => ({ co with spanBatch := sb }, some (.appending e))
      | (sb, none) =>
        match sb.toRawSpanBatch with
        | none => ({ co with spanBatch := sb }, some .converting)
        | some raw =>
          let co := { co.swapRLP with spanBatch := sb }
          match (BatchData.span raw).encodeRLP with
          | .error e => ({ co with activeRLP := [] }, some (.encoding e))
          | .ok rlp => checkRLP c { co with activeRLP := rlp }

def readyBytes (co : SpanChannelOut) : ℕ :=
  if co.closed = true ∨ co.full ≠ none then co.compressed.len else 0

def close (co : SpanChannelOut) : SpanChannelOut × Option ChannelOutError :=
  if co.closed then (co, some .alreadyClosed)
  else
    let co := { co with closed := true }
    if co.full ≠ none then (co, none) else (co.compress c, none)

def outputFrame (maxSize : ℕ) (co : SpanChannelOut) :
    Except ChannelOutError (Frame × SpanChannelOut) := do
  let (f, source) ← co.toFrameSource.outputFrame co.readyBytes maxSize
  .ok (f, { co with toFrameSource := source })

/-- The operations of `SpanChannelOut`. -/
def channelOut : ChannelOut SpanChannelOut where
  id co := co.id
  addSingularBatch := addSingularBatch c
  inputBytes co := co.activeRLP.length
  readyBytes := readyBytes
  flush co := (co, none)
  fullErr := full
  close := close c
  outputFrame := outputFrame

/-! ## What a call does -/

section Calls

variable {co : SpanChannelOut}

/-- Whether a channel is compressed with the RLP buffer and then full. -/
def Fills (co : SpanChannelOut) : Prop :=
  ¬ co.IsBelowTarget ∧ co.target.toNat ≤ (Buffer.ofBytes (c.compress co.activeRLP)).len

lemma full_compress (co : SpanChannelOut) : (co.compress c).full =
    if co.full = none ∧ co.target.toNat ≤ (Buffer.ofBytes (c.compress co.activeRLP)).len then
      some .compressorFull else co.full := rfl

lemma compressIfNeeded_of_not_fills (hfull : co.full = none) (hfills : ¬ co.Fills c) :
    ∃ co', co.compressIfNeeded c = (co', none) ∧ co'.spanBatch = co.spanBatch ∧
      co'.activeRLP = co.activeRLP ∧ co'.closed = co.closed ∧ co'.full = none := by
  unfold compressIfNeeded
  by_cases hbelow : co.IsBelowTarget
  · grind
  · rw [if_neg hbelow]
    have hnone : (co.compress c).full = none := by
      rw [full_compress, if_neg fun hc => hfills ⟨hbelow, hc.2⟩, hfull]
    dsimp only
    rw [hnone]
    exact ⟨_, rfl, rfl, rfl, rfl, rfl⟩

/-- A single batch is kept even if it fills the channel; otherwise the channel goes back to the encoding
before. -/
theorem compressIfNeeded_of_fills (hfull : co.full = none) (hfills : co.Fills c) :
    ∃ co' err, co.compressIfNeeded c = (co', err) ∧ co'.closed = co.closed ∧ co'.full ≠ none ∧
      (co.spanBatch.batches.length = 1 ∧ err = none ∧
          co'.compressed.written = c.compress co.activeRLP ∨
        co.spanBatch.batches.length ≠ 1 ∧ err ≠ none ∧
          co'.compressed.written = c.compress co.inactiveRLP) := by
  unfold compressIfNeeded
  have hsome : (co.compress c).full = some .compressorFull := by
    rw [full_compress, if_pos ⟨hfull, hfills.2⟩]
  rw [if_neg hfills.1]
  dsimp only
  rw [hsome]
  by_cases hone : co.spanBatch.batches.length = 1
  · have hone' : (co.compress c).spanBatch.batches.length = 1 := hone
    simp only [if_pos hone']
    exact ⟨_, _, rfl, rfl, some_ne_none _, .inl ⟨hone, rfl, rfl⟩⟩
  · have hone' : (co.compress c).spanBatch.batches.length ≠ 1 := hone
    simp only [if_neg hone']
    refine ⟨_, _, rfl, rfl, ?_, .inr ⟨hone, some_ne_none _, rfl⟩⟩
    exact some_ne_none _

/-- The outcome of a call to a channel that is open and not full. -/
theorem addSingularBatch_cases (hopen : co.closed = false) (hfull : co.full = none)
    (batch : SingularBatch) (seqNum : UInt64) :
    (∃ sb e, co.spanBatch.appendSingularBatch batch seqNum = (sb, some e) ∧
      co.addSingularBatch c batch seqNum = ({ co with spanBatch := sb }, some (.appending e))) ∨
    (∃ sb raw e, co.spanBatch.appendSingularBatch batch seqNum = (sb, none) ∧
      sb.toRawSpanBatch = some raw ∧ (BatchData.span raw).encodeRLP = .error e ∧
      co.addSingularBatch c batch seqNum = ({ co with
        spanBatch := sb, activeRLP := [], inactiveRLP := co.activeRLP }, some (.encoding e))) ∨
    (∃ sb raw rlp, co.spanBatch.appendSingularBatch batch seqNum = (sb, none) ∧
      sb.toRawSpanBatch = some raw ∧ (BatchData.span raw).encodeRLP = .ok rlp ∧
      co.addSingularBatch c batch seqNum = checkRLP c { co with
        spanBatch := sb, activeRLP := rlp, inactiveRLP := co.activeRLP }) := by
  have hnot : ¬ co.closed = true := Bool.eq_false_iff.mp hopen
  obtain ⟨source, activeRLP, inactiveRLP, size, target, full, spanBatch⟩ := co
  obtain rfl : full = none := hfull
  unfold addSingularBatch
  rw [if_neg hnot]
  cases happ : spanBatch.appendSingularBatch batch seqNum with
  | mk sb err =>
    cases err with
    | some e => exact .inl ⟨sb, e, rfl, rfl⟩
    | none =>
      obtain ⟨raw, hraw⟩ := exists_toRawSpanBatch happ
      dsimp only
      rw [hraw]
      cases henc : (BatchData.span raw).encodeRLP with
      | error e => exact .inr (.inl ⟨sb, raw, e, rfl, hraw, henc, by dsimp only; rw [henc]; rfl⟩)
      | ok rlp => exact .inr (.inr ⟨sb, raw, rlp, rfl, hraw, henc, by dsimp only; rw [henc]; rfl⟩)

end Calls

/-! ## Frames -/

/-- Nothing is read from the buffer before the channel is full or closed. -/
def Unread (co : SpanChannelOut) : Prop :=
  co.closed = false → co.full = none → co.compressed.off = 0

variable {data : Bytes} {co : SpanChannelOut}

lemma extends_compress (hoff : co.compressed.off = 0) :
    co.toFrameSource.Extends (co.compress c).toFrameSource :=
  ⟨rfl, rfl, rfl, Buffer.keeps_ofBytes hoff _⟩

lemma extends_compressIfNeeded {co : SpanChannelOut} (hoff : co.compressed.off = 0) :
    co.toFrameSource.Extends (co.compressIfNeeded c).1.toFrameSource ∧
      (co.compressIfNeeded c).1.compressed.off = 0 := by
  unfold compressIfNeeded
  split
  · exact ⟨.refl _, hoff⟩
  · dsimp only
    split
    · exact ⟨extends_compress c hoff, rfl⟩
    · split
      · exact ⟨extends_compress c hoff, rfl⟩
      · exact ⟨⟨rfl, rfl, rfl, Buffer.keeps_ofBytes hoff _⟩, rfl⟩

lemma extends_addSingularBatch (hunr : co.Unread) (batch : SingularBatch) (seqNum : UInt64) :
    co.toFrameSource.Extends (co.addSingularBatch c batch seqNum).1.toFrameSource ∧
      (co.addSingularBatch c batch seqNum).1.Unread := by
  cases hcl : co.closed with
  | true =>
    rw [addSingularBatch, if_pos hcl]
    exact ⟨.refl _, hunr⟩
  | false =>
    cases hfull : co.full with
    | some err =>
      have hsame : co.addSingularBatch c batch seqNum = (co, some err) := by
        rw [addSingularBatch, if_neg (Bool.eq_false_iff.mp hcl), hfull]
      rw [hsame]
      exact ⟨.refl _, hunr⟩
    | none =>
      have hoff := hunr hcl hfull
      obtain ⟨sb, e, -, hadd⟩ | ⟨sb, raw, e, -, -, -, hadd⟩ | ⟨sb, raw, rlp, -, -, -, hadd⟩ :=
        addSingularBatch_cases c hcl hfull batch seqNum
      · rw [hadd]
        exact ⟨.refl _, fun _ _ => hoff⟩
      · rw [hadd]
        exact ⟨.refl _, fun _ _ => hoff⟩
      · rw [hadd, checkRLP]
        split
        · exact ⟨.refl _, fun _ _ => hoff⟩
        · obtain ⟨hext, hoff'⟩ := @extends_compressIfNeeded c { co with
            spanBatch := sb, activeRLP := rlp, inactiveRLP := co.activeRLP } hoff
          exact ⟨hext, fun _ _ => hoff'⟩

/-- Frames are output of a channel of a span batch. -/
def outputsFrames : (channelOut c).OutputsFrames where
  inv := Unread
  source := toFrameSource
  id_eq _ := rfl
  add := by
    intro co hunread batch seqNum
    exact (extends_addSingularBatch c hunread batch seqNum).symm
  flush := fun hunread => ⟨hunread, .refl _⟩
  close := by
    intro co hunread hopen
    show (close c co).1.Unread ∧ FrameSource.Extends _ (close c co).1.toFrameSource
    rw [close, if_neg (Bool.eq_false_iff.mp hopen)]
    dsimp only
    split
    case isTrue => exact ⟨nofun, .refl _⟩
    case isFalse hfull =>
      have hoff := hunread hopen (not_not.mp hfull)
      exact ⟨nofun, ⟨rfl, rfl, rfl, Buffer.keeps_ofBytes hoff _⟩⟩
  readyBytes_le := by
    intro co _
    show readyBytes co ≤ _
    rw [readyBytes]
    split
    · exact le_refl _
    · exact Nat.zero_le _
  readyBytes_of_closed := fun _ hclosed => if_pos (Or.inl hclosed)
  outputFrame := by
    intro co hunread maxSize
    show (outputFrame maxSize co).map _ = co.toFrameSource.outputFrame co.readyBytes maxSize ∧
      ∀ f co', outputFrame maxSize co = .ok (f, co') → co'.Unread
    rw [outputFrame]
    cases hout : co.toFrameSource.outputFrame co.readyBytes maxSize with
    | error e => exact ⟨rfl, nofun⟩
    | ok r =>
      refine ⟨rfl, fun f co' h hopen hfull => ?_⟩
      cases h
      obtain ⟨-, -, -, hlen, -, -, hclosed, -, hoff, -⟩ := FrameSource.outputFrame_eq_ok hout
      have hopen' : co.closed = false := hclosed.symm.trans hopen
      -- nothing was ready
      have hready : co.readyBytes = 0 :=
        if_neg (not_or.mpr ⟨Bool.eq_false_iff.mp hopen', not_not.mpr hfull⟩)
      rw [hready, Nat.zero_min] at hlen
      exact hoff.trans (by rw [hunread hopen' hfull, hlen])

lemma open_newSpanChannelOut (id : ChannelID) (genesisTimestamp : UInt64) (chainID : ℕ)
    (targetOutputSize : UInt64) :
    (outputsFrames c).Open id [] (newSpanChannelOut c id genesisTimestamp chainID targetOutputSize) :=
  ⟨fun _ _ => rfl, rfl, rfl, ⟨rfl, nofun, nofun, rfl⟩,
    nofun⟩

lemma drains : (outputsFrames c).Drains where
  close_eq := by
    intro co _ hopen
    have hnot : ¬ co.closed = true := Bool.eq_false_iff.mp hopen
    show (close c co).2 = none
    rw [close, if_neg hnot]
    dsimp only
    split <;> rfl
  readyBytes_eq := by
    intro co maxSize f co' _ hcall
    obtain ⟨⟨g, s'⟩, hsrc, heq⟩ := Except.bind_eq_ok.mp hcall
    obtain ⟨rfl, rfl⟩ := Prod.mk.inj (Except.ok.inj heq)
    obtain ⟨-, -, -, hlen, -, -, hcl, -⟩ := FrameSource.outputFrame_eq_ok hsrc
    show readyBytes { co with toFrameSource := s' } + g.data.length = co.readyBytes
    by_cases hready : co.closed = true ∨ co.full ≠ none
    · have hafter := FrameSource.len_of_outputFrame hsrc
      rwa [readyBytes, readyBytes, if_pos hready, if_pos (hcl.symm ▸ hready)]
    · rw [readyBytes, if_neg hready, Nat.zero_min] at hlen
      rw [readyBytes, readyBytes, if_neg hready, if_neg (hcl.symm ▸ hready), hlen]

/-! ## What is output -/

/-- The channel after some calls of `AddSingularBatch`, and the batches that were accepted. -/
def addAll : List (SingularBatch × UInt64) → SpanChannelOut →
    SpanChannelOut × List (SingularBatch × UInt64)
  | [], co => (co, [])
  | call :: calls, co =>
    let now := co.addSingularBatch c call.1 call.2
    let later := addAll calls now.1
    (later.1, (if now.2 = none then [call] else []) ++ later.2)

/-- No batch that is offered before the channel is full makes the encoding too long; and once the
transactions of a batch were refused, no other batch is appended unless it fills the channel. -/
def Undisturbed : Bool → List (SingularBatch × UInt64) → SpanChannelOut → Prop
  | _, [], _ => True
  | refused, call :: calls, co =>
    co.full = none →
      match co.spanBatch.appendSingularBatch call.1 call.2 with
      | (_, some .notOrdered) => Undisturbed refused calls (co.addSingularBatch c call.1 call.2).1
      | (_, some (.addTxs _)) => Undisturbed true calls (co.addSingularBatch c call.1 call.2).1
      | (sb, none) => ∃ raw rlp, sb.toRawSpanBatch = some raw ∧
        (BatchData.span raw).encodeRLP = .ok rlp ∧ rlp.length ≤ safeMaxRLPBytesPerChannel ∧
        (refused = true → ({ co with activeRLP := rlp } : SpanChannelOut).Fills c) ∧
        Undisturbed refused calls (co.addSingularBatch c call.1 call.2).1

section Yields

variable (genesisTimestamp : UInt64) (chainID : ℕ)

/-- Data from which exactly one batch is read, the span batch of some batches; if these are
consecutive blocks with transactions that are signed for the chain, they are derived from it. -/
def Yields (decompress : Bytes → Option Bytes) (isFjord : Bool)
    (accepted : List (SingularBatch × UInt64)) (data : Bytes) : Prop :=
  ∃ rlp sb raw, decompress data = some rlp ∧ rlp.length ≤ maxRLPBytesPerChannel isFjord ∧
    BatchData.batches (maxRLPBytesPerChannel isFjord) rlp = .ok [.span raw.withoutV] ∧
    appendAll accepted (newSpanBatch genesisTimestamp chainID) = .ok sb ∧
    sb.toRawSpanBatch = some raw ∧
    ∀ (blockTime : UInt64) (time epoch : ℕ),
      Follows blockTime.toNat time epoch (accepted.map Prod.fst) →
      (∀ p ∈ accepted, ∀ bs ∈ p.1.transactions, IsSpanTx chainID bs) → 2 * chainID + 36 < 2 ^ 64 →
      (raw.withoutV.derive blockTime genesisTimestamp chainID).map batches =
        .ok (accepted.map fun p => singularBatchToElement p.1)

/-- The RLP encoding of the span batch of some batches, or nothing if there are none. -/
def Encodes (accepted : List (SingularBatch × UInt64)) (rlp : Bytes) : Prop :=
  accepted = [] ∧ rlp = [] ∨ accepted ≠ [] ∧ ∃ sb raw,
    appendAll accepted (newSpanBatch genesisTimestamp chainID) = .ok sb ∧
    sb.toRawSpanBatch = some raw ∧ (BatchData.span raw).encodeRLP = .ok rlp ∧
    rlp.length ≤ safeMaxRLPBytesPerChannel

/-- Nothing, or the RLP encoding of a span batch with more blocks than there are accepted batches. -/
def Exceeds (accepted : List (SingularBatch × UInt64)) (rlp : Bytes) : Prop :=
  rlp = [] ∨ ∃ raw, (BatchData.span raw).encodeRLP = .ok rlp ∧ accepted.length < raw.blockCount

variable {genesisTimestamp chainID}

variable {sb : SpanBatch} {raw : RawSpanBatch} {decompress : Bytes → Option Bytes}
  {data rlp : Bytes} {targetOutputSize : UInt64} {id : ChannelID}

lemma encodeRLP_span_eq_ok (h : (BatchData.span raw).encodeRLP = .ok rlp) :
    ∃ bytes, raw.encode = .ok bytes ∧ rlp = encodeString (1 :: bytes) := by
  obtain ⟨typed, htyped, heq⟩ := Except.bind_eq_ok.mp h
  obtain ⟨bytes, henc, htyped⟩ := Except.bind_eq_ok.mp htyped
  cases htyped
  exact ⟨bytes, henc, (Except.ok.inj heq).symm⟩

lemma maxRLPBytesPerChannel_bounds (isFjord : Bool) :
    safeMaxRLPBytesPerChannel ≤ maxRLPBytesPerChannel isFjord ∧
      maxRLPBytesPerChannel isFjord < 2 ^ 60 := by
  cases isFjord <;> decide

/-- What is read from the encoding of accepted batches. -/
theorem Encodes.yields {accepted : List (SingularBatch × UInt64)}
    (h : Encodes genesisTimestamp chainID accepted rlp) (hne : accepted ≠ [])
    (hdata : decompress data = some rlp) (isFjord : Bool) :
    Yields genesisTimestamp chainID decompress isFjord accepted data := by
  obtain ⟨hnil, -⟩ | ⟨-, sb, raw, happ, hraw, henc, hlen⟩ := h
  · exact absurd hnil hne
  · obtain ⟨txs, hholds⟩ := (holds_new genesisTimestamp chainID).of_appendAll happ
    have hne' : accepted.map Prod.fst ≠ [] := map_eq_nil_iff.not.mpr hne
    obtain ⟨bytes, hbytes, rfl⟩ := encodeRLP_span_eq_ok henc
    obtain ⟨bytes', hbytes', hblks, htxs, hsizes⟩ := hholds.exists_encode hraw hne'
    obtain rfl := Except.ok.inj (hbytes'.symm.trans hbytes)
    -- the limits of the format are above the limit on the encoding
    have hmax : bytes'.length ≤ maxSpanBatchElementCount := by
      have hle := length_le_encodeString (1 :: bytes')
      rw [length_cons] at hle
      have hsafe : safeMaxRLPBytesPerChannel = maxSpanBatchElementCount := rfl
      omega
    obtain ⟨bytes'', hbytes'', hdec⟩ := hholds.decode_encode hraw hne' (le_trans hblks hmax)
      (le_trans htxs hmax) fun tx htx => le_trans (hsizes tx htx) hmax
    obtain rfl := Except.ok.inj (hbytes''.symm.trans hbytes)
    have hback := hdec []
    rw [append_nil] at hback
    obtain ⟨hsafe, hlimit⟩ := maxRLPBytesPerChannel_bounds isFjord
    have hlen' := le_trans hlen hsafe
    refine ⟨_, sb, raw, hdata, hlen', ?_, happ, hraw,
      fun blockTime time epoch hfol hspan hchain => ?_⟩
    · rw [BatchData.batches_encodeString hlen' (lt_trans hlimit (by decide)),
        BatchData.decodeTyped, hback]
      rfl
    · rw [hholds.derive_eq hraw hne' hfol hchain (forall_mem_map.mpr hspan)]
      exact congrArg Except.ok map_map

/-- Nothing like that is read from an encoding with other blocks. -/
theorem Exceeds.not_yields {accepted : List (SingularBatch × UInt64)} (h : Exceeds accepted rlp)
    (hdata : decompress data = some rlp) (isFjord : Bool) :
    ¬ Yields genesisTimestamp chainID decompress isFjord accepted data := by
  rintro ⟨rlp', sb, raw, hdata', hlen, hbs, happ, hraw, -⟩
  obtain rfl := some.inj (hdata'.symm.trans hdata)
  obtain rfl | ⟨raw', henc, hlt⟩ := h
  · cases hbs
  · obtain ⟨bytes, hbytes, rfl⟩ := encodeRLP_span_eq_ok henc
    have hlimit := (maxRLPBytesPerChannel_bounds isFjord).2
    rw [BatchData.batches_encodeString hlen (lt_trans hlimit (by decide)),
      BatchData.decodeTyped, if_pos rfl] at hbs
    cases hdec : RawSpanBatch.decode bytes with
    | error e =>
      rw [hdec] at hbs
      cases hbs
    | ok r =>
      rw [hdec] at hbs
      have heq : r.1 = raw.withoutV := by
        injection hbs with hbs
        injection hbs with hbs
        injection hbs
      have hcnt := RawSpanBatch.blockCount_le_of_encode hbytes
      have hlen' := length_le_encodeString (1 :: bytes)
      rw [length_cons] at hlen'
      have hsame := (RawSpanBatch.decode_of_encode hbytes (by omega)).2 hdec
      have hblks := blockCount_of_toRawSpanBatch hraw
      rw [length_batches_of_appendAll happ] at hblks
      rw [heq] at hsame
      have hkept : raw.withoutV.blockCount = raw.blockCount := rfl
      omega

variable (genesisTimestamp chainID)

/-- An open channel that only has accepted batches to output: there are no others in its span batch;
or there are, because transactions were refused, but not encoded; or it is full. -/
inductive Intact : Bool → List (SingularBatch × UInt64) → SpanChannelOut → Prop
  | clean {accepted : List (SingularBatch × UInt64)} {co : SpanChannelOut}
    (hopen : co.closed = false) (hfull : co.full = none)
    (happend : appendAll accepted (newSpanBatch genesisTimestamp chainID) = .ok co.spanBatch)
    (hrlp : Encodes genesisTimestamp chainID accepted co.activeRLP) : Intact false accepted co
  | refused {accepted : List (SingularBatch × UInt64)} {co : SpanChannelOut}
    (hopen : co.closed = false) (hfull : co.full = none)
    (hmore : accepted.length < co.spanBatch.batches.length)
    (hrlp : Encodes genesisTimestamp chainID accepted co.activeRLP) : Intact true accepted co
  | full {refused : Bool} {accepted : List (SingularBatch × UInt64)} {co : SpanChannelOut} {rlp : Bytes}
    (hopen : co.closed = false) (hfull : co.full ≠ none)
    (hrlp : Encodes genesisTimestamp chainID accepted rlp)
    (hdata : co.compressed.written = c.compress rlp) : Intact refused accepted co

/-- An open channel that has another batch to output. -/
inductive Spoiled : List (SingularBatch × UInt64) → SpanChannelOut → Prop
  | notFull {accepted : List (SingularBatch × UInt64)} {co : SpanChannelOut}
    (hopen : co.closed = false) (hfull : co.full = none)
    (hmore : accepted.length < co.spanBatch.batches.length)
    (hrlp : Exceeds accepted co.activeRLP) : Spoiled accepted co
  | full {accepted : List (SingularBatch × UInt64)} {co : SpanChannelOut} {rlp : Bytes}
    (hopen : co.closed = false) (hfull : co.full ≠ none) (hrlp : Exceeds accepted rlp)
    (hdata : co.compressed.written = c.compress rlp) : Spoiled accepted co

variable {genesisTimestamp chainID} {c} {accepted : List (SingularBatch × UInt64)}
  {co co' : SpanChannelOut} {call : SingularBatch × UInt64}

/-- The batch of a call, if it is accepted. -/
def acceptedBy (c : ChannelCompressor) (call : SingularBatch × UInt64) (co : SpanChannelOut) :
    List (SingularBatch × UInt64) :=
  if (co.addSingularBatch c call.1 call.2).2 = none then [call] else []

lemma addSingularBatch_of_full (hopen : co.closed = false) (hfull : co.full ≠ none) :
    (co.addSingularBatch c call.1 call.2).1 = co ∧ co.acceptedBy c call = [] := by
  obtain ⟨err, herr⟩ := ne_none_iff_exists'.mp hfull
  have hsame : co.addSingularBatch c call.1 call.2 = (co, some err) := by
    rw [addSingularBatch, if_neg (Bool.eq_false_iff.mp hopen), herr]
  rw [acceptedBy, hsame]
  exact ⟨rfl, rfl⟩

/-- A span batch with a new batch and its encoding. -/
structure Appends (call : SingularBatch × UInt64) (co : SpanChannelOut) (sb : SpanBatch)
    (raw : RawSpanBatch) (rlp : Bytes) : Prop where
  append_eq : co.spanBatch.appendSingularBatch call.1 call.2 = (sb, none)
  raw_eq : sb.toRawSpanBatch = some raw
  encode_eq : (BatchData.span raw).encodeRLP = .ok rlp

lemma Appends.length_eq (h : Appends call co sb raw rlp) :
    sb.batches.length = co.spanBatch.batches.length + 1 := by
  obtain ⟨hc, -⟩ | ⟨-, hlen⟩ := length_appendSingularBatch h.append_eq
  · cases hc
  · exact hlen

lemma Appends.addSingularBatch_eq (h : Appends call co sb raw rlp) (hopen : co.closed = false)
    (hfull : co.full = none) : co.addSingularBatch c call.1 call.2 =
      checkRLP c { co with spanBatch := sb, activeRLP := rlp, inactiveRLP := co.activeRLP } := by
  show _ = checkRLP c { co.swapRLP with spanBatch := sb, activeRLP := rlp }
  simp only [addSingularBatch, hopen, hfull, h.append_eq, h.raw_eq, h.encode_eq]
  rfl

/-- What a call does to a channel that is not full: the batch is not in order; its transactions are
refused; the span batch with it is not encoded; the encoding is too long; it is taken; it fills the
channel as the only one; or it fills the channel, which goes back to the encoding before. -/
inductive Outcome (c : ChannelCompressor) (call : SingularBatch × UInt64) (co co' : SpanChannelOut) :
    List (SingularBatch × UInt64) → Prop
  | notOrdered {sb : SpanBatch}
    (happend : co.spanBatch.appendSingularBatch call.1 call.2 = (sb, some .notOrdered))
    (hfull : co'.full = none) (hbatch : co'.spanBatch = co.spanBatch)
    (hrlp : co'.activeRLP = co.activeRLP) : Outcome c call co co' []
  | refused {sb : SpanBatch} {e : AddTxsError}
    (happend : co.spanBatch.appendSingularBatch call.1 call.2 = (sb, some (.addTxs e)))
    (hfull : co'.full = none)
    (hlen : co'.spanBatch.batches.length = co.spanBatch.batches.length + 1)
    (hrlp : co'.activeRLP = co.activeRLP) : Outcome c call co co' []
  | notEncoded {sb : SpanBatch} {raw : RawSpanBatch} {e : SpanBatchError}
    (happend : co.spanBatch.appendSingularBatch call.1 call.2 = (sb, none))
    (hraw : sb.toRawSpanBatch = some raw) (hencode : (BatchData.span raw).encodeRLP = .error e)
    (hfull : co'.full = none)
    (hlen : co'.spanBatch.batches.length = co.spanBatch.batches.length + 1)
    (hrlp : co'.activeRLP = []) : Outcome c call co co' []
  | tooLong {sb : SpanBatch} {raw : RawSpanBatch} {rlp : Bytes} (happends : Appends call co sb raw rlp)
    (hlong : safeMaxRLPBytesPerChannel < rlp.length) (hfull : co'.full = none)
    (hbatch : co'.spanBatch = sb) (hrlp : co'.activeRLP = rlp) : Outcome c call co co' []
  | taken {sb : SpanBatch} {raw : RawSpanBatch} {rlp : Bytes} (happends : Appends call co sb raw rlp)
    (hshort : rlp.length ≤ safeMaxRLPBytesPerChannel)
    (hfills : ¬ ({ co with activeRLP := rlp } : SpanChannelOut).Fills c) (hfull : co'.full = none)
    (hbatch : co'.spanBatch = sb) (hrlp : co'.activeRLP = rlp) : Outcome c call co co' [call]
  | single {sb : SpanBatch} {raw : RawSpanBatch} {rlp : Bytes} (happends : Appends call co sb raw rlp)
    (hshort : rlp.length ≤ safeMaxRLPBytesPerChannel)
    (hfills : ({ co with activeRLP := rlp } : SpanChannelOut).Fills c)
    (hone : sb.batches.length = 1) (hfull : co'.full ≠ none)
    (hdata : co'.compressed.written = c.compress rlp) : Outcome c call co co' [call]
  | reverted {sb : SpanBatch} {raw : RawSpanBatch} {rlp : Bytes} (happends : Appends call co sb raw rlp)
    (hshort : rlp.length ≤ safeMaxRLPBytesPerChannel)
    (hfills : ({ co with activeRLP := rlp } : SpanChannelOut).Fills c)
    (hone : sb.batches.length ≠ 1) (hfull : co'.full ≠ none)
    (hdata : co'.compressed.written = c.compress co.activeRLP) : Outcome c call co co' []

lemma outcome (hopen : co.closed = false) (hfull : co.full = none) :
    (co.addSingularBatch c call.1 call.2).1.closed = false ∧
      Outcome c call co (co.addSingularBatch c call.1 call.2).1 (co.acceptedBy c call) := by
  obtain ⟨sb, e, happend, hadd⟩ | ⟨sb, raw, e, happend, hraw, henc, hadd⟩ |
    ⟨sb, raw, rlp, happend, hraw, henc, hadd⟩ := addSingularBatch_cases c hopen hfull call.1 call.2
  · rw [acceptedBy, hadd]
    refine ⟨hopen, ?_⟩
    obtain ⟨he, hsame⟩ | ⟨hne, hlen⟩ := length_appendSingularBatch happend
    · cases he
      exact .notOrdered happend hfull hsame rfl
    · cases e with
      | notOrdered => exact absurd rfl hne
      | addTxs e => exact .refused happend hfull hlen rfl
  · obtain ⟨he, -⟩ | ⟨-, hlen⟩ := length_appendSingularBatch happend
    · cases he
    · rw [acceptedBy, hadd]
      exact ⟨hopen, .notEncoded happend hraw henc hfull hlen rfl⟩
  · have happ : Appends call co sb raw rlp := ⟨happend, hraw, henc⟩
    rw [checkRLP] at hadd
    split at hadd
    case isTrue hlong =>
      rw [acceptedBy, hadd]
      exact ⟨hopen, .tooLong happ hlong hfull rfl rfl⟩
    case isFalse hshort =>
      have hshort := le_of_not_gt hshort
      by_cases hfills : ({ co with activeRLP := rlp } : SpanChannelOut).Fills c
      · obtain ⟨co', err, hneeded, hcl, hfull', hcases⟩ := @compressIfNeeded_of_fills c
          { co with spanBatch := sb, activeRLP := rlp, inactiveRLP := co.activeRLP } hfull hfills
        rw [hneeded] at hadd
        rw [acceptedBy, hadd]
        refine ⟨hcl.trans hopen, ?_⟩
        obtain ⟨hone, rfl, hdata⟩ | ⟨hone, herr, hdata⟩ := hcases
        · exact .single happ hshort hfills hone hfull' hdata
        · rw [if_neg herr]
          exact .reverted happ hshort hfills hone hfull' hdata
      · obtain ⟨co', hneeded, hbatch, hrlp, hcl, hfull'⟩ := @compressIfNeeded_of_not_fills c
          { co with spanBatch := sb, activeRLP := rlp, inactiveRLP := co.activeRLP } hfull hfills
        rw [hneeded] at hadd
        rw [acceptedBy, hadd]
        exact ⟨hcl.trans hopen, .taken happ hshort hfills hfull' hbatch hrlp⟩

/-- A batch that stays in the span batch and is encoded spoils a channel that does not accept it, or
that has refused another one. -/
theorem Appends.spoiled (h : Appends call co sb raw rlp) (hopen : co'.closed = false)
    (hfull : co'.full = none) (hbatch : co'.spanBatch = sb) (hrlp : co'.activeRLP = rlp)
    (hmore : accepted.length ≤ co.spanBatch.batches.length) : Spoiled c accepted co' := by
  have hlen := h.length_eq
  refine .notFull hopen hfull (by rw [hbatch]; omega) (hrlp ▸ .inr ⟨raw, h.encode_eq, ?_⟩)
  rw [blockCount_of_toRawSpanBatch h.raw_eq]
  omega

lemma Spoiled.step (h : Spoiled c accepted co) (call : SingularBatch × UInt64) :
    Spoiled c (accepted ++ co.acceptedBy c call) (co.addSingularBatch c call.1 call.2).1 := by
  cases h with
  | full hopen hfull hrlp hdata =>
    obtain ⟨hsame, hnone⟩ := @addSingularBatch_of_full c co call hopen hfull
    rw [hsame, hnone, append_nil]
    exact .full hopen hfull hrlp hdata
  | notFull hopen hfull hmore hrlp =>
    obtain ⟨hopen', hout⟩ := @outcome c co call hopen hfull
    generalize co.acceptedBy c call = new at hout ⊢
    cases hout with
    | notOrdered _ hfull' hbatch hrlp' =>
      rw [append_nil]
      exact .notFull hopen' hfull' (hbatch ▸ hmore) (hrlp' ▸ hrlp)
    | refused _ hfull' hlen hrlp' =>
      rw [append_nil]
      exact .notFull hopen' hfull' (by omega) (hrlp' ▸ hrlp)
    | notEncoded _ _ _ hfull' hlen hrlp' =>
      rw [append_nil]
      exact .notFull hopen' hfull' (by omega) (.inl hrlp')
    | tooLong happ _ hfull' hbatch hrlp' =>
      rw [append_nil]
      exact happ.spoiled hopen' hfull' hbatch hrlp' hmore.le
    | taken happ _ _ hfull' hbatch hrlp' =>
      exact happ.spoiled hopen' hfull' hbatch hrlp' (length_append.trans_le hmore)
    | single happ _ _ hone _ _ =>
      have hlen := happ.length_eq
      omega
    | reverted _ _ _ _ hfull' hdata =>
      rw [append_nil]
      exact .full hopen' hfull' hrlp hdata

/-! ### Undisturbed channels -/

variable {refused : Bool} {calls : List (SingularBatch × UInt64)}

lemma undisturbed_of_full (hfull : co.full ≠ none) (refused : Bool)
    (calls : List (SingularBatch × UInt64)) : Undisturbed c refused calls co := by
  cases calls with
  | nil => trivial
  | cons call calls => exact fun hnone => absurd hnone hfull

lemma undisturbed_of_notOrdered (hfull : co.full = none)
    (happ : co.spanBatch.appendSingularBatch call.1 call.2 = (sb, some .notOrdered)) :
    Undisturbed c refused (call :: calls) co ↔
      Undisturbed c refused calls (co.addSingularBatch c call.1 call.2).1 := by
  simp only [Undisturbed, hfull, happ, forall_const]

lemma undisturbed_of_refused (hfull : co.full = none) {e : AddTxsError}
    (happ : co.spanBatch.appendSingularBatch call.1 call.2 = (sb, some (.addTxs e))) :
    Undisturbed c refused (call :: calls) co ↔
      Undisturbed c true calls (co.addSingularBatch c call.1 call.2).1 := by
  simp only [Undisturbed, hfull, happ, forall_const]

lemma undisturbed_of_append (hfull : co.full = none)
    (happ : co.spanBatch.appendSingularBatch call.1 call.2 = (sb, none)) :
    Undisturbed c refused (call :: calls) co ↔ ∃ raw rlp, sb.toRawSpanBatch = some raw ∧
      (BatchData.span raw).encodeRLP = .ok rlp ∧ rlp.length ≤ safeMaxRLPBytesPerChannel ∧
      (refused = true → ({ co with activeRLP := rlp } : SpanChannelOut).Fills c) ∧
      Undisturbed c refused calls (co.addSingularBatch c call.1 call.2).1 := by
  simp only [Undisturbed, hfull, happ, forall_const]

lemma Appends.undisturbed (h : Appends call co sb raw rlp) (hfull : co.full = none) :
    Undisturbed c refused (call :: calls) co ↔ rlp.length ≤ safeMaxRLPBytesPerChannel ∧
      (refused = true → ({ co with activeRLP := rlp } : SpanChannelOut).Fills c) ∧
      Undisturbed c refused calls (co.addSingularBatch c call.1 call.2).1 := by
  rw [undisturbed_of_append hfull h.append_eq]
  constructor
  · rintro ⟨raw', rlp', hraw, henc, hrest⟩
    obtain rfl := some.inj (h.raw_eq.symm.trans hraw)
    obtain rfl := Except.ok.inj (h.encode_eq.symm.trans henc)
    exact hrest
  · exact fun hrest => ⟨raw, rlp, h.raw_eq, h.encode_eq, hrest⟩

lemma Appends.undisturbed_of_fills (h : Appends call co sb raw rlp) (hfull : co.full = none)
    (hshort : rlp.length ≤ safeMaxRLPBytesPerChannel)
    (hfills : ({ co with activeRLP := rlp } : SpanChannelOut).Fills c) :
    Undisturbed c refused (call :: calls) co ↔
      Undisturbed c refused calls (co.addSingularBatch c call.1 call.2).1 :=
  (h.undisturbed hfull).trans
    ⟨fun hc => hc.2.2, fun hrest => ⟨hshort, fun _ => hfills, hrest⟩⟩

instance (co : SpanChannelOut) : Decidable (co.Fills c) := inferInstanceAs (Decidable (_ ∧ _))

/-- Whether a channel is disturbed is found out by running it. -/
instance decidableUndisturbed : ∀ (refused : Bool) (calls : List (SingularBatch × UInt64))
    (co : SpanChannelOut), Decidable (Undisturbed c refused calls co)
  | _, [], _ => isTrue trivial
  | refused, call :: calls, co =>
    if hfull : co.full = none then
      match happend : co.spanBatch.appendSingularBatch call.1 call.2 with
      | (_, some .notOrdered) =>
        have := decidableUndisturbed refused calls (co.addSingularBatch c call.1 call.2).1
        decidable_of_iff _ (undisturbed_of_notOrdered hfull happend).symm
      | (_, some (.addTxs _)) =>
        have := decidableUndisturbed true calls (co.addSingularBatch c call.1 call.2).1
        decidable_of_iff _ (undisturbed_of_refused hfull happend).symm
      | (sb, none) =>
        match hraw : sb.toRawSpanBatch with
        | none => isFalse fun h => by
          obtain ⟨raw, -, hraw', -⟩ := (undisturbed_of_append hfull happend).mp h
          exact absurd (hraw.symm.trans hraw') (nomatch ·)
        | some raw =>
          match hencode : (BatchData.span raw).encodeRLP with
          | .error _ => isFalse fun h => by
            obtain ⟨raw', rlp, hraw', hencode', -⟩ := (undisturbed_of_append hfull happend).mp h
            obtain rfl := some.inj (hraw.symm.trans hraw')
            exact absurd (hencode.symm.trans hencode') (nomatch ·)
          | .ok rlp =>
            have := decidableUndisturbed refused calls (co.addSingularBatch c call.1 call.2).1
            decidable_of_iff _ (Appends.undisturbed ⟨happend, hraw, hencode⟩ hfull).symm
    else isTrue (undisturbed_of_full hfull _ _)

lemma Appends.encodes (h : Appends call co sb raw rlp)
    (hshort : rlp.length ≤ safeMaxRLPBytesPerChannel)
    (happ : appendAll accepted (newSpanBatch genesisTimestamp chainID) = .ok co.spanBatch) :
    appendAll (accepted ++ [call]) (newSpanBatch genesisTimestamp chainID) = .ok sb ∧
      Encodes genesisTimestamp chainID (accepted ++ [call]) rlp := by
  have hall := appendAll_concat happ h.append_eq
  exact ⟨hall, .inr ⟨append_ne_nil_of_right_ne_nil _ (cons_ne_nil _ _), sb, raw, hall,
    h.raw_eq, h.encode_eq, hshort⟩⟩

lemma not_undisturbed_of_error (hfull : co.full = none)
    (happ : co.spanBatch.appendSingularBatch call.1 call.2 = (sb, none))
    (hraw : sb.toRawSpanBatch = some raw) {e : SpanBatchError}
    (henc : (BatchData.span raw).encodeRLP = .error e) :
    ¬ Undisturbed c refused (call :: calls) co := by
  intro h
  obtain ⟨raw', rlp, hraw', henc', -⟩ := (undisturbed_of_append hfull happ).mp h
  obtain rfl := some.inj (hraw.symm.trans hraw')
  cases henc.symm.trans henc'

lemma Intact.notFull (h : Intact c genesisTimestamp chainID refused accepted co)
    (hfull : co.full = none) :
    co.closed = false ∧ Encodes genesisTimestamp chainID accepted co.activeRLP ∧
      (refused = false ∧
          appendAll accepted (newSpanBatch genesisTimestamp chainID) = .ok co.spanBatch ∨
        refused = true ∧ accepted.length < co.spanBatch.batches.length) := by
  cases h with
  | clean hopen _ happend hrlp => exact ⟨hopen, hrlp, .inl ⟨rfl, happend⟩⟩
  | refused hopen _ hmore hrlp => exact ⟨hopen, hrlp, .inr ⟨rfl, hmore⟩⟩
  | full _ hne => exact absurd hfull hne

/-- A call to a channel that is intact: either it stays intact, and whether it is disturbed is decided by
the calls that follow, or it is spoiled by this call. -/
theorem Intact.step (h : Intact c genesisTimestamp chainID refused accepted co)
    (call : SingularBatch × UInt64) (calls : List (SingularBatch × UInt64)) :
    (∃ refused', Intact c genesisTimestamp chainID refused' (accepted ++ co.acceptedBy c call)
        (co.addSingularBatch c call.1 call.2).1 ∧
      (Undisturbed c refused (call :: calls) co ↔
        Undisturbed c refused' calls (co.addSingularBatch c call.1 call.2).1) ∧
      (refused = true → refused' = true ∧ co.acceptedBy c call = [])) ∨
    (Spoiled c (accepted ++ co.acceptedBy c call) (co.addSingularBatch c call.1 call.2).1 ∧
      ¬ Undisturbed c refused (call :: calls) co) := by
  by_cases hfull : co.full = none
  · obtain ⟨hopen, hrlp, hkind⟩ := h.notFull hfull
    have hle : accepted.length ≤ co.spanBatch.batches.length :=
      hkind.elim (fun h => (length_batches_of_appendAll h.2).ge) fun h => h.2.le
    obtain ⟨hopen', hout⟩ := @outcome c co call hopen hfull
    generalize co.acceptedBy c call = new at hout ⊢
    cases hout with
    | notOrdered hlast hfull' hbatch hrlp' =>
      rw [append_nil]
      refine .inl ⟨refused, ?_, undisturbed_of_notOrdered hfull hlast, fun href => ⟨href, rfl⟩⟩
      obtain ⟨rfl, happend⟩ | ⟨rfl, hmore⟩ := hkind
      · exact .clean hopen' hfull' (hbatch ▸ happend) (hrlp' ▸ hrlp)
      · exact .refused hopen' hfull' (hbatch ▸ hmore) (hrlp' ▸ hrlp)
    | refused hlast hfull' hlen hrlp' =>
      rw [append_nil]
      exact .inl ⟨true, .refused hopen' hfull' (by omega) (hrlp' ▸ hrlp),
        undisturbed_of_refused hfull hlast, fun _ => ⟨rfl, rfl⟩⟩
    | notEncoded hlast hraw henc hfull' hlen hrlp' =>
      rw [append_nil]
      exact .inr ⟨.notFull hopen' hfull' (by omega) (.inl hrlp'),
        not_undisturbed_of_error hfull hlast hraw henc⟩
    | tooLong happ hlong hfull' hbatch hrlp' =>
      rw [append_nil]
      refine .inr ⟨happ.spoiled hopen' hfull' hbatch hrlp' hle, fun hc => ?_⟩
      exact not_le_of_gt hlong ((happ.undisturbed hfull).mp hc).1
    | taken happ hshort hfills hfull' hbatch hrlp' =>
      obtain ⟨rfl, happend⟩ | ⟨rfl, hmore⟩ := hkind
      · obtain ⟨hall, hencodes⟩ := happ.encodes hshort happend
        refine .inl ⟨false, .clean hopen' hfull' (hbatch ▸ hall) (hrlp' ▸ hencodes), ?_, nofun⟩
        exact (happ.undisturbed hfull).trans ⟨fun hc => hc.2.2, fun hrest => ⟨hshort, nofun, hrest⟩⟩
      · refine .inr ⟨happ.spoiled hopen' hfull' hbatch hrlp' (length_append.trans_le hmore),
          fun hc => ?_⟩
        exact hfills (((happ.undisturbed hfull).mp hc).2.1 rfl)
    | single happ hshort hfills hone hfull' hdata =>
      obtain ⟨rfl, happend⟩ | ⟨rfl, hmore⟩ := hkind
      · obtain ⟨-, hencodes⟩ := happ.encodes hshort happend
        exact .inl ⟨false, .full hopen' hfull' hencodes hdata,
          happ.undisturbed_of_fills hfull hshort hfills, nofun⟩
      · have hlen := happ.length_eq
        omega
    | reverted happ hshort hfills _ hfull' hdata =>
      rw [append_nil]
      exact .inl ⟨refused, .full hopen' hfull' hrlp hdata,
        happ.undisturbed_of_fills hfull hshort hfills, fun href => ⟨href, rfl⟩⟩
  · cases h with
    | clean _ hnone _ _ | refused _ hnone _ _ => exact absurd hnone hfull
    | full hopen _ hrlp hdata =>
      obtain ⟨hsame, hnone⟩ := @addSingularBatch_of_full c co call hopen hfull
      rw [hsame, hnone, append_nil]
      exact .inl ⟨refused, .full hopen hfull hrlp hdata,
        iff_of_true (undisturbed_of_full hfull _ _) (undisturbed_of_full hfull _ _),
        fun href => ⟨href, rfl⟩⟩

lemma addAll_cons (call : SingularBatch × UInt64) (calls : List (SingularBatch × UInt64))
    (co : SpanChannelOut) : addAll c (call :: calls) co =
      ((addAll c calls (co.addSingularBatch c call.1 call.2).1).1,
        co.acceptedBy c call ++ (addAll c calls (co.addSingularBatch c call.1 call.2).1).2) := rfl

lemma Spoiled.run (h : Spoiled c accepted co) (calls : List (SingularBatch × UInt64)) :
    Spoiled c (accepted ++ (addAll c calls co).2) (addAll c calls co).1 := by
  induction calls generalizing accepted co with
  | nil => rwa [addAll, append_nil]
  | cons call calls ih =>
    have hrest := ih (h.step call)
    rwa [append_assoc] at hrest

lemma Intact.run (h : Intact c genesisTimestamp chainID refused accepted co)
    (calls : List (SingularBatch × UInt64)) :
    (Undisturbed c refused calls co ∧ ∃ refused', Intact c genesisTimestamp chainID refused'
      (accepted ++ (addAll c calls co).2) (addAll c calls co).1 ∧
      (refused = true → (addAll c calls co).2 = [])) ∨
    (¬ Undisturbed c refused calls co ∧
      Spoiled c (accepted ++ (addAll c calls co).2) (addAll c calls co).1) := by
  induction calls generalizing refused accepted co with
  | nil => exact .inl ⟨trivial, refused, by rwa [addAll, append_nil], fun _ => rfl⟩
  | cons call calls ih =>
    rw [addAll_cons, ← append_assoc]
    obtain ⟨refused', hint, hiff, hrefused⟩ | ⟨hspoil, hnot⟩ := h.step call calls
    · rw [hiff]
      obtain ⟨hund, refused'', hfin, hnone⟩ | hspoil := ih hint
      · refine .inl ⟨hund, refused'', hfin, fun href => ?_⟩
        obtain ⟨href', hnil⟩ := hrefused href
        rw [hnil, hnone href']
        rfl
      · exact .inr hspoil
    · exact .inr ⟨hnot, hspoil.run calls⟩

lemma written_close (hopen : co.closed = false) : (co.close c).1.compressed.written =
    if co.full = none then c.compress co.activeRLP else co.compressed.written := by
  rw [close, if_neg (Bool.eq_false_iff.mp hopen)]
  dsimp only
  split_ifs <;> first | rfl | contradiction

lemma Intact.close (h : Intact c genesisTimestamp chainID refused accepted co) :
    ∃ rlp, Encodes genesisTimestamp chainID accepted rlp ∧
      (co.close c).1.compressed.written = c.compress rlp := by
  cases h with
  | clean hopen hfull _ hrlp | refused hopen hfull _ hrlp =>
    exact ⟨_, hrlp, (written_close hopen).trans (if_pos hfull)⟩
  | full hopen hfull hrlp hdata =>
    exact ⟨_, hrlp, ((written_close hopen).trans (if_neg hfull)).trans hdata⟩

lemma Spoiled.close (h : Spoiled c accepted co) :
    ∃ rlp, Exceeds accepted rlp ∧ (co.close c).1.compressed.written = c.compress rlp := by
  cases h with
  | notFull hopen hfull _ hrlp => exact ⟨_, hrlp, (written_close hopen).trans (if_pos hfull)⟩
  | full hopen hfull hrlp hdata =>
    exact ⟨_, hrlp, ((written_close hopen).trans (if_neg hfull)).trans hdata⟩

lemma intact_new (id : ChannelID) (targetOutputSize : UInt64) :
    Intact c genesisTimestamp chainID false []
      (newSpanChannelOut c id genesisTimestamp chainID targetOutputSize) :=
  .clean rfl rfl rfl (.inl ⟨rfl, rfl⟩)

section New

variable (hco : co = newSpanChannelOut c id genesisTimestamp chainID targetOutputSize)
include hco

/-- Whether any batch is accepted is decided by the first one. -/
theorem accepted_eq_nil_iff (h : Undisturbed c false calls co) :
    (addAll c calls co).2 = [] ↔
      ∀ call ∈ calls.head?, (co.spanBatch.appendSingularBatch call.1 call.2).2 ≠ none := by
  have hfull : co.full = none := by rw [hco]; rfl
  cases calls with
  | nil => exact iff_of_true rfl (by simp)
  | cons call calls =>
    obtain ⟨hopen, hout⟩ := @outcome c co call (by rw [hco]; rfl) hfull
    simp only [head?_cons, mem_some_iff, forall_eq', addAll_cons]
    generalize acceptedBy c call _ = new at hout ⊢
    cases hout with
    | notOrdered happend _ _ _ =>
      -- there is no batch before the first one
      rw [hco, appendSingularBatch] at happend
      have herr := (Prod.mk.inj happend).2
      generalize (SpanBatchTxs.addTxs _ _ _).2 = err at herr
      cases err <;> cases herr
    | refused happend hfull' hlen hrlp =>
      have hint : Intact c genesisTimestamp chainID true []
          (co.addSingularBatch c call.1 call.2).1 :=
        .refused hopen hfull' (by rw [hlen]; exact Nat.succ_pos _)
          (.inl ⟨rfl, hrlp.trans (by rw [hco]; rfl)⟩)
      have hrest := (undisturbed_of_refused hfull happend).mp h
      obtain ⟨-, refused', -, hnone⟩ | ⟨hnot, -⟩ := hint.run calls
      · exact iff_of_true (hnone rfl) (by rw [happend]; exact some_ne_none _)
      · exact absurd hrest hnot
    | notEncoded happend hraw henc _ _ _ =>
      exact absurd h (not_undisturbed_of_error hfull happend hraw henc)
    | tooLong happ hlong _ _ _ =>
      exact absurd ((happ.undisturbed hfull).mp h).1 (not_le_of_gt hlong)
    | taken happ _ _ _ _ _ | single happ _ _ _ _ _ =>
      exact iff_of_false (cons_ne_nil _ _) (by rw [happ.append_eq]; exact not_not.mpr rfl)
    | reverted happ _ _ hone _ _ =>
      rw [hco] at happ
      exact absurd happ.length_eq hone

lemma not_yields_of_disturbed (hinv : ∀ data, decompress (c.compress data) = some data)
    (isFjord : Bool) (h : ¬ Undisturbed c false calls co) :
    ¬ Yields genesisTimestamp chainID decompress isFjord (addAll c calls co).2
      ((addAll c calls co).1.close c).1.compressed.written := by
  have hint : Intact c genesisTimestamp chainID false [] co := hco ▸ intact_new id _
  obtain ⟨hund, -⟩ | ⟨-, hspoil⟩ := hint.run calls
  · exact absurd hund h
  · obtain ⟨rlp, hexceeds, hwr⟩ := hspoil.close
    rw [hwr]
    exact hexceeds.not_yields (hinv rlp) isFjord

end New

end Yields

/-- The data of a channel of a span batch consists of the batches that were accepted exactly if the
first batch can be appended and the channel is not disturbed. -/
theorem span_channel_out_yields_accepted (c : ChannelCompressor) {decompress : Bytes → Option Bytes}
    (hinverse : ∀ data, decompress (c.compress data) = some data) (id : ChannelID)
    (genesisTimestamp : UInt64) (chainID : ℕ) (targetOutputSize : UInt64) (isFjord : Bool)
    (calls : List (SingularBatch × UInt64)) :
    Yields genesisTimestamp chainID decompress isFjord
      (addAll c calls (newSpanChannelOut c id genesisTimestamp chainID targetOutputSize)).2
      ((addAll c calls (newSpanChannelOut c id genesisTimestamp chainID targetOutputSize)).1.close
        c).1.compressed.written ↔
    (∃ call ∈ calls.head?,
      ((newSpanBatch genesisTimestamp chainID).appendSingularBatch call.1 call.2).2 = none) ∧
    Undisturbed c false calls
      (newSpanChannelOut c id genesisTimestamp chainID targetOutputSize) := by
  by_cases hund : Undisturbed c false calls
    (newSpanChannelOut c id genesisTimestamp chainID targetOutputSize)
  · obtain ⟨-, refused, hint, -⟩ | ⟨hnot, -⟩ :=
      (@intact_new c genesisTimestamp chainID id targetOutputSize).run calls
    · obtain ⟨rlp, henc, hwr⟩ := hint.close
      rw [hwr, and_iff_left hund]
      have hnil := accepted_eq_nil_iff rfl hund
      constructor
      · intro hyields
        -- no batch is read if none was accepted
        have hne : (addAll c calls
            (newSpanChannelOut c id genesisTimestamp chainID targetOutputSize)).2 ≠ [] := by
          intro heq
          obtain ⟨-, rfl⟩ | ⟨hne, -⟩ := henc
          · exact Exceeds.not_yields (.inl rfl) (hinverse []) isFjord hyields
          · exact hne heq
        obtain ⟨call, hcall⟩ := not_forall.mp (hnil.not.mp hne)
        obtain ⟨hmem, hok⟩ := Classical.not_imp.mp hcall
        exact ⟨call, hmem, not_not.mp hok⟩
      · rintro ⟨call, hmem, hok⟩
        exact henc.yields (hnil.not.mpr fun hall => hall call hmem hok) (hinverse rlp) isFjord
    · exact absurd hund hnot
  · exact iff_of_false (not_yields_of_disturbed rfl hinverse isFjord hund) fun hc => hund hc.2

/-! A channel that stores its input as it is, with a large target. -/

/-- The compressor that does nothing. -/
def plain : ChannelCompressor := ⟨[], fun data => data⟩

def plainID : ChannelID := ⟨List.replicate 16 7, List.length_replicate⟩

def twoBlocks : List (SingularBatch × UInt64) :=
  [(bareBatch 5 1 [bareTx (.legacy 7) 28], 0), (bareBatch 5 2 [], 1)]

theorem span_channel_out_yields_two_blocks :
    Yields 0 10 some true (addAll plain twoBlocks (newSpanChannelOut plain plainID 0 10 1000000000)).2
      ((addAll plain twoBlocks (newSpanChannelOut plain plainID 0 10 1000000000)).1.close
        plain).1.compressed.written ∧
    (addAll plain twoBlocks (newSpanChannelOut plain plainID 0 10 1000000000)).2 = twoBlocks := by
  have hfirst : ∃ call ∈ twoBlocks.head?,
      ((newSpanBatch 0 10).appendSingularBatch call.1 call.2).2 = none :=
    ⟨(bareBatch 5 1 [bareTx (.legacy 7) 28], 0), rfl, by decide⟩
  have hund : Undisturbed plain false twoBlocks
      (newSpanChannelOut plain plainID 0 10 1000000000) := by decide +kernel
  have hyields := (span_channel_out_yields_accepted plain (fun _ => rfl) plainID 0 10 1000000000 true
    twoBlocks).mpr ⟨hfirst, hund⟩
  exact ⟨hyields, by decide +kernel⟩

def dataTx (data : Bytes) : Transaction := { bareTx (.legacy 7) 28 with data := data }

lemma dataTx_signedFor (data : Bytes) : SignedFor 10 (dataTx data) :=
  ⟨(by decide : 1 < 2 ^ 256), (by decide : 1 < 2 ^ 256), 1, le_refl 1, .inl rfl⟩

lemma length_le_dataTx (data : Bytes) :
    data.length ≤ (encodeList (dataTx data).toSpanBatchTx.content).length := by
  have hlist := length_le_encodeList (dataTx data).toSpanBatchTx.content
  have hstr := length_le_encodeString data
  have hcont : (dataTx data).toSpanBatchTx.content =
      encodeNat 0 ++ encodeNat 7 ++ encodeString data := rfl
  rw [hcont, length_append] at hlist
  rw [hcont]
  omega

lemma unmarshalBinary_dataTx (hlen : data.length < 2 ^ 60) :
    Transaction.unmarshalBinary (dataTx data).marshalBinary = .ok (dataTx data) := by
  refine Transaction.unmarshalBinary_marshalBinary ?_
  have hstr := length_encodeString_le (lt_trans hlen (by decide))
  have hcont : (dataTx data).content.length = 5 + (encodeString data).length + 3 := by
    have heq : (dataTx data).content = encodeNat 0 ++ encodeNat 7 ++ encodeNat 0 ++
      encodeString [] ++ encodeNat 0 ++ encodeString data ++
      (encodeNat 28 ++ encodeNat 1 ++ encodeNat 1) := rfl
    rw [heq, length_append, length_append]
    rfl
  have hlist := @length_encodeList_le (dataTx data).content (by omega)
  omega

def oneBlock : SpanChannelOut :=
  ((newSpanChannelOut plain plainID 0 10 1000000000).addSingularBatch plain (bareBatch 5 1 []) 0).1

/-- A batch with a long transaction makes the encoding too long. -/
theorem appends_long (hlong : safeMaxRLPBytesPerChannel ≤ data.length) (hlen : data.length < 2 ^ 60) :
    ∃ sb raw rlp, Appends (bareBatch 5 2 [dataTx data], 1) oneBlock sb raw rlp ∧
      safeMaxRLPBytesPerChannel < rlp.length := by
  have happ : appendAll [(bareBatch 5 1 [], 0)] (newSpanBatch 0 10) =
      .ok oneBlock.spanBatch := by decide
  obtain ⟨txs, hholds⟩ := (holds_new 0 10).of_appendAll happ
  -- the batch is appended
  have hdec : (bareBatch 5 2 [dataTx data]).transactions.map Transaction.unmarshalBinary =
      [dataTx data].map .ok := congrArg (fun r => [r]) (unmarshalBinary_dataTx hlen)
  have hacc : ∀ tx ∈ [dataTx data], SpanBatchTxs.Accepts 10 tx :=
    forall_mem_singleton.mpr ((dataTx_signedFor data).accepts (by decide))
  have hord : InOrder ([] ++ [(bareBatch 5 1 [], (0 : UInt64))].map Prod.fst)
      (bareBatch 5 2 [dataTx data]) := by
    intro last hlast
    cases hlast
    show UInt64.ofNat 1 ≤ UInt64.ofNat 2
    decide
  obtain ⟨sb, hsb⟩ := hholds.append_of_accepts hord hdec hacc 1
  obtain ⟨-, new, -, hholds'⟩ := hholds.append hsb
  obtain ⟨raw, hraw⟩ := exists_toRawSpanBatch hsb
  obtain ⟨bytes, hbytes, -, -, hsizes⟩ := hholds'.exists_encode hraw
    (append_ne_nil_of_right_ne_nil _ (cons_ne_nil _ _))
  refine ⟨sb, raw, encodeString (1 :: bytes), ⟨hsb, hraw, ?_⟩, ?_⟩
  · rw [BatchData.encodeRLP, BatchData.encodeTyped, hbytes]
    rfl
  -- its transaction alone is too long
  · have hmem : dataTx data ∈ txs ++ new := by
      have htxs : (Except.ok (dataTx data) : Except TxError Transaction) ∈
          (txs ++ new).map .ok := by
        rw [← hholds'.txs_eq, ← unmarshalBinary_dataTx hlen]
        refine mem_map_of_mem (mem_flatMap.mpr ⟨bareBatch 5 2 [dataTx data], ?_, ?_⟩)
        · exact mem_append_right _ (mem_singleton_self _)
        · exact mem_singleton_self _
      obtain ⟨tx, htx, heq⟩ := mem_map.mp htxs
      rwa [Except.ok.inj heq] at htx
    have hsize := hsizes _ hmem
    have hdata := length_le_dataTx data
    have hrlp := length_le_encodeString (1 :: bytes)
    rw [length_cons] at hrlp
    omega

lemma disturbed_of_long (hlong : safeMaxRLPBytesPerChannel ≤ data.length)
    (hlen : data.length < 2 ^ 60) :
    (∃ channel batch, (oneBlock.addSingularBatch plain (bareBatch 5 2 [dataTx data]) 1).2 =
      some (.tooManyRLPBytes batch channel)) ∧
    ¬ Undisturbed plain false [(bareBatch 5 1 [], 0), (bareBatch 5 2 [dataTx data], 1)]
      (newSpanChannelOut plain plainID 0 10 1000000000) := by
  obtain ⟨sb, raw, rlp, happ, hrlp⟩ := appends_long hlong hlen
  have hopen : oneBlock.closed = false := by decide
  have hfull : oneBlock.full = none := by decide
  refine ⟨?_, fun h => ?_⟩
  · rw [happ.addSingularBatch_eq hopen hfull, checkRLP, if_pos hrlp]
    exact ⟨_, _, rfl⟩
  · have hfirst : (newSpanChannelOut plain plainID 0 10 1000000000).spanBatch.appendSingularBatch
        (bareBatch 5 1 []) 0 =
        (((newSpanBatch 0 10).appendSingularBatch (bareBatch 5 1 []) 0).1, none) := by
      decide
    obtain ⟨-, -, -, -, -, -, hnext⟩ := (undisturbed_of_append rfl hfirst).mp h
    exact not_le_of_gt hrlp ((happ.undisturbed hfull).mp hnext).1

/-- A batch whose transactions are refused, and a batch that makes the encoding too long: neither is
accepted, and what is output is not that of the accepted batches. -/
theorem span_channel_out_keeps_rejected :
    ((addAll plain [({ bareBatch 5 1 [] with transactions := [[]] }, 0), (bareBatch 5 2 [], 1)]
        (newSpanChannelOut plain plainID 0 10 1000000000)).2 = [(bareBatch 5 2 [], 1)] ∧
      ¬ Yields 0 10 some false
        (addAll plain [({ bareBatch 5 1 [] with transactions := [[]] }, 0), (bareBatch 5 2 [], 1)]
          (newSpanChannelOut plain plainID 0 10 1000000000)).2
        ((addAll plain [({ bareBatch 5 1 [] with transactions := [[]] }, 0), (bareBatch 5 2 [], 1)]
          (newSpanChannelOut plain plainID 0 10 1000000000)).1.close plain).1.compressed.written) ∧
    (∃ channel batch, (oneBlock.addSingularBatch plain
        (bareBatch 5 2 [dataTx (replicate 10000000 0)]) 1).2 =
          some (.tooManyRLPBytes batch channel)) ∧
      ¬ Yields 0 10 some false
        (addAll plain [(bareBatch 5 1 [], 0), (bareBatch 5 2 [dataTx (replicate 10000000 0)], 1)]
          (newSpanChannelOut plain plainID 0 10 1000000000)).2
        ((addAll plain [(bareBatch 5 1 [], 0), (bareBatch 5 2 [dataTx (replicate 10000000 0)], 1)]
          (newSpanChannelOut plain plainID 0 10 1000000000)).1.close plain).1.compressed.written := by
  have hlong : safeMaxRLPBytesPerChannel ≤ (replicate 10000000 (0 : UInt8)).length := by
    rw [length_replicate]
    decide
  have hlen : (replicate 10000000 (0 : UInt8)).length < 2 ^ 60 := by
    rw [length_replicate]
    decide
  obtain ⟨hrejected, hdisturbed⟩ := disturbed_of_long hlong hlen
  exact ⟨⟨by decide, not_yields_of_disturbed rfl (fun _ => rfl) false (by decide +kernel)⟩,
    hrejected, not_yields_of_disturbed rfl (fun _ => rfl) false hdisturbed⟩

end SpanChannelOut

end FightNight.Derive
