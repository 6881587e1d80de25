import FightNight.Derive.BatchData
import FightNight.Derive.Frame
import FightNight.Library.Forest

/-!
# Channels on the way out

The batcher writes batches to a channel, whose compressed bytes are output in frames
(`op-node/rollup/derive/channel_out.go`).  One kind of channel compresses each batch as it comes,
the other one keeps a single span batch; `ChannelOut` has the operations of both.

`OutputsFrames` says what they have in common: frames are read from a buffer in the order in which
it was written; before the channel is closed none of them is the last one, and afterwards the one
with which the buffer becomes empty is.
-/

namespace FightNight.Derive

open List hiding getElem?_eq_some_iff

def frameV0OverHeadSize : ℕ := 23

inductive ChannelOutError where
  /-- `ErrMaxFrameSizeTooSmall`. -/
  | maxFrameSizeTooSmall
  /-- `ErrTooManyRLPBytes`, with the bytes of the batch and those of the channel. -/
  | tooManyRLPBytes (batch channel : ℕ)
  /-- `ErrChannelOutAlreadyClosed`. -/
  | alreadyClosed
  /-- `ErrCompressorFull`. -/
  | compressorFull
  /-- `failed to append SingularBatch to SpanBatch`. -/
  | appending (cause : AppendError)
  /-- `failed to convert SpanBatch into RawSpanBatch`. -/
  | converting
  /-- `failed to encode RawSpanBatch into bytes`. -/
  | encoding (cause : SpanBatchError)
  /-- A frame has more data than there is in the buffer. -/
  | unexpectedEOF
  deriving DecidableEq

/-! ## Buffers -/

/-- `bytes.Buffer`: all bytes that were written to it, and how many of them were read. -/
structure Buffer where
  written : Bytes
  off : ℕ
  off_le : off ≤ written.length
  deriving DecidableEq

namespace Buffer

def ofBytes (bs : Bytes) : Buffer := ⟨bs, 0, Nat.zero_le _⟩

def len (b : Buffer) : ℕ := b.written.length - b.off

def write (bs : Bytes) (b : Buffer) : Buffer :=
  ⟨b.written ++ bs, b.off, le_trans b.off_le (length_append ▸ Nat.le_add_right _ _)⟩

/-- `io.ReadFull` with a slice of length `n`. -/
def readFull (n : ℕ) (b : Buffer) : Option (Bytes × Buffer) :=
  if h : b.off + n ≤ b.written.length then
    some ((b.written.drop b.off).take n, ⟨b.written, b.off + n, h⟩)
  else none

/-- What was read from a buffer is not changed. -/
structure Keeps (b b' : Buffer) : Prop where
  off_eq : b'.off = b.off
  take_eq : b'.written.take b.off = b.written.take b.off

lemma Keeps.refl (b : Buffer) : b.Keeps b := ⟨rfl, rfl⟩

variable {b b' : Buffer} {n : ℕ}

lemma Keeps.trans {b'' : Buffer} (h : b.Keeps b') (h' : b'.Keeps b'') : b.Keeps b'' :=
  ⟨h'.off_eq.trans h.off_eq, by rw [← h.off_eq, h'.take_eq, h.off_eq, h.take_eq]⟩

lemma keeps_write (b : Buffer) (bs : Bytes) : b.Keeps (b.write bs) :=
  ⟨rfl, take_append_of_le_length b.off_le⟩

lemma keeps_ofBytes (hoff : b.off = 0) (bs : Bytes) : b.Keeps (ofBytes bs) :=
  ⟨hoff.symm, by rw [hoff, take_zero, take_zero]⟩

lemma take_of_readFull {data : Bytes} (h : b.readFull n = some (data, b')) :
    b'.written = b.written ∧ b'.off = b.off + n ∧ data.length = n ∧
      b'.written.take b'.off = b.written.take b.off ++ data := by
  rw [readFull] at h
  split at h
  case isTrue hle =>
    cases h
    refine ⟨rfl, rfl, ?_, take_add⟩
    rw [length_take, length_drop]
    omega
  case isFalse => cases h

lemma exists_readFull (hn : n ≤ b.len) : ∃ data b', b.readFull n = some (data, b') := by
  have hoff := b.off_le
  have hle : b.off + n ≤ b.written.length := by
    rw [len] at hn
    omega
  exact ⟨_, _, dif_pos hle⟩

end Buffer

/-! ## Frames -/

def createEmptyFrame (id : ChannelID) (frame readyBytes : ℕ) (closed : Bool) (maxSize : ℕ) : Frame :=
  let fits := decide (readyBytes ≤ maxSize - frameV0OverHeadSize)
  ⟨id, Fin.ofNat _ frame,
    replicate (if fits then readyBytes else maxSize - frameV0OverHeadSize) 0, fits && closed⟩

/-- The part of a channel from which its frames are output: the compressed bytes, the number of the
next frame, and whether the channel is closed. -/
structure FrameSource where
  id : ChannelID
  frame : ℕ
  closed : Bool
  compressed : Buffer
  deriving DecidableEq

namespace FrameSource

/-- `OutputFrame`, when some bytes are ready; it returns `io.EOF` with the last frame. -/
def outputFrame (readyBytes maxSize : ℕ) (s : FrameSource) :
    Except ChannelOutError (Frame × FrameSource) :=
  if maxSize < frameV0OverHeadSize then .error .maxFrameSizeTooSmall
  else
    let f := createEmptyFrame s.id s.frame readyBytes s.closed maxSize
    match s.compressed.readFull f.data.length with
    | none => .error .unexpectedEOF
    | some (data, compressed) =>
      .ok ({ f with data := data }, { s with frame := s.frame + 1, compressed := compressed })

variable {s s' : FrameSource} {maxSize readyBytes : ℕ} {frames : List Frame} {f : Frame}

lemma outputFrame_eq_ok (h : s.outputFrame readyBytes maxSize = .ok (f, s')) :
    f.id = s.id ∧ f.frameNumber = Fin.ofNat _ s.frame ∧
      (f.isLast = true ↔ readyBytes ≤ maxSize - frameV0OverHeadSize ∧ s.closed = true) ∧
      f.data.length = min readyBytes (maxSize - frameV0OverHeadSize) ∧
      s'.id = s.id ∧ s'.frame = s.frame + 1 ∧ s'.closed = s.closed ∧
      s'.compressed.written = s.compressed.written ∧
      s'.compressed.off = s.compressed.off + f.data.length ∧
      s'.compressed.written.take s'.compressed.off =
        s.compressed.written.take s.compressed.off ++ f.data := by
  rw [outputFrame] at h
  split at h
  case isTrue => cases h
  case isFalse =>
    dsimp only at h
    split at h
    case h_1 => cases h
    case h_2 data b hread =>
      cases h
      obtain ⟨hwr, hoff, hlen, htake⟩ := Buffer.take_of_readFull hread
      refine ⟨rfl, rfl, ?_, ?_, rfl, rfl, rfl, hwr, ?_, htake⟩
      · simp [createEmptyFrame]
      · rw [hlen, createEmptyFrame, length_replicate]
        simp only [decide_eq_true_eq]
        split <;> omega
      · rw [hoff, hlen]

lemma len_of_outputFrame (h : s.outputFrame readyBytes maxSize = .ok (f, s')) :
    s'.compressed.len + f.data.length = s.compressed.len := by
  obtain ⟨-, -, -, -, -, -, -, hwr, hoff, -⟩ := outputFrame_eq_ok h
  have hle := s'.compressed.off_le
  rw [hwr] at hle
  rw [Buffer.len, Buffer.len, hwr]
  omega

lemma exists_outputFrame (hsize : frameV0OverHeadSize ≤ maxSize)
    (hready : readyBytes ≤ s.compressed.len) :
    ∃ f s', s.outputFrame readyBytes maxSize = .ok (f, s') := by
  have hle : (createEmptyFrame s.id s.frame readyBytes s.closed maxSize).data.length ≤
      s.compressed.len := by
    rw [createEmptyFrame, length_replicate]
    simp only [decide_eq_true_eq]
    split <;> omega
  obtain ⟨data, b, hread⟩ := Buffer.exists_readFull hle
  rw [outputFrame, if_neg (not_lt_of_ge hsize)]
  dsimp only
  rw [hread]
  exact ⟨_, _, rfl⟩

/-- What was output of a channel is not changed. -/
structure Extends (s s' : FrameSource) : Prop where
  id_eq : s'.id = s.id
  frame_eq : s'.frame = s.frame
  closed_eq : s'.closed = s.closed
  keeps : s.compressed.Keeps s'.compressed

lemma Extends.refl (s : FrameSource) : s.Extends s := ⟨rfl, rfl, rfl, .refl _⟩

lemma Extends.trans {s'' : FrameSource} (h : s.Extends s') (h' : s'.Extends s'') :
    s.Extends s'' :=
  ⟨h'.id_eq.trans h.id_eq, h'.frame_eq.trans h.frame_eq, h'.closed_eq.trans h.closed_eq,
    h.keeps.trans h'.keeps⟩

/-- The frames that were output of a channel. -/
structure Output (frames : List Frame) (s : FrameSource) : Prop where
  length_eq : frames.length = s.frame
  id_eq : ∀ f ∈ frames, f.id = s.id
  number_eq : ∀ i f, frames[i]? = some f → f.frameNumber = Fin.ofNat _ i
  data_eq : (frames.map Frame.data).flatten = s.compressed.written.take s.compressed.off

lemma Output.extends (h : s.Output frames) (hext : s.Extends s') : s'.Output frames where
  length_eq := h.length_eq.trans hext.frame_eq.symm
  id_eq f hf := (h.id_eq f hf).trans hext.id_eq.symm
  number_eq := h.number_eq
  data_eq := by rw [h.data_eq, hext.keeps.off_eq, hext.keeps.take_eq]

lemma Output.concat (h : s.Output frames) (hout : s.outputFrame readyBytes maxSize = .ok (f, s')) :
    s'.Output (frames ++ [f]) := by
  obtain ⟨hid, hnum, -, -, hid', hframe, -, -, -, htake⟩ := outputFrame_eq_ok hout
  refine ⟨?_, ?_, fun i g hg => ?_, ?_⟩
  · rw [length_append, h.length_eq, hframe]
    rfl
  · rw [hid']
    exact forall_mem_append.mpr ⟨h.id_eq, forall_mem_singleton.mpr hid⟩
  · rcases Forest.getElem?_concat_cases hg with ⟨hg, -⟩ | ⟨rfl, rfl⟩
    · exact h.number_eq i g hg
    · rw [hnum, h.length_eq]
  · rw [map_append, flatten_append, h.data_eq, htake]
    simp

end FrameSource

/-! ## The operations of a channel -/

/-- The interface `ChannelOut`; `outputFrame` returns the frame that is written to the buffer of the
caller, and `io.EOF` with it if it is the last one. -/
structure ChannelOut (σ : Type) where
  id : σ → ChannelID
  addSingularBatch : SingularBatch → UInt64 → σ → σ × Option ChannelOutError
  inputBytes : σ → ℕ
  readyBytes : σ → ℕ
  flush : σ → σ × Option ChannelOutError
  fullErr : σ → Option ChannelOutError
  close : σ → σ × Option ChannelOutError
  outputFrame : ℕ → σ → Except ChannelOutError (Frame × σ)

/-- A call to an open channel. -/
inductive ChannelOutOp where
  | addSingularBatch (batch : SingularBatch) (seqNum : UInt64)
  | flush
  | outputFrame (maxSize : ℕ)

namespace ChannelOut

variable {σ : Type} (ops : ChannelOut σ)

/-- The channel after a call, and the frames that were output. -/
def step (op : ChannelOutOp) (co : σ) : σ × List Frame :=
  match op with
  | .addSingularBatch batch seqNum => ((ops.addSingularBatch batch seqNum co).1, [])
  | .flush => ((ops.flush co).1, [])
  | .outputFrame maxSize =>
    match ops.outputFrame maxSize co with
    | .ok (f, co) => (co, [f])
    | .error _ => (co, [])

/-- The channel after some calls, and all frames that were output. -/
def run : List ChannelOutOp → σ → σ × List Frame
  | [], co => (co, [])
  | op :: rest, co =>
    let now := ops.step op co
    let later := run rest now.1
    (later.1, now.2 ++ later.2)

/-- Output frames of the given sizes until `io.EOF`; there is no result if they do not suffice, or with
another error. -/
def outputUntilEOF : List ℕ → σ → Option (List Frame × σ)
  | [], _ => none
  | maxSize :: sizes, co =>
    match ops.outputFrame maxSize co with
    | .error _ => none
    | .ok (f, co) =>
      if f.isLast then some ([f], co)
      else (outputUntilEOF sizes co).map fun r => (f :: r.1, r.2)

/-- What the channels have in common. -/
structure OutputsFrames where
  /-- What holds of a channel between calls. -/
  inv : σ → Prop
  source : σ → FrameSource
  id_eq : ∀ co, ops.id co = (source co).id
  add : ∀ {co}, inv co → ∀ batch seqNum, inv (ops.addSingularBatch batch seqNum co).1 ∧
    (source co).Extends (source (ops.addSingularBatch batch seqNum co).1)
  flush : ∀ {co}, inv co → inv (ops.flush co).1 ∧ (source co).Extends (source (ops.flush co).1)
  close : ∀ {co}, inv co → (source co).closed = false → inv (ops.close co).1 ∧
    { source co with closed := true }.Extends (source (ops.close co).1)
  readyBytes_le : ∀ {co}, inv co → ops.readyBytes co ≤ (source co).compressed.len
  readyBytes_of_closed : ∀ {co}, inv co → (source co).closed = true →
    ops.readyBytes co = (source co).compressed.len
  outputFrame : ∀ {co}, inv co → ∀ maxSize,
    (ops.outputFrame maxSize co).map (fun r => (r.1, source r.2)) =
      (source co).outputFrame (ops.readyBytes co) maxSize ∧
    ∀ f co', ops.outputFrame maxSize co = .ok (f, co') → inv co'

namespace OutputsFrames

variable {ops} (lawful : ops.OutputsFrames)

/-- An open channel of which some frames were output. -/
structure Open (id : ChannelID) (frames : List Frame) (co : σ) : Prop where
  inv : lawful.inv co
  closed_eq : (lawful.source co).closed = false
  id_eq : (lawful.source co).id = id
  output : (lawful.source co).Output frames
  notLast : ∀ f ∈ frames, f.isLast = false

variable {lawful} {co : σ} {id : ChannelID} {frames : List Frame}

/-- A call to an open channel outputs frames that are not the last one. -/
theorem Open.step (h : lawful.Open id frames co) (op : ChannelOutOp) :
    lawful.Open id (frames ++ (ops.step op co).2) (ops.step op co).1 := by
  cases op with
  | addSingularBatch batch seqNum =>
    obtain ⟨hinv, hext⟩ := lawful.add h.inv batch seqNum
    rw [ChannelOut.step, append_nil]
    exact ⟨hinv, hext.closed_eq.trans h.closed_eq, hext.id_eq.trans h.id_eq, h.output.extends hext,
      h.notLast⟩
  | flush =>
    obtain ⟨hinv, hext⟩ := lawful.flush h.inv
    rw [ChannelOut.step, append_nil]
    exact ⟨hinv, hext.closed_eq.trans h.closed_eq, hext.id_eq.trans h.id_eq, h.output.extends hext,
      h.notLast⟩
  | outputFrame maxSize =>
    obtain ⟨hmap, hinv⟩ := lawful.outputFrame h.inv maxSize
    rw [ChannelOut.step]
    cases hcall : ops.outputFrame maxSize co with
    | error e => rwa [append_nil]
    | ok r =>
      obtain ⟨f, co'⟩ := r
      rw [hcall] at hmap
      obtain ⟨-, -, hlast, -, hid, -, hcl, -⟩ := FrameSource.outputFrame_eq_ok hmap.symm
      have hnot : f.isLast = false := Bool.eq_false_iff.mpr fun hc => by
        have hopen := h.closed_eq
        rw [(hlast.mp hc).2] at hopen
        cases hopen
      exact ⟨hinv f co' hcall, hcl.trans h.closed_eq, hid.trans h.id_eq,
        h.output.concat hmap.symm, forall_mem_append.mpr ⟨h.notLast, forall_mem_singleton.mpr hnot⟩⟩

lemma Open.run (h : lawful.Open id frames co) (actions : List ChannelOutOp) :
    lawful.Open id (frames ++ (ops.run actions co).2) (ops.run actions co).1 := by
  induction actions generalizing co frames with
  | nil => rwa [run, append_nil]
  | cons op rest ih =>
    have hrest := ih (h.step op)
    rwa [append_assoc] at hrest

lemma Open.close (h : lawful.Open id frames co) :
    lawful.inv (ops.close co).1 ∧ (lawful.source (ops.close co).1).closed = true ∧
      (lawful.source (ops.close co).1).id = id ∧
      (lawful.source (ops.close co).1).Output frames := by
  obtain ⟨hinv, hext⟩ := lawful.close h.inv h.closed_eq
  have hcl : { lawful.source co with closed := true }.Output frames :=
    ⟨h.output.length_eq, h.output.id_eq, h.output.number_eq, h.output.data_eq⟩
  exact ⟨hinv, hext.closed_eq, hext.id_eq.trans h.id_eq, hcl.extends hext⟩

variable (lawful)

variable {sizes : List ℕ}

/-- The frames of a closed channel: only the last one is marked as such, and with it all compressed
bytes were output. -/
theorem outputUntilEOF (hinv : lawful.inv co) (hcl : (lawful.source co).closed = true)
    {before : List Frame} (hout : (lawful.source co).Output before) {co' : σ}
    (hrun : ops.outputUntilEOF sizes co = some (frames, co')) :
    (∃ init last, frames = init ++ [last] ∧ (∀ f ∈ init, f.isLast = false) ∧ last.isLast = true) ∧
      (∀ f ∈ before ++ frames, f.id = (lawful.source co).id) ∧
      (∀ i f, (before ++ frames)[i]? = some f → f.frameNumber = Fin.ofNat _ i) ∧
      ((before ++ frames).map Frame.data).flatten = (lawful.source co).compressed.written := by
  induction sizes generalizing co before frames with
  | nil => cases hrun
  | cons maxSize sizes ih =>
    obtain ⟨hmap, hinv'⟩ := lawful.outputFrame hinv maxSize
    rw [outputUntilEOF] at hrun
    cases hcall : ops.outputFrame maxSize co with
    | error e =>
      rw [hcall] at hrun
      cases hrun
    | ok r =>
      obtain ⟨f, co₁⟩ := r
      rw [hcall] at hmap hrun
      obtain ⟨-, -, hlast, hlen, hid, -, hclosed₁, hwr, hoff, -⟩ :=
        FrameSource.outputFrame_eq_ok hmap.symm
      have hout₁ := hout.concat hmap.symm
      dsimp only at hrun
      cases hisLast : f.isLast with
      | true =>
        rw [hisLast] at hrun
        cases hrun
        refine ⟨⟨[], f, rfl, nofun, hisLast⟩, fun g hg => ?_, hout₁.number_eq, ?_⟩
        · exact (hout₁.id_eq g hg).trans hid
        · -- everything that was ready fits in the frame
          have hready := lawful.readyBytes_of_closed hinv hcl
          have hle := (hlast.mp hisLast).1
          rw [hout₁.data_eq, hwr, take_of_length_le]
          rw [Buffer.len] at hready
          omega
      | false =>
        rw [hisLast] at hrun
        obtain ⟨⟨more, co₂⟩, hmore, heq⟩ := Option.map_eq_some_iff.mp hrun
        cases heq
        obtain ⟨⟨init, last, rfl, hinit, hlast'⟩, hids, hnums, hdata⟩ :=
          ih (hinv' f co₁ hcall) (hclosed₁.trans hcl) hout₁ hmore
        rw [append_assoc] at hids hnums hdata
        refine ⟨⟨f :: init, last, rfl, forall_mem_cons.mpr ⟨hisLast, hinit⟩, hlast'⟩,
          fun g hg => (hids g hg).trans hid, hnums, hdata.trans hwr⟩

/-- A closed channel comes to its end when there are more calls than bytes. -/
theorem isSome_outputUntilEOF (hinv : lawful.inv co) (hcl : (lawful.source co).closed = true)
    (hsizes : ∀ maxSize ∈ sizes, frameV0OverHeadSize < maxSize)
    (hlen : (lawful.source co).compressed.len < sizes.length) :
    (ops.outputUntilEOF sizes co).isSome = true := by
  induction sizes generalizing co with
  | nil => cases hlen
  | cons maxSize sizes ih =>
    obtain ⟨hsize, hrest⟩ := forall_mem_cons.mp hsizes
    obtain ⟨hmap, hinv'⟩ := lawful.outputFrame hinv maxSize
    have hready := lawful.readyBytes_of_closed hinv hcl
    obtain ⟨f, s', hframe⟩ := FrameSource.exists_outputFrame hsize.le hready.le
    obtain ⟨-, -, hlast, hdata, -, -, hclosed₁, hwr, hoff, -⟩ :=
      FrameSource.outputFrame_eq_ok hframe
    rw [hframe] at hmap
    obtain ⟨⟨g, co₁⟩, hcall, heq⟩ : ∃ r, ops.outputFrame maxSize co = .ok r ∧
        (r.1, lawful.source r.2) = (f, s') := by
      cases hcall : ops.outputFrame maxSize co with
      | error e =>
        rw [hcall] at hmap
        cases hmap
      | ok r =>
        rw [hcall] at hmap
        exact ⟨r, rfl, Except.ok.inj hmap⟩
    cases heq
    rw [ChannelOut.outputUntilEOF, hcall]
    dsimp only
    cases hisLast : g.isLast with
    | true => rfl
    | false =>
      rw [if_neg Bool.false_ne_true, Option.isSome_map]
      refine ih (hinv' g co₁ hcall) (hclosed₁.trans hcl) hrest ?_
      -- at least one byte was output
      have hmore : ¬ ops.readyBytes co ≤ maxSize - frameV0OverHeadSize := fun hle => by
        rw [hlast.mpr ⟨hle, hcl⟩] at hisLast
        cases hisLast
      rw [Buffer.len] at hready hlen ⊢
      rw [length_cons] at hlen
      rw [hwr, hoff]
      omega

/-- Closing an open channel does not fail, and frames are taken from the bytes that are ready. -/
structure Drains : Prop where
  close_eq : ∀ {co}, lawful.inv co → (lawful.source co).closed = false → (ops.close co).2 = none
  readyBytes_eq : ∀ {co maxSize f co'}, lawful.inv co → ops.outputFrame maxSize co = .ok (f, co') →
    ops.readyBytes co' + f.data.length = ops.readyBytes co

/-- Frames are taken from the bytes that are ready. -/
def TakesReady : Prop := ∀ co maxSize f co', lawful.inv co →
  ops.outputFrame maxSize co = .ok (f, co') → ops.readyBytes co' + f.data.length = ops.readyBytes co

end OutputsFrames

end ChannelOut

/-! ## Channels of singular batches -/

/-- The interface `Compressor`: what becomes of its state and which bytes are added to the buffer of
compressed bytes.  What `Write` does may depend on the number of bytes in the buffer. -/
structure Compressor (S : Type) where
  write : Bytes → ℕ → S → S × Bytes × Option ChannelOutError
  flush : S → S × Bytes × Option ChannelOutError
  close : S → S × Bytes × Option ChannelOutError
  fullErr : S → Option ChannelOutError

structure SingularChannelOut (S : Type) extends FrameSource where
  rlpLength : ℕ
  compress : S

namespace SingularChannelOut

variable {S : Type} (c : Compressor S)

/-- `NewSingularChannelOut`, with the random identifier and what the compressor starts with. -/
def newSingularChannelOut (id : ChannelID) (compress : S) (initial : Bytes) : SingularChannelOut S :=
  ⟨⟨id, 0, false, .ofBytes initial⟩, 0, compress⟩

/-- What a call to the compressor does to the channel. -/
def store (r : S × Bytes × Option ChannelOutError) (co : SingularChannelOut S) :
    SingularChannelOut S × Option ChannelOutError :=
  ({ co with compress := r.1, compressed := co.compressed.write r.2.1 }, r.2.2)

def addSingularBatch (batch : SingularBatch) (_seqNum : UInt64) (co : SingularChannelOut S) :
    SingularChannelOut S × Option ChannelOutError :=
  if co.closed then (co, some .alreadyClosed)
  else
    match (BatchData.singular batch).encodeRLP with
    | .error e => (co, some (.encoding e))
    | .ok buf =>
      if safeMaxRLPBytesPerChannel < co.rlpLength + buf.length then
        (co, some (.tooManyRLPBytes buf.length co.rlpLength))
      else
        store (c.write buf co.compressed.len co.compress)
          { co with rlpLength := co.rlpLength + buf.length }

def flush (co : SingularChannelOut S) : SingularChannelOut S × Option ChannelOutError :=
  store (c.flush co.compress) co

def close (co : SingularChannelOut S) : SingularChannelOut S × Option ChannelOutError :=
  if co.closed then (co, some .alreadyClosed)
  else store (c.close co.compress) { co with closed := true }

def outputFrame (maxSize : ℕ) (co : SingularChannelOut S) :
    Except ChannelOutError (Frame × SingularChannelOut S) := do
  let (f, source) ← co.toFrameSource.outputFrame co.compressed.len maxSize
  .ok (f, { co with toFrameSource := source })

/-- The operations of `SingularChannelOut`. -/
def channelOut : ChannelOut (SingularChannelOut S) where
  id co := co.id
  addSingularBatch := addSingularBatch c
  inputBytes co := co.rlpLength
  readyBytes co := co.compressed.len
  flush := flush c
  fullErr co := c.fullErr co.compress
  close := close c
  outputFrame := outputFrame

lemma extends_store (r : S × Bytes × Option ChannelOutError) (co : SingularChannelOut S) :
    co.toFrameSource.Extends (store r co).1.toFrameSource :=
  ⟨rfl, rfl, rfl, co.compressed.keeps_write _⟩

/-- Frames are output of a channel of singular batches. -/
def outputsFrames : (channelOut c).OutputsFrames where
  inv _ := True
  source := toFrameSource
  id_eq _ := rfl
  add := by
    intro co _ batch seqNum
    refine ⟨trivial, ?_⟩
    show co.toFrameSource.Extends (addSingularBatch c batch seqNum co).1.toFrameSource
    unfold addSingularBatch
    split
    · exact .refl _
    · split
      · exact .refl _
      · split
        · exact .refl _
        · exact extends_store _ { co with rlpLength := _ }
  flush := fun _ => ⟨trivial, extends_store _ _⟩
  close := by
    intro co _ hopen
    have hnot : ¬ co.closed = true := Bool.eq_false_iff.mp hopen
    refine ⟨trivial, ?_⟩
    show FrameSource.Extends _ (close c co).1.toFrameSource
    rw [close, if_neg hnot]
    exact extends_store _ { co with closed := true }
  readyBytes_le := fun _ => le_refl _
  readyBytes_of_closed := fun _ _ => rfl
  outputFrame := by
    intro co _ maxSize
    refine ⟨?_, fun _ _ _ => trivial⟩
    show (outputFrame maxSize co).map _ = co.toFrameSource.outputFrame co.compressed.len maxSize
    rw [outputFrame]
    cases co.toFrameSource.outputFrame co.compressed.len maxSize <;> rfl

lemma open_newSingularChannelOut (id : ChannelID) (compress : S) (initial : Bytes) :
    (outputsFrames c).Open id [] (newSingularChannelOut id compress initial) :=
  ⟨trivial, rfl, rfl, ⟨rfl, nofun, nofun, rfl⟩,
    nofun⟩

lemma takesReady : (outputsFrames c).TakesReady := by
  intro co maxSize f co' _ hcall
  obtain ⟨⟨g, s'⟩, hsrc, heq⟩ := Except.bind_eq_ok.mp hcall
  cases heq
  exact FrameSource.len_of_outputFrame hsrc

lemma drains (hclose : ∀ s, (c.close s).2.2 = none) : (outputsFrames c).Drains where
  close_eq := by
    intro co _ hopen
    have hnot : ¬ co.closed = true := Bool.eq_false_iff.mp hopen
    show (close c co).2 = none
    rw [close, if_neg hnot]
    exact hclose _
  readyBytes_eq := takesReady c _ _ _ _

end SingularChannelOut

end FightNight.Derive
