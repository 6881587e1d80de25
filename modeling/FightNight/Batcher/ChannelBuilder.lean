import FightNight.Derive.ChannelOut

/-!
# Building channels

A channel builder (`op-batcher/batcher/channel_builder.go`,
`op-batcher/batcher/channel_config.go`) adds L2 blocks to a channel until it is full, for one of
several reasons, and outputs its frames to a queue: before the channel is full only frames for
which there are enough bytes, afterwards all.

The loops that output frames need not end.  They are given as many rounds as there are bytes
ready, and one more; what uses up all of them has no result.
-/

namespace FightNight.Batcher

open Option List
open Derive

/-! ## Blocks -/

/-- A transaction of an L2 block: a deposit with its data, or another one with its encoding. -/
inductive BlockTx where
  | deposit (data : Bytes)
  | other (encoded : Bytes)
  deriving DecidableEq

/-- The hash that stands for no block. -/
def zeroHash : Hash := ⟨replicate 32 0, length_zeros32⟩

/-- `types.Block`.  The hash of a block is not the zero hash, which stands for no block. -/
structure Block where
  hash : Hash
  parentHash : Hash
  time : UInt64
  transactions : List BlockTx
  hash_ne : hash.1 ≠ replicate 32 0
  deriving DecidableEq

structure BlockID where
  hash : Hash
  number : UInt64
  deriving DecidableEq

/-- `derive.L1BlockInfo`, as far as it is used. -/
structure L1BlockInfo where
  number : UInt64
  blockHash : Hash
  sequenceNumber : UInt64
  deriving DecidableEq

/-- The errors of `BlockToSingularBatch`. -/
inductive BlockError where
  | noTransactions
  /-- `ErrNotDepositTx`. -/
  | notDepositTx
  /-- `could not parse the L1 Info deposit`. -/
  | l1Info
  deriving DecidableEq

/-- `BlockToSingularBatch`, with what reads the data of the first deposit. -/
def blockToSingularBatch (l1BlockInfoFromBytes : UInt64 → Bytes → Option L1BlockInfo) (block : Block) :
    Except BlockError (SingularBatch × L1BlockInfo) :=
  match block.transactions with
  | [] => .error .noTransactions
  | .other _ :: _ => .error .notDepositTx
  | .deposit data :: rest =>
    match l1BlockInfoFromBytes block.time data with
    | none => .error .l1Info
    | some l1Info =>
      let opaqueTxs := rest.filterMap fun tx => match tx with
        | .deposit _ => none
        | .other encoded => some encoded
      .ok (⟨block.parentHash, l1Info.number, l1Info.blockHash, block.time, opaqueTxs⟩, l1Info)

/-! ## Configurations -/

/-- `ChannelConfig`, without the configuration of the compressor. -/
structure ChannelConfig where
  seqWindowSize : UInt64
  channelTimeout : UInt64
  maxChannelDuration : UInt64
  subSafetyMargin : UInt64
  maxFrameSize : UInt64
  targetNumFrames : ℤ
  batchType : ℕ
  multiFrameTxs : Bool

/-- The errors of `Check`. -/
inductive ConfigError where
  /-- `ErrInvalidChannelTimeout`. -/
  | invalidChannelTimeout
  /-- `max frame size is less than the minimum`. -/
  | maxFrameSize (size : UInt64)
  /-- `unrecognized batch type`. -/
  | batchType (type : ℕ)
  /-- `invalid number of frames`. -/
  | numFrames (nf : ℤ)
  deriving DecidableEq

namespace ChannelConfig

def maxFramesPerTx (cc : ChannelConfig) : ℤ :=
  if cc.multiFrameTxs then cc.targetNumFrames else 1

def check (cc : ChannelConfig) : Option ConfigError :=
  if cc.channelTimeout < cc.subSafetyMargin then some .invalidChannelTimeout
  else if cc.maxFrameSize.toNat < frameV0OverHeadSize then some (.maxFrameSize cc.maxFrameSize)
  else if 1 < cc.batchType then some (.batchType cc.batchType)
  else if cc.targetNumFrames < 1 then some (.numFrames cc.targetNumFrames)
  else none

def intMaxFrameSize (cc : ChannelConfig) : ℤ := cc.maxFrameSize.toBitVec.toInt

variable {cc : ChannelConfig}

lemma check_eq_none :
    cc.check = none ↔ cc.subSafetyMargin ≤ cc.channelTimeout ∧
      frameV0OverHeadSize ≤ cc.maxFrameSize.toNat ∧ cc.batchType ≤ 1 ∧ 1 ≤ cc.targetNumFrames := by
  rw [← UInt64.not_lt, ← not_lt, ← not_lt, ← not_lt]
  unfold check
  split_ifs <;> simp [*]

lemma one_le_maxFramesPerTx (h : cc.check = none) : 1 ≤ cc.maxFramesPerTx := by
  obtain ⟨-, -, -, htgt⟩ := check_eq_none.mp h
  rw [maxFramesPerTx]
  split
  · exact htgt
  · exact le_refl _

end ChannelConfig

/-- What a builder works with: its configuration, the operations of its channel, and what reads the
first deposit of a block. -/
structure Setup (σ : Type) where
  cfg : ChannelConfig
  ops : ChannelOut σ
  l1BlockInfoFromBytes : UInt64 → Bytes → Option L1BlockInfo

/-! ## Builders -/

inductive FullReason where
  /-- An error of the channel. -/
  | channelOut (err : ChannelOutError)
  /-- `ErrMaxFrameIndex`. -/
  | maxFrameIndex
  /-- `ErrMaxDurationReached`. -/
  | maxDurationReached
  /-- `ErrChannelTimeoutClose`. -/
  | channelTimeoutClose
  /-- `ErrSeqWindowClose`. -/
  | seqWindowClose
  /-- `ErrTerminated`. -/
  | terminated
  deriving DecidableEq

structure ChannelFullError where
  err : Option FullReason
  deriving DecidableEq

/-- The errors of `AddBlock`. -/
inductive AddBlockError where
  | full (err : ChannelFullError)
  /-- `converting block to batch`. -/
  | converting (err : BlockError)
  /-- `adding block to channel out`. -/
  | adding (err : ChannelOutError)
  deriving DecidableEq

/-- `ErrTooManyRLPBytes` and `ErrCompressorFull`, after which the channel is full. -/
def marksFull : ChannelOutError → Bool
  | .tooManyRLPBytes _ _ => true
  | .compressorFull => true
  | _ => false

/-- `ChannelBuilder`.  The entries of its queue are frames: the data of an entry is the encoding of the
frame, and its identifier the identifier and the number of the frame. -/
structure ChannelBuilder (σ : Type) where
  co : σ
  timeout : UInt64
  timeoutReason : Option FullReason
  fullErr : Option ChannelFullError
  blocks : List Block
  latestL1Origin : BlockID
  frames : List Frame

namespace ChannelBuilder

variable {σ : Type} (env : Setup σ)

def updateTimeout (timeoutBlockNum : UInt64) (reason : FullReason) (cb : ChannelBuilder σ) :
    ChannelBuilder σ :=
  if cb.timeout = 0 ∨ timeoutBlockNum < cb.timeout then
    { cb with timeout := timeoutBlockNum, timeoutReason := some reason }
  else cb

def updateDurationTimeout (l1BlockNum : UInt64) (cb : ChannelBuilder σ) : ChannelBuilder σ :=
  if env.cfg.maxChannelDuration = 0 then cb
  else cb.updateTimeout (l1BlockNum + env.cfg.maxChannelDuration) .maxDurationReached

def updateSwTimeout (batch : SingularBatch) (cb : ChannelBuilder σ) : ChannelBuilder σ :=
  cb.updateTimeout (batch.epochNum + env.cfg.seqWindowSize - env.cfg.subSafetyMargin) .seqWindowClose

def framePublished (l1BlockNum : UInt64) (cb : ChannelBuilder σ) : ChannelBuilder σ :=
  cb.updateTimeout (l1BlockNum + env.cfg.channelTimeout - env.cfg.subSafetyMargin) .channelTimeoutClose

/-- `NewChannelBuilder`, with the new channel. -/
def newChannelBuilder (co : σ) (latestL1OriginBlockNum : UInt64) : ChannelBuilder σ :=
  updateDurationTimeout env latestL1OriginBlockNum
    ⟨co, 0, none, none, [], ⟨zeroHash, 0⟩, []⟩

def isFull (cb : ChannelBuilder σ) : Bool := cb.fullErr.isSome

def setFullErr (reason : Option FullReason) (cb : ChannelBuilder σ) : ChannelBuilder σ :=
  { cb with fullErr := some ⟨reason⟩ }

def timedOut (blockNum : UInt64) (cb : ChannelBuilder σ) : Bool :=
  cb.timeout ≠ 0 ∧ cb.timeout ≤ blockNum

def checkTimeout (l1BlockNum : UInt64) (cb : ChannelBuilder σ) : ChannelBuilder σ :=
  if ¬ cb.isFull ∧ cb.timedOut l1BlockNum then cb.setFullErr cb.timeoutReason else cb

def close (cb : ChannelBuilder σ) : ChannelBuilder σ :=
  if cb.isFull then cb else cb.setFullErr (some .terminated)

/-- The part of `AddBlock` that updates the latest L1 origin. -/
def updateLatestL1Origin (l1Info : L1BlockInfo) (cb : ChannelBuilder σ) : ChannelBuilder σ :=
  if cb.latestL1Origin.number < l1Info.number then
    { cb with latestL1Origin := ⟨l1Info.blockHash, l1Info.number⟩ }
  else cb

/-- The part of `AddBlock` that marks the builder as full when the channel is. -/
def checkFullErr (cb : ChannelBuilder σ) : ChannelBuilder σ :=
  match env.ops.fullErr cb.co with
  | some err => cb.setFullErr (some (.channelOut err))
  | none => cb

def addBlock (block : Block) (cb : ChannelBuilder σ) : ChannelBuilder σ × Option AddBlockError :=
  match cb.fullErr with
  | some err => (cb, some (.full err))
  | none =>
    match blockToSingularBatch env.l1BlockInfoFromBytes block with
    | .error err => (cb, some (.converting err))
    | .ok (batch, l1Info) =>
      match env.ops.addSingularBatch batch l1Info.sequenceNumber cb.co with
      | (co, some err) =>
        let cb := { cb with co := co }
        if marksFull err then
          (cb.setFullErr (some (.channelOut err)), some (.full ⟨some (.channelOut err)⟩))
        else (cb, some (.adding err))
      | (co, none) =>
        let cb := updateSwTimeout env batch { cb with co := co, blocks := cb.blocks ++ [block] }
        (checkFullErr env (cb.updateLatestL1Origin l1Info), none)

/-- The loop of `processBlocks`: the builder after adding blocks until it is full, how many were added,
and an error other than that it is full. -/
def addBlocks : List Block → ChannelBuilder σ → ChannelBuilder σ × ℕ × Option AddBlockError
  | [], cb => (cb, 0, none)
  | block :: rest, cb =>
    match addBlock env block cb with
    | (cb, some (.full _)) => (cb, 0, none)
    | (cb, some err) => (cb, 0, some err)
    | (cb, none) =>
      if cb.isFull then (cb, 1, none)
      else
        let r := addBlocks rest cb
        (r.1, r.2.1 + 1, r.2.2)

/-- `outputFrame`; it returns `io.EOF` if the frame is the last one. -/
def outputFrame (cb : ChannelBuilder σ) : Except ChannelOutError (Frame × ChannelBuilder σ) :=
  match env.ops.outputFrame env.cfg.maxFrameSize.toNat cb.co with
  | .error err => .error err
  | .ok (f, co) =>
    let cb := { cb with co := co }
    let cb := if f.frameNumber = Fin.last _ then cb.setFullErr (some .maxFrameIndex) else cb
    .ok (f, { cb with frames := cb.frames ++ [f] })

def outputReadyFrames : ℕ → ChannelBuilder σ → Option (ChannelBuilder σ × Option ChannelOutError)
  | rounds, cb =>
    if (env.ops.readyBytes cb.co + frameV0OverHeadSize : ℤ) < env.cfg.intMaxFrameSize then some (cb, none)
    else
      match rounds with
      | 0 => none
      | rounds + 1 =>
        match outputFrame env cb with
        | .error err => some (cb, some err)
        | .ok (f, cb) => if f.isLast then some (cb, none) else outputReadyFrames rounds cb

/-- The loop of `closeAndOutputAllFrames`. -/
def outputAllFrames : ℕ → ChannelBuilder σ → Option (ChannelBuilder σ × Option ChannelOutError)
  | 0, _ => none
  | rounds + 1, cb =>
    match outputFrame env cb with
    | .error err => some (cb, some err)
    | .ok (f, cb) => if f.isLast then some (cb, none) else outputAllFrames rounds cb

def closeAndOutputAllFrames (cb : ChannelBuilder σ) :
    Option (ChannelBuilder σ × Option ChannelOutError) :=
  match env.ops.close cb.co with
  | (co, some err) => some ({ cb with co := co }, some err)
  | (co, none) => outputAllFrames env (env.ops.readyBytes co + 1) { cb with co := co }

def outputFrames (cb : ChannelBuilder σ) : Option (ChannelBuilder σ × Option ChannelOutError) :=
  if cb.isFull then closeAndOutputAllFrames env cb
  else outputReadyFrames env (env.ops.readyBytes cb.co + 1) cb

/-! ## What a builder does to its blocks and frames -/

/-- A builder that differs in its timeout, its latest L1 origin, or in why it is full. -/
structure Same (cb cb' : ChannelBuilder σ) : Prop where
  co_eq : cb'.co = cb.co
  blocks_eq : cb'.blocks = cb.blocks
  frames_eq : cb'.frames = cb.frames

variable {err : Option ChannelOutError} {rounds : ℕ} {cb'' : ChannelBuilder σ} {added : List Block}

lemma Same.trans {cb cb' : ChannelBuilder σ} (h : cb.Same cb') (h' : cb'.Same cb'') :
    cb.Same cb'' :=
  ⟨h'.co_eq.trans h.co_eq, h'.blocks_eq.trans h.blocks_eq, h'.frames_eq.trans h.frames_eq⟩

lemma same_updateTimeout (n : UInt64) (reason : FullReason) (cb : ChannelBuilder σ) :
    cb.Same (cb.updateTimeout n reason) := by
  unfold updateTimeout
  split <;> exact ⟨rfl, rfl, rfl⟩

lemma blocks_newChannelBuilder (co : σ) (n : UInt64) : (newChannelBuilder env co n).blocks = [] := by
  rw [newChannelBuilder, updateDurationTimeout]
  split
  · rfl
  · exact (same_updateTimeout _ _ _).blocks_eq

lemma isFull_updateTimeout (n : UInt64) (reason : FullReason) (cb : ChannelBuilder σ) :
    (cb.updateTimeout n reason).isFull = cb.isFull := by
  unfold updateTimeout
  split <;> rfl

lemma same_updateLatestL1Origin (l1Info : L1BlockInfo) (cb : ChannelBuilder σ) :
    cb.Same (cb.updateLatestL1Origin l1Info) := by
  unfold updateLatestL1Origin
  split <;> exact ⟨rfl, rfl, rfl⟩

lemma isFull_updateLatestL1Origin (l1Info : L1BlockInfo) (cb : ChannelBuilder σ) :
    (cb.updateLatestL1Origin l1Info).isFull = cb.isFull := by
  unfold updateLatestL1Origin
  split <;> rfl

lemma same_checkFullErr (cb : ChannelBuilder σ) : cb.Same (checkFullErr env cb) := by
  unfold checkFullErr
  split <;> exact ⟨rfl, rfl, rfl⟩

lemma same_recorded (batch : SingularBatch) (l1Info : L1BlockInfo) (cb : ChannelBuilder σ) :
    cb.Same (checkFullErr env ((updateSwTimeout env batch cb).updateLatestL1Origin l1Info)) :=
  ((same_updateTimeout _ _ cb).trans (same_updateLatestL1Origin l1Info _)).trans
    (same_checkFullErr env _)

lemma same_checkTimeout (n : UInt64) (cb : ChannelBuilder σ) : cb.Same (cb.checkTimeout n) := by
  unfold checkTimeout
  split <;> exact ⟨rfl, rfl, rfl⟩

lemma same_close (cb : ChannelBuilder σ) : cb.Same cb.close := by
  unfold close
  split <;> exact ⟨rfl, rfl, rfl⟩

lemma isFull_close (cb : ChannelBuilder σ) : cb.close.isFull = true := by
  unfold close
  split
  case isTrue h => exact h
  case isFalse => rfl

/-- Some batches are added to a channel, with or without success. -/
def AddsBatches : σ → σ → Prop :=
  Relation.ReflTransGen fun co co' => ∃ batch seqNum, co' = (env.ops.addSingularBatch batch seqNum co).1

/-- Some blocks are added to a builder. -/
structure Adds (added : List Block) (cb cb' : ChannelBuilder σ) : Prop where
  batches : AddsBatches env cb.co cb'.co
  blocks_eq : cb'.blocks = cb.blocks ++ added
  frames_eq : cb'.frames = cb.frames

lemma Adds.refl (cb : ChannelBuilder σ) : Adds env [] cb cb :=
  ⟨.refl, (append_nil _).symm, rfl⟩

lemma Adds.trans {added' : List Block} {cb cb' : ChannelBuilder σ} (h : Adds env added cb cb')
    (h' : Adds env added' cb' cb'') :
    Adds env (added ++ added') cb cb'' where
  batches := h.batches.trans h'.batches
  blocks_eq := by rw [h'.blocks_eq, h.blocks_eq, append_assoc]
  frames_eq := h'.frames_eq.trans h.frames_eq

lemma adds_addBlock (block : Block) (cb : ChannelBuilder σ) :
    Adds env (if (addBlock env block cb).2 = none then [block] else []) cb (addBlock env block cb).1 := by
  cases hfull : cb.fullErr with
  | some err =>
    simp only [addBlock, hfull]
    exact .refl env cb
  | none =>
    cases hconv : blockToSingularBatch env.l1BlockInfoFromBytes block with
    | error err =>
      simp only [addBlock, hfull, hconv]
      exact .refl env cb
    | ok r =>
      obtain ⟨batch, l1Info⟩ := r
      have hstep : AddsBatches env cb.co
          (env.ops.addSingularBatch batch l1Info.sequenceNumber cb.co).1 :=
        .single ⟨batch, l1Info.sequenceNumber, rfl⟩
      rcases hadd : env.ops.addSingularBatch batch l1Info.sequenceNumber cb.co with ⟨co, res⟩
      rw [hadd] at hstep
      cases res with
      | some err =>
        simp only [addBlock, hfull, hconv, hadd]
        cases marksFull err <;> exact ⟨hstep, (append_nil _).symm, rfl⟩
      | none =>
        simp only [addBlock, hfull, hconv, hadd]
        refine ⟨?_, (same_recorded env batch l1Info _).blocks_eq,
          (same_recorded env batch l1Info _).frames_eq⟩
        rwa [(same_recorded env batch l1Info _).co_eq]

lemma adds_addBlocks (blocks : List Block) (cb : ChannelBuilder σ) :
    Adds env (blocks.take (addBlocks env blocks cb).2.1) cb (addBlocks env blocks cb).1 := by
  induction blocks generalizing cb with
  | nil => exact .refl env cb
  | cons block rest ih =>
    have hone := adds_addBlock env block cb
    unfold addBlocks
    split
    · rename_i hadd
      rwa [hadd] at hone
    · rename_i hadd
      rwa [hadd] at hone
    · rename_i cb₁ hadd
      rw [hadd] at hone
      split
      · exact hone
      · exact hone.trans env (ih cb₁)

lemma isFull_of_addBlock_error (block : Block) (cb : ChannelBuilder σ) (err : AddBlockError)
    (h : (addBlock env block cb).2 = some err) (hnot : ∀ e, err ≠ .full e) :
    (addBlock env block cb).1.isFull = false := by
  cases hfull : cb.fullErr with
  | some e =>
    simp only [addBlock, hfull] at h
    exact absurd (some.inj h).symm (hnot e)
  | none =>
    have hcb : cb.isFull = false := by rw [isFull, hfull]; rfl
    cases hconv : blockToSingularBatch env.l1BlockInfoFromBytes block with
    | error e =>
      simp only [addBlock, hfull, hconv]
      exact hcb
    | ok r =>
      rcases hadd : env.ops.addSingularBatch r.1 r.2.sequenceNumber cb.co with ⟨co, res⟩
      cases res with
      | none =>
        simp only [addBlock, hfull, hconv, hadd] at h
        cases h
      | some e =>
        simp only [addBlock, hfull, hconv, hadd] at h ⊢
        cases hmarks : marksFull e with
        | true =>
          rw [hmarks] at h
          exact absurd (some.inj h).symm (hnot _)
        | false =>
          rfl

lemma isFull_of_addBlocks_error (blocks : List Block) (cb : ChannelBuilder σ) (err : AddBlockError)
    (h : (addBlocks env blocks cb).2.2 = some err) : (addBlocks env blocks cb).1.isFull = false := by
  induction blocks generalizing cb with
  | nil => cases h
  | cons block rest ih =>
    rw [addBlocks] at h ⊢
    split at h
    case h_1 => cases h
    case h_2 cb₁ e hnot hadd =>
      have hone := isFull_of_addBlock_error env block cb e
      rw [hadd] at hone
      exact hone rfl fun e' he => hnot e' he
    case h_3 cb₁ hadd =>
      split at h
      case isTrue => cases h
      case isFalse hnot =>
        rw [if_neg hnot]
        exact ih cb₁ h

/-- Frames are output, one after the other. -/
inductive Outputs : List Frame → ChannelBuilder σ → ChannelBuilder σ → Prop
  | refl (cb : ChannelBuilder σ) : Outputs [] cb cb
  | step {cb cb₁ cb₂ : ChannelBuilder σ} {f : Frame} {fs : List Frame}
    (head : outputFrame env cb = .ok (f, cb₁)) (tail : Outputs fs cb₁ cb₂) : Outputs (f :: fs) cb cb₂

variable {env} {cb cb' : ChannelBuilder σ} {f : Frame} {fs : List Frame}

lemma outputFrame_eq_ok (h : outputFrame env cb = .ok (f, cb')) :
    env.ops.outputFrame env.cfg.maxFrameSize.toNat cb.co = .ok (f, cb'.co) ∧
      cb'.blocks = cb.blocks ∧ cb'.frames = cb.frames ++ [f] ∧
      cb'.fullErr =
        if f.frameNumber = Fin.last _ then some ⟨some .maxFrameIndex⟩ else cb.fullErr := by
  rw [outputFrame] at h
  split at h
  · cases h
  · rename_i g co hcall
    cases h
    rw [hcall]
    split <;> exact ⟨rfl, rfl, rfl, rfl⟩

lemma Outputs.blocks_eq (h : Outputs env fs cb cb') : cb'.blocks = cb.blocks := by
  induction h with
  | refl => rfl
  | step head _ ih => exact ih.trans (outputFrame_eq_ok head).2.1

lemma Outputs.frames_eq (h : Outputs env fs cb cb') : cb'.frames = cb.frames ++ fs := by
  induction h with
  | refl => exact (append_nil _).symm
  | step head _ ih =>
    rw [ih, (outputFrame_eq_ok head).2.2.1, append_assoc]
    rfl

/-- What is output before the channel is full; without an error either the last frame was output or
there are too few bytes for another one. -/
theorem outputs_of_outputReadyFrames (h : outputReadyFrames env rounds cb = some (cb', err)) :
    ∃ fs, Outputs env fs cb cb' ∧ (∀ e, err = some e → outputFrame env cb' = .error e) ∧
      (err = none → (∃ f ∈ fs, f.isLast = true) ∨
        (env.ops.readyBytes cb'.co + frameV0OverHeadSize : ℤ) < env.cfg.intMaxFrameSize) := by
  induction rounds generalizing cb <;> rw [outputReadyFrames] at h <;> split at h
  case zero.isTrue hfew | succ.isTrue hfew =>
    cases h
    exact ⟨[], .refl _, nofun, fun _ => .inr hfew⟩
  case zero.isFalse => cases h
  case succ.isFalse ih _ =>
    split at h
    case h_1 e herr =>
      cases h
      exact ⟨[], .refl _, fun _ h => some.inj h ▸ herr, nofun⟩
    case h_2 f cb₁ hcall =>
      split at h
      case isTrue hlast =>
        cases h
        exact ⟨[f], .step hcall (.refl _), nofun, fun _ => .inl ⟨f, mem_singleton_self f, hlast⟩⟩
      case isFalse =>
        obtain ⟨fs, houts, herr, hend⟩ := ih h
        exact ⟨f :: fs, .step hcall houts, herr, fun h => (hend h).imp_left fun ⟨g, hg, hlast⟩ =>
          ⟨g, mem_cons_of_mem _ hg, hlast⟩⟩

lemma outputs_of_outputAllFrames (h : outputAllFrames env rounds cb = some (cb', err)) :
    ∃ fs, Outputs env fs cb cb' ∧ (∀ e, err = some e → outputFrame env cb' = .error e) ∧
      (err = none → ∃ f ∈ fs, f.isLast = true) := by
  induction rounds generalizing cb with
  | zero => cases h
  | succ rounds ih =>
    rw [outputAllFrames] at h
    split at h
    case h_1 e herr =>
      cases h
      exact ⟨[], .refl _, fun _ h => some.inj h ▸ herr, nofun⟩
    case h_2 f cb₁ hcall =>
      split at h
      case isTrue hlast =>
        cases h
        exact ⟨[f], .step hcall (.refl _), nofun, fun _ => ⟨f, mem_singleton_self f, hlast⟩⟩
      case isFalse =>
        obtain ⟨fs, houts, herr, hend⟩ := ih h
        refine ⟨f :: fs, .step hcall houts, herr, fun h => ?_⟩
        obtain ⟨g, hg, hlast⟩ := hend h
        exact ⟨g, mem_cons_of_mem _ hg, hlast⟩

lemma Outputs.isFull (h : Outputs env fs cb cb') (hfull : cb.isFull = true) : cb'.isFull = true := by
  induction h with
  | refl => exact hfull
  | step head _ ih =>
    refine ih ?_
    rw [ChannelBuilder.isFull, (outputFrame_eq_ok head).2.2.2]
    split
    · rfl
    · exact hfull

lemma addBlocks_of_isFull (hfull : cb.isFull = true) (blocks : List Block) :
    addBlocks env blocks cb = (cb, 0, none) := by
  obtain ⟨err, herr⟩ := isSome_iff_exists.mp hfull
  cases blocks with
  | nil => rfl
  | cons block rest =>
    have hblock : addBlock env block cb = (cb, some (.full err)) := by
      simp only [addBlock, herr]
    rw [addBlocks, hblock]

/-! ## The frames of a builder -/

variable (lawful : env.ops.OutputsFrames)

lemma extends_of_addsBatches {co co' : σ} (h : AddsBatches env co co') (hinv : lawful.inv co) :
    lawful.inv co' ∧ (lawful.source co).Extends (lawful.source co') := by
  induction h with
  | refl => exact ⟨hinv, .refl _⟩
  | tail _ hstep ih =>
    obtain ⟨batch, seqNum, rfl⟩ := hstep
    obtain ⟨hinv', hext⟩ := lawful.add ih.1 batch seqNum
    exact ⟨hinv', ih.2.trans hext⟩

/-- All frames that were output of the channel of a builder. -/
structure Tracks (id : ChannelID) (out : List Frame) (cb : ChannelBuilder σ) : Prop where
  inv : lawful.inv cb.co
  id_eq : (lawful.source cb.co).id = id
  output : (lawful.source cb.co).Output out
  notLast : (lawful.source cb.co).closed = false → ∀ f ∈ out, f.isLast = false

variable {lawful} {id : ChannelID} {out : List Frame}

lemma Tracks.extends (h : Tracks lawful id out cb) (hinv : lawful.inv cb'.co)
    (hext : (lawful.source cb.co).Extends (lawful.source cb'.co)) : Tracks lawful id out cb' where
  inv := hinv
  id_eq := hext.id_eq.trans h.id_eq
  output := h.output.extends hext
  notLast hopen := h.notLast (hext.closed_eq ▸ hopen)

lemma Tracks.same (h : Tracks lawful id out cb) (hsame : cb.Same cb') :
    Tracks lawful id out cb' := by
  refine h.extends (hsame.co_eq ▸ h.inv) ?_
  rw [hsame.co_eq]
  exact .refl _

lemma Tracks.adds (h : Tracks lawful id out cb) (hadds : Adds env added cb cb') :
    Tracks lawful id out cb' ∧
      (lawful.source cb'.co).closed = (lawful.source cb.co).closed := by
  obtain ⟨hinv, hext⟩ := extends_of_addsBatches lawful hadds.batches h.inv
  exact ⟨h.extends hinv hext, hext.closed_eq⟩

lemma source_of_outputFrame (hinv : lawful.inv cb.co) (hcall : outputFrame env cb = .ok (f, cb')) :
    lawful.inv cb'.co ∧
      (lawful.source cb.co).outputFrame (env.ops.readyBytes cb.co) env.cfg.maxFrameSize.toNat =
        .ok (f, lawful.source cb'.co) := by
  obtain ⟨hmap, hinv'⟩ := lawful.outputFrame hinv env.cfg.maxFrameSize.toNat
  have hout := (outputFrame_eq_ok hcall).1
  rw [hout] at hmap
  exact ⟨hinv' f cb'.co hout, hmap.symm⟩

lemma Tracks.outputFrame (h : Tracks lawful id out cb)
    (hcall : ChannelBuilder.outputFrame env cb = .ok (f, cb')) :
    Tracks lawful id (out ++ [f]) cb' ∧
      (lawful.source cb'.co).closed = (lawful.source cb.co).closed ∧
      (out.length + 1 < 2 ^ 16 → cb'.fullErr = cb.fullErr) := by
  obtain ⟨hinv, hsrc⟩ := source_of_outputFrame h.inv hcall
  obtain ⟨-, hnum, hlast, -, hid, -, hcl, -⟩ := FrameSource.outputFrame_eq_ok hsrc
  refine ⟨⟨hinv, hid.trans h.id_eq, h.output.concat hsrc, fun hopen => ?_⟩, hcl, fun hlen => ?_⟩
  · have hopen' := hcl.symm.trans hopen
    refine forall_mem_append.mpr ⟨h.notLast hopen', forall_mem_singleton.mpr ?_⟩
    refine Bool.eq_false_iff.mpr fun hc => ?_
    rw [(hlast.mp hc).2] at hopen'
    cases hopen'
  · -- the number of the frame is that of the frames before it
    rw [(outputFrame_eq_ok hcall).2.2.2, if_neg]
    intro hmax
    have hval := congrArg Fin.val (hnum.symm.trans hmax)
    rw [Fin.val_ofNat, ← h.output.length_eq, Fin.val_last] at hval
    omega

lemma Tracks.outputs (h : Tracks lawful id out cb) (houts : Outputs env fs cb cb') :
    Tracks lawful id (out ++ fs) cb' ∧
      (lawful.source cb'.co).closed = (lawful.source cb.co).closed ∧
      ((out ++ fs).length < 2 ^ 16 → cb'.fullErr = cb.fullErr) := by
  induction houts generalizing out with
  | refl => exact ⟨(append_nil out).symm ▸ h, rfl, fun _ => rfl⟩
  | step head tail ih =>
    obtain ⟨h₁, hclosed₁, hfull₁⟩ := h.outputFrame head
    obtain ⟨h₂, hclosed₂, hfull₂⟩ := ih h₁
    rw [append_assoc] at h₂ hfull₂
    refine ⟨h₂, hclosed₂.trans hclosed₁, fun hlen => (hfull₂ hlen).trans (hfull₁ ?_)⟩
    rw [length_append, length_cons] at hlen
    omega

lemma exists_outputFrame (hinv : lawful.inv cb.co)
    (hsize : frameV0OverHeadSize ≤ env.cfg.maxFrameSize.toNat) :
    ∃ f cb', outputFrame env cb = .ok (f, cb') := by
  obtain ⟨hmap, -⟩ := lawful.outputFrame hinv env.cfg.maxFrameSize.toNat
  obtain ⟨f, s', hframe⟩ := FrameSource.exists_outputFrame hsize (lawful.readyBytes_le hinv)
  rw [hframe] at hmap
  rw [outputFrame]
  cases hcall : env.ops.outputFrame env.cfg.maxFrameSize.toNat cb.co with
  | error e =>
    rw [hcall] at hmap
    cases hmap
  | ok r => exact ⟨_, _, rfl⟩

lemma Tracks.outputReadyFrames (h : Tracks lawful id out cb)
    (hopen : (lawful.source cb.co).closed = false)
    (hsize : frameV0OverHeadSize ≤ env.cfg.maxFrameSize.toNat)
    (hcall : ChannelBuilder.outputReadyFrames env rounds cb = some (cb', err)) :
    err = none ∧ ∃ fs, Outputs env fs cb cb' ∧
      (env.ops.readyBytes cb'.co + frameV0OverHeadSize : ℤ) < env.cfg.intMaxFrameSize := by
  obtain ⟨fs, houts, herr, hend⟩ := outputs_of_outputReadyFrames hcall
  obtain ⟨h', hcl, -⟩ := h.outputs houts
  cases err with
  | some e =>
    obtain ⟨f, cb'', hok⟩ := exists_outputFrame h'.inv hsize
    cases (herr e rfl).symm.trans hok
  | none =>
    refine ⟨rfl, fs, houts, (hend rfl).resolve_left fun ⟨f, hf, hlast⟩ => ?_⟩
    rw [h'.notLast (hcl.trans hopen) f (mem_append_right _ hf)] at hlast
    cases hlast

/-- The channel is closed and all frames are output, with the last one. -/
theorem Tracks.closeAndOutputAllFrames (h : Tracks lawful id out cb) (hdrains : lawful.Drains)
    (hopen : (lawful.source cb.co).closed = false)
    (hsize : frameV0OverHeadSize ≤ env.cfg.maxFrameSize.toNat)
    (hcall : ChannelBuilder.closeAndOutputAllFrames env cb = some (cb', err)) :
    err = none ∧ ∃ fs, Outputs env fs { cb with co := (env.ops.close cb.co).1 } cb' ∧
      Tracks lawful id out { cb with co := (env.ops.close cb.co).1 } ∧
      (lawful.source (env.ops.close cb.co).1).closed = true ∧ ∃ f ∈ fs, f.isLast = true := by
  obtain ⟨hinv, hcl, hid, hout⟩ := ChannelOut.OutputsFrames.Open.close
    ⟨h.inv, hopen, h.id_eq, h.output, h.notLast hopen⟩
  have hnone := hdrains.close_eq h.inv hopen
  rw [ChannelBuilder.closeAndOutputAllFrames] at hcall
  rcases hclose : env.ops.close cb.co with ⟨co, res⟩
  rw [hclose] at hcall hinv hcl hid hout hnone
  obtain rfl : res = none := hnone
  obtain ⟨fs, houts, herr, hend⟩ := outputs_of_outputAllFrames hcall
  have h₁ : Tracks lawful id out { cb with co := co } :=
    ⟨hinv, hid, hout, fun h => by rw [hcl] at h; cases h⟩
  cases err with
  | some e =>
    obtain ⟨f, cb'', hok⟩ := exists_outputFrame (h₁.outputs houts).1.inv hsize
    cases (herr e rfl).symm.trans hok
  | none => exact ⟨rfl, fs, houts, h₁, hcl, hend rfl⟩

/-- What `OutputFrames` does: there is no error, and if the frame numbers do not overflow, the
builder is full afterwards if and only if it was before, and then the last frame was output. -/
theorem Tracks.outputFrames (h : Tracks lawful id out cb) (hdrains : lawful.Drains)
    (hopen : (lawful.source cb.co).closed = false)
    (hsize : frameV0OverHeadSize ≤ env.cfg.maxFrameSize.toNat)
    (hcall : ChannelBuilder.outputFrames env cb = some (cb', err)) :
    err = none ∧ cb'.blocks = cb.blocks ∧ ∃ fs, cb'.frames = cb.frames ++ fs ∧
      Tracks lawful id (out ++ fs) cb' ∧ ((out ++ fs).length < 2 ^ 16 → cb'.fullErr = cb.fullErr) ∧
      (cb.isFull = true → ∃ f ∈ fs, f.isLast = true) ∧
      (cb.isFull = false → (lawful.source cb'.co).closed = false ∧
        (env.ops.readyBytes cb'.co + frameV0OverHeadSize : ℤ) < env.cfg.intMaxFrameSize) := by
  rw [ChannelBuilder.outputFrames] at hcall
  cases hfull : cb.isFull with
  | true =>
    rw [hfull] at hcall
    obtain ⟨rfl, fs, houts, h₁, -, hlast⟩ := h.closeAndOutputAllFrames hdrains hopen hsize hcall
    obtain ⟨h₂, -, hfull'⟩ := h₁.outputs houts
    exact ⟨rfl, houts.blocks_eq, fs, houts.frames_eq, h₂, hfull', fun _ => hlast, nofun⟩
  | false =>
    rw [hfull] at hcall
    obtain ⟨rfl, fs, houts, hfew⟩ := h.outputReadyFrames hopen hsize hcall
    obtain ⟨h₁, hcl, hfull'⟩ := h.outputs houts
    exact ⟨rfl, houts.blocks_eq, fs, houts.frames_eq, h₁, hfull', nofun,
      fun _ => ⟨hcl.trans hopen, hfew⟩⟩

lemma outputFrames_blocks (hcall : outputFrames env cb = some (cb', err)) :
    cb'.blocks = cb.blocks ∧ (cb.isFull = true → cb'.isFull = true) := by
  rw [outputFrames] at hcall
  split at hcall
  · rw [closeAndOutputAllFrames] at hcall
    split at hcall
    · cases hcall
      exact ⟨rfl, id⟩
    · obtain ⟨fs, houts, -⟩ := outputs_of_outputAllFrames hcall
      exact ⟨houts.blocks_eq, houts.isFull⟩
  · obtain ⟨fs, houts, -⟩ := outputs_of_outputReadyFrames hcall
    exact ⟨houts.blocks_eq, houts.isFull⟩

/-! ## Output comes to an end -/

variable (env) in
/-- A frame is within the limit, and it has data unless it is the last one. -/
def Sized (f : Frame) : Prop :=
  f.marshalBinary.length ≤ env.cfg.maxFrameSize.toNat ∧ (f.isLast = false → f.data ≠ [])

section

variable (htakes : lawful.TakesReady) (hinv : lawful.inv cb.co)
include htakes hinv

lemma readyBytes_of_outputFrame (hcall : outputFrame env cb = .ok (f, cb')) :
    env.ops.readyBytes cb'.co + min (env.ops.readyBytes cb.co)
        (env.cfg.maxFrameSize.toNat - frameV0OverHeadSize) = env.ops.readyBytes cb.co := by
  obtain ⟨-, hsrc⟩ := source_of_outputFrame hinv hcall
  obtain ⟨-, -, -, hlen, -⟩ := FrameSource.outputFrame_eq_ok hsrc
  rw [← hlen]
  exact htakes _ _ _ _ hinv (outputFrame_eq_ok hcall).1

lemma Outputs.readyBytes_le (houts : Outputs env fs cb cb') :
    env.ops.readyBytes cb.co ≤ env.ops.readyBytes cb'.co +
      fs.length * (env.cfg.maxFrameSize.toNat - frameV0OverHeadSize) := by
  induction houts with
  | refl => exact Nat.le_add_right _ _
  | step head _ ih =>
    have hone := readyBytes_of_outputFrame htakes hinv head
    have hrest := ih (source_of_outputFrame hinv head).1
    rw [length_cons, Nat.succ_mul]
    omega

omit htakes in
lemma sized_of_outputFrame (hmin : frameV0OverHeadSize ≤ env.cfg.maxFrameSize.toNat)
    (hcall : outputFrame env cb = .ok (f, cb'))
    (hready : f.isLast = false →
      0 < min (env.ops.readyBytes cb.co) (env.cfg.maxFrameSize.toNat - frameV0OverHeadSize)) :
    Sized env f := by
  obtain ⟨-, hsrc⟩ := source_of_outputFrame hinv hcall
  obtain ⟨-, -, -, hlen, -⟩ := FrameSource.outputFrame_eq_ok hsrc
  have hmar : f.marshalBinary.length = f.data.length + frameV0OverHeadSize := by
    simp only [Frame.marshalBinary, length_append, length_beBytes, f.id.2, length_singleton]
    rw [frameV0OverHeadSize]
    omega
  refine ⟨by omega, fun hlast hnil => ?_⟩
  have hmore := hready hlast
  rw [← hlen, hnil] at hmore
  cases hmore

lemma outputReadyFrames_ends (hsize : frameV0OverHeadSize < env.cfg.maxFrameSize.toNat)
    (hint : env.cfg.maxFrameSize.toNat < 2 ^ 63) (hrnd : env.ops.readyBytes cb.co < rounds) :
    ∃ cb' fs, outputReadyFrames env rounds cb = some (cb', none) ∧ Outputs env fs cb cb' ∧
      ∀ f ∈ fs, Sized env f := by
  have hsgn : env.cfg.intMaxFrameSize = env.cfg.maxFrameSize.toNat := by
    rw [ChannelConfig.intMaxFrameSize, BitVec.toInt_eq_toNat_of_lt]
    · rfl
    · exact mul_lt_mul_of_pos_left hint (by decide)
  induction rounds generalizing cb with
  | zero => cases hrnd
  | succ rounds ih =>
    rw [outputReadyFrames]
    split
    case isTrue => exact ⟨cb, [], rfl, .refl _, nofun⟩
    case isFalse hmany =>
      obtain ⟨f, cb₁, hcall⟩ := exists_outputFrame hinv hsize.le
      have hready := readyBytes_of_outputFrame htakes hinv hcall
      have hf := sized_of_outputFrame hinv hsize.le hcall fun _ => by omega
      rw [hcall]
      dsimp only
      split
      · exact ⟨cb₁, [f], rfl, .step hcall (.refl _), forall_mem_singleton.mpr hf⟩
      · -- at least one byte was output
        obtain ⟨cb', fs, hloop, houts, hfs⟩ := ih (source_of_outputFrame hinv hcall).1 (by omega)
        exact ⟨cb', f :: fs, hloop, .step hcall houts, forall_mem_cons.mpr ⟨hf, hfs⟩⟩

end

end ChannelBuilder

end FightNight.Batcher
