import FightNight.Batcher.Channel

/-!
# The channel manager

The channel manager (`op-batcher/batcher/channel_manager.go`) takes L2 blocks from a queue into
the current channel, makes transactions of the frames of the first channel that has some, and
reports confirmed or failed ones to their channel.  A channel leaves the queue of channels when it
is fully submitted, or when its transactions were confirmed too far apart; its blocks then go back
to the front of the queue.

The channels ever created are kept in the order of their creation and referred to by their
position: one that has left the queue still gets the reports on its transactions.
-/

namespace FightNight.Batcher

open Option
open List hiding getElem?_eq_some_iff
open Derive

/-- `channelManager`.  A channel is referred to by its position in `channels`. -/
structure ChannelManager (σ : Type) where
  blocks : List Block
  l1OriginLastClosedChannel : BlockID
  tip : Hash
  channels : List (Channel σ)
  currentChannel : Option ℕ
  channelQueue : List ℕ
  txChannels : FinMap TxID ℕ
  closed : Bool

/-- The errors of `TxData`. -/
inductive TxDataError where
  | eof
  /-- `creating new channel`. -/
  | creating
  /-- `adding block to channel builder`. -/
  | adding (err : AddBlockError)
  /-- `creating frames with channel builder`. -/
  | outputting (err : ChannelOutError)
  deriving DecidableEq

/-- The errors of `Close`. -/
inductive CloseError where
  /-- `outputting frames during close`. -/
  | outputting (err : ChannelOutError)
  /-- `ErrPendingAfterClose`. -/
  | pendingAfterClose
  deriving DecidableEq

namespace ChannelManager

variable {σ : Type} (env : Setup σ)

/-- `NewChannelManager`, and `Clear`. -/
def newChannelManager (l1OriginLastClosedChannel : BlockID) : ChannelManager σ :=
  ⟨[], l1OriginLastClosedChannel, zeroHash, [], none, [], ∅, false⟩

def channel (ref : Option ℕ) (s : ChannelManager σ) : Option (ℕ × Channel σ) :=
  ref.bind fun i => s.channels[i]?.map fun ch => (i, ch)

def setChannel (i : ℕ) (ch : Channel σ) (s : ChannelManager σ) : ChannelManager σ :=
  { s with channels := s.channels.set i ch }

def removePendingChannel (i : ℕ) (s : ChannelManager σ) : ChannelManager σ :=
  { s with
    currentChannel := if s.currentChannel = some i then none else s.currentChannel
    channelQueue := s.channelQueue.erase i }

def txFailed (id : TxID) (s : ChannelManager σ) : ChannelManager σ :=
  match s.channel (s.txChannels.lookup id) with
  | none => s
  | some (i, ch) =>
    let ch := ch.txFailed id
    let s := { s with txChannels := s.txChannels.erase id }.setChannel i ch
    if s.closed ∧ ch.noneSubmitted then s.removePendingChannel i else s

def txConfirmed (id : TxID) (inclusionBlock : BlockID) (s : ChannelManager σ) : ChannelManager σ :=
  match s.channel (s.txChannels.lookup id) with
  | none => s
  | some (i, ch) =>
    let (ch, done, blocks) := ch.txConfirmed env id inclusionBlock
    let s := { s with
      txChannels := s.txChannels.erase id
      blocks := blocks ++ s.blocks }.setChannel i ch
    if done then s.removePendingChannel i else s

def nextTxData (ref : Option ℕ) (s : ChannelManager σ) :
    ChannelManager σ × Except TxDataError TxData :=
  match s.channel ref with
  | none => (s, .error .eof)
  | some (i, ch) =>
    if ch.hasTxData env then
      let (ch, tx) := ch.nextTxData env
      ({ s with txChannels := s.txChannels.insert tx.id i }.setChannel i ch, .ok tx)
    else (s, .error .eof)

/-- `ensureChannelWithSpace`, with the channel out of a new channel, if it can be created. -/
def ensureChannelWithSpace (fresh : Option σ) (s : ChannelManager σ) : Option (ChannelManager σ) :=
  if (s.channel s.currentChannel).any fun r => ¬ r.2.isFull then some s
  else
    fresh.map fun co =>
      { s with
        channels := s.channels ++ [.newChannel env co s.l1OriginLastClosedChannel.number]
        currentChannel := some s.channels.length
        channelQueue := s.channelQueue ++ [s.channels.length] }

def processBlocks (s : ChannelManager σ) : ChannelManager σ × Option AddBlockError :=
  match s.channel s.currentChannel with
  | none => (s, none)
  | some (i, ch) =>
    let (cb, blocksAdded, err) := ch.channelBuilder.addBlocks env s.blocks
    let s := s.setChannel i { ch with channelBuilder := cb }
    match err with
    | some err => (s, some err)
    | none => ({ s with blocks := s.blocks.drop blocksAdded }, none)

def registerL1Block (l1Head : UInt64) (s : ChannelManager σ) : ChannelManager σ :=
  match s.channel s.currentChannel with
  | none => s
  | some (i, ch) => s.setChannel i { ch with channelBuilder := ch.channelBuilder.checkTimeout l1Head }

/-- The latest L1 origin of a channel that was closed. -/
def recordClosed (cb : ChannelBuilder σ) (s : ChannelManager σ) : ChannelManager σ :=
  if cb.isFull ∧ s.l1OriginLastClosedChannel.number < cb.latestL1Origin.number then
    { s with l1OriginLastClosedChannel := cb.latestL1Origin }
  else s

/-- `outputFrames`; there is no result if it does not come to an end. -/
def outputFrames (s : ChannelManager σ) : Option (ChannelManager σ × Option ChannelOutError) :=
  match s.channel s.currentChannel with
  | none => some (s, none)
  | some (i, ch) =>
    match ch.channelBuilder.outputFrames env with
    | none => none
    | some (cb, some err) => some (s.setChannel i { ch with channelBuilder := cb }, some err)
    | some (cb, none) =>
      some ((s.setChannel i { ch with channelBuilder := cb }).recordClosed cb, none)

def firstWithTxData (s : ChannelManager σ) : Option ℕ :=
  s.channelQueue.find? fun i => s.channels[i]?.any fun ch => ch.hasTxData env

/-- The part of `TxData` in which blocks are added to the current channel. -/
def txDataOfBlocks (l1Head : UInt64) (s : ChannelManager σ) :
    Option (ChannelManager σ × Except TxDataError TxData) :=
  match s.processBlocks env with
  | (s, some err) => some (s, .error (.adding err))
  | (s, none) =>
    match (s.registerL1Block l1Head).outputFrames env with
    | none => none
    | some (s, some err) => some (s, .error (.outputting err))
    | some (s, none) => some (s.nextTxData env s.currentChannel)

/-- `TxData`, with the number of the L1 head and the channel out of a new channel. -/
def txData (l1Head : UInt64) (fresh : Option σ) (s : ChannelManager σ) :
    Option (ChannelManager σ × Except TxDataError TxData) :=
  let first := s.firstWithTxData env
  if first.isSome ∨ s.closed then some (s.nextTxData env first)
  else if s.blocks = [] then some (s, .error .eof)
  else
    match s.ensureChannelWithSpace env fresh with
    | none => some (s, .error .creating)
    | some s => s.txDataOfBlocks env l1Head

/-- `AddL2Block`; it returns `ErrReorg` if the block is not added. -/
def addL2Block (block : Block) (s : ChannelManager σ) : ChannelManager σ × Bool :=
  if s.tip ≠ zeroHash ∧ s.tip ≠ block.parentHash then (s, false)
  else ({ s with blocks := s.blocks ++ [block], tip := block.hash }, true)

/-! ## Closing -/

/-- The array over which `Close` ranges, when a channel is removed from the queue: the later entries of the
queue are moved to the front by one place, and what is behind them stays. -/
def shift (i : ℕ) (queue array : List ℕ) : List ℕ :=
  if i ∈ queue then queue.erase i ++ array.drop (queue.length - 1) else array

/-- The loop of `Close` from position `k` on, over the array that the queue had at the beginning. -/
def dropLoop : ℕ → ℕ → List ℕ → ChannelManager σ → ChannelManager σ
  | 0, _, _, s => s
  | rounds + 1, k, array, s =>
    match array[k]? with
    | none => s
    | some i =>
      if s.channels[i]?.any Channel.noneSubmitted then
        dropLoop rounds (k + 1) (shift i s.channelQueue array) (s.removePendingChannel i)
      else dropLoop rounds (k + 1) array s

/-- The end of `Close`. -/
def pendingError (s : ChannelManager σ) : Option CloseError :=
  if (s.channel s.currentChannel).any fun r => r.2.hasTxData env then some .pendingAfterClose else none

def close (s : ChannelManager σ) : Option (ChannelManager σ × Option CloseError) :=
  if s.closed then some (s, none)
  else
    let s := dropLoop s.channelQueue.length 0 s.channelQueue { s with closed := true }
    match s.channel s.currentChannel with
    | none => some (s, none)
    | some (i, ch) =>
      if ch.isFull then some (s, s.pendingError env)
      else
        match (s.setChannel i { ch with channelBuilder := ch.channelBuilder.close }).outputFrames env with
        | none => none
        | some (s, some err) => some (s, some (.outputting err))
        | some (s, none) => some (s, s.pendingError env)

/-! ## Runs -/

end ChannelManager

/-- The calls of the channel manager, with the channel out that a new channel would get. -/
inductive ManagerOp (σ : Type) where
  | addL2Block (block : Block)
  | txData (l1Head : UInt64) (fresh : Option σ)
  | txConfirmed (id : TxID) (inclusionBlock : BlockID)
  | txFailed (id : TxID)
  | close

namespace ChannelManager

variable {σ : Type} (env : Setup σ)

/-- The channel manager after a call, if the call comes to an end. -/
def step (op : ManagerOp σ) (s : ChannelManager σ) : Option (ChannelManager σ) :=
  match op with
  | .addL2Block block => some (s.addL2Block block).1
  | .txData l1Head fresh => (s.txData env l1Head fresh).map Prod.fst
  | .txConfirmed id inclusionBlock => some (s.txConfirmed env id inclusionBlock)
  | .txFailed id => some (s.txFailed id)
  | .close => (s.close env).map Prod.fst

/-! ## What calls do to the channels -/

def blocksOf (s : ChannelManager σ) (i : ℕ) : List Block :=
  (s.channels[i]?.map fun ch => ch.channelBuilder.blocks).getD []

/-- No block and no channel is moved. -/
structure Keeps (s s' : ChannelManager σ) : Prop where
  length_eq : s'.channels.length = s.channels.length
  blocksOf_eq : s'.blocksOf = s.blocksOf
  queue_eq : s'.channelQueue = s.channelQueue
  current_eq : s'.currentChannel = s.currentChannel
  blocks_eq : s'.blocks = s.blocks
  tip_eq : s'.tip = s.tip

lemma Keeps.refl (s : ChannelManager σ) : s.Keeps s := ⟨rfl, rfl, rfl, rfl, rfl, rfl⟩

variable {s s' : ChannelManager σ} {ref : Option ℕ} {ch : Channel σ} {i : ℕ}

lemma Keeps.trans {s'' : ChannelManager σ} (h : s.Keeps s') (h' : s'.Keeps s'') : s.Keeps s'' :=
  ⟨h'.length_eq.trans h.length_eq, h'.blocksOf_eq.trans h.blocksOf_eq, h'.queue_eq.trans h.queue_eq,
    h'.current_eq.trans h.current_eq, h'.blocks_eq.trans h.blocks_eq, h'.tip_eq.trans h.tip_eq⟩

lemma channel_eq_some :
    s.channel ref = some (i, ch) ↔ ref = some i ∧ s.channels[i]? = some ch := by
  rw [channel, bind_eq_some_iff]
  constructor
  · rintro ⟨j, rfl, h⟩
    obtain ⟨ch', hch, heq⟩ := map_eq_some_iff.mp h
    cases heq
    exact ⟨rfl, hch⟩
  · rintro ⟨rfl, h⟩
    exact ⟨i, rfl, by rw [h, map_some]⟩

lemma lt_length_of_channel (h : s.channel ref = some (i, ch)) : i < s.channels.length :=
  (getElem?_eq_some_iff.mp (channel_eq_some.mp h).2).1

lemma blocksOf_of_channel (h : s.channel ref = some (i, ch)) :
    s.blocksOf i = ch.channelBuilder.blocks := by
  rw [blocksOf, (channel_eq_some.mp h).2]
  rfl

lemma blocksOf_setChannel (hi : i < s.channels.length) (ch : Channel σ) (j : ℕ) :
    (s.setChannel i ch).blocksOf j = if i = j then ch.channelBuilder.blocks else s.blocksOf j := by
  rw [blocksOf, setChannel, getElem?_set]
  split <;> rfl

lemma keeps_setChannel (h : s.channel ref = some (i, ch)) {ch' : Channel σ}
    (hblks : ch'.channelBuilder.blocks = ch.channelBuilder.blocks) :
    s.Keeps (s.setChannel i ch') := by
  refine ⟨length_set, funext fun j => ?_, rfl, rfl, rfl, rfl⟩
  rw [blocksOf_setChannel (lt_length_of_channel h)]
  split
  case isTrue heq => rw [← heq, hblks, blocksOf_of_channel h]
  case isFalse => rfl

lemma keeps_nextTxData (ref : Option ℕ) (s : ChannelManager σ) : s.Keeps (s.nextTxData env ref).1 := by
  cases h : s.channel ref with
  | none =>
    rw [nextTxData, h]
    exact .refl s
  | some r =>
    obtain ⟨i, ch⟩ := r
    rw [nextTxData, h]
    dsimp only
    split
    · have hkeeps : s.Keeps (s.setChannel i (ch.nextTxData env).1) := keeps_setChannel h rfl
      exact ⟨hkeeps.length_eq, hkeeps.blocksOf_eq, rfl, rfl, rfl, rfl⟩
    · exact .refl s

lemma keeps_registerL1Block (l1Head : UInt64) (s : ChannelManager σ) :
    s.Keeps (s.registerL1Block l1Head) := by
  cases h : s.channel s.currentChannel with
  | none =>
    rw [registerL1Block, h]
    exact .refl s
  | some r =>
    rw [registerL1Block, h]
    exact keeps_setChannel h (ChannelBuilder.same_checkTimeout l1Head _).blocks_eq

lemma keeps_recordClosed (cb : ChannelBuilder σ) (s : ChannelManager σ) :
    s.Keeps (s.recordClosed cb) := by
  rw [recordClosed]
  split <;> exact ⟨rfl, rfl, rfl, rfl, rfl, rfl⟩

variable {env}

lemma keeps_outputFrames {err : Option ChannelOutError}
    (hcall : s.outputFrames env = some (s', err)) : s.Keeps s' := by
  cases h : s.channel s.currentChannel with
  | none =>
    rw [outputFrames, h] at hcall
    cases hcall
    exact .refl s
  | some r =>
    rw [outputFrames, h] at hcall
    dsimp only at hcall
    split at hcall
    · cases hcall
    · rename_i cb e hout
      cases hcall
      exact keeps_setChannel h (ChannelBuilder.outputFrames_blocks hout).1
    · rename_i cb hout
      cases hcall
      exact (keeps_setChannel h (ChannelBuilder.outputFrames_blocks hout).1).trans
        (keeps_recordClosed cb _)

/-! ## Some calls -/

lemma current_removePendingChannel {j : ℕ}
    (hj : (s.removePendingChannel i).currentChannel = some j) :
    s.currentChannel = some j ∧ (j ∈ s.channelQueue → j ∈ s.channelQueue.erase i) := by
  rw [removePendingChannel] at hj
  split at hj
  case isTrue => cases hj
  case isFalse hne =>
    refine ⟨hj, (mem_erase_of_ne ?_).mpr⟩
    rintro rfl
    exact hne hj

variable {P : ChannelManager σ → Prop}

/-- What the parts of `TxData` keep. -/
theorem txData_keeps {l1Head : UInt64} {fresh : Option σ}
    {r : ChannelManager σ × Except TxDataError TxData} (hs : P s)
    (hnext : ∀ s ref, P s → P (s.nextTxData env ref).1)
    (hprocess : ¬ (s.firstWithTxData env).isSome → ¬ s.closed →
      ∀ s₁, s.ensureChannelWithSpace env fresh = some s₁ → P (s₁.processBlocks env).1)
    (hregister : ∀ s, P s → P (s.registerL1Block l1Head))
    (houtput : ∀ s s' err, s.outputFrames env = some (s', err) → P s → P s')
    (hcall : s.txData env l1Head fresh = some r) : P r.1 := by
  rw [txData] at hcall
  split at hcall
  case isTrue => exact some.inj hcall ▸ hnext s _ hs
  case isFalse hnot =>
    split at hcall
    case isTrue => exact some.inj hcall ▸ hs
    case isFalse =>
      split at hcall
      case h_1 => exact some.inj hcall ▸ hs
      case h_2 s₁ hens =>
        have h₂ := hprocess (not_or.mp hnot).1 (not_or.mp hnot).2 s₁ hens
        rw [txDataOfBlocks] at hcall
        generalize s₁.processBlocks env = p at h₂ hcall
        obtain ⟨s₂, _ | e⟩ := p
        · have h₃ := hregister s₂ h₂
          dsimp only at hcall
          split at hcall
          case h_1 => cases hcall
          case h_2 s₄ e hout => exact some.inj hcall ▸ houtput _ _ _ hout h₃
          case h_3 s₄ hout => exact some.inj hcall ▸ hnext s₄ _ (houtput _ _ _ hout h₃)
        · exact some.inj hcall ▸ h₂

lemma close_keeps {r : ChannelManager σ × Option CloseError} (hs : P s)
    (hloop : ¬ s.closed → P (dropLoop s.channelQueue.length 0 s.channelQueue { s with closed := true }))
    (hclose : ∀ s i ch, s.channel s.currentChannel = some (i, ch) → P s →
      P (s.setChannel i { ch with channelBuilder := ch.channelBuilder.close }))
    (houtput : ∀ s s' err, s.outputFrames env = some (s', err) → P s → P s')
    (hcall : s.close env = some r) : P r.1 := by
  rw [close] at hcall
  split at hcall
  case isTrue => exact some.inj hcall ▸ hs
  case isFalse hnot =>
    have h₁ := hloop hnot
    dsimp only at hcall
    split at hcall
    case h_1 => exact some.inj hcall ▸ h₁
    case h_2 i ch hchan =>
      split at hcall
      case isTrue => exact some.inj hcall ▸ h₁
      case isFalse =>
        have h₂ := hclose _ i ch hchan h₁
        split at hcall
        case h_1 => cases hcall
        case h_2 s₂ e hout => exact some.inj hcall ▸ houtput _ _ _ hout h₂
        case h_3 s₂ hout => exact some.inj hcall ▸ houtput _ _ _ hout h₂

/-- Channels with frames of some maximum size are full one L1 block after the last one, and time out after
ten. -/
def shortConfig (maxFrameSize : UInt64) : ChannelConfig :=
  { Traced.sizeConfig maxFrameSize with channelTimeout := 10, maxChannelDuration := 1 }

def numberedHash (n : UInt8) : Hash := ⟨1 :: List.replicate 31 n, rfl⟩

/-- A chain of blocks. -/
def numberedBlock (n : UInt8) : Block where
  hash := numberedHash n
  parentHash := numberedHash (n - 1)
  time := 1
  transactions := [.deposit [], .other [1, 2, 3]]
  hash_ne h := absurd (cons.inj h).1 (by decide)

def numberedChannel (n : UInt8) : SingularChannelOut Unit :=
  .newSingularChannelOut ⟨replicate 16 n, length_replicate⟩ () []

def singleID (channel : UInt8) (frame : Fin (2 ^ 16)) : TxID :=
  [⟨⟨replicate 16 channel, length_replicate⟩, frame⟩]

end ChannelManager

end FightNight.Batcher
