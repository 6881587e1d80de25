import FightNight.Batcher.ChannelBuilder
import FightNight.Derive.ChannelRoundTrip

/-!
# Channels and their transactions

The frames of a channel are sent in transactions (`op-batcher/batcher/channel.go`,
`op-batcher/batcher/tx_data.go`).  A transaction takes frames from the queue of the channel
builder and is pending until it is confirmed, or fails and puts its frames back.

As long as the frame numbers, which have 16 bits, do not overflow, each frame is in the queue, in
a pending transaction or in a confirmed one.  When they overflow, a transaction can replace
another one in the map of pending ones, whose keys they are.
-/

namespace FightNight.Batcher

open RLP List Derive ChannelBuilder SingularChannelOut

structure FrameID where
  chID : ChannelID
  frameNumber : Fin (2 ^ 16)
  deriving DecidableEq

def frameID (f : Frame) : FrameID := ⟨f.id, f.frameNumber⟩

/-- `txID`; its string is the key of a transaction in a map. -/
abbrev TxID := List FrameID

structure TxData where
  frames : List Frame
  deriving DecidableEq

def TxData.id (td : TxData) : TxID := td.frames.map frameID

structure Channel (σ : Type) where
  channelBuilder : ChannelBuilder σ
  pendingTransactions : FinMap TxID TxData
  confirmedTransactions : FinMap TxID BlockID
  confirmedTxUpdated : Bool
  minInclusionBlock : UInt64
  maxInclusionBlock : UInt64

namespace Channel

variable {σ : Type} (env : Setup σ)

/-- `newChannel`, with the new channel out. -/
def newChannel (co : σ) (latestL1OriginBlockNum : UInt64) : Channel σ :=
  ⟨.newChannelBuilder env co latestL1OriginBlockNum, ∅, ∅, false, 0, 0⟩

def isFull (ch : Channel σ) : Bool := ch.channelBuilder.isFull

def txFailed (id : TxID) (ch : Channel σ) : Channel σ :=
  match ch.pendingTransactions.lookup id with
  | none => ch
  | some data =>
    { ch with
      channelBuilder := { ch.channelBuilder with frames := ch.channelBuilder.frames ++ data.frames }
      pendingTransactions := ch.pendingTransactions.erase id }

def updateInclusionBlocks (ch : Channel σ) : Channel σ :=
  if ch.confirmedTransactions.values = [] ∨ ch.confirmedTxUpdated = false then ch
  else
    { ch with
      minInclusionBlock := ch.confirmedTransactions.values.foldl
        (fun min block => if block.number < min then block.number else min) (UInt64.ofNat (2 ^ 64 - 1))
      maxInclusionBlock := ch.confirmedTransactions.values.foldl
        (fun max block => if max < block.number then block.number else max) 0
      confirmedTxUpdated := false }

/-- `isTimedOut`, once the inclusion blocks are updated. -/
def isTimedOut (ch : Channel σ) : Bool :=
  env.cfg.channelTimeout ≤ ch.maxInclusionBlock - ch.minInclusionBlock

def isFullySubmitted (ch : Channel σ) : Bool :=
  ch.isFull ∧ ch.pendingTransactions.values.length + ch.channelBuilder.frames.length = 0

def noneSubmitted (ch : Channel σ) : Bool :=
  ch.confirmedTransactions.values.length = 0 ∧ ch.pendingTransactions.values.length = 0

/-- The part of `TxConfirmed` that records the confirmation. -/
def recordConfirmed (id : TxID) (inclusionBlock : BlockID) (ch : Channel σ) : Channel σ :=
  updateInclusionBlocks
    { ch with
      pendingTransactions := ch.pendingTransactions.erase id
      confirmedTransactions := ch.confirmedTransactions.insert id inclusionBlock
      confirmedTxUpdated := true
      channelBuilder := ch.channelBuilder.framePublished env inclusionBlock.number }

/-- `TxConfirmed`: whether the channel is done, and the blocks that have to be sent again. -/
def txConfirmed (id : TxID) (inclusionBlock : BlockID) (ch : Channel σ) :
    Channel σ × Bool × List Block :=
  match ch.pendingTransactions.lookup id with
  | none => (ch, false, [])
  | some _ =>
    let ch := ch.recordConfirmed env id inclusionBlock
    if ch.isTimedOut env then (ch, true, ch.channelBuilder.blocks)
    else if ch.isFullySubmitted then (ch, true, [])
    else (ch, false, [])

def nextTxData (ch : Channel σ) : Channel σ × TxData :=
  let nf := env.cfg.maxFramesPerTx.toNat
  let txdata : TxData := ⟨ch.channelBuilder.frames.take nf⟩
  ({ ch with
      channelBuilder := { ch.channelBuilder with frames := ch.channelBuilder.frames.drop nf }
      pendingTransactions := ch.pendingTransactions.insert txdata.id txdata }, txdata)

def hasTxData (ch : Channel σ) : Bool :=
  if ch.isFull ∨ ¬ env.cfg.multiFrameTxs then 0 < ch.channelBuilder.frames.length
  else env.cfg.maxFramesPerTx ≤ ch.channelBuilder.frames.length

def pendingFrames (ch : Channel σ) : List Frame := ch.pendingTransactions.values.flatMap TxData.frames

variable {ch : Channel σ}

lemma frames_ne_nil_of_hasTxData (hcfg : env.cfg.check = none) (h : ch.hasTxData env = true) :
    ch.channelBuilder.frames ≠ [] := by
  have hone := ChannelConfig.one_le_maxFramesPerTx hcfg
  rw [hasTxData] at h
  refine ne_nil_of_length_pos ?_
  split at h
  · exact of_decide_eq_true h
  · have hle := of_decide_eq_true h
    omega

lemma recordConfirmed_eq (id : TxID) (inclusionBlock : BlockID) (ch : Channel σ) :
    ch.channelBuilder.Same (ch.recordConfirmed env id inclusionBlock).channelBuilder ∧
      (ch.recordConfirmed env id inclusionBlock).isFull = ch.isFull ∧
      (ch.recordConfirmed env id inclusionBlock).pendingTransactions =
        ch.pendingTransactions.erase id := by
  rw [recordConfirmed, updateInclusionBlocks]
  split <;> exact ⟨same_updateTimeout _ _ _, isFull_updateTimeout _ _ _, rfl⟩

lemma txConfirmed_eq {id : TxID} {tx : TxData}
    (hlook : ch.pendingTransactions.lookup id = some tx) (inclusionBlock : BlockID) :
    (ch.txConfirmed env id inclusionBlock).1 = ch.recordConfirmed env id inclusionBlock := by
  rw [txConfirmed, hlook]
  dsimp only
  split
  · rfl
  · split <;> rfl

lemma txConfirmed_blocks (id : TxID) (inclusionBlock : BlockID) (ch : Channel σ) :
    (ch.txConfirmed env id inclusionBlock).1.channelBuilder.blocks = ch.channelBuilder.blocks ∧
      (ch.txConfirmed env id inclusionBlock).2.2 =
        if (ch.txConfirmed env id inclusionBlock).2.1 ∧
            (ch.txConfirmed env id inclusionBlock).1.isTimedOut env then ch.channelBuilder.blocks
        else [] := by
  have hsame := (recordConfirmed_eq env id inclusionBlock ch).1.blocks_eq
  cases hlook : ch.pendingTransactions.lookup id with
  | none =>
    rw [txConfirmed, hlook]
    exact ⟨rfl, rfl⟩
  | some tx =>
    simp only [txConfirmed, hlook]
    split
    case isTrue htimed => exact ⟨hsame, by rw [if_pos ⟨rfl, htimed⟩, hsame]⟩
    case isFalse htimed =>
      split
      · exact ⟨hsame, (if_neg fun h => htimed h.2).symm⟩
      · exact ⟨hsame, rfl⟩

end Channel

/-! ## A channel with its history -/

/-- What is done to a channel.  Blocks are only added to it, and it is only closed, when it is not
full; and transaction data is only taken when there is some. -/
inductive ChannelAction where
  /-- `TxData` of the channel manager adds blocks to the channel, registers the L1 head and outputs
  frames. -/
  | addBlocks (blocks : List Block) (l1Head : UInt64)
  /-- `Close` of the channel manager. -/
  | close
  | nextTxData
  | txFailed (id : TxID)
  | txConfirmed (id : TxID) (inclusionBlock : BlockID)

/-- A channel with all frames that were output, and the transactions that were confirmed. -/
structure Traced (σ : Type) where
  channel : Channel σ
  output : List Frame
  confirmed : List TxData

namespace Traced

variable {σ : Type} (env : Setup σ)

def newTraced (co : σ) (latestL1OriginBlockNum : UInt64) : Traced σ :=
  ⟨.newChannel env co latestL1OriginBlockNum, [], []⟩

/-- The builder was changed, and frames were output with it. -/
def setBuilder (cb : ChannelBuilder σ) (t : Traced σ) : Traced σ :=
  { t with
    channel := { t.channel with channelBuilder := cb }
    output := t.output ++ cb.frames.drop t.channel.channelBuilder.frames.length }

/-- The channel after an action; there is no result if the output of frames does not come to an end. -/
def step (action : ChannelAction) (t : Traced σ) : Option (Traced σ) :=
  match action with
  | .addBlocks blocks l1Head =>
    if t.channel.isFull then some t
    else
      match t.channel.channelBuilder.addBlocks env blocks with
      | (cb, _, some _) => some (t.setBuilder cb)
      | (cb, _, none) => ((cb.checkTimeout l1Head).outputFrames env).map fun r => t.setBuilder r.1
  | .close =>
    if t.channel.isFull then some t
    else (t.channel.channelBuilder.close.outputFrames env).map fun r => t.setBuilder r.1
  | .nextTxData =>
    if t.channel.hasTxData env then some { t with channel := (t.channel.nextTxData env).1 } else some t
  | .txFailed id => some { t with channel := t.channel.txFailed id }
  | .txConfirmed id inclusionBlock =>
    some { t with
      channel := (t.channel.txConfirmed env id inclusionBlock).1
      confirmed := t.confirmed ++ (t.channel.pendingTransactions.lookup id).toList }

def run : List ChannelAction → Traced σ → Option (Traced σ)
  | [], t => some t
  | action :: rest, t => (step env action t).bind (run rest)

def confirmedFrames (t : Traced σ) : List Frame := t.confirmed.flatMap TxData.frames

/-- Every frame that was output is in the queue, in one pending transaction, or in one confirmed
transaction. -/
def Conserved (t : Traced σ) : Prop :=
  (t.channel.channelBuilder.frames ++ t.channel.pendingFrames ++ t.confirmedFrames).Perm t.output

/-! ## No frame is lost -/

lemma nodup_frameID {source : FrameSource} {out : List Frame} (hout : source.Output out)
    (hlen : out.length < 2 ^ 16) : (out.map frameID).Nodup := by
  rw [nodup_iff_getElem?_ne_getElem?]
  intro i j hij hj heq
  rw [length_map] at hj
  rw [getElem?_map, getElem?_map, getElem?_eq_getElem (lt_trans hij hj),
    getElem?_eq_getElem hj] at heq
  have hnum := congrArg FrameID.frameNumber (Option.some.inj heq)
  have hi := hout.number_eq i _ (getElem?_eq_getElem (lt_trans hij hj))
  have hj' := hout.number_eq j _ (getElem?_eq_getElem hj)
  have hval := congrArg Fin.val (hi.symm.trans (hnum.trans hj'))
  rw [Fin.val_ofNat, Fin.val_ofNat, Nat.mod_eq_of_lt (by omega)] at hval
  omega

variable {env} (lawful : env.ops.OutputsFrames)

/-- What holds of a channel between actions. -/
structure Inv (id : ChannelID) (t : Traced σ) : Prop where
  tracks : Tracks lawful id t.output t.channel.channelBuilder
  conserved : t.Conserved
  keys : ∀ id tx, t.channel.pendingTransactions.lookup id = some tx → tx.id = id
  isOpen : t.channel.isFull = false → (lawful.source t.channel.channelBuilder.co).closed = false
  last : t.channel.isFull = true → ∃ f ∈ t.output, f.isLast = true

variable {lawful} {id : ChannelID} {t t' : Traced σ}

lemma output_step {action : ChannelAction} (h : step env action t = some t') :
    t.output <+: t'.output := by
  cases action with
  | addBlocks blocks l1Head =>
    rw [step] at h
    split at h
    · exact Option.some.inj h ▸ prefix_rfl
    · split at h
      · exact Option.some.inj h ▸ prefix_append _ _
      · obtain ⟨r, -, rfl⟩ := Option.map_eq_some_iff.mp h
        exact prefix_append _ _
  | close =>
    rw [step] at h
    split at h
    · exact Option.some.inj h ▸ prefix_rfl
    · obtain ⟨r, -, rfl⟩ := Option.map_eq_some_iff.mp h
      exact prefix_append _ _
  | nextTxData =>
    rw [step] at h
    split at h <;> exact Option.some.inj h ▸ prefix_rfl
  | txFailed id => exact Option.some.inj h ▸ prefix_rfl
  | txConfirmed id inclusionBlock => exact Option.some.inj h ▸ prefix_rfl

lemma output_run {actions : List ChannelAction} (h : run env actions t = some t') :
    t.output <+: t'.output := by
  induction actions generalizing t with
  | nil => exact Option.some.inj h ▸ prefix_rfl
  | cons action rest ih =>
    obtain ⟨t₁, hstep, hrest⟩ := Option.bind_eq_some_iff.mp h
    exact (output_step hstep).trans (ih hrest)

variable {pending : FinMap TxID TxData} {chID : ChannelID} {cb : ChannelBuilder σ} {data : Bytes}
  {tx : TxData}

lemma Inv.setBuilder (h : Inv lawful id t) {fs : List Frame}
    (hfrs : cb.frames = t.channel.channelBuilder.frames ++ fs)
    (htracks : Tracks lawful id (t.output ++ fs) cb)
    (hopen : cb.isFull = false → (lawful.source cb.co).closed = false)
    (hlast : cb.isFull = true → ∃ f ∈ t.output ++ fs, f.isLast = true) :
    Inv lawful id (t.setBuilder cb) := by
  have hout : (t.setBuilder cb).output = t.output ++ fs := by
    rw [Traced.setBuilder, hfrs, drop_left]
  refine ⟨hout ▸ htracks, ?_, h.keys, hopen, hout ▸ hlast⟩
  have hperm := h.conserved
  rw [Conserved] at hperm ⊢
  rw [hout]
  show (cb.frames ++ t.channel.pendingFrames ++ t.confirmedFrames).Perm _
  rw [perm_iff_count] at hperm ⊢
  intro f
  have hcnt := hperm f
  simp only [hfrs, count_append] at hcnt ⊢
  omega

lemma Inv.outputFrames (h : Inv lawful id t) (hdrains : lawful.Drains)
    (hsize : frameV0OverHeadSize ≤ env.cfg.maxFrameSize.toNat)
    (hfrs : cb.frames = t.channel.channelBuilder.frames) (htracks : Tracks lawful id t.output cb)
    (hopen : (lawful.source cb.co).closed = false) {r : ChannelBuilder σ × Option ChannelOutError}
    (hcall : cb.outputFrames env = some r) (hlen : (t.setBuilder r.1).output.length < 2 ^ 16) :
    Inv lawful id (t.setBuilder r.1) := by
  obtain ⟨-, -, fs, hfs, htracks', hfull, hlast, hopen'⟩ :=
    htracks.outputFrames hdrains hopen hsize hcall
  rw [hfrs] at hfs
  have hout : (t.setBuilder r.1).output = t.output ++ fs := by
    rw [Traced.setBuilder, hfs, drop_left]
  have hsame : r.1.isFull = cb.isFull := by grind [isFull]
  refine h.setBuilder hfs htracks' (fun hnot => (hopen' (hsame ▸ hnot)).1) fun his => ?_
  obtain ⟨f, hf, hf'⟩ := hlast (hsame ▸ his)
  exact ⟨f, mem_append_right _ hf, hf'⟩

lemma Inv.nodup (h : Inv lawful id t) (hlen : t.output.length < 2 ^ 16) :
    ((t.channel.channelBuilder.frames ++ t.channel.pendingFrames ++ t.confirmedFrames).map
      frameID).Nodup :=
  (h.conserved.map frameID).nodup_iff.mpr (nodup_frameID h.tracks.output hlen)

/-- The next transaction is not one of the pending ones. -/
theorem Inv.nextTxData (h : Inv lawful id t) (hcfg : env.cfg.check = none)
    (hlen : t.output.length < 2 ^ 16) (hhas : t.channel.hasTxData env = true) :
    Inv lawful id { t with channel := (t.channel.nextTxData env).1 } := by
  have hne := Channel.frames_ne_nil_of_hasTxData env hcfg hhas
  have hone := ChannelConfig.one_le_maxFramesPerTx hcfg
  set tx : TxData := ⟨t.channel.channelBuilder.frames.take env.cfg.maxFramesPerTx.toNat⟩ with htx
  have hfresh : tx.id ∉ t.channel.pendingTransactions := by
    intro hmem
    obtain ⟨tx', hlook⟩ := Option.isSome_iff_exists.mp (AList.lookup_isSome.mpr hmem)
    have hid := h.keys _ _ hlook
    -- the first frame of the queue would be in the other transaction, too
    obtain ⟨f, rest, hqueue⟩ := exists_cons_of_ne_nil hne
    have hf : frameID f ∈ tx.id := by
      obtain ⟨n, hn⟩ : ∃ n, env.cfg.maxFramesPerTx.toNat = n + 1 :=
        ⟨env.cfg.maxFramesPerTx.toNat - 1, by omega⟩
      rw [TxData.id, htx, hqueue, hn, take_succ_cons]
      exact mem_cons_self
    rw [← hid] at hf
    obtain ⟨g, hg, hgf⟩ := mem_map.mp hf
    have hnodup := h.nodup hlen
    rw [map_append, map_append, nodup_append, nodup_append] at hnodup
    refine hnodup.1.2.2 (frameID f) ?_ (frameID g) ?_ hgf.symm
    · rw [hqueue]
      exact mem_cons_self
    · exact mem_map_of_mem (mem_flatMap.mpr ⟨tx', FinMap.mem_values.mpr ⟨_, hlook⟩, hg⟩)
  refine ⟨⟨h.tracks.inv, h.tracks.id_eq, h.tracks.output, h.tracks.notLast⟩, ?_, fun id' tx' hlook => ?_,
    h.isOpen, h.last⟩
  · have hperm := h.conserved
    rw [Conserved, perm_iff_count] at hperm ⊢
    intro f
    have hcnt := hperm f
    have hpend : ((t.channel.nextTxData env).1).pendingFrames =
        tx.frames ++ t.channel.pendingFrames := by
      rw [Channel.pendingFrames, Channel.nextTxData, FinMap.values_insert hfresh]
      rfl
    have hqueue : t.channel.channelBuilder.frames =
        tx.frames ++ (t.channel.nextTxData env).1.channelBuilder.frames :=
      (take_append_drop _ _).symm
    rw [hqueue] at hcnt
    show count f (_ ++ (t.channel.nextTxData env).1.pendingFrames ++ t.confirmedFrames) = _
    rw [hpend]
    simp only [count_append] at hcnt ⊢
    omega
  · change (t.channel.pendingTransactions.insert tx.id tx).lookup id' = _ at hlook
    by_cases hid : id' = tx.id
    · grind [AList.lookup_insert]
    · rw [AList.lookup_insert_ne hid] at hlook
      exact h.keys _ _ hlook

lemma count_pendingFrames {ch : Channel σ} {id' : TxID}
    (hlook : ch.pendingTransactions.lookup id' = some tx) (f : Frame) :
    ch.pendingFrames.count f = tx.frames.count f +
      ((FinMap.values (ch.pendingTransactions.erase id')).flatMap TxData.frames).count f := by
  rw [Channel.pendingFrames, ((FinMap.values_perm hlook).flatMap_right _).count_eq, flatMap_cons,
    count_append]

lemma lookup_of_erase {id₁ id₂ : TxID} (h : (pending.erase id₁).lookup id₂ = some tx) :
    pending.lookup id₂ = some tx := by
  by_cases hid : id₂ = id₁
  · subst hid
    rw [AList.lookup_erase] at h
    cases h
  · rwa [AList.lookup_erase_ne hid] at h

lemma Inv.txFailed (h : Inv lawful id t) (id' : TxID) :
    Inv lawful id { t with channel := t.channel.txFailed id' } := by
  rw [Channel.txFailed]
  cases hlook : t.channel.pendingTransactions.lookup id' with
  | none => exact h
  | some tx =>
    refine ⟨⟨h.tracks.inv, h.tracks.id_eq, h.tracks.output, h.tracks.notLast⟩, ?_,
      fun _ _ hlookup' => h.keys _ _ (lookup_of_erase hlookup'), h.isOpen, h.last⟩
    have hperm := h.conserved
    rw [Conserved, perm_iff_count] at hperm ⊢
    intro f
    have hcnt := hperm f
    have hpend := count_pendingFrames hlook f
    simp only [count_append, Channel.pendingFrames, confirmedFrames] at hcnt hpend ⊢
    omega

lemma Inv.txConfirmed (h : Inv lawful id t) (id' : TxID) (inclusionBlock : BlockID) :
    Inv lawful id
      { t with
        channel := (t.channel.txConfirmed env id' inclusionBlock).1
        confirmed := t.confirmed ++ (t.channel.pendingTransactions.lookup id').toList } := by
  cases hlook : t.channel.pendingTransactions.lookup id' with
  | none =>
    have heq : (t.channel.txConfirmed env id' inclusionBlock).1 = t.channel := by
      rw [Channel.txConfirmed, hlook]
    rwa [heq, Option.toList_none, append_nil]
  | some tx =>
    obtain ⟨hsame, hfull, hpend⟩ := Channel.recordConfirmed_eq env id' inclusionBlock t.channel
    rw [Channel.txConfirmed_eq env hlook]
    refine ⟨h.tracks.same hsame, ?_, fun _ _ hlookup' => ?_, fun hnot => ?_, fun his => ?_⟩
    · have hperm := h.conserved
      rw [Conserved, perm_iff_count] at hperm ⊢
      intro f
      have hcnt := hperm f
      have hpending' := count_pendingFrames hlook f
      simp only [count_append, Channel.pendingFrames, hpend, hsame.frames_eq, confirmedFrames,
        flatMap_append, Option.toList_some, flatMap_cons, flatMap_nil, append_nil]
        at hcnt hpending' ⊢
      omega
    · exact h.keys _ _ (lookup_of_erase (hpend ▸ hlookup'))
    · rw [hsame.co_eq]
      exact h.isOpen (hfull ▸ hnot)
    · exact h.last (hfull ▸ his)

lemma Inv.step (h : Inv lawful id t) (hdrains : lawful.Drains) (hcfg : env.cfg.check = none)
    {action : ChannelAction} (hstep : Traced.step env action t = some t')
    (hlen : t'.output.length < 2 ^ 16) : Inv lawful id t' := by
  obtain ⟨-, hsize, -⟩ := ChannelConfig.check_eq_none.mp hcfg
  cases action with
  | addBlocks blocks l1Head =>
    rw [Traced.step] at hstep
    split at hstep
    case isTrue => exact Option.some.inj hstep ▸ h
    case isFalse hnot =>
      have hadds := adds_addBlocks env blocks t.channel.channelBuilder
      have hopen := h.isOpen (Bool.eq_false_iff.mpr hnot)
      split at hstep
      case h_1 cb n e hadd =>
        rw [hadd] at hadds
        obtain ⟨htracks, hcl⟩ := h.tracks.adds hadds
        cases hstep
        have hfrs : cb.frames = t.channel.channelBuilder.frames ++ [] :=
          hadds.frames_eq.trans (append_nil _).symm
        have hnotFull : cb.isFull = false := by
          have herr := isFull_of_addBlocks_error env blocks t.channel.channelBuilder e
          rw [hadd] at herr
          exact herr rfl
        refine h.setBuilder hfrs ((append_nil t.output).symm ▸ htracks)
          (fun _ => hcl.trans hopen) fun his => ?_
        cases hnotFull.symm.trans his
      case h_2 cb n hadd =>
        rw [hadd] at hadds
        obtain ⟨htracks, hcl⟩ := h.tracks.adds hadds
        obtain ⟨r, hcall, rfl⟩ := Option.map_eq_some_iff.mp hstep
        have hsame := same_checkTimeout l1Head cb
        refine h.outputFrames hdrains hsize (hsame.frames_eq.trans hadds.frames_eq) (htracks.same hsame)
          ?_ hcall hlen
        rw [hsame.co_eq, hcl, hopen]
  | close =>
    rw [Traced.step] at hstep
    split at hstep
    case isTrue => exact Option.some.inj hstep ▸ h
    case isFalse hnot =>
      obtain ⟨r, hcall, rfl⟩ := Option.map_eq_some_iff.mp hstep
      have hsame := same_close t.channel.channelBuilder
      refine h.outputFrames hdrains hsize hsame.frames_eq (h.tracks.same hsame) ?_ hcall hlen
      rw [hsame.co_eq]
      exact h.isOpen (Bool.eq_false_iff.mpr hnot)
  | nextTxData =>
    rw [Traced.step] at hstep
    split at hstep
    case isTrue hhas =>
      cases hstep
      exact h.nextTxData hcfg hlen hhas
    case isFalse => exact Option.some.inj hstep ▸ h
  | txFailed id' => exact Option.some.inj hstep ▸ h.txFailed id'
  | txConfirmed id' inclusionBlock => exact Option.some.inj hstep ▸ h.txConfirmed id' inclusionBlock

lemma Inv.run (h : Inv lawful id t) (hdrains : lawful.Drains) (hcfg : env.cfg.check = none)
    {actions : List ChannelAction} (hrun : Traced.run env actions t = some t')
    (hlen : t'.output.length < 2 ^ 16) : Inv lawful id t' := by
  induction actions generalizing t with
  | nil => exact Option.some.inj hrun ▸ h
  | cons action rest ih =>
    obtain ⟨t₁, hstep, hrest⟩ := Option.bind_eq_some_iff.mp hrun
    have hlen₁ := lt_of_le_of_lt (output_run hrest).length_le hlen
    exact ih (h.step hdrains hcfg hstep hlen₁) hrest

lemma same_newChannelBuilder (co : σ) (n : UInt64) :
    (newChannelBuilder env co n).co = co ∧
      (newChannelBuilder env co n).frames = [] ∧
      (newChannelBuilder env co n).fullErr = none := by
  rw [newChannelBuilder, updateDurationTimeout]
  split
  · exact ⟨rfl, rfl, rfl⟩
  · rw [updateTimeout]
    split <;> exact ⟨rfl, rfl, rfl⟩

lemma inv_newTraced {co : σ} (hopen : lawful.Open id [] co) (n : UInt64) :
    Inv lawful id (newTraced env co n) := by
  obtain ⟨hco, hfrs, hfull⟩ := @same_newChannelBuilder _ env co n
  refine ⟨?_, ?_, nofun, fun _ => ?_, fun his => ?_⟩
  · exact ⟨hco.symm ▸ hopen.inv, hco.symm ▸ hopen.id_eq, hco.symm ▸ hopen.output, nofun⟩
  · show ((newChannelBuilder env co n).frames ++ [] ++ []).Perm []
    rw [hfrs]
    exact Perm.refl _
  · show (lawful.source (newChannelBuilder env co n).co).closed = _
    rw [hco]
    exact hopen.closed_eq
  · have hnot : (newChannelBuilder env co n).isFull = true := his
    rw [isFull, hfull] at hnot
    cases hnot

def sizeConfig (maxFrameSize : UInt64) : ChannelConfig where
  seqWindowSize := 3600
  channelTimeout := 300
  maxChannelDuration := 0
  subSafetyMargin := 10
  maxFrameSize := maxFrameSize
  targetNumFrames := 100000
  batchType := 0
  multiFrameTxs := false

/-- Channels of singular batches that are not compressed. -/
def storingSetup (cfg : ChannelConfig) : Setup (SingularChannelOut Unit) where
  cfg := cfg
  ops := channelOut storing
  l1BlockInfoFromBytes _ _ := some ⟨1, zeroHash, 0⟩

/-- A block with a deposit and another transaction. -/
def dataBlock (data : Bytes) : Block where
  hash := ⟨replicate 32 1, rfl⟩
  parentHash := zeroHash
  time := 1
  transactions := [.deposit [], .other data]
  hash_ne := by decide

/-- Whatever is done to a channel with fewer than `2 ^ 16` frames, each of them is in the queue, in
a pending transaction or in a confirmed one; and when the channel reports that it is fully
submitted, all of them are in confirmed ones, with the last one. -/
theorem channel_frames_conserved {source : σ → FrameSource} {co : σ}
    (hnew : IsNewChannelOut env.ops source co)
    (hclose : ∀ co, (source co).closed = false → (env.ops.close co).2 = none)
    (hcfg : env.cfg.check = none) (latestL1OriginBlockNum : UInt64) (actions : List ChannelAction)
    (hrun : Traced.run env actions (newTraced env co latestL1OriginBlockNum) = some t)
    (hlen : t.output.length < 2 ^ 16) :
    t.Conserved ∧ (t.output.map frameID).Nodup ∧
      (t.channel.isFullySubmitted = true →
        t.confirmedFrames.Perm t.output ∧ ∃ f ∈ t.output, f.isLast = true) := by
  obtain ⟨lawful, rfl, hopen, hdrains, -⟩ := hnew.exists_open
  have hinv := (inv_newTraced hopen latestL1OriginBlockNum).run (hdrains hclose) hcfg hrun hlen
  refine ⟨hinv.conserved, nodup_frameID hinv.tracks.output hlen, fun hsub => ?_⟩
  obtain ⟨hfull, hnone⟩ := of_decide_eq_true hsub
  obtain ⟨hpend, hqueue⟩ := Nat.add_eq_zero_iff.mp hnone
  refine ⟨?_, hinv.last hfull⟩
  have hperm := hinv.conserved
  rwa [Conserved, Channel.pendingFrames, eq_nil_of_length_eq_zero hpend,
    eq_nil_of_length_eq_zero hqueue] at hperm

/-- A block is sent in three frames, of which the first one has to be sent again. -/
def resubmitted : List ChannelAction :=
  [.addBlocks [dataBlock [1, 2, 3]] 0, .nextTxData, .close, .nextTxData,
    .txFailed [⟨emptyChannel.id, 0⟩], .txConfirmed [⟨emptyChannel.id, 1⟩] ⟨zeroHash, 7⟩,
    .nextTxData, .nextTxData,
    .txConfirmed [⟨emptyChannel.id, 0⟩] ⟨zeroHash, 9⟩,
    .txConfirmed [⟨emptyChannel.id, 2⟩] ⟨zeroHash, 8⟩]

theorem channel_frames_conserved_resubmitted :
    ∃ t, Traced.run (storingSetup (sizeConfig 60)) resubmitted
        (newTraced (storingSetup (sizeConfig 60)) emptyChannel 0) = some t ∧
      t.channel.isFullySubmitted = true ∧ t.confirmedFrames.Perm t.output ∧
      ∃ f ∈ t.output, f.isLast = true := by
  have heval : (run (storingSetup (sizeConfig 60)) resubmitted
      (newTraced (storingSetup (sizeConfig 60)) emptyChannel 0)).map
      (fun t => (t.output.length, t.channel.isFullySubmitted)) = some (3, true) := by decide +kernel
  obtain ⟨t, hrun, heq⟩ := Option.map_eq_some_iff.mp heval
  obtain ⟨hlen, hsub⟩ := Prod.mk.inj heq
  have hclose : ∀ co : SingularChannelOut Unit, co.closed = false →
      (close storing co).2 = none := fun co hopen => by
    rw [SingularChannelOut.close, hopen]
    rfl
  obtain ⟨-, -, hall⟩ := channel_frames_conserved
    (IsNewChannelOut.singular storing emptyChannel.id () []) hclose (by decide) 0 resubmitted hrun
    (by rw [hlen]; decide)
  exact ⟨t, hrun, hsub, hall hsub⟩

/-! ## Too many frames -/

lemma addSingularBatch_data {data : Bytes} (hlen : data.length ≤ 1000000) {batch : SingularBatch}
    (htxs : batch.transactions = [data]) (seqNum : UInt64) :
    ∃ co, addSingularBatch storing batch seqNum emptyChannel = (co, none) ∧
      data.length ≤ co.compressed.len := by
  have hcont : (batch.transactions.map encodeString).flatten = encodeString data := by
    rw [htxs]
    exact append_nil _
  have hstr := length_le_encodeString data
  have hstring' := @length_encodeString_le data (by omega)
  obtain ⟨hlow, hhigh⟩ := SingularBatch.length_encode hcont (by omega)
  have htyped := length_le_encodeString (0 :: batch.encode)
  have htyped' := @length_encodeString_le (0 :: batch.encode) (by rw [length_cons]; omega)
  rw [length_cons] at htyped htyped'
  have hfits : ¬ safeMaxRLPBytesPerChannel <
      emptyChannel.rlpLength + (encodeString (0 :: batch.encode)).length := by
    show ¬ 10000000 < 0 + _
    omega
  refine ⟨_, if_neg hfits, ?_⟩
  show data.length ≤ ([] ++ encodeString (0 :: batch.encode)).length - 0
  rw [nil_append]
  omega

lemma addBlocks_data (cfg : ChannelConfig) (hlen : data.length ≤ 1000000) :
    ∃ cb, addBlocks (storingSetup cfg) [dataBlock data]
        (newChannelBuilder (storingSetup cfg) emptyChannel 0) = (cb, 1, none) ∧
      cb.isFull = false ∧ data.length ≤ cb.co.compressed.len := by
  obtain ⟨hco, -, hfull⟩ := @same_newChannelBuilder _ (storingSetup cfg) emptyChannel 0
  obtain ⟨co, hadd, hwr⟩ := @addSingularBatch_data data hlen
    ⟨zeroHash, 1, zeroHash, 1, [data]⟩ rfl 0
  have hone : ∃ cb, addBlock (storingSetup cfg) (dataBlock data)
      (newChannelBuilder (storingSetup cfg) emptyChannel 0) = (cb, none) ∧
      cb.isFull = false ∧ cb.co = co := by
    rw [addBlock, hfull, hco]
    dsimp only [blockToSingularBatch, dataBlock, storingSetup, channelOut,
      filterMap]
    rw [hadd]
    refine ⟨_, rfl, ?_, ?_⟩
    · exact (isFull_updateLatestL1Origin _ _).trans (isFull_updateTimeout _ _ _)
    · rw [(same_recorded _ _ _ _).co_eq]
  obtain ⟨cb, hblock, hnot, rfl⟩ := hone
  refine ⟨cb, ?_, hnot, hwr⟩
  rw [addBlocks, hblock]
  dsimp only
  rw [hnot]
  rfl

/-- A block of `n` bytes makes at least `n` frames of one byte. -/
theorem many_frames (hlen : data.length ≤ 1000000) :
    ∃ t, step (storingSetup (sizeConfig 24)) (.addBlocks [dataBlock data] 0)
        (newTraced (storingSetup (sizeConfig 24)) emptyChannel 0) = some t ∧
      t.channel.pendingTransactions = ∅ ∧ t.confirmed = [] ∧
      t.channel.channelBuilder.frames = t.output ∧ data.length ≤ t.output.length ∧
      ∀ f ∈ t.output, f.id = emptyChannel.id := by
  obtain ⟨-, hfrs, hfull⟩ := @same_newChannelBuilder _ (storingSetup (sizeConfig 24)) emptyChannel 0
  obtain ⟨cb, hadd, hnot, hwr⟩ := addBlocks_data (sizeConfig 24) hlen
  have hadds := adds_addBlocks (storingSetup (sizeConfig 24)) [dataBlock data]
    (newChannelBuilder (storingSetup (sizeConfig 24)) emptyChannel 0)
  rw [hadd] at hadds
  have hinv := @inv_newTraced _ (storingSetup (sizeConfig 24)) (outputsFrames storing) _
    emptyChannel (open_newSingularChannelOut storing _ () []) 0
  obtain ⟨htracks, hcl⟩ := hinv.tracks.adds hadds
  -- nothing times out at the L1 head 0
  have hsame := same_checkTimeout 0 cb
  have hnot' : (cb.checkTimeout 0).isFull = false := by
    rw [checkTimeout, if_neg, hnot]
    rintro ⟨-, htime⟩
    obtain ⟨hne, hle⟩ := of_decide_eq_true htime
    exact hne (UInt64.le_zero_iff.mp hle)
  have htracks' := htracks.same hsame
  have hopen' : ((outputsFrames storing).source (cb.checkTimeout 0).co).closed = false := by
    rwa [hsame.co_eq]
  obtain ⟨cb', -, hready, -⟩ := outputReadyFrames_ends (takesReady storing) htracks'.inv
    (show frameV0OverHeadSize < (storingSetup (sizeConfig 24)).cfg.maxFrameSize.toNat by decide)
    (by decide) (Nat.lt_succ_self _)
  have hcall : outputFrames (storingSetup (sizeConfig 24)) (cb.checkTimeout 0) = some (cb', none) := by
    rw [outputFrames, hnot']
    exact hready
  obtain ⟨-, fs, houts, hfew⟩ := htracks'.outputReadyFrames hopen' (by decide) hready
  have hfs : cb'.frames = [] ++ fs := by
    rw [houts.frames_eq, hsame.frames_eq, hadds.frames_eq, hfrs]
  have hbytes := houts.readyBytes_le (takesReady storing) htracks'.inv
  have hout : ((newTraced (storingSetup (sizeConfig 24)) emptyChannel 0).setBuilder cb').output = fs := by
    show [] ++ cb'.frames.drop
      (newChannelBuilder (storingSetup (sizeConfig 24)) emptyChannel 0).frames.length = fs
    rw [hfs]
    rfl
  refine ⟨(newTraced (storingSetup (sizeConfig 24)) emptyChannel 0).setBuilder cb', ?_, rfl, rfl, ?_, ?_, ?_⟩
  · have hstart : ¬ (newTraced (storingSetup (sizeConfig 24)) emptyChannel 0).channel.isFull = true :=
      Bool.false_ne_true
    rw [step, if_neg hstart]
    simp only [newTraced, Channel.newChannel, hadd, hcall, Option.map_some]
  · rwa [hout]
  · have hsto : (storingSetup (sizeConfig 24)).ops.readyBytes (cb.checkTimeout 0).co =
        cb.co.compressed.len := by
      rw [hsame.co_eq]
      rfl
    have hint : (storingSetup (sizeConfig 24)).cfg.intMaxFrameSize = 24 := by decide
    have hroom : (storingSetup (sizeConfig 24)).cfg.maxFrameSize.toNat - frameV0OverHeadSize = 1 := by decide
    have hover : (frameV0OverHeadSize : ℤ) = 23 := rfl
    rw [hroom] at hbytes
    rw [hout]
    omega
  · rw [hout]
    obtain ⟨h', -⟩ := htracks'.outputs houts
    exact fun f hf => (h'.output.id_eq f (mem_append_right _ hf)).trans h'.id_eq

lemma length_pending_le (hkeys : ∀ id ∈ pending, ∃ n, id = [⟨chID, n⟩]) :
    pending.values.length ≤ 2 ^ 16 := by
  have hsub : pending.keys ⊆ (finRange (2 ^ 16)).map fun n => [FrameID.mk chID n] := by
    intro id hid
    obtain ⟨n, rfl⟩ := hkeys id hid
    exact mem_map.mpr ⟨n, mem_finRange n, rfl⟩
  have hle : (pending.entries.map Sigma.fst).length ≤ _ := (pending.nodupKeys.subperm hsub).length_le
  rw [length_map, length_map, length_finRange] at hle
  rwa [FinMap.values, length_map]

/-- The pending transactions have one frame each. -/
structure Singles (chID : ChannelID) (t : Traced σ) : Prop where
  queue : ∀ f ∈ t.channel.channelBuilder.frames, f.id = chID
  keys : ∀ id ∈ t.channel.pendingTransactions, ∃ n, id = [⟨chID, n⟩]
  length_le : ∀ tx ∈ t.channel.pendingTransactions.values, tx.frames.length ≤ 1

lemma Singles.nextTxData (h : Singles chID t) (hmulti : env.cfg.multiFrameTxs = false) {f : Frame}
    {rest : List Frame} (hqueue : t.channel.channelBuilder.frames = f :: rest) :
    ∃ t', step env .nextTxData t = some t' ∧ Singles chID t' ∧ t'.output = t.output ∧
      t'.confirmed = t.confirmed ∧ t'.channel.channelBuilder.frames = rest := by
  have hmax : env.cfg.maxFramesPerTx.toNat = 1 := by
    rw [ChannelConfig.maxFramesPerTx, hmulti]
    rfl
  have hhas : t.channel.hasTxData env = true := by grind [Channel.hasTxData]
  have hfrs : (t.channel.nextTxData env).1.channelBuilder.frames = rest := by
    rw [Channel.nextTxData, hmax, hqueue]
    rfl
  have hpend : (t.channel.nextTxData env).1.pendingTransactions =
      t.channel.pendingTransactions.insert [frameID f] ⟨[f]⟩ := by
    rw [Channel.nextTxData, hmax, hqueue]
    rfl
  refine ⟨_, if_pos hhas, ⟨?_, fun id hid => ?_, fun tx htx => ?_⟩, rfl, rfl, hfrs⟩
  · rw [hfrs]
    exact fun g hg => h.queue g (hqueue ▸ mem_cons_of_mem f hg)
  · rw [hpend, AList.mem_insert] at hid
    rcases hid with rfl | hid
    · exact ⟨f.frameNumber, by rw [frameID, h.queue f (hqueue ▸ mem_cons_self)]⟩
    · exact h.keys id hid
  · rw [hpend, FinMap.mem_values] at htx
    obtain ⟨id, hlook⟩ := htx
    by_cases hid : id = [frameID f]
    · subst hid
      rw [AList.lookup_insert] at hlook
      cases hlook
      exact le_refl 1
    · rw [AList.lookup_insert_ne hid] at hlook
      exact h.length_le tx (FinMap.mem_values.mpr ⟨id, hlook⟩)

lemma Singles.run {chID : ChannelID} (h : Singles chID t) (hmulti : env.cfg.multiFrameTxs = false)
    {n : ℕ} (hn : n ≤ t.channel.channelBuilder.frames.length) :
    ∃ t', Traced.run env (replicate n .nextTxData) t = some t' ∧ Singles chID t' ∧
      t'.output = t.output ∧ t'.confirmed = t.confirmed ∧
      t'.channel.channelBuilder.frames.length + n = t.channel.channelBuilder.frames.length := by
  induction n generalizing t with
  | zero => exact ⟨t, rfl, h, rfl, rfl, rfl⟩
  | succ n ih =>
    obtain ⟨f, rest, hqueue⟩ := exists_cons_of_length_pos (lt_of_lt_of_le (Nat.succ_pos n) hn)
    obtain ⟨t₁, hstep, h₁, hout₁, hconf₁, hrest₁⟩ := h.nextTxData hmulti hqueue
    rw [hqueue, length_cons] at hn ⊢
    obtain ⟨t₂, hrun, h₂, hout₂, hconf₂, hrest₂⟩ := ih h₁ (by rw [hrest₁]; omega)
    refine ⟨t₂, ?_, h₂, hout₂.trans hout₁, hconf₂.trans hconf₁, by rw [hrest₁] at hrest₂; omega⟩
    rwa [replicate_succ, run, hstep]

lemma length_pendingFrames_le (h : Singles chID t) : t.channel.pendingFrames.length ≤ 2 ^ 16 := by
  refine le_trans ?_ (length_pending_le h.keys)
  rw [Channel.pendingFrames, length_flatMap]
  have hsum := sum_le_card_nsmul (t.channel.pendingTransactions.values.map fun tx => tx.frames.length)
    1 (forall_mem_map.mpr h.length_le)
  rwa [nsmul_eq_mul, mul_one, length_map] at hsum

lemma not_conserved_of_many (hlen : data.length ≤ 1000000) {n : ℕ} (hn : n ≤ data.length)
    (hmany : 2 ^ 16 < n) :
    ∃ t, Traced.run (storingSetup (sizeConfig 24))
        (.addBlocks [dataBlock data] 0 :: replicate n .nextTxData)
        (newTraced (storingSetup (sizeConfig 24)) emptyChannel 0) = some t ∧ ¬ t.Conserved := by
  obtain ⟨t₁, hstep, hpend, hconf, hqueue, hfrs, hids⟩ := many_frames hlen
  have hsingles : Singles emptyChannel.id t₁ :=
    ⟨hqueue ▸ hids, fun id hid => by rw [hpend] at hid; exact absurd hid (AList.notMem_empty id),
      fun tx htx => by rw [hpend] at htx; exact nomatch htx⟩
  obtain ⟨t₂, hrun, h₂, hout, hconf₂, hrest⟩ :=
    @Singles.run _ (storingSetup (sizeConfig 24)) t₁ _ hsingles rfl n (by rw [hqueue]; omega)
  refine ⟨t₂, ?_, fun hperm => ?_⟩
  · rwa [run, hstep]
  · have hcnt := hperm.length_eq
    have hle := length_pendingFrames_le h₂
    rw [length_append, length_append, hout, confirmedFrames, hconf₂, hconf, flatMap_nil,
      length_nil] at hcnt
    rw [hqueue] at hrest
    omega

/-- The channel has more than `2 ^ 16` frames of one byte, and a transaction replaces another one that is
still pending: its frame is lost. -/
theorem channel_frames_lost :
    (sizeConfig 24).check = none ∧
      ∃ t, Traced.run (storingSetup (sizeConfig 24))
          (.addBlocks [dataBlock (replicate 70000 0)] 0 :: replicate 65537 .nextTxData)
          (newTraced (storingSetup (sizeConfig 24)) emptyChannel 0) = some t ∧ ¬ t.Conserved := by
  have hlen : (replicate 70000 (0 : UInt8)).length = 70000 := length_replicate
  exact ⟨by decide, not_conserved_of_many (hlen.le.trans (by decide)) (hlen.ge.trans' (by decide))
    (by decide)⟩

end Traced

/-! ## Frames without data -/

namespace ChannelBuilder

open Traced

end ChannelBuilder

end FightNight.Batcher
