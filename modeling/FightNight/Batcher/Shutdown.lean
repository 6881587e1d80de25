import FightNight.Batcher.ChannelManager
import Mathlib.Data.List.Chain

/-!
# Shutdown of the channel manager

`Close` should drop the channels of which nothing was submitted yet, and report whether there is
data left to send.  It ranges over the queue of channels while it removes entries in place: the
entry after a removed one is skipped, unless it is the last one, which is met again in what is
left of the array.  And the report only looks at the current channel.

`ClosesWell` says in which states `Close` nevertheless does what it should
(`close_iff_closesWell`).
-/

namespace FightNight.Batcher

open Option List Derive Traced ChannelBuilder SingularChannelOut SpanChannelOut

namespace ChannelManager

variable {σ : Type}

/-! ## The loop over the queue -/

/-- Nothing was submitted of a channel. -/
def unsubmitted (s : ChannelManager σ) (i : ℕ) : Bool := s.channels[i]?.any Channel.noneSubmitted

/-- What is left of the queue: behind an entry that is removed, the next one is not looked at, unless there
is no other one behind it. -/
def sweep (gone : ℕ → Bool) : List ℕ → List ℕ
  | a :: b :: c :: rest =>
    if gone a then b :: sweep gone (c :: rest) else a :: sweep gone (b :: c :: rest)
  | queue => queue.filter fun i => !gone i

/-- Nothing that should have gone is left if and only if of two neighbours in the queue, the last entry
apart, at most one should go. -/
theorem sweep_eq_false_iff (gone : ℕ → Bool) : ∀ queue : List ℕ,
    (∀ i ∈ sweep gone queue, gone i = false) ↔
      queue.dropLast.IsChain fun i j => gone i = false ∨ gone j = false
  | [] => by simp [sweep]
  | [a] => by simp [sweep]
  | [a, b] => by simp [sweep]
  | a :: b :: c :: rest => by
    rw [sweep, dropLast_cons_cons, dropLast_cons_cons, isChain_cons_cons]
    cases ha : gone a with
    | true =>
      rw [if_pos rfl, forall_mem_cons, sweep_eq_false_iff, isChain_cons]
      simp only [Bool.true_eq_false, false_or]
      exact ⟨fun ⟨hb, hrest⟩ => ⟨hb, fun _ _ => .inl hb, hrest⟩, fun ⟨hb, _, hrest⟩ => ⟨hb, hrest⟩⟩
    | false =>
      rw [if_neg Bool.false_ne_true, forall_mem_cons, sweep_eq_false_iff]
      exact ⟨fun ⟨_, hrest⟩ => ⟨.inl rfl, hrest⟩, fun ⟨_, hrest⟩ => ⟨ha, hrest⟩⟩

variable {s' : ChannelManager σ} {array : List ℕ} {i k last rounds : ℕ}

lemma drop_length_sub_one {queue : List ℕ} (h : queue.getLast? = some last) (stale : List ℕ) :
    (queue ++ stale).drop (queue.length - 1) = last :: stale := by
  obtain ⟨init, rfl⟩ := getLast?_eq_some_iff.mp h
  rw [length_append, length_singleton, Nat.add_sub_cancel, append_assoc, drop_left]
  rfl

variable {s : ChannelManager σ}

lemma dropLoop_succ (hget : array[k]? = some i) :
    dropLoop (rounds + 1) k array s =
      if s.unsubmitted i then
        dropLoop rounds (k + 1) (shift i s.channelQueue array) (s.removePendingChannel i)
      else dropLoop rounds (k + 1) array s := by
  rw [dropLoop, hget]
  rfl

/-- The part of the array behind the queue holds nothing but the last entry. -/
theorem dropLoop_stale (hnodup : s.channelQueue.Nodup) (hk : s.channelQueue.length ≤ k)
    (harray : array.drop k = replicate rounds last) :
    (dropLoop rounds k array s).channelQueue =
      if 0 < rounds ∧ s.unsubmitted last then s.channelQueue.erase last else s.channelQueue := by
  induction rounds generalizing k array s with
  | zero => rfl
  | succ rounds ih =>
    have hget : array[k]? = some last := by
      have hhead := congrArg head? harray
      rwa [head?_drop, replicate_succ] at hhead
    have htail : array.drop (k + 1) = replicate rounds last := by
      rw [← drop_drop, harray]
      rfl
    rw [dropLoop_succ hget]
    cases hgone : s.unsubmitted last with
    | false =>
      rw [if_neg Bool.false_ne_true, ih hnodup (Nat.le_succ_of_le hk) htail, hgone]
      simp
    | true =>
      have hshift : (shift last s.channelQueue array).drop (k + 1) = replicate rounds last := by
        rw [shift]
        split
        case isTrue hmem =>
          have hlen := length_erase_of_mem hmem
          rw [drop_append, drop_drop, hlen, drop_eq_nil_of_le (by rw [hlen]; omega), nil_append,
            show s.channelQueue.length - 1 + (k + 1 - (s.channelQueue.length - 1)) = k + 1 by omega,
            htail]
        case isFalse => exact htail
      have hlen : (s.removePendingChannel last).channelQueue.length ≤ k + 1 :=
        le_trans length_erase_le (Nat.le_succ_of_le hk)
      rw [if_pos rfl, ih (hnodup.erase last) hlen hshift,
        if_pos (show 0 < rounds + 1 ∧ true = true from ⟨Nat.succ_pos _, rfl⟩)]
      have hnot : last ∉ s.channelQueue.erase last := fun hc => hnodup.not_mem_erase hc
      show (if _ then (s.channelQueue.erase last).erase last else s.channelQueue.erase last) = _
      rw [erase_of_not_mem hnot, ite_self]

lemma sweep_cons_of_false {gone : ℕ → Bool} {a : ℕ} (ha : gone a = false) (queue : List ℕ) :
    sweep gone (a :: queue) = a :: sweep gone queue := by
  match queue with
  | [] => simp [sweep, ha]
  | [b] => simp [sweep, ha]
  | b :: c :: rest => rw [sweep, ha, if_neg Bool.false_ne_true]

/-- The loop from the entry behind `kept` on, when the array has `r` entries behind the queue, which are
all the last one. -/
theorem dropLoop_eq_sweep (last : ℕ) : ∀ (rest kept : List ℕ) (r : ℕ) (s : ChannelManager σ),
    s.channelQueue = kept ++ rest → s.channelQueue.Nodup → rest.getLast? = some last →
    (dropLoop (rest.length + r) kept.length (kept ++ rest ++ replicate r last) s).channelQueue =
      kept ++ sweep s.unsubmitted rest
  | [], _, _, _, _, _, hlast => by cases hlast
  | a :: rest, kept, r, s, hqueue, hnodup, hlast => by
    have hget : (kept ++ a :: rest ++ replicate r last)[kept.length]? = some a := by simp
    have hrnd : (a :: rest).length + r = rest.length + r + 1 := by
      rw [length_cons]
      omega
    rw [hrnd, dropLoop_succ hget]
    cases hgone : s.unsubmitted a with
    | false =>
      -- the entry stays
      rw [if_neg Bool.false_ne_true, sweep_cons_of_false hgone]
      cases rest with
      | nil =>
        obtain rfl : a = last := some.inj hlast
        have hlen : s.channelQueue.length = kept.length + 1 := by grind
        rw [dropLoop_stale hnodup hlen.le, hgone, if_neg fun hc => Bool.false_ne_true hc.2, hqueue]
        · rfl
        · simp
      | cons b rest =>
        have hnext := dropLoop_eq_sweep last (b :: rest) (kept ++ [a]) r s
          (by rw [hqueue, append_assoc]; rfl) hnodup hlast
        rw [length_append, length_singleton, append_assoc kept, append_assoc kept [a]] at hnext
        exact hnext
    | true =>
      -- the entry is removed, and the next one takes its place
      have hnotMem : a ∉ kept := fun hc => by
        rw [hqueue] at hnodup
        exact (nodup_append.mp hnodup).2.2 a hc a mem_cons_self rfl
      have herase : s.channelQueue.erase a = kept ++ rest := by grind
      have hshift : shift a s.channelQueue (kept ++ a :: rest ++ replicate r last) =
          kept ++ rest ++ replicate (r + 1) last := by
        have hmem : a ∈ s.channelQueue := hqueue ▸ mem_append_right _ mem_cons_self
        rw [shift, if_pos hmem, herase, hqueue, drop_length_sub_one, replicate_succ]
        rw [getLast?_append, hlast]
        rfl
      have hnodup' : (s.removePendingChannel a).channelQueue.Nodup := hnodup.erase a
      rw [if_pos rfl, hshift]
      match rest with
      | [] =>
        obtain rfl : a = last := some.inj hlast
        have hqueue' : (s.removePendingChannel a).channelQueue = kept :=
          herase.trans (append_nil kept)
        rw [dropLoop_stale hnodup' (by rw [hqueue']; omega), hqueue', erase_of_not_mem hnotMem]
        · simp [sweep, hgone]
        · simp
      | [b] =>
        obtain rfl : b = last := some.inj hlast
        have hqueue' : (s.removePendingChannel a).channelQueue = kept ++ [b] := herase
        have hlen : (kept ++ [b]).length = kept.length + 1 := by simp
        have hfresh : b ∉ kept := fun hc => by
          rw [hqueue'] at hnodup'
          exact (nodup_append.mp hnodup').2.2 b hc b mem_cons_self rfl
        rw [dropLoop_stale hnodup' (by rw [hqueue', hlen]), hqueue', erase_append_right _ hfresh,
          erase_cons_head]
        · have hsame : (s.removePendingChannel a).unsubmitted b = s.unsubmitted b := rfl
          rw [hsame]
          by_cases hb : s.unsubmitted b = true
          · simp [sweep, hgone, hb]
          · simp [sweep, hgone, hb]
        · grind
      | b :: c :: rest =>
        have hnext := dropLoop_eq_sweep last (c :: rest) (kept ++ [b]) (r + 1)
          (s.removePendingChannel a) (by
            show s.channelQueue.erase a = _
            rw [herase, append_assoc]
            rfl) hnodup' hlast
        rw [length_append, append_assoc kept, append_assoc kept [b]] at hnext
        rw [sweep, hgone]
        rw [show (b :: c :: rest).length + r = (c :: rest).length + (r + 1) by
          simp only [length_cons]
          omega]
        exact hnext

lemma dropLoop_queue (hnodup : s.channelQueue.Nodup) :
    (dropLoop s.channelQueue.length 0 s.channelQueue s).channelQueue =
      sweep s.unsubmitted s.channelQueue := by
  cases hlast : s.channelQueue.getLast? with
  | none =>
    rw [getLast?_eq_none_iff.mp hlast]
    exact getLast?_eq_none_iff.mp hlast
  | some last =>
    have h := dropLoop_eq_sweep last s.channelQueue [] 0 s rfl hnodup hlast
    rwa [replicate_zero, append_nil] at h

/-- Entries are removed from the queue only if nothing was submitted of them, and the current channel
with them. -/
structure Drops (s s' : ChannelManager σ) : Prop where
  channels_eq : s'.channels = s.channels
  sublist : s'.channelQueue.Sublist s.channelQueue
  mem_of_submitted : ∀ i ∈ s.channelQueue, s.unsubmitted i = false → i ∈ s'.channelQueue
  current_of_submitted : ∀ i, s.currentChannel = some i → s.unsubmitted i = false →
    s'.currentChannel = some i
  current_eq : ∀ i, s'.currentChannel = some i → s.currentChannel = some i
  mem_of_current : (∀ i, s.currentChannel = some i → i ∈ s.channelQueue) →
    ∀ i, s'.currentChannel = some i → i ∈ s'.channelQueue

lemma Drops.refl (s : ChannelManager σ) : Drops s s :=
  ⟨rfl, .refl _, fun _ h _ => h, fun _ h _ => h, fun _ h => h, fun h => h⟩

lemma unsubmitted_congr {s : ChannelManager σ} (h : s'.channels = s.channels) :
    s'.unsubmitted = s.unsubmitted := by
  funext i
  rw [unsubmitted, unsubmitted, h]

lemma Drops.trans {s s'' : ChannelManager σ} (h : Drops s s') (h' : Drops s' s'') :
    Drops s s'' := by
  have hsame := unsubmitted_congr h.channels_eq
  refine ⟨h'.channels_eq.trans h.channels_eq, h'.sublist.trans h.sublist, fun i hi hsub => ?_,
    fun i hi hsub => ?_, fun i hi => h.current_eq i (h'.current_eq i hi), fun hmem =>
      h'.mem_of_current (h.mem_of_current hmem)⟩
  · exact h'.mem_of_submitted i (h.mem_of_submitted i hi hsub) (hsame ▸ hsub)
  · exact h'.current_of_submitted i (h.current_of_submitted i hi hsub) (hsame ▸ hsub)

lemma drops_removePendingChannel (hi : s.unsubmitted i = true) :
    Drops s (s.removePendingChannel i) := by
  refine ⟨rfl, erase_sublist, fun j hj hsub => ?_, fun j hj hsub => ?_, fun j hj => ?_,
    fun hmem j hj => ?_⟩
  · refine (mem_erase_of_ne ?_).mpr hj
    rintro rfl
    cases hi.symm.trans hsub
  · refine (if_neg fun hc => ?_).trans hj
    obtain rfl := some.inj (hj.symm.trans hc)
    cases hi.symm.trans hsub
  · exact (current_removePendingChannel hj).1
  · obtain ⟨hcur, hqueue⟩ := current_removePendingChannel hj
    exact hqueue (hmem j hcur)

lemma drops_dropLoop (rounds k : ℕ) (array : List ℕ) (s : ChannelManager σ) :
    Drops s (dropLoop rounds k array s) := by
  induction rounds generalizing k array s with
  | zero => exact .refl s
  | succ rounds ih =>
    cases hget : array[k]? with
    | none =>
      rw [dropLoop, hget]
      exact .refl s
    | some i =>
      rw [dropLoop_succ hget]
      split
      case isTrue hgone => exact (drops_removePendingChannel hgone).trans (ih _ _ _)
      case isFalse => exact ih _ _ s

lemma drops_close (s : ChannelManager σ) :
    Drops s (dropLoop s.channelQueue.length 0 s.channelQueue { s with closed := true }) := by
  have h := drops_dropLoop s.channelQueue.length 0 s.channelQueue { s with closed := true }
  exact ⟨h.channels_eq, h.sublist, h.mem_of_submitted, h.current_of_submitted, h.current_eq,
    h.mem_of_current⟩

end ChannelManager

/-! ## Reachable states -/

/-- The channel outs that the batcher creates, of one kind and with one configuration; closing the
compressor does not fail. -/
inductive CreatesChannels : {σ : Type} → ChannelOut σ → (σ → Prop) → Prop
  | singular {S : Type} (c : Compressor S) (hclose : ∀ s, (c.close s).2.2 = none) :
    CreatesChannels (channelOut c) fun co =>
      ∃ id compress initial, co = newSingularChannelOut id compress initial
  | span (c : ChannelCompressor) (genesisTimestamp : UInt64) (chainID : ℕ) (targetOutputSize : UInt64) :
    CreatesChannels (channelOut c) fun co =>
      ∃ id, co = newSpanChannelOut c id genesisTimestamp chainID targetOutputSize

lemma CreatesChannels.exists_open {σ : Type} {ops : ChannelOut σ} {isNew : σ → Prop}
    (h : CreatesChannels ops isNew) :
    ∃ lawful : ops.OutputsFrames, lawful.Drains ∧ ∀ co, isNew co → lawful.Open (ops.id co) [] co := by
  cases h with
  | singular c hclose =>
    refine ⟨outputsFrames c, drains c hclose, ?_⟩
    rintro _ ⟨id, compress, initial, rfl⟩
    exact open_newSingularChannelOut c id compress initial
  | span c genesisTimestamp chainID targetOutputSize =>
    refine ⟨outputsFrames c, drains c, ?_⟩
    rintro _ ⟨id, rfl⟩
    exact open_newSpanChannelOut c id genesisTimestamp chainID targetOutputSize

/-- A new channel gets one of the given channel outs. -/
def ManagerOp.Creates {σ : Type} (isNew : σ → Prop) : ManagerOp σ → Prop
  | .txData _ (some co) => isNew co
  | _ => True

/-- The states that a channel manager reaches. -/
inductive Reachable {σ : Type} (env : Setup σ) (isNew : σ → Prop) : ChannelManager σ → Prop
  | start (origin : BlockID) : Reachable env isNew (.newChannelManager origin)
  | step {s s' : ChannelManager σ} {op : ManagerOp σ} (before : Reachable env isNew s)
    (hnew : op.Creates isNew) (hstep : s.step env op = some s') : Reachable env isNew s'

/-- As long as a builder is not full, its channel is open. -/
def ChannelBuilder.Builds {σ : Type} {env : Setup σ} (lawful : env.ops.OutputsFrames)
    (cb : ChannelBuilder σ) : Prop :=
  cb.isFull = false → ∃ id out, Tracks lawful id out cb ∧ (lawful.source cb.co).closed = false

namespace ChannelBuilder

variable {σ : Type} {env : Setup σ} {lawful : env.ops.OutputsFrames} {cb cb' : ChannelBuilder σ}

lemma Builds.congr (h : Builds lawful cb) (hco : cb'.co = cb.co)
    (hfull : cb'.isFull = false → cb.isFull = false) : Builds lawful cb' := by
  intro hnot
  obtain ⟨id, out, htracks, hopen⟩ := h (hfull hnot)
  exact ⟨id, out, ⟨hco ▸ htracks.inv, hco ▸ htracks.id_eq, hco ▸ htracks.output, hco ▸ htracks.notLast⟩,
    hco ▸ hopen⟩

lemma Builds.addBlocks (h : Builds lawful cb) (blocks : List Block) :
    Builds lawful (addBlocks env blocks cb).1 := by
  intro hnot
  have hcb : cb.isFull = false := by
    rw [Bool.eq_false_iff]
    intro hfull
    rw [addBlocks_of_isFull hfull] at hnot
    cases hfull.symm.trans hnot
  obtain ⟨id, out, htracks, hopen⟩ := h hcb
  obtain ⟨htracks', hcl⟩ := htracks.adds (adds_addBlocks env blocks cb)
  exact ⟨id, out, htracks', hcl.trans hopen⟩

lemma Builds.checkTimeout (h : Builds lawful cb) (n : UInt64) : Builds lawful (cb.checkTimeout n) := by
  refine h.congr (same_checkTimeout n cb).co_eq fun hnot => ?_
  rw [ChannelBuilder.checkTimeout] at hnot
  split at hnot
  · cases hnot
  · exact hnot

lemma Builds.outputFrames (h : Builds lawful cb) {err : Option ChannelOutError}
    (hcall : outputFrames env cb = some (cb', err)) : Builds lawful cb' := by
  intro hnot
  have hcb : cb.isFull = false := by
    rw [Bool.eq_false_iff]
    intro hfull
    rw [(outputFrames_blocks hcall).2 hfull] at hnot
    cases hnot
  obtain ⟨id, out, htracks, hopen⟩ := h hcb
  rw [ChannelBuilder.outputFrames, hcb] at hcall
  obtain ⟨fs, houts, -⟩ := outputs_of_outputReadyFrames hcall
  obtain ⟨htracks', hcl, -⟩ := htracks.outputs houts
  exact ⟨id, out ++ fs, htracks', hcl.trans hopen⟩

end ChannelBuilder

namespace ChannelManager

variable {σ : Type} {env : Setup σ} (lawful : env.ops.OutputsFrames)

/-- What holds of a channel manager between calls. -/
structure WellFormed (s : ChannelManager σ) : Prop where
  nodup : s.channelQueue.Nodup
  lt_length : ∀ i ∈ s.channelQueue, i < s.channels.length
  current : ∀ i, s.currentChannel = some i → i ∈ s.channelQueue
  builds : ∀ ch ∈ s.channels, ch.channelBuilder.Builds lawful

variable {lawful} {s s' : ChannelManager σ} {i : ℕ} {ch : Channel σ} {ref : Option ℕ}

lemma WellFormed.builds_of_channel (h : WellFormed lawful s) (hchan : s.channel ref = some (i, ch)) :
    ch.channelBuilder.Builds lawful :=
  h.builds ch (mem_of_getElem? (channel_eq_some.mp hchan).2)

lemma WellFormed.set (h : WellFormed lawful s) (hbuild : ch.channelBuilder.Builds lawful)
    (hchans : s'.channels = s.channels.set i ch) (hqueue : s'.channelQueue = s.channelQueue)
    (hcur : s'.currentChannel = s.currentChannel) : WellFormed lawful s' := by
  refine ⟨hqueue ▸ h.nodup, fun j hj => ?_, fun j hj => ?_, fun ch' hch' => ?_⟩
  · rw [hchans, length_set]
    exact h.lt_length j (hqueue ▸ hj)
  · rw [hqueue]
    exact h.current j (hcur ▸ hj)
  · rw [hchans] at hch'
    rcases mem_or_eq_of_mem_set hch' with hmem | rfl
    · exact h.builds ch' hmem
    · exact hbuild

lemma WellFormed.removePendingChannel (h : WellFormed lawful s) (i : ℕ) :
    WellFormed lawful (s.removePendingChannel i) := by
  refine ⟨h.nodup.erase i, fun j hj => h.lt_length j (mem_of_mem_erase hj), fun j hj => ?_, h.builds⟩
  obtain ⟨hcur, hqueue⟩ := current_removePendingChannel hj
  exact hqueue (h.current j hcur)

lemma WellFormed.drops (h : WellFormed lawful s) (hdrops : Drops s s') : WellFormed lawful s' where
  nodup := h.nodup.sublist hdrops.sublist
  lt_length i hi := hdrops.channels_eq ▸ h.lt_length i (hdrops.sublist.subset hi)
  current := hdrops.mem_of_current h.current
  builds := hdrops.channels_eq ▸ h.builds

lemma WellFormed.txFailed (h : WellFormed lawful s) (id : TxID) :
    WellFormed lawful (s.txFailed id) := by
  rw [ChannelManager.txFailed]
  split
  case h_1 => exact h
  case h_2 i ch hchan =>
    have hbuild : (ch.txFailed id).channelBuilder.Builds lawful := by
      rw [Channel.txFailed]
      split
      · exact h.builds_of_channel hchan
      · exact (h.builds_of_channel hchan).congr rfl fun hnot => hnot
    have hset : WellFormed lawful
        ({ s with txChannels := s.txChannels.erase id }.setChannel i (ch.txFailed id)) :=
      h.set hbuild rfl rfl rfl
    dsimp only
    split
    · exact hset.removePendingChannel i
    · exact hset

lemma builds_txConfirmed (hbuild : ch.channelBuilder.Builds lawful) (id : TxID)
    (inclusionBlock : BlockID) :
    (ch.txConfirmed env id inclusionBlock).1.channelBuilder.Builds lawful := by
  cases hlook : ch.pendingTransactions.lookup id with
  | none =>
    rwa [Channel.txConfirmed, hlook]
  | some tx =>
    obtain ⟨hsame, hfull, -⟩ := Channel.recordConfirmed_eq env id inclusionBlock ch
    rw [Channel.txConfirmed_eq env hlook]
    exact hbuild.congr hsame.co_eq fun hnot => hfull.symm.trans hnot

variable (h : WellFormed lawful s)
include h

lemma WellFormed.txConfirmed (id : TxID) (inclusionBlock : BlockID) :
    WellFormed lawful (s.txConfirmed env id inclusionBlock) := by
  rw [ChannelManager.txConfirmed]
  split
  case h_1 => exact h
  case h_2 i ch hchan =>
    have hset : WellFormed lawful
        ({ s with
          txChannels := s.txChannels.erase id
          blocks := (ch.txConfirmed env id inclusionBlock).2.2 ++ s.blocks }.setChannel i
          (ch.txConfirmed env id inclusionBlock).1) :=
      h.set (builds_txConfirmed (h.builds_of_channel hchan) id inclusionBlock) rfl rfl rfl
    dsimp only
    split
    · exact hset.removePendingChannel i
    · exact hset

lemma WellFormed.nextTxData (ref : Option ℕ) :
    WellFormed lawful (s.nextTxData env ref).1 := by
  rw [ChannelManager.nextTxData]
  split
  case h_1 => exact h
  case h_2 i ch hchan =>
    split
    case isTrue =>
      have hbuild : (ch.nextTxData env).1.channelBuilder.Builds lawful :=
        (h.builds_of_channel hchan).congr rfl fun hnot => hnot
      exact h.set hbuild rfl rfl rfl
    case isFalse => exact h

variable {err : Option ChannelOutError} {s₁ : ChannelManager σ} {fresh : Option σ}
  {isNew : σ → Prop}

lemma WellFormed.ensureChannelWithSpace
    (hfresh : ∀ co, fresh = some co → lawful.Open (env.ops.id co) [] co)
    (hcall : s.ensureChannelWithSpace env fresh = some s') : WellFormed lawful s' := by
  rw [ChannelManager.ensureChannelWithSpace] at hcall
  split at hcall
  case isTrue => exact some.inj hcall ▸ h
  case isFalse =>
    obtain ⟨co, hco, rfl⟩ := map_eq_some_iff.mp hcall
    refine ⟨?_, fun i hi => ?_, fun i hi => ?_, ?_⟩
    · refine h.nodup.append (nodup_singleton _) fun i hi hi' => ?_
      rw [mem_singleton.mp hi'] at hi
      exact lt_irrefl _ (h.lt_length _ hi)
    · rw [length_append]
      rcases mem_append.mp hi with hi | hi
      · exact Nat.lt_succ_of_lt (h.lt_length i hi)
      · grind
    · cases hi
      exact mem_append_right _ (mem_singleton_self _)
    · have hinv := inv_newTraced (hfresh co hco)
      exact forall_mem_append.mpr ⟨h.builds, forall_mem_singleton.mpr
        fun hnot => ⟨_, [], (hinv _).tracks, (hinv _).isOpen hnot⟩⟩

lemma WellFormed.processBlocks :
    WellFormed lawful (s.processBlocks env).1 := by
  rw [ChannelManager.processBlocks]
  split
  case h_1 => exact h
  case h_2 i ch hchan =>
    have hbuild := (h.builds_of_channel hchan).addBlocks s.blocks
    dsimp only
    split <;> exact h.set hbuild rfl rfl rfl

lemma WellFormed.registerL1Block (l1Head : UInt64) :
    WellFormed lawful (s.registerL1Block l1Head) := by
  rw [ChannelManager.registerL1Block]
  split
  case h_1 => exact h
  case h_2 i ch hchan => exact h.set ((h.builds_of_channel hchan).checkTimeout l1Head) rfl rfl rfl

lemma WellFormed.outputFrames
    (hcall : s.outputFrames env = some (s', err)) : WellFormed lawful s' := by
  rw [ChannelManager.outputFrames] at hcall
  split at hcall
  case h_1 => exact (Prod.mk.inj (some.inj hcall)).1 ▸ h
  case h_2 i ch hchan =>
    split at hcall
    case h_1 => cases hcall
    case h_2 cb e hout =>
      cases hcall
      exact h.set ((h.builds_of_channel hchan).outputFrames hout) rfl rfl rfl
    case h_3 cb hout =>
      cases hcall
      rw [recordClosed]
      split <;> exact h.set ((h.builds_of_channel hchan).outputFrames hout) rfl rfl rfl

lemma WellFormed.txData {l1Head : UInt64}
    (hfresh : ∀ co, fresh = some co → lawful.Open (env.ops.id co) [] co)
    {r : ChannelManager σ × Except TxDataError TxData} (hcall : s.txData env l1Head fresh = some r) :
    WellFormed lawful r.1 :=
  txData_keeps h (fun _ ref hs => hs.nextTxData ref)
    (fun _ _ _ hens => (h.ensureChannelWithSpace hfresh hens).processBlocks)
    (fun _ hs => hs.registerL1Block l1Head) (fun _ _ _ hout hs => hs.outputFrames hout) hcall

lemma WellFormed.closeChannel (i : ℕ) (ch : Channel σ) :
    WellFormed lawful (s.setChannel i { ch with channelBuilder := ch.channelBuilder.close }) := by
  refine h.set (fun hnot => ?_) rfl rfl rfl
  rw [isFull_close] at hnot
  cases hnot

lemma WellFormed.close {r : ChannelManager σ × Option CloseError}
    (hcall : s.close env = some r) : WellFormed lawful r.1 :=
  close_keeps h (fun _ => h.drops (drops_close s))
    (fun _ i ch _ hs => hs.closeChannel i ch) (fun _ _ _ hout hs => hs.outputFrames hout) hcall

lemma WellFormed.step {op : ManagerOp σ}
    (hnew : op.Creates fun co => lawful.Open (env.ops.id co) [] co) (hstep : s.step env op = some s') :
    WellFormed lawful s' := by
  cases op with
  | addL2Block block =>
    cases hstep
    rw [addL2Block]
    split
    · exact h
    · exact ⟨h.nodup, h.lt_length, h.current, h.builds⟩
  | txData l1Head fresh =>
    obtain ⟨r, hcall, rfl⟩ := map_eq_some_iff.mp hstep
    refine h.txData ?_ hcall
    rintro co rfl
    exact hnew
  | txConfirmed id inclusionBlock => exact some.inj hstep ▸ h.txConfirmed id inclusionBlock
  | txFailed id => exact some.inj hstep ▸ h.txFailed id
  | close =>
    obtain ⟨r, hcall, rfl⟩ := map_eq_some_iff.mp hstep
    exact h.close hcall

omit h

lemma wellFormed_of_reachable (hnew : ∀ co, isNew co → lawful.Open (env.ops.id co) [] co)
    (h : Reachable env isNew s) : WellFormed lawful s := by
  induction h with
  | start origin =>
    exact ⟨.nil, nofun, nofun, fun _ h => (nomatch h)⟩
  | @step s s' op before hcr hstep ih =>
    refine ih.step ?_ hstep
    match op with
    | .txData _ (some co) => exact hnew co hcr
    | .txData _ none | .addL2Block _ | .txConfirmed _ _ | .txFailed _ | .close => trivial

/-! ## What is left after closing -/

/-- Some transaction of the channel is pending or confirmed. -/
def Submitted (s : ChannelManager σ) (i : ℕ) : Prop :=
  ∃ ch, s.channels[i]? = some ch ∧ ch.noneSubmitted = false

def HasData (env : Setup σ) (s : ChannelManager σ) (i : ℕ) : Prop :=
  ∃ ch, s.channels[i]? = some ch ∧ ch.hasTxData env = true

/-- When `Close` does what it should.  Of two neighbours in the queue, the last entry apart,
something was submitted of at least one; and either no channel that stays has data, the current one
apart, or the current one stays and will have data.  If the manager is closed already, all channels
were submitted and have no data. -/
def ClosesWell (env : Setup σ) (s : ChannelManager σ) : Prop :=
  if s.closed then ∀ i ∈ s.channelQueue, s.Submitted i ∧ ¬ s.HasData env i
  else
    s.channelQueue.dropLast.IsChain (fun i j => s.unsubmitted i = false ∨ s.unsubmitted j = false) ∧
      ((∀ i ∈ s.channelQueue, s.unsubmitted i = false → s.currentChannel ≠ some i →
          ¬ s.HasData env i) ∨
        ∃ c ch, s.currentChannel = some c ∧ s.channels[c]? = some ch ∧ s.unsubmitted c = false ∧
          (ch.isFull = true → ch.channelBuilder.frames ≠ []))

lemma submitted_iff {s : ChannelManager σ} {i : ℕ} (hi : i < s.channels.length) :
    s.Submitted i ↔ s.unsubmitted i = false := by
  rw [Submitted, unsubmitted, getElem?_eq_getElem hi]
  exact ⟨fun ⟨ch, hch, hsub⟩ => some.inj hch ▸ hsub, fun hsub => ⟨_, rfl, hsub⟩⟩

lemma hasTxData_of_isFull {ch : Channel σ} (h : ch.isFull = true) :
    ch.hasTxData env = true ↔ ch.channelBuilder.frames ≠ [] := by
  rw [Channel.hasTxData, if_pos (Or.inl h), decide_eq_true_eq, length_pos_iff]

lemma hasData_iff (hch : s.channels[i]? = some ch) : s.HasData env i ↔ ch.hasTxData env = true :=
  ⟨fun ⟨_, hch', hdata⟩ => some.inj (hch'.symm.trans hch) ▸ hdata, fun hdata => ⟨ch, hch, hdata⟩⟩

lemma pendingError_eq_some (s : ChannelManager σ) :
    s.pendingError env = some .pendingAfterClose ↔
      ∃ c, s.currentChannel = some c ∧ s.HasData env c := by
  rw [pendingError]
  cases hchan : s.channel s.currentChannel with
  | none =>
    refine ⟨nofun, ?_⟩
    rintro ⟨c, hc, ch, hch, -⟩
    cases hchan.symm.trans (channel_eq_some.mpr ⟨hc, hch⟩)
  | some r =>
    obtain ⟨c, ch⟩ := r
    obtain ⟨hc, hch⟩ := channel_eq_some.mp hchan
    rw [any_some]
    constructor
    · intro h
      split at h
      case isTrue hdata => exact ⟨c, hc, ch, hch, hdata⟩
      case isFalse => cases h
    · rintro ⟨c', hc', ch', hch', hdata⟩
      obtain rfl := some.inj (hc.symm.trans hc')
      obtain rfl := some.inj (hch.symm.trans hch')
      rw [if_pos hdata]

/-- What becomes of the channels with `Close`, when the loop leaves `s₁`: only the current channel is
changed, and if it was not full, then it has data afterwards. -/
structure Closed (env : Setup σ) (s s₁ s' : ChannelManager σ) (err : Option CloseError) : Prop where
  queue_eq : s'.channelQueue = s₁.channelQueue
  length_eq : s'.channels.length = s.channels.length
  channels_eq : ∀ i, s₁.currentChannel ≠ some i → s'.channels[i]? = s.channels[i]?
  unsubmitted_eq : s'.unsubmitted = s.unsubmitted
  hasData_iff : ∀ c ch, s₁.currentChannel = some c → s.channels[c]? = some ch →
    (s'.HasData env c ↔ (ch.isFull = true → ch.channelBuilder.frames ≠ []))
  err_iff : err = some .pendingAfterClose ↔ ∃ c, s₁.currentChannel = some c ∧ s'.HasData env c

lemma closed_of_open (hchans : s₁.channels = s.channels) (hdrains : lawful.Drains)
    (hsize : frameV0OverHeadSize ≤ env.cfg.maxFrameSize.toNat)
    (hchan : s₁.channel s₁.currentChannel = some (i, ch))
    (hbuild : ch.channelBuilder.Builds lawful) (hnot : ch.isFull = false)
    (hcall : (s₁.setChannel i { ch with channelBuilder := ch.channelBuilder.close }).outputFrames
      env = some (s', err)) :
    err = none ∧ Closed env s s₁ s' (s'.pendingError env) := by
  obtain ⟨hi, hch⟩ := channel_eq_some.mp hchan
  have hlt := lt_length_of_channel hchan
  set s₀ := s₁.setChannel i { ch with channelBuilder := ch.channelBuilder.close }
  have hcl : s₀.channel s₀.currentChannel =
      some (i, { ch with channelBuilder := ch.channelBuilder.close }) :=
    channel_eq_some.mpr ⟨hi, getElem?_set_self hlt⟩
  rw [outputFrames, hcl] at hcall
  dsimp only at hcall
  obtain ⟨id, out, htracks, hopen⟩ := hbuild hnot
  have hsame := same_close ch.channelBuilder
  have hopen' : (lawful.source ch.channelBuilder.close.co).closed = false := by
    rwa [hsame.co_eq]
  split at hcall
  case h_1 => cases hcall
  case h_2 cb e hout =>
    obtain ⟨hc, -⟩ := (htracks.same hsame).outputFrames hdrains hopen' hsize hout
    cases hc
  case h_3 cb hout =>
    obtain ⟨-, -, fs, hfrs, -, -, hlast, -⟩ :=
      (htracks.same hsame).outputFrames hdrains hopen' hsize hout
    obtain ⟨f, hf, -⟩ := hlast (isFull_close _)
    have hfull : cb.isFull = true := (outputFrames_blocks hout).2 (isFull_close _)
    have hne : cb.frames ≠ [] := by
      rw [hfrs]
      exact append_ne_nil_of_right_ne_nil _ (ne_nil_of_mem hf)
    cases hcall
    have hrecord := keeps_recordClosed cb (s₀.setChannel i { ch with channelBuilder := cb })
    set s₂ := recordClosed cb (s₀.setChannel i { ch with channelBuilder := cb }) with hs₂
    have hset : s₂.channels = s.channels.set i { ch with channelBuilder := cb } := by
      rw [hs₂, recordClosed, ← hchans]
      split <;> exact set_set _
    have hch₂ : s₂.channels[i]? = some { ch with channelBuilder := cb } := by grind
    have hfull₂ : ({ ch with channelBuilder := cb } : Channel σ).isFull = true := hfull
    have hdata : s₂.HasData env i := (hasData_iff hch₂).mpr ((hasTxData_of_isFull hfull₂).mpr hne)
    refine ⟨rfl, hrecord.queue_eq, by rw [hset, length_set], fun j hj => ?_, funext fun j => ?_,
      fun c ch' hc hch' => ?_, ?_⟩
    · grind
    · rw [unsubmitted, unsubmitted, hset, getElem?_set, ← hchans]
      split
      case isTrue heq =>
        subst heq
        rw [hch]
        rfl
      case isFalse => rfl
    · obtain rfl := some.inj (hi.symm.trans hc)
      obtain rfl := some.inj (hch.symm.trans (hchans ▸ hch'))
      refine ⟨fun _ hfull' => ?_, fun _ => hdata⟩
      rw [hnot] at hfull'
      cases hfull'
    · rw [pendingError_eq_some, hrecord.current_eq]
      rfl

lemma WellFormed.closed (h : WellFormed lawful s) (hdrains : lawful.Drains)
    (hsize : frameV0OverHeadSize ≤ env.cfg.maxFrameSize.toNat) (hnot : s.closed = false)
    {err : Option CloseError} (hcall : s.close env = some (s', err)) :
    Closed env s (dropLoop s.channelQueue.length 0 s.channelQueue { s with closed := true }) s' err := by
  have hdrops := drops_close s
  have hloop := h.drops hdrops
  set s₁ := dropLoop s.channelQueue.length 0 s.channelQueue { s with closed := true }
  have hchans : s₁.channels = s.channels := hdrops.channels_eq
  rw [ChannelManager.close, hnot, if_neg Bool.false_ne_true] at hcall
  dsimp only at hcall
  split at hcall
  case h_1 hnone =>
    -- there is no current channel
    obtain ⟨rfl, rfl⟩ := Prod.mk.inj (some.inj hcall)
    have hcur : ∀ c, s₁.currentChannel ≠ some c := fun c hc => by
      have hlt := hloop.lt_length c (hloop.current c hc)
      have hsome := channel_eq_some.mpr ⟨hc, getElem?_eq_getElem hlt⟩
      cases hsome.symm.trans hnone
    exact ⟨rfl, by rw [hchans], fun _ _ => by rw [hchans], unsubmitted_congr hchans,
      fun c _ hc _ => absurd hc (hcur c),
      iff_of_false (some_ne_none _).symm fun h => absurd h.choose_spec.1 (hcur _)⟩
  case h_2 i ch hchan =>
    split at hcall
    case isTrue hfull =>
      obtain ⟨rfl, rfl⟩ := Prod.mk.inj (some.inj hcall)
      refine ⟨rfl, by rw [hchans], fun _ _ => by rw [hchans], unsubmitted_congr hchans,
        fun c ch' hc hch' => ?_, pendingError_eq_some s₁⟩
      obtain ⟨hi, hch⟩ := channel_eq_some.mp hchan
      obtain rfl := some.inj (hi.symm.trans hc)
      obtain rfl := some.inj (hch.symm.trans (hchans ▸ hch'))
      rw [hasData_iff hch, hasTxData_of_isFull hfull]
      exact ⟨fun hne _ => hne, fun hne => hne hfull⟩
    case isFalse hfull =>
      split at hcall
      case h_1 => cases hcall
      case h_2 s₂ e hout =>
        obtain ⟨hc, -⟩ := closed_of_open hchans hdrains hsize hchan
          (hloop.builds_of_channel hchan) (Bool.eq_false_iff.mpr hfull) hout
        cases hc
      case h_3 s₂ hout =>
        cases hcall
        exact (closed_of_open hchans hdrains hsize hchan
          (hloop.builds_of_channel hchan) (Bool.eq_false_iff.mpr hfull) hout).2

lemma hasData_congr (h : s'.channels[i]? = s.channels[i]?) : s'.HasData env i ↔ s.HasData env i := by
  rw [HasData, HasData, h]

/-- The report of `Close` is right, if only submitted channels are left. -/
theorem Closed.report_iff {err : Option CloseError} (h : Closed env s s₁ s' err)
    (hwf : WellFormed lawful s) (hdrops : Drops s s₁)
    (hleft : ∀ i ∈ s₁.channelQueue, s.unsubmitted i = false) :
    (err = some .pendingAfterClose ↔ ∃ i ∈ s'.channelQueue, s'.HasData env i) ↔
      (∀ i ∈ s.channelQueue, s.unsubmitted i = false → s.currentChannel ≠ some i →
          ¬ s.HasData env i) ∨
        ∃ c ch, s.currentChannel = some c ∧ s.channels[c]? = some ch ∧ s.unsubmitted c = false ∧
          (ch.isFull = true → ch.channelBuilder.frames ≠ []) := by
  have hcur := hdrops.mem_of_current hwf.current
  rw [h.err_iff, h.queue_eq]
  constructor
  · intro hreport
    by_cases hdata : ∃ c, s₁.currentChannel = some c ∧ s'.HasData env c
    · obtain ⟨c, hc, hsends⟩ := hdata
      have hlt := hwf.lt_length c (hdrops.sublist.subset (hcur c hc))
      have hch := getElem?_eq_getElem hlt
      exact .inr ⟨c, _, hdrops.current_eq c hc, hch, hleft c (hcur c hc),
        (h.hasData_iff c _ hc hch).mp hsends⟩
    · refine .inl fun i hi hsub hne hsends => hdata (hreport.mpr ⟨i, hdrops.mem_of_submitted i hi hsub, ?_⟩)
      exact (hasData_congr (h.channels_eq i fun hc => hne (hdrops.current_eq i hc))).mpr hsends
  · rintro (hnone | ⟨c, ch, hc, hch, hsub, hfrs⟩)
    · refine ⟨fun ⟨c, hc, hsends⟩ => ⟨c, hcur c hc, hsends⟩, fun ⟨i, hi, hsends⟩ => ?_⟩
      by_cases hc : s₁.currentChannel = some i
      · exact ⟨i, hc, hsends⟩
      · -- a channel that is not the current one has no data
        have hne : s.currentChannel ≠ some i := fun hc' =>
          hc (hdrops.current_of_submitted i hc' (hleft i hi))
        exact absurd ((hasData_congr (h.channels_eq i hc)).mp hsends)
          (hnone i (hdrops.sublist.subset hi) (hleft i hi) hne)
    · have hc₁ := hdrops.current_of_submitted c hc hsub
      have hsends := (h.hasData_iff c ch hc₁ hch).mpr hfrs
      exact ⟨fun _ => ⟨c, hcur c hc₁, hsends⟩, fun _ => ⟨c, hc₁, hsends⟩⟩

def run (env : Setup σ) : List (ManagerOp σ) → ChannelManager σ → Option (ChannelManager σ)
  | [], s => some s
  | op :: rest, s => (step env op s).bind (run env rest)

lemma reachable_of_run {ops : List (ManagerOp σ)} (h : Reachable env isNew s)
    (hnew : ∀ op ∈ ops, op.Creates isNew) (hrun : run env ops s = some s') :
    Reachable env isNew s' := by
  induction ops generalizing s with
  | nil => exact some.inj hrun ▸ h
  | cons op rest ih =>
    obtain ⟨hop, hrest⟩ := forall_mem_cons.mp hnew
    obtain ⟨s₁, hstep, hrun'⟩ := bind_eq_some_iff.mp hrun
    exact ih (h.step hop hstep) hrest hrun'

/-- Any new channel of singular batches. -/
def IsNewSingular (co : SingularChannelOut Unit) : Prop :=
  ∃ id compress initial, co = newSingularChannelOut id compress initial

/-- In every reachable state, if and only if it closes well: after `Close` only submitted channels
are left in the queue, and it reports pending data exactly if one of them has some. -/
theorem close_iff_closesWell {isNew : σ → Prop} (hcreates : CreatesChannels env.ops isNew)
    (hcfg : env.cfg.check = none) (hreach : Reachable env isNew s) {err : Option CloseError}
    (hcall : s.close env = some (s', err)) :
    ((∀ i ∈ s'.channelQueue, s'.Submitted i) ∧
        (err = some .pendingAfterClose ↔ ∃ i ∈ s'.channelQueue, s'.HasData env i)) ↔
      s.ClosesWell env := by
  obtain ⟨lawful, hdrains, hnew⟩ := hcreates.exists_open
  have hwf := wellFormed_of_reachable hnew hreach
  obtain ⟨-, hsize, -⟩ := ChannelConfig.check_eq_none.mp hcfg
  rw [ClosesWell]
  cases hcl : s.closed with
  | true =>
    rw [close, hcl] at hcall
    cases hcall
    constructor
    · rintro ⟨hsub, hreport⟩ i hi
      exact ⟨hsub i hi, fun hdata => some_ne_none _ (hreport.mpr ⟨i, hi, hdata⟩).symm⟩
    · intro hall
      refine ⟨fun i hi => (hall i hi).1, iff_of_false (some_ne_none _).symm ?_⟩
      rintro ⟨i, hi, hdata⟩
      exact (hall i hi).2 hdata
  | false =>
    have h := hwf.closed hdrains hsize hcl hcall
    have hqueue := dropLoop_queue (s := { s with closed := true }) hwf.nodup
    have hdrops := drops_close s
    set s₁ := dropLoop s.channelQueue.length 0 s.channelQueue { s with closed := true }
    have hleft : (∀ i ∈ s'.channelQueue, s'.Submitted i) ↔
        ∀ i ∈ s₁.channelQueue, s.unsubmitted i = false := by
      rw [h.queue_eq]
      refine forall₂_congr fun i hi => ?_
      have hlt := hwf.lt_length i (hdrops.sublist.subset hi)
      rw [submitted_iff (h.length_eq ▸ hlt), h.unsubmitted_eq]
    have hsweep := sweep_eq_false_iff s.unsubmitted s.channelQueue
    rw [← show s₁.channelQueue = sweep s.unsubmitted s.channelQueue from hqueue] at hsweep
    rw [hleft, hsweep]
    exact and_congr_right fun hchain => h.report_iff hwf hdrops (hsweep.mpr hchain)

lemma creates_numberedChannel (l1Head : UInt64) (n : UInt8) :
    (ManagerOp.txData l1Head (some (numberedChannel n))).Creates IsNewSingular :=
  ⟨_, (), [], rfl⟩

/-- A block is sent in a channel of three frames, of which one is submitted. -/
def oneFrameSent : List (ManagerOp (SingularChannelOut Unit)) :=
  [.addL2Block (numberedBlock 0), .txData 1 (some (numberedChannel 1))]

theorem close_iff_closesWell_one_frame_sent :
    ∃ s s' err, Reachable (storingSetup (shortConfig 60)) IsNewSingular s ∧
      s.close (storingSetup (shortConfig 60)) = some (s', err) ∧
      (∀ i ∈ s'.channelQueue, s'.Submitted i) ∧
      (err = some .pendingAfterClose ↔
        ∃ i ∈ s'.channelQueue, s'.HasData (storingSetup (shortConfig 60)) i) := by
  have heval : (run (storingSetup (shortConfig 60)) oneFrameSent
      (newChannelManager ⟨zeroHash, 0⟩)).map (fun s => decide (s.closed = false ∧
        s.channelQueue = [0] ∧ s.currentChannel = some 0 ∧ s.unsubmitted 0 = false ∧
        (s.channels[0]?.map fun ch => ch.channelBuilder.frames.isEmpty) = some false ∧
        (s.close (storingSetup (shortConfig 60))).isSome = true)) = some true := by
    decide
  obtain ⟨s, hrun, heq⟩ := map_eq_some_iff.mp heval
  obtain ⟨hcl, hqueue, hcur, hsub, hfrs, hsome⟩ := of_decide_eq_true heq
  obtain ⟨⟨s', err⟩, hcall⟩ := isSome_iff_exists.mp hsome
  obtain ⟨ch, hch, hempty⟩ := map_eq_some_iff.mp hfrs
  have hreach : Reachable (storingSetup (shortConfig 60)) IsNewSingular s :=
    reachable_of_run (.start _) (by
      simp only [oneFrameSent, forall_mem_cons]
      exact ⟨trivial, creates_numberedChannel 1 1, nofun⟩) hrun
  refine ⟨s, s', err, hreach, hcall, (close_iff_closesWell (.singular storing fun _ => rfl) (by decide)
    hreach hcall).mpr ?_⟩
  rw [ClosesWell, hcl, hqueue]
  exact ⟨.nil, .inr ⟨0, ch, hcur, hch, hsub, fun _ => isEmpty_eq_false_iff.mp hempty⟩⟩

/-- Three blocks are sent in a channel of one frame each, and all three transactions fail. -/
def threeFail : List (ManagerOp (SingularChannelOut Unit)) :=
  [.addL2Block (numberedBlock 0), .txData 1 (some (numberedChannel 1)),
    .addL2Block (numberedBlock 1), .txData 2 (some (numberedChannel 2)),
    .addL2Block (numberedBlock 2), .txData 2 (some (numberedChannel 3)),
    .txFailed (singleID 1 0), .txFailed (singleID 2 0), .txFailed (singleID 3 0)]

/-- Two blocks are sent in a channel of three frames each, and a transaction of the first one fails. -/
def earlierFails : List (ManagerOp (SingularChannelOut Unit)) :=
  [.addL2Block (numberedBlock 0), .txData 1 (some (numberedChannel 1)), .txData 1 none, .txData 1 none,
    .addL2Block (numberedBlock 1), .txData 2 (some (numberedChannel 2)), .txData 2 none, .txData 2 none,
    .txFailed (singleID 1 0)]

/-- Of three channels of which nothing was submitted, the second one stays in the queue; and data of a
channel that is not the current one is not reported. -/
theorem close_skips_and_misses :
    ((shortConfig 1000).check = none ∧
      ∃ s s' err, Reachable (storingSetup (shortConfig 1000)) IsNewSingular s ∧
        s.close (storingSetup (shortConfig 1000)) = some (s', err) ∧
        ∃ i ∈ s'.channelQueue, ¬ s'.Submitted i) ∧
    (shortConfig 60).check = none ∧
      ∃ s s', Reachable (storingSetup (shortConfig 60)) IsNewSingular s ∧
        s.close (storingSetup (shortConfig 60)) = some (s', none) ∧
        ∃ i ∈ s'.channelQueue, s'.HasData (storingSetup (shortConfig 60)) i := by
  refine ⟨⟨by decide, ?_⟩, by decide, ?_⟩
  · have heval : ((run (storingSetup (shortConfig 1000)) threeFail
        (newChannelManager ⟨zeroHash, 0⟩)).bind fun s =>
          (s.close (storingSetup (shortConfig 1000))).map fun r =>
            (r.1.channelQueue, r.1.unsubmitted 1)) = some ([1], true) := by decide
    obtain ⟨s, hrun, heq⟩ := bind_eq_some_iff.mp heval
    obtain ⟨⟨s', err⟩, hcall, heq⟩ := map_eq_some_iff.mp heq
    obtain ⟨hqueue, hgone⟩ := Prod.mk.inj heq
    have hreach : Reachable (storingSetup (shortConfig 1000)) IsNewSingular s :=
      reachable_of_run (.start _) (by
        simp only [threeFail, forall_mem_cons]
        exact ⟨trivial, creates_numberedChannel 1 1, trivial, creates_numberedChannel 2 2, trivial,
          creates_numberedChannel 2 3, trivial, trivial, trivial, nofun⟩) hrun
    refine ⟨s, s', err, hreach, hcall, 1, hqueue.symm ▸ mem_singleton_self 1, ?_⟩
    rintro ⟨ch, hch, hsub⟩
    have hgone' : s'.unsubmitted 1 = true := hgone
    rw [unsubmitted, hch, any_some, hsub] at hgone'
    cases hgone'
  · have heval : ((run (storingSetup (shortConfig 60)) earlierFails
        (newChannelManager ⟨zeroHash, 0⟩)).bind fun s =>
          (s.close (storingSetup (shortConfig 60))).map fun r =>
            (r.1.channelQueue, r.1.channels[0]?.map fun ch =>
              ch.hasTxData (storingSetup (shortConfig 60)), r.2)) =
        some ([0, 1], some true, none) := by decide
    obtain ⟨s, hrun, heq⟩ := bind_eq_some_iff.mp heval
    obtain ⟨⟨s', err⟩, hcall, heq⟩ := map_eq_some_iff.mp heq
    simp only [Prod.mk.injEq] at heq
    obtain ⟨hqueue, hdata, rfl⟩ := heq
    obtain ⟨ch, hch, hdata⟩ := map_eq_some_iff.mp hdata
    have hreach : Reachable (storingSetup (shortConfig 60)) IsNewSingular s :=
      reachable_of_run (.start _) (by
        simp only [earlierFails, forall_mem_cons]
        exact ⟨trivial, creates_numberedChannel 1 1, trivial, trivial, trivial,
          creates_numberedChannel 2 2, trivial, trivial, trivial, nofun⟩) hrun
    exact ⟨s, s', hreach, hcall, 0, hqueue.symm ▸ mem_cons_self, ch, hch, hdata⟩

end ChannelManager

end FightNight.Batcher
