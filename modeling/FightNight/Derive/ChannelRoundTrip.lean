import FightNight.Derive.Channel
import FightNight.Derive.SpanChannelOut

/-!
# From a channel to frames and back

The frames that are output of a channel, whatever the kind of the channel and the sizes of the frames,
are assembled to the compressed bytes of the channel again, in whatever order they arrive.
-/

namespace FightNight.Derive

open Option SingularChannelOut SpanChannelOut
open List hiding getElem?_eq_some_iff

/-- The new channels of either kind, with their operations and the part from which frames are output. -/
inductive IsNewChannelOut : {σ : Type} → ChannelOut σ → (σ → FrameSource) → σ → Prop
  | singular {S : Type} (c : Compressor S) (id : ChannelID) (compress : S) (initial : Bytes) :
    IsNewChannelOut (channelOut c) toFrameSource
      (newSingularChannelOut id compress initial)
  | span (c : ChannelCompressor) (id : ChannelID) (genesisTimestamp : UInt64) (chainID : ℕ)
      (targetOutputSize : UInt64) :
    IsNewChannelOut (channelOut c) toFrameSource
      (newSpanChannelOut c id genesisTimestamp chainID targetOutputSize)

/-- Frames are output of a new channel, from the bytes that are ready; if closing an open channel does
not fail, then all of them. -/
theorem IsNewChannelOut.exists_open {σ : Type} {ops : ChannelOut σ} {source : σ → FrameSource}
    {co : σ} (h : IsNewChannelOut ops source co) :
    ∃ lawful : ops.OutputsFrames, lawful.source = source ∧ lawful.Open (ops.id co) [] co ∧
      ((∀ co, (source co).closed = false → (ops.close co).2 = none) → lawful.Drains) ∧
      lawful.TakesReady := by
  cases h with
  | singular c id compress initial =>
    refine ⟨outputsFrames c, rfl, open_newSingularChannelOut c id compress initial,
      fun hclose => drains c fun s => ?_, takesReady c⟩
    exact hclose (.newSingularChannelOut id s initial) rfl
  | span c id genesisTimestamp chainID targetOutputSize =>
    exact ⟨outputsFrames c, rfl,
      open_newSpanChannelOut c id genesisTimestamp chainID targetOutputSize, fun _ => drains c,
      fun _ _ _ _ => (drains c).readyBytes_eq⟩

lemma isLast_iff_of_append {init : List Frame} {last : Frame}
    (hinit : ∀ f ∈ init, f.isLast = false) (hlast : last.isLast = true) (i : ℕ) (f : Frame)
    (hf : (init ++ [last])[i]? = some f) :
    f.isLast = true ↔ i + 1 = (init ++ [last]).length := by
  rw [length_append, length_singleton]
  rcases Forest.getElem?_concat_cases hf with ⟨hf, hi⟩ | ⟨rfl, rfl⟩
  · rw [hinit f (mem_of_getElem? hf)]
    exact ⟨nofun, fun h => absurd h (by omega)⟩
  · exact iff_of_true hlast rfl

/-- Batches are added to a channel and frames are output of it, in any order; the channel is closed
and frames are output until the end.  The end is reached, and if the frame numbers did not overflow,
the frames make a channel ready whose content are the compressed bytes. -/
theorem channel_frames_round_trip {σ : Type} {ops : ChannelOut σ} {source : σ → FrameSource} {co : σ}
    (hnew : IsNewChannelOut ops source co) (actions : List ChannelOutOp) {sizes : List ℕ}
    (hsizes : ∀ maxSize ∈ sizes, frameV0OverHeadSize < maxSize) :
    ((source (ops.close (ops.run actions co).1).1).compressed.len < sizes.length →
      (ops.outputUntilEOF sizes (ops.close (ops.run actions co).1).1).isSome = true) ∧
    ∀ frames co', ops.outputUntilEOF sizes (ops.close (ops.run actions co).1).1 = some (frames, co') →
      ((ops.run actions co).2 ++ frames).length ≤ 2 ^ 16 →
      (∀ openBlock inputs, (inputs.map Prod.fst).Perm ((ops.run actions co).2 ++ frames) →
        (Channel.afterFrames (ops.id co) openBlock inputs).isReady = true ∧
        (Channel.afterFrames (ops.id co) openBlock inputs).reader =
          some (source (ops.close (ops.run actions co).1).1).compressed.written) ∧
      ∀ f ∈ (ops.run actions co).2 ++ frames, f.data.length ≤ maxFrameLen →
        Frame.unmarshalBinary f.marshalBinary = .ok (f, []) := by
  obtain ⟨lawful, rfl, hopen, -⟩ := hnew.exists_open
  have hrun := hopen.run actions
  obtain ⟨hinv, hcl, hid, hout⟩ := hrun.close
  refine ⟨lawful.isSome_outputUntilEOF hinv hcl hsizes, fun frames co' houtput hlen => ?_⟩
  obtain ⟨⟨init, last, rfl, hinit, hlast⟩, hids, hnums, hdata⟩ :=
    lawful.outputUntilEOF hinv hcl hout houtput
  refine ⟨fun openBlock inputs hperm => ?_, fun f _ hmax => ?_⟩
  · have hnumbered : Channel.Numbered (ops.id co) ((ops.run actions co).2 ++ (init ++ [last])) := by
      refine ⟨?_, fun f hf => (hids f hf).trans hid, fun i f hf => ?_, fun i f hf => ?_⟩
      · exact append_ne_nil_of_right_ne_nil _ (append_ne_nil_of_right_ne_nil _ (cons_ne_nil _ _))
      · have hi := (getElem?_eq_some_iff.mp hf).1
        rw [hnums i f hf]
        exact Nat.mod_eq_of_lt (lt_of_lt_of_le hi hlen)
      · rw [← append_assoc] at hf ⊢
        exact isLast_iff_of_append (forall_mem_append.mpr ⟨hrun.notLast, hinit⟩) hlast i f hf
    rw [← hdata]
    exact hnumbered.reader openBlock hperm
  · exact Frame.unmarshalBinary_eq_ok.mpr ⟨hmax, (append_nil _).symm⟩

/-- A compressor that stores its input as it is. -/
def storing : Compressor Unit :=
  ⟨fun p _ s => (s, p, none), fun s => (s, [], none), fun s => (s, [], none), fun _ => none⟩

def emptyChannel : SingularChannelOut Unit :=
  .newSingularChannelOut ⟨replicate 16 7, rfl⟩ () []

/-- A batch, a frame of a part of it, and another batch. -/
def someActions : List ChannelOutOp :=
  [.addSingularBatch (bareBatch 0 1 []) 0, .outputFrame 40, .addSingularBatch (bareBatch 0 2 []) 0]

theorem channel_frames_round_trip_two_batches :
    ∃ frames co', (channelOut storing).outputUntilEOF (replicate 200 60)
        (close storing
          ((channelOut storing).run someActions emptyChannel).1).1 =
        some (frames, co') ∧
      ∀ openBlock inputs, (inputs.map Prod.fst).Perm
          (((channelOut storing).run someActions emptyChannel).2 ++ frames) →
        (Channel.afterFrames emptyChannel.id openBlock inputs).isReady = true ∧
        (Channel.afterFrames emptyChannel.id openBlock inputs).reader =
          some (close storing
            ((channelOut storing).run someActions emptyChannel).1).1.compressed.written := by
  obtain ⟨hend, hfrs⟩ := channel_frames_round_trip
    (IsNewChannelOut.singular storing ⟨replicate 16 7, length_replicate⟩ () []) someActions
    (fun maxSize h => by rw [eq_of_mem_replicate h]; decide :
      ∀ maxSize ∈ replicate 200 60, frameV0OverHeadSize < maxSize)
  obtain ⟨⟨frames, co'⟩, hrun⟩ := isSome_iff_exists.mp (hend (by decide +kernel))
  have hcnt : ((channelOut storing).outputUntilEOF (replicate 200 60)
      (close storing ((channelOut storing).run someActions emptyChannel).1).1).map
      (fun r => (((channelOut storing).run someActions emptyChannel).2 ++
        r.1).length) = some 5 := by decide +kernel
  refine ⟨frames, co', hrun, (hfrs frames co' hrun ?_).1⟩
  rw [map_eq_some_iff] at hcnt
  obtain ⟨r, hr, hlen⟩ := hcnt
  obtain rfl := some.inj (hr.symm.trans hrun)
  exact le_trans (le_of_eq hlen) (by decide)

end FightNight.Derive
