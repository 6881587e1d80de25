import Mathlib.Data.List.Perm.Subperm
import FightNight.Library.FinMap
import FightNight.Library.Run
import FightNight.Derive.Frame

/-!
# Channels

The assembly of a channel from its frames (`op-node/rollup/derive/channel.go`), which arrive in
any order, more than once, and in versions that contradict each other.  A frame is buffered under
its number unless there is one already; the first closing frame that is buffered fixes the end of
the channel, and the frames behind it are dropped.

Once a channel is ready it accepts nothing, and its content is the first frame that was accepted
for each number.  Its size is less than what it buffers when a closing frame comes late: the
frames in front of that frame are subtracted with those that are dropped (`size_eq_held_iff`).
-/

namespace FightNight.Derive

open Run AList
open List hiding getElem?_eq_some_iff

/-- The part of `L1BlockRef` that the derivation looks at. -/
structure L1BlockRef where
  number : ℕ
  time : ℕ
  deriving DecidableEq

def frameOverhead : ℕ := 200

def frameSize (frame : Frame) : ℕ := frame.data.length + frameOverhead

structure Channel where
  id : ChannelID
  openBlock : L1BlockRef
  size : ℕ
  closed : Bool
  highestFrameNumber : ℕ
  endFrameNumber : ℕ
  inputs : FinMap ℕ Frame
  highestL1InclusionBlock : L1BlockRef
  deriving DecidableEq

/-- The errors of `AddFrame`. -/
inductive ChannelError where
  /-- `frame id does not match channel id`. -/
  | idMismatch (expected got : ChannelID)
  /-- `cannot add ending frame to a closed channel`. -/
  | endingFrame (id : ChannelID)
  /-- `DuplicateErr`. -/
  | duplicate
  /-- `frame number is greater than or equal to end frame number of a closed channel`. -/
  | beyondEnd (frameNumber endFrameNumber : ℕ)
  deriving DecidableEq

def newChannel (id : ChannelID) (openBlock : L1BlockRef) : Channel where
  id := id
  openBlock := openBlock
  size := 0
  closed := false
  highestFrameNumber := 0
  endFrameNumber := 0
  inputs := ∅
  highestL1InclusionBlock := ⟨0, 0⟩

namespace Channel

/-- The loop of `AddFrame` over the buffered frames: those from the end on are deleted, and the size
is reduced by every frame, kept or not. -/
def pruneFrames (ch : Channel) : Channel :=
  { ch with
    inputs := FinMap.removeAll (fun n => ch.endFrameNumber ≤ n) ch.inputs
    size := ch.inputs.values.foldl (fun size prunedFrame => size - frameSize prunedFrame) ch.size
    highestFrameNumber := ch.endFrameNumber }

/-- What `AddFrame` does with a closing frame before it is buffered. -/
def close (frameNumber : ℕ) (ch : Channel) : Channel :=
  let ch := { ch with endFrameNumber := frameNumber, closed := true }
  if ch.endFrameNumber < ch.highestFrameNumber then ch.pruneFrames else ch

/-- The end of `AddFrame`. -/
def buffer (frame : Frame) (l1InclusionBlock : L1BlockRef) (ch : Channel) : Channel :=
  { ch with
    highestFrameNumber := max ch.highestFrameNumber frame.frameNumber
    highestL1InclusionBlock :=
      if ch.highestL1InclusionBlock.number < l1InclusionBlock.number then l1InclusionBlock
      else ch.highestL1InclusionBlock
    inputs := ch.inputs.insert frame.frameNumber.val frame
    size := ch.size + frameSize frame }

def addFrame (frame : Frame) (l1InclusionBlock : L1BlockRef) (ch : Channel) :
    Except ChannelError Channel :=
  if frame.id ≠ ch.id then .error (.idMismatch ch.id frame.id)
  else if frame.isLast = true ∧ ch.closed = true then .error (.endingFrame ch.id)
  else if frame.frameNumber.val ∈ ch.inputs then .error .duplicate
  else if ch.closed = true ∧ ch.endFrameNumber ≤ frame.frameNumber then
    .error (.beyondEnd frame.frameNumber ch.endFrameNumber)
  else .ok ((if frame.isLast then ch.close frame.frameNumber else ch).buffer frame l1InclusionBlock)

def isReady (ch : Channel) : Bool :=
  ch.closed && decide (ch.inputs.keys.length = ch.endFrameNumber + 1) &&
    (range (ch.endFrameNumber + 1)).all fun i => decide (i ∈ ch.inputs)

/-- `Reader`, and all that can be read from it; there is none when the call panics. -/
def reader (ch : Channel) : Option Bytes :=
  ((range (ch.endFrameNumber + 1)).mapM fun i => ch.inputs.lookup i).map fun frames =>
    (frames.map Frame.data).flatten

variable {ch ch' : Channel} {inputs : List (Frame × L1BlockRef)} {accepted : List Frame}
  {id : ChannelID} {l1 : L1BlockRef} {frame : Frame} {n : ℕ}

lemma addFrame_eq_ok :
    ch.addFrame frame l1 = .ok ch' ↔ frame.id = ch.id ∧ ¬ (frame.isLast = true ∧ ch.closed = true) ∧
      frame.frameNumber.val ∉ ch.inputs ∧
      ¬ (ch.closed = true ∧ ch.endFrameNumber ≤ frame.frameNumber) ∧
      (if frame.isLast then ch.close frame.frameNumber else ch).buffer frame l1 = ch' := by
  unfold addFrame
  by_cases hid : frame.id = ch.id
  · by_cases hlast : frame.isLast = true ∧ ch.closed = true
    · simp [hid, hlast]
    · by_cases hmem : frame.frameNumber.val ∈ ch.inputs
      · simp [hid, hlast, hmem]
      · rw [if_neg (not_not.mpr hid), if_neg hlast, if_neg hmem]
        by_cases hend : ch.closed = true ∧ ch.endFrameNumber ≤ frame.frameNumber
        · grind
        · grind
  · simp [hid]

lemma isReady_iff :
    ch.isReady = true ↔ ch.closed = true ∧ ∀ i, i ∈ ch.inputs ↔ i ≤ ch.endFrameNumber := by
  have hall : ∀ n, (∀ i, i ∈ ch.inputs ↔ i ≤ n) ↔ ch.inputs.keys.length = n + 1 ∧
      ∀ i, i ≤ n → i ∈ ch.inputs := by
    intro n
    constructor
    · intro h
      have hperm : ch.inputs.keys.Perm (range (n + 1)) :=
        (perm_ext_iff_of_nodup ch.inputs.keys_nodup nodup_range).mpr fun i => by
          rw [← AList.mem_keys, h, mem_range, Nat.lt_succ_iff]
      refine ⟨?_, fun i hi => (h i).mpr hi⟩
      rw [hperm.length_eq, length_range]
    · rintro ⟨hlen, hsub⟩ i
      -- the numbers up to the end are among the keys, and there are no more keys than that
      have hsubperm : (range (n + 1)).Subperm ch.inputs.keys :=
        nodup_range.subperm fun i hi => hsub i (Nat.lt_succ_iff.mp (mem_range.mp hi))
      have hperm := hsubperm.perm_of_length_le (by rw [hlen, length_range])
      rw [AList.mem_keys, ← hperm.mem_iff, mem_range, Nat.lt_succ_iff]
  rw [isReady, Bool.and_eq_true, Bool.and_eq_true, all_eq_true, hall, and_assoc]
  simp only [mem_range, Nat.lt_succ_iff, decide_eq_true_eq]

lemma addFrame_of_isReady (hready : ch.isReady = true) (frame : Frame) (l1 : L1BlockRef) :
    ∀ ch', ch.addFrame frame l1 ≠ .ok ch' := by
  obtain ⟨hcl, hins⟩ := isReady_iff.mp hready
  intro ch' h
  obtain ⟨-, -, hnew, hend, -⟩ := addFrame_eq_ok.mp h
  have hbelow : ¬ ch.endFrameNumber ≤ frame.frameNumber := fun hle => hend ⟨hcl, hle⟩
  exact hnew ((hins _).mpr (le_of_not_ge hbelow))

/-! ## The content of a channel -/

def firstWith (frames : List Frame) (number : ℕ) : Option Frame :=
  frames.find? fun f => f.frameNumber.val = number

def firstClosing (frames : List Frame) : Option Frame := frames.find? Frame.isLast

lemma firstWith_concat (frames : List Frame) (f : Frame) (number : ℕ) :
    firstWith (frames ++ [f]) number =
      (firstWith frames number).or (if f.frameNumber.val = number then some f else none) := by
  rw [firstWith, find?_append, firstWith, find?_singleton]
  simp only [decide_eq_true_eq]

lemma firstClosing_concat (frames : List Frame) (f : Frame) :
    firstClosing (frames ++ [f]) =
      (firstClosing frames).or (if f.isLast then some f else none) := by
  rw [firstClosing, find?_append, firstClosing, find?_singleton]

/-- What a channel buffers after it accepted some frames. -/
structure Buffers (ch : Channel) (accepted : List Frame) : Prop where
  lookup_eq : ∀ i, ch.inputs.lookup i =
    if ch.closed = true ∧ ch.endFrameNumber < i then none else firstWith accepted i
  closing_eq : (firstClosing accepted).map (fun f => f.frameNumber.val) =
    if ch.closed then some ch.endFrameNumber else none
  le_highest : ∀ i ∈ ch.inputs, i ≤ ch.highestFrameNumber
  size_eq : ch.closed = false → ch.size = (ch.inputs.values.map frameSize).sum

lemma buffers_newChannel (id : ChannelID) (openBlock : L1BlockRef) :
    (newChannel id openBlock).Buffers [] where
  lookup_eq i := by
    rfl
  closing_eq := rfl
  le_highest i h := absurd h (notMem_empty i)
  size_eq _ := rfl

lemma lookup_close (hhigh : ∀ i ∈ ch.inputs, i ≤ ch.highestFrameNumber) (hnew : n ∉ ch.inputs)
    (i : ℕ) : (ch.close n).inputs.lookup i = if n < i then none else ch.inputs.lookup i := by
  by_cases hprune : n < ch.highestFrameNumber
  · have hins : (ch.close n).inputs = FinMap.removeAll (fun m => n ≤ m) ch.inputs := by
      rw [close, if_pos hprune, pruneFrames]
    rw [hins, FinMap.lookup_removeAll]
    rcases lt_trichotomy i n with hi | rfl | hi
    · grind
    · rw [if_pos (by simp), if_neg (lt_irrefl i), lookup_eq_none.mpr hnew]
    · grind
  · have hins : (ch.close n).inputs = ch.inputs := by rw [close, if_neg hprune]
    rw [hins]
    by_cases hi : n < i
    · rw [if_pos hi]
      refine lookup_eq_none.mpr fun hmem => ?_
      have := hhigh i hmem
      omega
    · rw [if_neg hi]

lemma close_eq (ch : Channel) (n : ℕ) :
    (ch.close n).closed = true ∧ (ch.close n).endFrameNumber = n ∧ (ch.close n).id = ch.id := by
  rw [close]
  split <;> exact ⟨rfl, rfl, rfl⟩

lemma le_highest_close (hhigh : ∀ i ∈ ch.inputs, i ≤ ch.highestFrameNumber)
    (hnew : n ∉ ch.inputs) : ∀ i ∈ (ch.close n).inputs, i ≤ (ch.close n).highestFrameNumber := by
  intro i hi
  have hsome := lookup_isSome.mpr hi
  rw [lookup_close hhigh hnew] at hsome
  by_cases hin : n < i
  · rw [if_pos hin] at hsome
    cases hsome
  · rw [if_neg hin] at hsome
    have hle := hhigh i (lookup_isSome.mp hsome)
    rw [close]
    split
    · exact le_of_not_gt hin
    · exact hle

lemma lookup_buffer (frame : Frame) (l1 : L1BlockRef) (ch : Channel) (i : ℕ) :
    (ch.buffer frame l1).inputs.lookup i =
      if frame.frameNumber.val = i then some frame else ch.inputs.lookup i := by
  by_cases hi : frame.frameNumber.val = i
  · subst hi
    rw [if_pos rfl]
    exact lookup_insert _
  · rw [if_neg hi]
    exact lookup_insert_ne (symm hi)

lemma le_highest_buffer (hhigh : ∀ i ∈ ch.inputs, i ≤ ch.highestFrameNumber) :
    ∀ i ∈ (ch.buffer frame l1).inputs, i ≤ (ch.buffer frame l1).highestFrameNumber := by
  intro i hi
  rcases (mem_insert _).mp hi with rfl | hi
  · exact le_max_right _ _
  · exact le_trans (hhigh i hi) (le_max_left _ _)

lemma Buffers.addFrame (h : ch.Buffers accepted) (hadd : ch.addFrame frame l1 = .ok ch') :
    ch'.Buffers (accepted ++ [frame]) := by
  obtain ⟨-, hlast, hnew, hend, rfl⟩ := addFrame_eq_ok.mp hadd
  have hnone : ch.inputs.lookup frame.frameNumber.val = none := lookup_eq_none.mpr hnew
  -- the number is not behind the end, so that no frame with it was accepted
  have hfirst : firstWith accepted frame.frameNumber = none := by
    rwa [h.lookup_eq, if_neg fun hc => hend ⟨hc.1, hc.2.le⟩] at hnone
  cases hisLast : frame.isLast with
  | true =>
    have hopen : ch.closed = false := by simpa [hisLast] using hlast
    rw [if_pos rfl]
    have hcl : ((ch.close frame.frameNumber).buffer frame l1).closed = true := (close_eq ch _).1
    have hnum : ((ch.close frame.frameNumber).buffer frame l1).endFrameNumber =
      frame.frameNumber := (close_eq ch _).2.1
    refine ⟨fun i => ?_, ?_, le_highest_buffer (le_highest_close h.le_highest hnew), fun hc => ?_⟩
    · rw [lookup_buffer, lookup_close h.le_highest hnew, h.lookup_eq, hcl, hnum, hopen,
        firstWith_concat]
      rcases lt_trichotomy i frame.frameNumber with hi | hi | hi
      · grind
      · grind
      · grind
    · have hpre := h.closing_eq
      rw [hopen, if_neg Bool.false_ne_true, Option.map_eq_none_iff] at hpre
      rw [firstClosing_concat, hpre, hisLast, hcl, hnum]
      rfl
    · cases hcl.symm.trans hc
  | false =>
    rw [if_neg Bool.false_ne_true]
    have hcl : (ch.buffer frame l1).closed = ch.closed := rfl
    have hnum : (ch.buffer frame l1).endFrameNumber = ch.endFrameNumber := rfl
    refine ⟨fun i => ?_, ?_, le_highest_buffer h.le_highest, fun hopen => ?_⟩
    · rw [lookup_buffer, h.lookup_eq, hcl, hnum, firstWith_concat]
      by_cases hi : frame.frameNumber.val = i
      · grind
      · grind
    · rw [firstClosing_concat, hisLast, if_neg Bool.false_ne_true, Option.or_none]
      exact h.closing_eq
    · have hvals : (ch.buffer frame l1).inputs.values = frame :: ch.inputs.values :=
        FinMap.values_insert hnew frame
      rw [hvals, map_cons, sum_cons, ← h.size_eq hopen, add_comm]
      rfl

/-- The sizes that are subtracted when a channel is closed add up to at most its size: nothing
underflows. -/
theorem Buffers.size_pruned (h : ch.Buffers accepted) (hopen : ch.closed = false) :
    ch.inputs.values.foldl (fun size prunedFrame => size - frameSize prunedFrame) ch.size +
      (ch.inputs.values.map frameSize).sum = ch.size := by
  have hfold : ∀ (fs : List Frame) (n : ℕ), (fs.map frameSize).sum ≤ n →
      fs.foldl (fun size f => size - frameSize f) n + (fs.map frameSize).sum = n := by
    intro fs
    induction fs with
    | nil => intro n _; rfl
    | cons f fs ih =>
      intro n hn
      rw [map_cons, sum_cons] at hn
      have hrest := ih (n - frameSize f) (by omega)
      rw [foldl_cons, map_cons, sum_cons]
      omega
  exact hfold _ _ (h.size_eq hopen).ge

lemma mapM_eq_some {α β : Type} {f : α → Option β} {g : α → β} {xs : List α}
    (h : ∀ x ∈ xs, f x = some (g x)) : xs.mapM f = some (xs.map g) := by
  induction xs with
  | nil => rfl
  | cons x xs ih =>
    rw [mapM_cons, h x mem_cons_self, ih fun y hy => h y (mem_cons_of_mem _ hy)]
    rfl

def frameAt (ch : Channel) (i : ℕ) : Frame := (ch.inputs.lookup i).getD ⟨ch.id, 0, [], false⟩

lemma lookup_of_isReady (hready : ch.isReady = true) {i : ℕ} (hi : i ≤ ch.endFrameNumber) :
    ch.inputs.lookup i = some (ch.frameAt i) := by
  have hmem := ((isReady_iff.mp hready).2 i).mpr hi
  obtain ⟨f, hf⟩ := Option.isSome_iff_exists.mp (lookup_isSome.mpr hmem)
  rw [frameAt, hf]
  rfl

lemma reader_of_isReady (hready : ch.isReady = true) :
    ch.reader = some (((range (ch.endFrameNumber + 1)).map ch.frameAt).map Frame.data).flatten := by
  have hlook : ∀ i ∈ range (ch.endFrameNumber + 1),
      ch.inputs.lookup i = some (ch.frameAt i) := fun i hi =>
    lookup_of_isReady hready (Nat.lt_succ_iff.mp (mem_range.mp hi))
  rw [reader, mapM_eq_some hlook]
  rfl

lemma Buffers.reader (h : ch.Buffers accepted) (hready : ch.isReady = true) :
    ∃ frames : List Frame, frames.length = ch.endFrameNumber + 1 ∧
      (∀ i ≤ ch.endFrameNumber, firstWith accepted i = frames[i]?) ∧
      ch.reader = some (frames.map Frame.data).flatten := by
  refine ⟨_, by rw [length_map, length_range], fun i hi => ?_, reader_of_isReady hready⟩
  have hfirst := h.lookup_eq i
  rw [if_neg fun hc => absurd hi (not_le_of_gt hc.2)] at hfirst
  rw [getElem?_map, getElem?_range (Nat.lt_succ_iff.mpr hi), ← hfirst]
  exact lookup_of_isReady hready hi

/-! ## Sequences of frames -/

/-- `AddFrame` of a frame in an L1 block. -/
def receive (input : Frame × L1BlockRef) (ch : Channel) : Except ChannelError Channel :=
  ch.addFrame input.1 input.2

def afterFrames (id : ChannelID) (openBlock : L1BlockRef) (inputs : List (Frame × L1BlockRef)) :
    Channel :=
  runAll receive inputs (newChannel id openBlock)

def acceptedFrames (id : ChannelID) (openBlock : L1BlockRef) (inputs : List (Frame × L1BlockRef)) :
    List Frame :=
  (successes receive inputs (newChannel id openBlock)).map Prod.fst

lemma buffers_afterFrames (id : ChannelID) (openBlock : L1BlockRef)
    (inputs : List (Frame × L1BlockRef)) :
    (afterFrames id openBlock inputs).Buffers (acceptedFrames id openBlock inputs) := by
  have hstep : ∀ before (input : Frame × L1BlockRef) (ch ch' : Channel),
      ch.Buffers (before.map Prod.fst) → receive input ch = .ok ch' →
        ch'.Buffers ((before ++ [input]).map Prod.fst) := by
    intro before input ch ch' h hadd
    rw [map_append]
    exact h.addFrame hadd
  have hnew : (newChannel id openBlock).Buffers (([] : List (Frame × L1BlockRef)).map Prod.fst) :=
    buffers_newChannel id openBlock
  exact runAll_successes_inv hstep inputs hnew

lemma runAll_of_isReady (hready : ch.isReady = true) (inputs : List (Frame × L1BlockRef)) :
    runAll receive inputs ch = ch := by
  have hstep : ∀ input ∈ inputs, ∀ ch₁ ch₂ : Channel, ch₁ = ch → receive input ch₁ = .ok ch₂ →
      ch₂ = ch := by
    rintro input - ch₁ ch₂ rfl hadd
    exact absurd hadd (addFrame_of_isReady hready input.1 input.2 ch₂)
  exact runAll_inv hstep rfl

/-- The frames of a channel that ends with number `n`. -/
structure Belongs (id : ChannelID) (n : ℕ) (f : Frame) : Prop where
  id_eq : f.id = id
  le : f.frameNumber.val ≤ n
  isLast_iff : f.isLast = true ↔ f.frameNumber.val = n

/-- What a channel holds while it receives frames of a channel that ends with number `n`. -/
structure Filling (id : ChannelID) (n : ℕ) (ch : Channel) : Prop where
  id_eq : ch.id = id
  mem_le : ∀ i ∈ ch.inputs, i ≤ n
  closed_iff : ch.closed = true ↔ n ∈ ch.inputs
  end_eq : ch.closed = true → ch.endFrameNumber = n

/-- A frame that belongs to the channel is buffered unless there is one with its number, and nothing
else changes. -/
theorem Filling.receive (h : ch.Filling id n)
    (hhigh : ∀ i ∈ ch.inputs, i ≤ ch.highestFrameNumber) {f : Frame} (hf : Belongs id n f)
    (l1 : L1BlockRef) :
    (attempt Channel.receive (f, l1) ch).Filling id n ∧
      ∀ i, i ∈ (attempt Channel.receive (f, l1) ch).inputs ↔
        i = f.frameNumber.val ∨ i ∈ ch.inputs := by
  by_cases hmem : f.frameNumber.val ∈ ch.inputs
  · have hfails : ∀ ch', Channel.receive (f, l1) ch = .ok ch' → ch' = ch := fun ch' hadd =>
      absurd hmem (addFrame_eq_ok.mp hadd).2.2.1
    have hsame : attempt Channel.receive (f, l1) ch = ch := attempt_inv (P := (· = ch)) rfl hfails
    rw [hsame]
    refine ⟨h, fun i => ⟨Or.inr, ?_⟩⟩
    rintro (rfl | hi)
    · exact hmem
    · exact hi
  · -- a channel is closed only when its last number is there, so that this one is in front of it
    have hbelow : ch.closed = true → f.frameNumber.val < n := fun hcl =>
      lt_of_le_of_ne hf.le fun heq => hmem (heq ▸ h.closed_iff.mp hcl)
    have hadd : Channel.receive (f, l1) ch =
        .ok ((if f.isLast then ch.close f.frameNumber else ch).buffer f l1) := by
      refine addFrame_eq_ok.mpr ⟨hf.id_eq.trans h.id_eq.symm, fun hc => ?_, hmem, fun hc => ?_, rfl⟩
      · exact absurd (hf.isLast_iff.mp hc.1) (hbelow hc.2).ne
      · rw [h.end_eq hc.1] at hc
        exact absurd (hbelow hc.1) (not_lt_of_ge hc.2)
    rw [attempt_of_ok Channel.receive hadd]
    cases hlast : f.isLast with
    | true =>
      have hn : f.frameNumber.val = n := hf.isLast_iff.mp hlast
      have hins : ∀ i, i ∈ ((ch.close f.frameNumber).buffer f l1).inputs ↔
          i = f.frameNumber.val ∨ i ∈ ch.inputs := by
        intro i
        refine (mem_insert _).trans (or_congr_right ?_)
        rw [← lookup_isSome, ← lookup_isSome, lookup_close hhigh hmem]
        by_cases hi : f.frameNumber.val < i
        · have hnot : i ∉ ch.inputs := fun hc => by have := h.mem_le i hc; omega
          rw [if_pos hi, lookup_eq_none.mpr hnot]
        · rw [if_neg hi]
      obtain ⟨hcl, hend, hid⟩ := close_eq ch f.frameNumber
      refine ⟨⟨hid.trans h.id_eq, fun i hi => ?_, ?_, fun _ => hend.trans hn⟩, hins⟩
      · rcases (hins i).mp hi with rfl | hi
        · exact hf.le
        · exact h.mem_le i hi
      · exact ⟨fun _ => (hins n).mpr (Or.inl hn.symm), fun _ => hcl⟩
    | false =>
      have hn : f.frameNumber.val ≠ n := fun hc => by
        rw [hf.isLast_iff.mpr hc] at hlast
        cases hlast
      have hins : ∀ i, i ∈ (ch.buffer f l1).inputs ↔ i = f.frameNumber.val ∨ i ∈ ch.inputs :=
        fun i => mem_insert _
      refine ⟨⟨h.id_eq, fun i hi => ?_, ?_, h.end_eq⟩, hins⟩
      · rcases (hins i).mp hi with rfl | hi
        · exact hf.le
        · exact h.mem_le i hi
      · exact h.closed_iff.trans ((hins n).trans (or_iff_right hn.symm)).symm

lemma mem_inputs_runAll (hins : ∀ input ∈ inputs, Belongs id n input.1) (hch : ch.Filling id n)
    (hbuf : ch.Buffers accepted) :
    (runAll receive inputs ch).Filling id n ∧
      ∀ i, i ∈ (runAll receive inputs ch).inputs ↔
        (∃ input ∈ inputs, input.1.frameNumber.val = i) ∨ i ∈ ch.inputs := by
  induction inputs generalizing ch accepted with
  | nil => exact ⟨hch, fun i => by simp⟩
  | cons input inputs ih =>
    obtain ⟨hnext, hmem⟩ := hch.receive hbuf.le_highest (hins input mem_cons_self) input.2
    have hstep : ∀ ch', receive input ch = .ok ch' → ∃ accepted, ch'.Buffers accepted :=
      fun ch' hadd => ⟨_, hbuf.addFrame hadd⟩
    obtain ⟨accepted', hbuffers'⟩ :=
      attempt_inv (P := fun ch : Channel => ∃ accepted, ch.Buffers accepted) ⟨accepted, hbuf⟩ hstep
    obtain ⟨hfin, hall⟩ := ih (fun d hd => hins d (mem_cons_of_mem _ hd)) hnext hbuffers'
    refine ⟨hfin, fun i => (hall i).trans ?_⟩
    have hcons : (∃ d ∈ input :: inputs, d.1.frameNumber.val = i) ↔
        i = input.1.frameNumber.val ∨ ∃ d ∈ inputs, d.1.frameNumber.val = i := by
      rw [exists_mem_cons_iff, eq_comm]
    rw [hmem, hcons, or_left_comm, or_assoc]

lemma isReady_of_belongs {openBlock : L1BlockRef} (hbel : ∀ input ∈ inputs, Belongs id n input.1)
    (hall : ∀ i ≤ n, ∃ input ∈ inputs, input.1.frameNumber.val = i) :
    (afterFrames id openBlock inputs).isReady = true ∧
      (afterFrames id openBlock inputs).endFrameNumber = n := by
  have hnew : (newChannel id openBlock).Filling id n :=
    ⟨rfl, fun i h => absurd h (notMem_empty i),
      ⟨nofun, fun h => absurd h (notMem_empty n)⟩, fun h => nomatch h⟩
  obtain ⟨hfill, hmem⟩ := mem_inputs_runAll hbel hnew (buffers_newChannel id openBlock)
  have hin : ∀ i, i ∈ (afterFrames id openBlock inputs).inputs ↔ i ≤ n := fun i =>
    ⟨hfill.mem_le i, fun hi => (hmem i).mpr (Or.inl (hall i hi))⟩
  have hcl := hfill.closed_iff.mpr ((hin n).mpr (le_refl n))
  have hend := hfill.end_eq hcl
  refine ⟨isReady_iff.mpr ⟨hcl, fun i => ?_⟩, hend⟩
  rw [hin, ← hend]
  rfl

/-- The frames of a channel, in the order of their numbers. -/
structure Numbered (id : ChannelID) (frames : List Frame) : Prop where
  ne_nil : frames ≠ []
  id_eq : ∀ f ∈ frames, f.id = id
  number_eq : ∀ (i : ℕ) (f : Frame), frames[i]? = some f → f.frameNumber.val = i
  isLast_iff : ∀ (i : ℕ) (f : Frame), frames[i]? = some f →
    (f.isLast = true ↔ i + 1 = frames.length)

/-- In whatever order the frames of a channel arrive, it becomes ready and has the data of all of
them. -/
theorem Numbered.reader {frames : List Frame} (h : Numbered id frames) (openBlock : L1BlockRef)
    (hperm : (inputs.map Prod.fst).Perm frames) :
    (afterFrames id openBlock inputs).isReady = true ∧
      (afterFrames id openBlock inputs).reader = some (frames.map Frame.data).flatten := by
  have hpos := length_pos_iff.mpr h.ne_nil
  have hbel : ∀ input ∈ inputs, Belongs id (frames.length - 1) input.1 := by
    intro input hinput
    have hmem := hperm.mem_iff.mp (mem_map_of_mem hinput)
    obtain ⟨i, hi⟩ := mem_iff_getElem?.mp hmem
    have hlt := (getElem?_eq_some_iff.mp hi).1
    have hnum := h.number_eq i _ hi
    refine ⟨h.id_eq _ hmem, by omega, (h.isLast_iff i _ hi).trans ?_⟩
    omega
  have hall : ∀ i ≤ frames.length - 1, ∃ input ∈ inputs, input.1.frameNumber.val = i := by
    intro i hi
    have hsome : frames[i]? = some frames[i] := getElem?_eq_getElem (by omega)
    obtain ⟨input, hinput, heq⟩ := mem_map.mp (hperm.mem_iff.mpr (mem_of_getElem? hsome))
    exact ⟨input, hinput, heq ▸ h.number_eq i _ hsome⟩
  obtain ⟨hready, hend⟩ := isReady_of_belongs hbel hall
  have hbuf := buffers_afterFrames id openBlock inputs
  obtain ⟨frames', hlen, hfirst, hrd⟩ := hbuf.reader hready
  refine ⟨hready, ?_⟩
  -- a frame that was accepted for a number is the only one with this number
  obtain rfl : frames' = frames := by
    refine ext_getElem? fun i => ?_
    rcases lt_or_ge i frames.length with hi | hi
    · have hsome : frames'[i]? = some frames'[i] := getElem?_eq_getElem (by omega)
      have hfound := hfirst i (by omega)
      rw [hsome] at hfound
      have hnum : frames'[i].frameNumber.val = i := by
        simpa using find?_some hfound
      have hsub : (acceptedFrames id openBlock inputs).Sublist (inputs.map Prod.fst) :=
        (successes_sublist inputs (newChannel id openBlock)).map Prod.fst
      obtain ⟨j, hj⟩ := mem_iff_getElem?.mp
        (hperm.mem_iff.mp (hsub.mem (mem_of_find?_eq_some hfound)))
      obtain rfl : j = i := (h.number_eq j _ hj).symm.trans hnum
      rw [hsome, hj]
    · grind
  exact hrd

/-- Whenever a channel is ready, the first closing frame that was accepted is its end, what is read
is the data of the first accepted frames up to it, whatever frames follow; and a channel that
received all frames up to a closing one, and no others, is ready. -/
theorem channel_assembly (id : ChannelID) (openBlock : L1BlockRef)
    (inputs : List (Frame × L1BlockRef)) :
    ((afterFrames id openBlock inputs).isReady = true →
      ∃ (frames : List Frame) (closing : Frame),
        firstClosing (acceptedFrames id openBlock inputs) = some closing ∧
        frames.length = closing.frameNumber.val + 1 ∧
        (∀ i ≤ closing.frameNumber.val,
          firstWith (acceptedFrames id openBlock inputs) i = frames[i]?) ∧
        ∀ later, (afterFrames id openBlock (inputs ++ later)).isReady = true ∧
          (afterFrames id openBlock (inputs ++ later)).reader =
            some (frames.map Frame.data).flatten) ∧
    ∀ n, (∀ input ∈ inputs, Belongs id n input.1) →
      (∀ i ≤ n, ∃ input ∈ inputs, input.1.frameNumber.val = i) →
        (afterFrames id openBlock inputs).isReady = true := by
  have hbuf := buffers_afterFrames id openBlock inputs
  refine ⟨fun hready => ?_, fun n hbel hall => ?_⟩
  · obtain ⟨frames, hlen, hfrs, hrd⟩ := hbuf.reader hready
    have hcl := hbuf.closing_eq
    rw [if_pos (isReady_iff.mp hready).1] at hcl
    obtain ⟨closing, hfirst, hend⟩ := Option.map_eq_some_iff.mp hcl
    rw [← hend] at hlen hfrs
    refine ⟨frames, closing, hfirst, hlen, hfrs, fun later => ?_⟩
    have hsame : afterFrames id openBlock (inputs ++ later) = afterFrames id openBlock inputs := by
      rw [afterFrames, runAll_append]
      exact runAll_of_isReady hready later
    rw [hsame]
    exact ⟨hready, hrd⟩
  · exact (isReady_of_belongs hbel hall).1

/-! ## The size of a channel -/

/-- The size of the frames that are buffered. -/
def held (ch : Channel) : ℕ := (ch.inputs.values.map frameSize).sum

/-- The size of the frames that `AddFrame` keeps although it subtracts them. -/
def uncounted (input : Frame × L1BlockRef) (ch : Channel) : ℕ :=
  if input.1.isLast = true ∧ input.1.frameNumber.val < ch.highestFrameNumber then
    ((FinMap.removeAll (fun n => input.1.frameNumber.val ≤ n) ch.inputs).values.map frameSize).sum
  else 0

lemma uncounted_eq_zero_iff {input : Frame × L1BlockRef} :
    uncounted input ch = 0 ↔ input.1.isLast = true →
      input.1.frameNumber.val < ch.highestFrameNumber →
        ∀ i ∈ ch.inputs, input.1.frameNumber.val ≤ i := by
  rw [← and_imp, uncounted]
  split
  case isFalse hnot => exact iff_of_true rfl fun h => absurd h hnot
  case isTrue hprune =>
    rw [imp_iff_right hprune]
    constructor
    · intro h i hi
      by_contra hlt
      obtain ⟨f, hf⟩ := Option.isSome_iff_exists.mp (lookup_isSome.mpr hi)
      have hkept := FinMap.lookup_removeAll (fun n => input.1.frameNumber.val ≤ n) ch.inputs i
      rw [if_neg (by simpa using hlt), hf] at hkept
      obtain ⟨fs, gs, hsplit⟩ := append_of_mem (FinMap.mem_values.mpr ⟨i, hkept⟩)
      rw [hsplit, map_append, map_cons, sum_append, sum_cons, frameSize, frameOverhead] at h
      omega
    · intro h
      refine congrArg (fun fs => (map frameSize fs).sum) (eq_nil_iff_forall_not_mem.mpr ?_)
      intro f hf
      obtain ⟨i, hi⟩ := FinMap.mem_values.mp hf
      rw [FinMap.lookup_removeAll] at hi
      split at hi
      case isTrue => cases hi
      case isFalse hlt =>
        exact hlt (decide_eq_true (h i (lookup_isSome.mp (by rw [hi]; rfl))))

/-- The size falls behind what is buffered by what is not counted any more. -/
theorem Buffers.held_receive (h : ch.Buffers accepted) {input : Frame × L1BlockRef}
    (hadd : receive input ch = .ok ch') :
    ch'.held + ch.size = ch'.size + ch.held + uncounted input ch := by
  obtain ⟨-, hlast, hnew, -, rfl⟩ := addFrame_eq_ok.mp hadd
  have hclose : ∃ ch₁, (if input.1.isLast then ch.close input.1.frameNumber else ch) = ch₁ ∧
      input.1.frameNumber.val ∉ ch₁.inputs ∧
      ch₁.held + ch.size = ch₁.size + ch.held + uncounted input ch := by
    refine ⟨_, rfl, ?_⟩
    split
    case isFalse hend =>
      rw [uncounted, if_neg fun hc => hend hc.1]
      exact ⟨hnew, add_comm _ _⟩
    case isTrue hend =>
      have hfree := lookup_close h.le_highest hnew input.1.frameNumber
      rw [if_neg (lt_irrefl _), lookup_eq_none.mpr hnew] at hfree
      refine ⟨lookup_eq_none.mp hfree, ?_⟩
      rw [close, uncounted]
      by_cases hlt : input.1.frameNumber.val < ch.highestFrameNumber
      · have hopen : ch.closed = false := by simpa [hend] using hlast
        have hfull : ch.size = ch.held := h.size_eq hopen
        have hzero : ch.inputs.values.foldl (fun n f => n - frameSize f) ch.size + ch.held =
            ch.size := h.size_pruned hopen
        rw [if_pos hlt, if_pos ⟨hend, hlt⟩]
        dsimp only [pruneFrames, held] at hzero hfull ⊢
        omega
      · rw [if_neg hlt, if_neg fun hc => hlt hc.2]
        exact add_comm _ _
  obtain ⟨ch₁, hch₁, hfree, hheld⟩ := hclose
  have hbuffer : (ch₁.buffer input.1 input.2).held = frameSize input.1 + ch₁.held := by
    rw [held, held, ← sum_cons, ← map_cons, ← FinMap.values_insert hfree]
    rfl
  have hsize : (ch₁.buffer input.1 input.2).size = ch₁.size + frameSize input.1 := rfl
  rw [hch₁]
  omega

/-- The size of a channel is that of the frames that it buffers if and only if no closing frame that
was accepted after a frame with a higher number found one with a lower number. -/
theorem size_eq_held_iff (id : ChannelID) (openBlock : L1BlockRef)
    (inputs : List (Frame × L1BlockRef)) :
    (afterFrames id openBlock inputs).size = (afterFrames id openBlock inputs).held ↔
      SuccessesMeet receive (fun _ input ch => input.1.isLast = true →
          input.1.frameNumber.val < ch.highestFrameNumber →
            ∀ i ∈ ch.inputs, input.1.frameNumber.val ≤ i)
        [] inputs (newChannel id openBlock) := by
  let P : Channel → Prop := fun ch => (∃ accepted, ch.Buffers accepted) ∧ ch.size ≤ ch.held
  have hkeep : ∀ input ch ch', P ch → receive input ch = .ok ch' → P ch' := by
    rintro input ch ch' ⟨⟨accepted, hbuffers⟩, hle⟩ hadd
    have hheld := hbuffers.held_receive hadd
    exact ⟨⟨_, hbuffers.addFrame hadd⟩, by omega⟩
  have hstep : ∀ input ch ch', P ch → receive input ch = .ok ch' →
      ch.held - ch.size + uncounted input ch = ch'.held - ch'.size + 0 := by
    rintro input ch ch' ⟨⟨accepted, hbuffers⟩, hle⟩ hadd
    have hheld := hbuffers.held_receive hadd
    omega
  have hnew : P (newChannel id openBlock) := ⟨⟨_, buffers_newChannel id openBlock⟩, le_refl 0⟩
  have hle : (afterFrames id openBlock inputs).size ≤ (afterFrames id openBlock inputs).held :=
    (runAll_inv (fun input _ => hkeep input) hnew).2
  have hbalance := total_balance hkeep hstep inputs hnew
  rw [total_zero] at hbalance
  simp only [← uncounted_eq_zero_iff]
  rw [← total_eq_zero_iff]
  change 0 + _ = (afterFrames id openBlock inputs).held - (afterFrames id openBlock inputs).size + 0
    at hbalance
  omega

/-- A closing frame with a number between those of two others: the size forgets the first frame. -/
theorem size_forgets_first_frame : ∃ id : ChannelID, ∃ ch, ch = afterFrames id ⟨1, 1⟩
      [(⟨id, 0, [], false⟩, ⟨1, 1⟩), (⟨id, 2, [], false⟩, ⟨1, 1⟩), (⟨id, 1, [], true⟩, ⟨1, 1⟩)] ∧
    ch.size = 200 ∧ ch.held = 400 :=
  ⟨⟨replicate 16 7, rfl⟩, _, rfl, by decide⟩

end Channel

end FightNight.Derive
