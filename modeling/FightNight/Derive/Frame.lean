import FightNight.Library.Reader

/-!
# Frames

The format of frames in L1 transactions (`op-node/rollup/derive/frame.go`): the identifier of the
channel, the number, the length of the data, the data, and whether the frame is the last one.  The
data of a transaction is a version byte and one frame after the other.

`ParseFrames` accepts exactly what is written for a list of frames.
-/

namespace FightNight.Derive

open Reader List

abbrev ChannelID := FixedBytes 16

instance neZeroUint16 : NeZero (2 ^ 16) := inferInstance

structure Frame where
  id : ChannelID
  frameNumber : Fin (2 ^ 16)
  data : Bytes
  isLast : Bool
  deriving DecidableEq

def maxFrameLen : ℕ := 1000000

def derivationVersion0 : UInt8 := 0

/-- The errors of `UnmarshalBinary`. -/
inductive FrameError where
  /-- `reading …`, with the field; a field that is missing altogether is reported as an unexpected
  end, except for the first one. -/
  | reading (field : String) (cause : ReadError)
  /-- `frame_data_length is too large`. -/
  | tooLarge (frameLength : ℕ)
  /-- `invalid byte as is_last`. -/
  | invalidIsLast
  deriving DecidableEq

/-- The errors of `ParseFrames`. -/
inductive ParseError where
  /-- `data array must not be empty`. -/
  | empty
  /-- `invalid derivation format byte`. -/
  | invalidVersion (byte : UInt8)
  /-- `parsing frame …`. -/
  | parsingFrame (index : ℕ) (cause : FrameError)
  /-- `was not able to find any frames`. -/
  | noFrames
  /-- A loop that does not end. -/
  | stuck
  deriving DecidableEq

namespace Frame

def marshalBinary (f : Frame) : Bytes :=
  f.id.1 ++ beBytes 2 f.frameNumber ++ beBytes 4 f.data.length ++ f.data ++
    [if f.isLast then 1 else 0]

/-- The error of a field after the first one: `eofAsUnexpectedMissing`. -/
def missing (field : String) : ReadError → FrameError := fun _ => .reading field .unexpectedEOF

def readIsLast : Reader FrameError Bool := do
  let isLastByte ← readByte (missing "final byte (is_last)")
  if isLastByte = 0 then pure false
  else if isLastByte = 1 then pure true
  else fail .invalidIsLast

def unmarshalBinary : Reader FrameError Frame := do
  let id ← readFixed (FrameError.reading "channel_id") 16
  let frameNumber ← readUint (missing "frame_number") 2
  let frameLength ← readUint (missing "frame_data_length") 4
  failIf (maxFrameLen < frameLength) (.tooLarge frameLength)
  let data ← readFull (missing "frame_data") frameLength
  let isLast ← readIsLast
  pure ⟨id, Fin.ofNat _ frameNumber, data, isLast⟩

lemma readIsLast_eq_ok {bs rest : Bytes} {isLast : Bool} :
    readIsLast bs = .ok (isLast, rest) ↔ bs = (if isLast then 1 else 0) :: rest := by
  simp only [readIsLast, bind_eq_ok, readByte_eq_ok]
  constructor
  · rintro ⟨b, bs', rfl, h⟩
    by_cases h0 : b = 0
    · rw [if_pos h0] at h
      obtain ⟨rfl, rfl⟩ := h
      rw [h0]
      rfl
    · by_cases h1 : b = 1
      · rw [if_neg h0, if_pos h1] at h
        obtain ⟨rfl, rfl⟩ := h
        rw [h1]
        rfl
      · grind [fail_eq_ok]
  · rintro rfl
    cases isLast with
    | false => exact ⟨0, rest, rfl, rfl⟩
    | true => exact ⟨1, rest, rfl, rfl⟩

lemma unmarshalBinary_eq_ok {bs rest : Bytes} {f : Frame} :
    unmarshalBinary bs = .ok (f, rest) ↔
      f.data.length ≤ maxFrameLen ∧ bs = f.marshalBinary ++ rest := by
  simp only [unmarshalBinary, bind_eq_ok, readFixed_eq_ok, readUint_eq_ok,
    failIf_eq_ok, readFull_eq_ok, readIsLast_eq_ok, pure_eq_ok, marshalBinary]
  constructor
  · rintro ⟨id, _, rfl, n, _, ⟨hn, rfl⟩, len, _, ⟨hlen, rfl⟩, _, _, ⟨hmax, rfl⟩, data, _, ⟨rfl, rfl⟩,
      isLast, _, rfl, rfl, rfl⟩
    have hnum : (Fin.ofNat (2 ^ 16) n).val = n := Nat.mod_eq_of_lt hn
    simp only [hnum, append_assoc, singleton_append]
    exact ⟨le_of_not_gt hmax, trivial⟩
  · rintro ⟨hlen, rfl⟩
    obtain ⟨id, frameNumber, data, isLast⟩ := f
    have hmax : maxFrameLen < 256 ^ 4 := by decide
    have hnum : (Fin.ofNat (2 ^ 16) frameNumber.val) = frameNumber := Fin.ofNat_val_eq_self _
    refine ⟨id, _, by simp only [append_assoc], frameNumber, _, ⟨frameNumber.isLt, rfl⟩,
      data.length, _, ⟨lt_of_le_of_lt hlen hmax, rfl⟩, (), _, ⟨not_lt_of_ge hlen, rfl⟩, data, _,
      ⟨rfl, rfl⟩, isLast, _, singleton_append, ?_, rfl⟩
    rw [hnum]

end Frame

def parseFrames : Bytes → Except ParseError (List Frame)
  | [] => .error .empty
  | version :: bs =>
    if version ≠ derivationVersion0 then .error (.invalidVersion version)
    else do
      let frames ← readAll Frame.unmarshalBinary .parsingFrame .stuck bs.length [] bs
      if frames.length = 0 then .error .noFrames else .ok frames

/-- The data of a transaction with the given frames. -/
structure Carries (data : Bytes) (frames : List Frame) : Prop where
  ne_nil : frames ≠ []
  length_le : ∀ f ∈ frames, f.data.length ≤ maxFrameLen
  eq : data = derivationVersion0 :: (frames.map Frame.marshalBinary).flatten

lemma parseFrames_eq_ok {data : Bytes} {frames : List Frame} :
    parseFrames data = .ok frames ↔ Carries data frames := by
  have hread : ∀ {bs : Bytes}, readAll Frame.unmarshalBinary ParseError.parsingFrame
      ParseError.stuck bs.length [] bs = .ok frames ↔ (∀ f ∈ frames, f.data.length ≤ maxFrameLen) ∧
        bs = (frames.map Frame.marshalBinary).flatten := by
    intro bs
    rw [readAll_eq_ok (fun _ _ _ => Frame.unmarshalBinary_eq_ok)
      (fun _ _ => append_ne_nil_of_right_ne_nil _ (cons_ne_nil _ _)) (le_refl _)]
    simp only [nil_append, exists_eq_left']
  constructor
  · intro h
    cases data with
    | nil => cases h
    | cons version bs =>
      rw [parseFrames] at h
      by_cases hver : version ≠ derivationVersion0
      · rw [if_pos hver] at h
        cases h
      · rw [if_neg hver, Except.bind_eq_ok] at h
        obtain ⟨frames', hfrs, h⟩ := h
        by_cases hnone : frames'.length = 0
        · rw [if_pos hnone] at h
          cases h
        · rw [if_neg hnone] at h
          cases h
          obtain ⟨hlen, rfl⟩ := hread.mp hfrs
          refine ⟨fun hnil => hnone (by rw [hnil]; rfl), hlen, ?_⟩
          rw [not_not.mp hver]
  · rintro ⟨hne, hlen, rfl⟩
    rw [parseFrames, if_neg (not_not.mpr rfl), hread.mpr ⟨hlen, rfl⟩, Except.ok_bind,
      if_neg fun h => hne (length_eq_zero_iff.mp h)]

/-- A byte string is accepted exactly if it is the version byte and what is written for one or more
frames of bounded length, which are then returned; no other list of frames is written so. -/
theorem parse_frames_canonical (data : Bytes) :
    ((∃ frames, parseFrames data = .ok frames) ↔ ∃ frames, Carries data frames) ∧
      (∀ frames, Carries data frames → parseFrames data = .ok frames) ∧
      (∀ frames, parseFrames data = .ok frames →
        derivationVersion0 :: (frames.map Frame.marshalBinary).flatten = data) ∧
      ∀ frames frames', Carries data frames → Carries data frames' → frames = frames' := by
  refine ⟨exists_congr fun _ => parseFrames_eq_ok, fun _ => parseFrames_eq_ok.mpr,
    fun _ h => (parseFrames_eq_ok.mp h).eq.symm, fun frames frames' h h' => ?_⟩
  have hsame := (parseFrames_eq_ok.mpr h).symm.trans (parseFrames_eq_ok.mpr h')
  exact Except.ok.inj hsame

end FightNight.Derive
