import FightNight.Eth.Blob
import Mathlib.Tactic.IntervalCases

/-!
# The format of a blob

A blob is a sequence of rounds.  A `Round` is four strings of 31 bytes and three bytes between
them; as data these are 127 bytes, as field elements 128 bytes whose first bytes have six bits.
The blob of some data is made of the rounds of the data behind its header, continued by zeros
(`blobOf`).  The encoder produces that blob (`fromData_eq`).
-/

namespace FightNight.Eth

open FightNight.Except List UInt8 Encoder

/-! ## Six bits and eight bits -/

section Bits

open Blob

variable (a b c d x y z : UInt8)

variable {v : UInt8}

lemma eq_of_bits {w : UInt8} (h : ∀ i < 8, v.toBitVec.getLsbD i = w.toBitVec.getLsbD i) :
    v = w := UInt8.eq_of_toBitVec_eq (BitVec.eq_of_getLsbD_eq h)

@[simp] lemma toBitVec_sixLow : (sixLow x).toBitVec = x.toBitVec &&& 0b00111111#8 := rfl

@[simp] lemma toBitVec_sixB : (sixB x y).toBitVec =
    (y.toBitVec &&& 0b00001111#8) ||| ((x.toBitVec &&& 0b11000000#8) >>> 2) := rfl

@[simp] lemma toBitVec_sixD : (sixD y z).toBitVec =
    ((z.toBitVec &&& 0b11000000#8) >>> 2) ||| ((y.toBitVec &&& 0b11110000#8) >>> 4) := rfl

@[simp] lemma toBitVec_reassembleSix : (reassembleSix a b).toBitVec =
    (a.toBitVec &&& 0b00111111#8) ||| ((b.toBitVec &&& 0b00110000#8) <<< 2) := rfl

@[simp] lemma toBitVec_reassembleFour : (reassembleFour a b).toBitVec =
    (a.toBitVec &&& 0b00001111#8) ||| ((b.toBitVec &&& 0b00001111#8) <<< 4) := rfl

/-- A byte whose two top bits are clear. -/
def SixBit (v : UInt8) : Prop := v &&& (0b11000000 : UInt8) = 0

instance (v : UInt8) : Decidable (SixBit v) := inferInstanceAs (Decidable (_ = _))

lemma sixBit_iff : SixBit v ↔ sixLow v = v := by
  have hall : ∀ n : Fin 256, ofFin n &&& (0b11000000 : UInt8) = 0 ↔ sixLow (ofFin n) = ofFin n := by
    decide +kernel
  exact hall v.toFin

lemma sixBit_sixLow : SixBit (sixLow x) := by
  apply sixBit_iff.mpr
  apply eq_of_bits
  intro i hi
  interval_cases i <;> simp

lemma sixBit_sixB : SixBit (sixB x y) := by
  apply sixBit_iff.mpr
  apply eq_of_bits
  intro i hi
  interval_cases i <;> simp

lemma sixBit_sixD : SixBit (sixD y z) := by
  apply sixBit_iff.mpr
  apply eq_of_bits
  intro i hi
  interval_cases i <;> simp

lemma reassemble_six : reassembleSix (sixLow x) (sixB x y) = x ∧
    reassembleFour (sixB x y) (sixD y z) = y ∧ reassembleSix (sixLow z) (sixD y z) = z := by
  refine ⟨?_, ?_, ?_⟩
  all_goals
    apply eq_of_bits
    intro i hi
    interval_cases i <;> simp

lemma six_reassemble : sixLow (reassembleSix a b) = sixLow a ∧
    sixB (reassembleSix a b) (reassembleFour b d) = sixLow b ∧
    sixLow (reassembleSix c d) = sixLow c ∧
    sixD (reassembleFour b d) (reassembleSix c d) = sixLow d := by
  refine ⟨?_, ?_, ?_, ?_⟩
  all_goals
    apply eq_of_bits
    intro i hi
    interval_cases i <;> simp

lemma reassembleSix_sixLow : reassembleSix (sixLow a) b = reassembleSix a b := by
  apply eq_of_bits
  intro i hi
  interval_cases i <;> simp

end Bits

/-! ## Rounds -/

/-- The first 31 bytes of a string that is continued by zeros. -/
def take31 (bs : Bytes) : FixedBytes 31 := ⟨takePad 31 bs, length_takePad 31 bs⟩

/-- The bytes of one round. -/
@[ext] structure Round where
  f0 : FixedBytes 31
  f1 : FixedBytes 31
  f2 : FixedBytes 31
  f3 : FixedBytes 31
  x : UInt8
  y : UInt8
  z : UInt8

namespace Round

def data (r : Round) : Bytes :=
  r.f0.1 ++ ([r.x] ++ (r.f1.1 ++ ([r.y] ++ (r.f2.1 ++ ([r.z] ++ r.f3.1)))))

def fields (r : Round) : Bytes :=
  [sixLow r.x] ++ (r.f0.1 ++ ([sixB r.x r.y] ++ (r.f1.1 ++ ([sixLow r.z] ++ (r.f2.1 ++
    ([sixD r.y r.z] ++ r.f3.1))))))

def ofData (bs : Bytes) : Round where
  f0 := take31 bs
  x := (bs.drop 31).headD 0
  f1 := take31 (bs.drop 32)
  y := (bs.drop 63).headD 0
  f2 := take31 (bs.drop 64)
  z := (bs.drop 95).headD 0
  f3 := take31 (bs.drop 96)

def ofFields (fs : Bytes) : Round where
  f0 := take31 (fs.drop 1)
  f1 := take31 (fs.drop 33)
  f2 := take31 (fs.drop 65)
  f3 := take31 (fs.drop 97)
  x := Blob.reassembleSix (fs.headD 0) ((fs.drop 32).headD 0)
  y := Blob.reassembleFour ((fs.drop 32).headD 0) ((fs.drop 96).headD 0)
  z := Blob.reassembleSix ((fs.drop 64).headD 0) ((fs.drop 96).headD 0)

@[simp] lemma length_data (r : Round) : r.data.length = 127 := by
  simp only [data, length_append, length_singleton, r.f0.2, r.f1.2, r.f2.2, r.f3.2]

@[simp] lemma length_fields (r : Round) : r.fields.length = 128 := by
  simp only [fields, length_append, length_singleton, r.f0.2, r.f1.2, r.f2.2, r.f3.2]

lemma data_ofData (bs : Bytes) : (ofData bs).data = takePad 127 bs := by
  have hsplit : takePad (31 + (1 + (31 + (1 + (31 + (1 + 31)))))) bs = (ofData bs).data := by
    simp only [takePad_add, drop_drop, takePad_one]
    rfl
  exact hsplit.symm

variable {r r' : Round}

lemma data_injective (h : r.data = r'.data) : r = r' := by
  obtain ⟨h0, h⟩ := append_inj h (r.f0.2.trans r'.f0.2.symm)
  obtain ⟨hx, h⟩ := append_inj h rfl
  obtain ⟨h1, h⟩ := append_inj h (r.f1.2.trans r'.f1.2.symm)
  obtain ⟨hy, h⟩ := append_inj h rfl
  obtain ⟨h2, h⟩ := append_inj h (r.f2.2.trans r'.f2.2.symm)
  obtain ⟨hz, h3⟩ := append_inj h rfl
  exact Round.ext (Subtype.ext h0) (Subtype.ext h1) (Subtype.ext h2) (Subtype.ext h3)
    (singleton_inj.mp hx) (singleton_inj.mp hy) (singleton_inj.mp hz)

lemma fields_injective (h : r.fields = r'.fields) : r = r' := by
  obtain ⟨hA, h⟩ := append_inj h rfl
  obtain ⟨h0, h⟩ := append_inj h (r.f0.2.trans r'.f0.2.symm)
  obtain ⟨hB, h⟩ := append_inj h rfl
  obtain ⟨h1, h⟩ := append_inj h (r.f1.2.trans r'.f1.2.symm)
  obtain ⟨hC, h⟩ := append_inj h rfl
  obtain ⟨h2, h⟩ := append_inj h (r.f2.2.trans r'.f2.2.symm)
  obtain ⟨hD, h3⟩ := append_inj h rfl
  rw [singleton_inj] at hA hB hC hD
  obtain ⟨hx, hy, hz⟩ := reassemble_six r.x r.y r.z
  obtain ⟨hx', hy', hz'⟩ := reassemble_six r'.x r'.y r'.z
  rw [hA, hB, hx'] at hx
  rw [hB, hD, hy'] at hy
  rw [hC, hD, hz'] at hz
  exact Round.ext (Subtype.ext h0) (Subtype.ext h1) (Subtype.ext h2) (Subtype.ext h3)
    hx.symm hy.symm hz.symm

lemma fields_ofFields (fs : Bytes) : (ofFields fs).fields =
    [sixLow (fs.headD 0)] ++ (takePad 31 (fs.drop 1) ++ ([sixLow ((fs.drop 32).headD 0)] ++
      (takePad 31 (fs.drop 33) ++ ([sixLow ((fs.drop 64).headD 0)] ++ (takePad 31 (fs.drop 65) ++
        ([sixLow ((fs.drop 96).headD 0)] ++ takePad 31 (fs.drop 97))))))) := by
  obtain ⟨hA, hB, hC, hD⟩ := six_reassemble (fs.headD 0) ((fs.drop 32).headD 0)
    ((fs.drop 64).headD 0) ((fs.drop 96).headD 0)
  unfold fields ofFields
  rw [hA, hB, hC, hD]
  rfl

/-- The first bytes of the second, third and fourth field element have six bits. -/
def SixBitTail (fs : Bytes) : Prop :=
  SixBit ((fs.drop 32).headD 0) ∧ SixBit ((fs.drop 64).headD 0) ∧ SixBit ((fs.drop 96).headD 0)

lemma fields_ofFields_of_sixBit {fs : Bytes} (hhead : SixBit (fs.headD 0))
    (htail : SixBitTail fs) : (ofFields fs).fields = takePad 128 fs := by
  obtain ⟨hB, hC, hD⟩ := htail
  have hsplit : takePad (1 + (31 + (1 + (31 + (1 + (31 + (1 + 31))))))) fs =
      (ofFields fs).fields := by
    rw [fields_ofFields, sixBit_iff.mp hhead, sixBit_iff.mp hB, sixBit_iff.mp hC, sixBit_iff.mp hD]
    simp only [takePad_add, drop_drop, takePad_one]
  exact hsplit.symm

lemma sixBit_fields (r : Round) (rest : Bytes) :
    SixBit ((r.fields ++ rest).headD 0) ∧ SixBitTail (r.fields ++ rest) := by
  have hdrop : ∀ {bs pre post : Bytes} {v : UInt8} {k : ℕ}, bs = pre ++ ([v] ++ post) →
      pre.length = k → (bs.drop k).headD 0 = v := by grind
  have hB : ((r.fields ++ rest).drop 32).headD 0 = sixB r.x r.y := by
    apply @hdrop _ ([sixLow r.x] ++ r.f0.1)
    · simp only [fields, append_assoc]
      rfl
    · grind
  have hC : ((r.fields ++ rest).drop 64).headD 0 = sixLow r.z := by
    apply @hdrop _ ([sixLow r.x] ++ r.f0.1 ++ [sixB r.x r.y] ++ r.f1.1)
    · simp only [fields, append_assoc]
      rfl
    · simp only [length_append, length_singleton, r.f0.2, r.f1.2]
  have hD : ((r.fields ++ rest).drop 96).headD 0 = sixD r.y r.z := by
    apply @hdrop _ ([sixLow r.x] ++ r.f0.1 ++ [sixB r.x r.y] ++ r.f1.1 ++ [sixLow r.z] ++ r.f2.1)
    · simp only [fields, append_assoc]
      rfl
    · simp only [length_append, length_singleton, r.f0.2, r.f1.2, r.f2.2]
  refine ⟨sixBit_sixLow r.x, ?_, ?_, ?_⟩
  · rw [hB]
    exact sixBit_sixB r.x r.y
  · rw [hC]
    exact sixBit_sixLow r.z
  · rw [hD]
    exact sixBit_sixD r.y r.z

lemma ofFields_sixLow (v : UInt8) (fs : Bytes) :
    ofFields (sixLow v :: fs) = ofFields (v :: fs) := by
  unfold ofFields
  simp only [headD_cons, drop_succ_cons, reassembleSix_sixLow]

lemma fields_ofData_zeros (n : ℕ) : (ofData (zeros n)).fields = zeros 128 := by
  have hzero : ofData (zeros n) = ofData [] := by
    apply data_injective
    rw [data_ofData, data_ofData, takePad_nil, takePad_zeros]
  rw [hzero]
  decide

end Round

/-! ## Sequences of rounds -/

def roundsOf : ℕ → Bytes → List Round
  | 0, _ => []
  | n + 1, bs => Round.ofData bs :: roundsOf n (bs.drop 127)

def dataOf (rs : List Round) : Bytes := rs.flatMap Round.data

def fieldsOf (rs : List Round) : Bytes := rs.flatMap Round.fields

@[simp] lemma dataOf_cons (r : Round) (rs : List Round) :
    dataOf (r :: rs) = r.data ++ dataOf rs := flatMap_cons

@[simp] lemma fieldsOf_cons (r : Round) (rs : List Round) :
    fieldsOf (r :: rs) = r.fields ++ fieldsOf rs := flatMap_cons

@[simp] lemma length_roundsOf (n : ℕ) (bs : Bytes) : (roundsOf n bs).length = n := by
  induction n generalizing bs with
  | zero => rfl
  | succ n ih => rw [roundsOf, length_cons, ih]

lemma length_dataOf (rs : List Round) : (dataOf rs).length = 127 * rs.length := by
  induction rs with
  | nil => rfl
  | cons r rs ih =>
    rw [dataOf_cons, length_append, r.length_data, length_cons]
    omega

lemma length_fieldsOf (rs : List Round) : (fieldsOf rs).length = 128 * rs.length := by
  induction rs with
  | nil => rfl
  | cons r rs ih =>
    rw [fieldsOf_cons, length_append, r.length_fields, length_cons]
    omega

lemma fieldsOf_append (rs qs : List Round) : fieldsOf (rs ++ qs) = fieldsOf rs ++ fieldsOf qs :=
  flatMap_append

lemma dataOf_append (rs qs : List Round) : dataOf (rs ++ qs) = dataOf rs ++ dataOf qs :=
  flatMap_append

variable {rs : List Round} {k : ℕ}

lemma dataOf_take (h : k ≤ rs.length) : dataOf (rs.take k) = (dataOf rs).take (127 * k) := by
  have hsplit : dataOf rs = dataOf (rs.take k) ++ dataOf (rs.drop k) := by
    rw [← dataOf_append, take_append_drop]
  have hlen : (dataOf (rs.take k)).length = 127 * k := by
    rw [length_dataOf, length_take, min_eq_left h]
  rw [hsplit, take_left' hlen]

lemma fieldsOf_split (h : k ≤ rs.length) :
    (fieldsOf rs).take (128 * k) = fieldsOf (rs.take k) ∧
      (fieldsOf rs).drop (128 * k) = fieldsOf (rs.drop k) := by
  have hsplit : fieldsOf rs = fieldsOf (rs.take k) ++ fieldsOf (rs.drop k) := by
    rw [← fieldsOf_append, take_append_drop]
  have hlen : (fieldsOf (rs.take k)).length = 128 * k := by
    rw [length_fieldsOf, length_take, min_eq_left h]
  rw [hsplit]
  exact ⟨take_left' hlen, drop_left' hlen⟩

lemma fieldsOf_injective {qs : List Round} (hlen : rs.length = qs.length)
    (h : fieldsOf rs = fieldsOf qs) : rs = qs := by
  induction rs generalizing qs with
  | nil => exact (length_eq_zero_iff.mp hlen.symm).symm
  | cons r rs ih =>
    cases qs with
    | nil => cases hlen
    | cons q qs =>
      obtain ⟨hround, hrest⟩ := append_inj h (by rw [r.length_fields, q.length_fields])
      rw [Round.fields_injective hround, ih (Nat.succ.inj hlen) hrest]

lemma dataOf_roundsOf (n : ℕ) (bs : Bytes) : dataOf (roundsOf n bs) = takePad (127 * n) bs := by
  induction n generalizing bs with
  | zero => rfl
  | succ n ih =>
    rw [roundsOf, dataOf_cons, Round.data_ofData, ih, ← takePad_add, Nat.mul_succ, add_comm]

lemma drop_roundsOf (k n : ℕ) (bs : Bytes) :
    (roundsOf (k + n) bs).drop k = roundsOf n (bs.drop (127 * k)) := by
  induction k generalizing bs with
  | zero =>
    rw [zero_add]
    rfl
  | succ k ih =>
    rw [Nat.succ_add, roundsOf, drop_succ_cons, ih, drop_drop, Nat.mul_succ, add_comm]

lemma eq_roundsOf {n : ℕ} (hlen : rs.length = n) {bs : Bytes}
    (h : dataOf rs = takePad (127 * n) bs) : rs = roundsOf n bs := by
  induction rs generalizing n bs with
  | nil =>
    subst hlen
    rfl
  | cons r rs ih =>
    subst hlen
    rw [length_cons, Nat.mul_succ, add_comm, takePad_add] at h
    obtain ⟨hround, hrest⟩ := append_inj h (by rw [r.length_data, length_takePad])
    rw [length_cons, roundsOf, ← ih rfl hrest]
    rw [← Round.data_ofData] at hround
    rw [Round.data_injective hround]

lemma fieldsOf_roundsOf_zeros (n m : ℕ) : fieldsOf (roundsOf n (zeros m)) = zeros (128 * n) := by
  induction n generalizing m with
  | zero => rfl
  | succ n ih =>
    rw [roundsOf, fieldsOf_cons, Round.fields_ofData_zeros, drop_zeros, ih, ← zeros_add,
      Nat.mul_succ, add_comm]

/-! ## The format -/

/-- The header of a blob: the version and the length of the data in three bytes. -/
def header (len : ℕ) : Bytes := encodingVersion :: beBytes 3 len

@[simp] lemma length_header (len : ℕ) : (header len).length = 4 := by
  rw [header, length_cons, length_beBytes]

/-- The bytes of the blob for some data. -/
def blobOf (d : Bytes) : Bytes := fieldsOf (roundsOf rounds (header d.length ++ d))

lemma length_blobOf (d : Bytes) : (blobOf d).length = blobSize := by
  rw [blobOf, length_fieldsOf, length_roundsOf]
  rfl

/-! ## The encoder -/

namespace Encoder

/-- The variables of the encoder when `done` is written and `rest` is to be read. -/
structure Has (data : Bytes) (e : Encoder) (done rest : Bytes) : Prop where
  blob : e.blob.1 = done ++ zeros (blobSize - done.length)
  writeOffset : e.writeOffset = done.length
  rest : data.drop e.readOffset = rest

variable {data done rest : Bytes} {e : Encoder}

lemma Has.exhausted (h : Has data e done rest) (hle : data.length ≤ e.readOffset) :
    rest = [] := by
  rw [← h.rest, drop_eq_nil_of_le hle]

lemma Has.read1 (h : Has data e done rest) : (e.read1 data).1 = rest.headD 0 ∧
    Has data (e.read1 data).2 done (rest.drop 1) ∧ (e.read1 data).2.buf31 = e.buf31 := by
  unfold Encoder.read1
  split
  · rename_i hle
    have hnil := h.exhausted hle
    rw [hnil] at h ⊢
    exact ⟨rfl, h, rfl⟩
  · refine ⟨?_, ⟨h.blob, h.writeOffset, ?_⟩, rfl⟩
    · rw [← h.rest, headD_eq_head?_getD, head?_drop, getD_eq_getElem?_getD]
    · rw [← h.rest, drop_drop]

lemma copyAt_takePad {buf : Bytes} {n : ℕ} (hbuf : buf.length = n) (bs : Bytes) :
    copyAt (copyAt buf 0 bs) (min n bs.length) (zeros n) = takePad n bs := by
  subst hbuf
  rcases le_total bs.length buf.length with hle | hle
  · have hfirst : copyAt buf 0 bs = bs ++ buf.drop bs.length := by
      rw [copyAt, take_zero, nil_append, Nat.sub_zero, take_of_length_le hle, zero_add]
    have hlen : (bs ++ buf.drop bs.length).length = buf.length := by grind
    rw [min_eq_right hle, hfirst, copyAt, hlen, take_left, take_zeros,
      drop_eq_nil_of_le (by rw [length_zeros]; omega), append_nil,
      min_eq_left (Nat.sub_le _ _), takePad_of_ge hle]
  · have hfirst : copyAt buf 0 bs = bs.take buf.length := by
      rw [copyAt, take_zero, nil_append, Nat.sub_zero, zero_add, drop_eq_nil_of_le hle, append_nil]
    have hlen : (bs.take buf.length).length = buf.length := by
      rw [length_take, min_eq_left hle]
    rw [min_eq_left hle, hfirst, copyAt, hlen, Nat.sub_self, take_zero, append_nil,
      take_take, min_self, drop_eq_nil_of_le (by rw [hlen]; omega), append_nil, takePad_of_le hle]

lemma Has.read31 (h : Has data e done rest) :
    Has data (e.read31 data) done (rest.drop 31) ∧ (e.read31 data).buf31 = take31 rest := by
  unfold Encoder.read31
  split
  · rename_i hle
    have hnil := h.exhausted hle
    rw [hnil] at h ⊢
    refine ⟨⟨h.blob, h.writeOffset, h.rest⟩, Subtype.ext ?_⟩
    change copyAt e.buf31.1 0 (zeros 31) = takePad 31 []
    rw [copyAt, e.buf31.2, drop_eq_nil_of_le (by rw [e.buf31.2, length_zeros])]
    rfl
  · have hlen : rest.length = data.length - e.readOffset := by rw [← h.rest, length_drop]
    refine ⟨⟨h.blob, h.writeOffset, ?_⟩, Subtype.ext ?_⟩
    · change data.drop (e.readOffset + min 31 (data.length - e.readOffset)) = _
      rw [← drop_drop, h.rest, ← hlen]
      rcases le_total 31 rest.length with hle | hle
      · rw [min_eq_left hle]
      · simp
    · rw [h.rest, ← hlen]
      exact copyAt_takePad e.buf31.2 rest

variable {v : UInt8} {round : ℕ}

lemma Has.write1 (h : Has data e done rest) (hv : SixBit v) (hdone : done.length % 32 = 0)
    (hroom : done.length < blobSize) :
    ∃ e', e.write1 v = .ok e' ∧ Has data e' (done ++ [v]) rest ∧ e'.buf31 = e.buf31 := by
  have hset : e.blob.1.set e.writeOffset v =
      done ++ [v] ++ zeros (blobSize - (done ++ [v]).length) := by
    have hfree : blobSize - done.length = blobSize - (done ++ [v]).length + 1 := by grind
    rw [h.blob, h.writeOffset, hfree, zeros_succ, set_append_right _ _ (le_refl _), Nat.sub_self,
      set_cons_zero, append_assoc, singleton_append]
  unfold Encoder.write1
  rw [if_neg (by rw [h.writeOffset]; exact fun hne => hne hdone), if_neg (fun hne => hne hv)]
  refine ⟨_, rfl, ⟨hset, ?_, h.rest⟩, rfl⟩
  rw [length_append, length_singleton, ← h.writeOffset]

lemma Has.write31 (h : Has data e done rest) (hdone : done.length % 32 = 1)
    (hroom : done.length + 31 ≤ blobSize) :
    ∃ e', e.write31 = .ok e' ∧ Has data e' (done ++ e.buf31.1) rest := by
  have hcopy : copyAt e.blob.1 e.writeOffset e.buf31.1 =
      done ++ e.buf31.1 ++ zeros (blobSize - (done ++ e.buf31.1).length) := by
    rw [h.blob, h.writeOffset, copyAt_zeros _ (by rw [e.buf31.2]; omega), length_append,
      Nat.sub_sub]
  unfold Encoder.write31
  rw [if_neg (by rw [h.writeOffset]; exact fun hne => hne hdone)]
  refine ⟨_, rfl, hcopy, ?_, h.rest⟩
  rw [length_append, e.buf31.2, ← h.writeOffset]

lemma Has.writeField (h : Has data e done rest) {bs : Bytes} (hbuf : e.buf31 = take31 bs)
    (hv : SixBit v) (hdone : done.length % 32 = 0) (hroom : done.length + 32 ≤ blobSize) :
    ∃ e₁ e₂, e.write1 v = .ok e₁ ∧ e₁.write31 = .ok e₂ ∧
      Has data e₂ (done ++ ([v] ++ (take31 bs).1)) rest := by
  have hlen : (done ++ [v]).length = done.length + 1 := by
    rw [length_append, length_singleton]
  obtain ⟨e₁, hone, h₁, hbuf₁⟩ := h.write1 hv hdone (by omega)
  obtain ⟨e₂, htwo, h₂⟩ := h₁.write31 (by rw [hlen]; omega) (by rw [hlen]; omega)
  rw [hbuf₁, hbuf, append_assoc] at h₂
  exact ⟨e₁, e₂, hone, htwo, h₂⟩

lemma length_field (done : Bytes) (v : UInt8) (bs : Bytes) :
    (done ++ ([v] ++ (take31 bs).1)).length = done.length + 32 := by
  rw [length_append, length_append, length_singleton, (take31 bs).2]

/-- A round, from the point where the buffer holds its first bytes. -/
theorem encodeRound_ok
    (h : Has data (if round = 0 then e.readFirst data else e.read31 data) done (rest.drop 31))
    (hbuf : (if round = 0 then e.readFirst data else e.read31 data).buf31 = take31 rest)
    (hdone : done.length % 32 = 0) (hroom : done.length + 128 ≤ blobSize) :
    ∃ e', encodeRound data round e = .ok e' ∧
      Has data e' (done ++ (Round.ofData rest).fields) (rest.drop 127) := by
  unfold encodeRound
  dsimp only
  generalize (if round = 0 then e.readFirst data else e.read31 data) = e₀ at h hbuf
  obtain ⟨hx, h, hbuf₀⟩ := h.read1
  generalize e₀.read1 data = r₁ at hx h hbuf₀
  obtain ⟨e₁, e₂, hone, htwo, h⟩ := h.writeField (hbuf₀.trans hbuf) (sixBit_sixLow r₁.1) hdone
    (by omega)
  rw [hone, ok_bind, htwo, ok_bind]
  obtain ⟨h, hbuf₂⟩ := h.read31
  obtain ⟨hy, h, hbuf₃⟩ := h.read1
  generalize (e₂.read31 data).read1 data = r₂ at hy h hbuf₃
  obtain ⟨e₃, e₄, hone, htwo, h⟩ := h.writeField (hbuf₃.trans hbuf₂) (sixBit_sixB r₁.1 r₂.1)
    (by rw [length_field]; omega) (by rw [length_field]; omega)
  rw [hone, ok_bind, htwo, ok_bind]
  obtain ⟨h, hbuf₄⟩ := h.read31
  obtain ⟨hz, h, hbuf₅⟩ := h.read1
  generalize (e₄.read31 data).read1 data = r₃ at hz h hbuf₅
  obtain ⟨e₅, e₆, hone, htwo, h⟩ := h.writeField (hbuf₅.trans hbuf₄) (sixBit_sixLow r₃.1)
    (by rw [length_field, length_field]; omega) (by rw [length_field, length_field]; omega)
  rw [hone, ok_bind, htwo, ok_bind]
  obtain ⟨h, hbuf₆⟩ := h.read31
  obtain ⟨e₇, e₈, hone, htwo, h⟩ := h.writeField hbuf₆ (sixBit_sixD r₂.1 r₃.1)
    (by rw [length_field, length_field, length_field]; omega)
    (by rw [length_field, length_field, length_field]; omega)
  rw [hone, ok_bind]
  refine ⟨e₈, htwo, ?_⟩
  simp only [hx, hy, hz, drop_drop, append_assoc] at h
  exact h

lemma encodeRounds_ok {left : ℕ} (h : Has data e done rest) (hround : round ≠ 0)
    (hdone : done.length + 128 * left = blobSize) :
    ∃ e', encodeRounds data left round e = .ok e' ∧
      e'.blob.1 = done ++ fieldsOf (roundsOf left rest) ∧
      data.drop e'.readOffset = rest.drop (127 * left) := by
  induction left generalizing round e done rest with
  | zero =>
    refine ⟨e, rfl, ?_, h.rest⟩
    have hfull : blobSize - done.length = 0 := by omega
    rw [h.blob, hfull]
    rfl
  | succ left ih =>
    rw [encodeRounds]
    split
    · have hsize : blobSize = 131072 := rfl
      have hother : (if round = 0 then e.readFirst data else e.read31 data) = e.read31 data :=
        if_neg hround
      obtain ⟨hread, hbuf⟩ := h.read31
      rw [← hother] at hread hbuf
      obtain ⟨e₁, hone, h₁⟩ := encodeRound_ok hread hbuf (by omega) (by omega)
      obtain ⟨e', hloop, hblob, hrest⟩ := ih h₁ (Nat.succ_ne_zero round)
        (by rw [length_append, Round.length_fields]; omega)
      refine ⟨e', ?_, ?_, ?_⟩
      · rw [hone, ok_bind, hloop]
      · rw [hblob, roundsOf, fieldsOf_cons, append_assoc]
      · rw [hrest, drop_drop, Nat.mul_succ, add_comm]
    · rename_i hread
      have hnil := h.exhausted (le_of_not_gt hread)
      subst hnil
      have hfree : blobSize - done.length = 128 * (left + 1) := by omega
      refine ⟨e, rfl, ?_, ?_⟩
      · rw [h.blob, hfree]
        exact congrArg _ (fieldsOf_roundsOf_zeros (left + 1) 0).symm
      · rw [h.rest, drop_nil]

lemma header_eq (len : ℕ) : header len =
    [encodingVersion, ofNat (len / 2 ^ 16), ofNat (len / 2 ^ 8), ofNat len] := by
  have hmod : ∀ n, ofNat (n % 256) = ofNat n := by
    intro n
    apply UInt8.toNat_inj.mp
    exact Nat.mod_mod n 256
  have hdiv : len / 256 / 256 = len / 2 ^ 16 := Nat.div_div_eq_div_mul ..
  unfold header beBytes
  rw [leBytes, leBytes, leBytes, hmod, hmod, hmod, hdiv]
  rfl

/-- The first round reads the header and the data. -/
theorem has_readFirst (data : Bytes) :
    Has data (new.readFirst data) [] ((header data.length ++ data).drop 31) ∧
      (new.readFirst data).buf31 = take31 (header data.length ++ data) := by
  constructor
  · refine ⟨rfl, rfl, ?_⟩
    have hdrop : (header data.length ++ data).drop (4 + 27) = data.drop 27 := by
      rw [← drop_drop, drop_left' (length_header _)]
    change data.drop (0 + min 27 data.length) = (header data.length ++ data).drop (4 + 27)
    rw [hdrop, zero_add]
    rcases le_total 27 data.length with hle | hle
    · rw [min_eq_left hle]
    · simp
  · apply Subtype.ext
    change copyAt (copyAt (zeros 31) 0 [encodingVersion, ofNat (data.length / 2 ^ 16),
      ofNat (data.length / 2 ^ 8), ofNat data.length]) 4 data =
        takePad (4 + 27) (header data.length ++ data)
    have hfirst : copyAt (zeros 31) 0 (header data.length) = header data.length ++ zeros 27 := by
      have hle : (header data.length).length ≤ 31 := by
        rw [length_header]
        decide
      have hfree := copyAt_zeros [] hle
      rwa [nil_append] at hfree
    have hsecond := copyAt_free (header data.length) data 27
    rw [length_header] at hsecond
    rw [← header_eq, hfirst, hsecond, takePad_add, takePad_append_left (length_header _),
      drop_left' (length_header _)]

end Encoder

lemma fromData_eq {d : Bytes} (h : d.length ≤ maxBlobDataSize) :
    fromData d = .ok ⟨blobOf d, length_blobOf d⟩ := by
  have hmax : maxBlobDataSize = 130044 := rfl
  obtain ⟨e, hloop, hblob, hrest⟩ : ∃ e, encodeRounds d rounds 0 .new = .ok e ∧
      e.blob.1 = blobOf d ∧ d.length ≤ e.readOffset := by
    change ∃ e, encodeRounds d (1023 + 1) 0 .new = .ok e ∧ _
    rw [encodeRounds]
    split
    · obtain ⟨hread, hbuf⟩ := has_readFirst d
      obtain ⟨e₁, hone, h₁⟩ : ∃ e₁, encodeRound d 0 .new = .ok e₁ ∧ _ :=
        encodeRound_ok hread hbuf rfl (by decide)
      have hleft : ([] ++ (Round.ofData (header d.length ++ d)).fields).length + 128 * 1023 =
          blobSize := by
        rw [nil_append, Round.length_fields]
        rfl
      obtain ⟨e, hloop, hblob, hrest⟩ := encodeRounds_ok h₁ one_ne_zero hleft
      have hall : (header d.length ++ d).length ≤ 127 + 127 * 1023 := by
        rw [length_append, length_header]
        omega
      refine ⟨e, ?_, ?_, ?_⟩
      · rwa [hone]
      · rw [hblob, nil_append]
        rfl
      · rw [drop_drop, drop_eq_nil_of_le hall] at hrest
        exact drop_eq_nil_iff.mp hrest
    · rename_i hnot
      have hnil : d = [] := length_eq_zero_iff.mp (Nat.eq_zero_of_not_pos hnot)
      subst hnil
      exact ⟨_, rfl, (fieldsOf_roundsOf_zeros rounds 4).symm, le_refl _⟩
  unfold fromData
  rw [if_neg (not_lt_of_ge h), hloop, ok_bind, if_neg (not_lt_of_ge hrest)]
  exact congrArg _ (Subtype.ext hblob)

end FightNight.Eth
