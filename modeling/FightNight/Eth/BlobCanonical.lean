import FightNight.Eth.BlobFormat

/-!
# Canonical blobs

While `ToData` runs, its output buffer holds the data of the rounds that were decoded, without the
header, and these rounds are those of the blob whose first byte has its two top bits cleared
(`Decoded`).  It succeeds exactly for the blobs that `FromData` produces, up to these two bits
(`toData_eq_ok_iff`), so that a blob with one of them set is decoded although no data are encoded
to it.
-/

namespace FightNight.Eth

open FightNight.Except

namespace Blob

open List Round

/-- The blob with the two top bits of its first byte cleared. -/
def clearTop (b : Blob) : Blob :=
  ⟨b.1.set 0 (sixLow (b.byte 0)), by rw [length_set, b.2]⟩

lemma eq_cons (b : Blob) : b.1 = b.byte 0 :: b.1.drop 1 := by
  obtain ⟨bs, hbs⟩ := b
  cases bs with
  | nil => cases hbs
  | cons v vs => rfl

lemma clearTop_eq (b : Blob) : b.clearTop.1 = sixLow (b.byte 0) :: b.1.drop 1 := by
  change b.1.set 0 _ = _
  rw [b.eq_cons]
  rfl

lemma drop_clearTop (b : Blob) (k : ℕ) : b.clearTop.1.drop (k + 1) = b.1.drop (k + 1) := by
  rw [clearTop_eq, drop_succ_cons, drop_drop, add_comm]

lemma clearTop_of_sixBit {b : Blob} (h : SixBit (b.byte 0)) : b.clearTop = b := by
  apply Subtype.ext
  rw [clearTop_eq, sixBit_iff.mp h, ← b.eq_cons]

lemma byte_eq (b : Blob) (i : ℕ) : b.byte i = (b.1.drop i).headD 0 := by
  rw [byte, headD_eq_head?_getD, head?_drop, getD_eq_getElem?_getD]

lemma slice_eq (b : Blob) {ipos : ℕ} (h : ipos + 32 ≤ blobSize) :
    slice (ipos + 1) (ipos + 32) b.1 = takePad 31 (b.1.drop (ipos + 1)) := by
  have hwidth : ipos + 32 - (ipos + 1) = 31 := by omega
  rw [slice, hwidth, takePad_of_le]
  rw [length_drop]
  omega

/-! ## One round -/

variable {b : Blob}

lemma decodeFieldElement_eq_ok {opos ipos : ℕ} {output : Bytes} {r : UInt8 × ℕ × ℕ × Bytes} :
    b.decodeFieldElement opos ipos output = .ok r ↔ SixBit (b.byte ipos) ∧
      (b.byte ipos, opos + 32, ipos + 32,
        copyAt output opos (slice (ipos + 1) (ipos + 32) b.1)) = r := by
  unfold decodeFieldElement
  split
  · rename_i hne
    exact iff_of_false (by simp) fun h => hne h.1
  · rename_i hnot
    have hsix : SixBit (b.byte ipos) := of_not_not hnot
    simp only [Except.ok.injEq, hsix, true_and]

variable {d done : Bytes} {r : List UInt8 × ℕ × ℕ × Bytes} {base k left n outputLen : ℕ}
  {qs : List Round}

lemma decodeFieldElements_succ {opos : ℕ} (hopos : opos = done.length) {ipos : ℕ}
    (hipos : ipos + 32 ≤ blobSize) (hroom : 31 ≤ n) :
    b.decodeFieldElements (k + 1) opos ipos (done ++ zeros n) = .ok r ↔ SixBit (b.byte ipos) ∧
      ∃ r', b.decodeFieldElements k (opos + 32) (ipos + 32)
        (done ++ (take31 (b.1.drop (ipos + 1))).1 ++ zeros (n - 31)) = .ok r' ∧
          (b.byte ipos :: r'.1, r'.2) = r := by
  have hlen := (take31 (b.1.drop (ipos + 1))).2
  have hfree : copyAt (done ++ zeros n) opos (slice (ipos + 1) (ipos + 32) b.1) =
      done ++ (take31 (b.1.drop (ipos + 1))).1 ++ zeros (n - 31) := by
    rw [b.slice_eq hipos, hopos, show takePad 31 _ = (take31 (b.1.drop (ipos + 1))).1 from rfl,
      copyAt_zeros done (by rw [hlen]; exact hroom), hlen]
  simp only [decodeFieldElements, bind_eq_ok, decodeFieldElement_eq_ok, hfree, Except.ok.injEq]
  constructor
  · rintro ⟨r₁, ⟨hsix, rfl⟩, r₂, hrest, hr⟩
    exact ⟨hsix, r₂, hrest, hr⟩
  · rintro ⟨hsix, r₂, hrest, hr⟩
    exact ⟨_, ⟨hsix, rfl⟩, r₂, hrest, hr⟩

lemma zeros_gap (done : Bytes) (h : 32 ≤ n) :
    done ++ zeros (n - 31) = done ++ [0] ++ zeros (n - 32) := by
  have hgap : n - 31 = n - 32 + 1 := by omega
  rw [hgap, zeros_succ, append_assoc, singleton_append]

/-- The part of a round behind its first string, with bytes between the other ones. -/
def tailWith (r : Round) (x y z : UInt8) : Bytes :=
  [x] ++ (r.f1.1 ++ ([y] ++ (r.f2.1 ++ ([z] ++ r.f3.1))))

lemma decodeTail_eq_ok {opos : ℕ} (hopos : opos = done.length + 1) (hbase : base + 128 ≤ blobSize)
    (hroom : 95 ≤ n) :
    b.decodeFieldElements 3 opos (base + 32) (done ++ [0] ++ zeros n) = .ok r ↔
      SixBitTail (b.1.drop base) ∧
        ([b.byte (base + 32), b.byte (base + 64), b.byte (base + 96)], opos + 96, base + 128,
          done ++ tailWith (ofFields (b.1.drop base)) 0 0 0 ++ zeros (n - 95)) = r := by
  have hlen : ∀ bs, (take31 bs).1.length = 31 := fun bs => (take31 bs).2
  have hone : opos = (done ++ [0]).length := by grind
  rw [decodeFieldElements_succ hone (by omega) (by omega), zeros_gap _ (by omega)]
  have htwo : opos + 32 = (done ++ [0] ++ (take31 (b.1.drop (base + 32 + 1))).1 ++ [0]).length := by
    grind
  simp only [decodeFieldElements_succ htwo (show base + 32 + 32 + 32 ≤ blobSize by omega)
    (show 31 ≤ n - 32 by omega)]
  rw [zeros_gap _ (by omega)]
  have hthree : opos + 32 + 32 = (done ++ [0] ++ (take31 (b.1.drop (base + 32 + 1))).1 ++ [0] ++
      (take31 (b.1.drop (base + 32 + 32 + 1))).1 ++ [0]).length := by grind
  simp only [decodeFieldElements_succ hthree (by omega) (show 31 ≤ n - 32 - 32 by omega)]
  simp only [decodeFieldElements, Except.ok.injEq]
  have htail : SixBitTail (b.1.drop base) ↔ SixBit (b.byte (base + 32)) ∧
      SixBit (b.byte (base + 64)) ∧ SixBit (b.byte (base + 96)) := by
    simp only [SixBitTail, drop_drop, byte_eq]
  have hgaps : done ++ tailWith (ofFields (b.1.drop base)) 0 0 0 = done ++ [0] ++
      (take31 (b.1.drop (base + 32 + 1))).1 ++ [0] ++ (take31 (b.1.drop (base + 32 + 32 + 1))).1 ++
        [0] ++ (take31 (b.1.drop (base + 96 + 1))).1 := by
    simp only [tailWith, ofFields, drop_drop, append_assoc]
  rw [htail, hgaps]
  constructor
  · rintro ⟨h₁, _, ⟨h₂, _, ⟨h₃, _, rfl, rfl⟩, rfl⟩, rfl⟩
    exact ⟨⟨h₁, h₂, h₃⟩, rfl⟩
  · rintro ⟨⟨h₁, h₂, h₃⟩, rfl⟩
    exact ⟨h₁, _, ⟨h₂, _, ⟨h₃, _, rfl, rfl⟩, rfl⟩, rfl⟩

lemma reassembleBytes_tailWith (done : Bytes) (r : Round) (e0 e1 e2 e3 : UInt8) (rest : Bytes) :
    reassembleBytes (done.length + 97) [e0, e1, e2, e3] (done ++ tailWith r 0 0 0 ++ rest) =
      (done.length + 96, done ++ tailWith r (reassembleSix e0 e1) (reassembleFour e1 e3)
        (reassembleSix e2 e3) ++ rest) := by
  unfold reassembleBytes
  simp [tailWith, r.f1.2, r.f2.2]

lemma data_ofFields (b : Blob) (base : ℕ) : (ofFields (b.1.drop base)).data =
    (take31 (b.1.drop (base + 1))).1 ++ tailWith (ofFields (b.1.drop base))
      (reassembleSix (b.byte base) (b.byte (base + 32)))
      (reassembleFour (b.byte (base + 32)) (b.byte (base + 96)))
      (reassembleSix (b.byte (base + 64)) (b.byte (base + 96))) := by
  simp only [data, ofFields, tailWith, byte_eq, drop_drop]

lemma decodeRounds_succ {opos : ℕ} (hopos : opos = done.length) (hbase : base + 128 ≤ blobSize)
    (hroom : 127 ≤ n) {r : ℕ × ℕ × Bytes} (hmore : opos < outputLen) :
    b.decodeRounds outputLen (left + 1) opos base (done ++ zeros n) = .ok r ↔
      (SixBit (b.byte base) ∧ SixBitTail (b.1.drop base)) ∧
        b.decodeRounds outputLen left (opos + 127) (base + 128)
          (done ++ (ofFields (b.1.drop base)).data ++ zeros (n - 127)) = .ok r := by
  have hgap : opos + 32 = (done ++ (take31 (b.1.drop (base + 1))).1).length + 1 := by grind
  have hfree : n - 32 - 95 = n - 127 := by omega
  have hround : (done ++ (take31 (b.1.drop (base + 1))).1).length + 97 = opos + 32 + 96 := by
    omega
  rw [decodeRounds, if_pos hmore]
  simp only [bind_eq_ok, decodeFieldElements_succ hopos (show base + 32 ≤ blobSize by omega)
    (show 31 ≤ n by omega)]
  rw [zeros_gap _ (by omega)]
  simp only [decodeTail_eq_ok hgap hbase (show 95 ≤ n - 32 by omega)]
  have hasm : reassembleBytes (opos + 32 + 96)
      [b.byte base, b.byte (base + 32), b.byte (base + 64), b.byte (base + 96)]
      (done ++ (take31 (b.1.drop (base + 1))).1 ++
        tailWith (ofFields (b.1.drop base)) 0 0 0 ++ zeros (n - 32 - 95)) =
      (opos + 127, done ++ (ofFields (b.1.drop base)).data ++ zeros (n - 127)) := by
    have hpos : (done ++ (take31 (b.1.drop (base + 1))).1).length + 96 = opos + 127 := by omega
    rw [← hround, reassembleBytes_tailWith, hpos, data_ofFields, ← append_assoc done, hfree]
  constructor
  · rintro ⟨_, ⟨hhead, _, ⟨htail, rfl⟩, rfl⟩, hrest⟩
    simp only [hasm] at hrest
    exact ⟨⟨hhead, htail⟩, hrest⟩
  · rintro ⟨⟨hhead, htail⟩, hrest⟩
    refine ⟨_, ⟨hhead, _, ⟨htail, rfl⟩, rfl⟩, ?_⟩
    simp only [hasm]
    exact hrest

/-- The first round, whose first byte is not checked. -/
theorem decodeOutput_eq_ok {r : ℕ × ℕ × Bytes} :
    b.decodeOutput = .ok r ↔ SixBitTail b.1 ∧
      b.decodeRounds b.outputLen (rounds - 1) 123 128
        ((ofFields b.1).data.drop 4 ++ zeros (maxBlobDataSize - 123)) = .ok r := by
  have hsize : blobSize = 131072 := rfl
  have hmax : maxBlobDataSize = 130044 := rfl
  have hdone : (slice 5 32 b.1).length = 27 := length_slice (by rw [b.2]; decide)
  have hfirst : copyAt (zeros maxBlobDataSize) 0 (slice 5 32 b.1) =
      slice 5 32 b.1 ++ [0] ++ zeros (maxBlobDataSize - 28) := by
    have hle : (slice 5 32 b.1).length ≤ maxBlobDataSize := by omega
    have hfree := copyAt_zeros [] hle
    have hgap : maxBlobDataSize - 27 = maxBlobDataSize - 28 + 1 := by omega
    rw [hdone, hgap] at hfree
    rw [append_assoc]
    exact hfree
  have htail : ∀ r, b.decodeFieldElements 3 28 32
      (slice 5 32 b.1 ++ [0] ++ zeros (maxBlobDataSize - 28)) = .ok r ↔
        SixBitTail b.1 ∧ ([b.byte 32, b.byte 64, b.byte 96], 124, 128,
          slice 5 32 b.1 ++ tailWith (ofFields b.1) 0 0 0 ++ zeros (maxBlobDataSize - 123)) =
            r := by
    intro r
    have hpos : 28 = (slice 5 32 b.1).length + 1 := by rw [hdone]
    have hbase : 0 + 128 ≤ blobSize := by omega
    exact decodeTail_eq_ok hpos hbase (by omega)
  have hasm : reassembleBytes 124 [b.byte 0, b.byte 32, b.byte 64, b.byte 96]
      (slice 5 32 b.1 ++ tailWith (ofFields b.1) 0 0 0 ++ zeros (maxBlobDataSize - 123)) =
        (123, (ofFields b.1).data.drop 4 ++ zeros (maxBlobDataSize - 123)) := by
    have hstart : (take31 (b.1.drop 1)).1.drop 4 = slice 5 32 b.1 := by
      change (takePad 31 (b.1.drop 1)).drop 4 = _
      rw [takePad_of_le (by rw [length_drop, b.2]; decide), drop_take, drop_drop, slice]
    have hdata := data_ofFields b 0
    have hround := reassembleBytes_tailWith (slice 5 32 b.1) (ofFields b.1) (b.byte 0)
      (b.byte 32) (b.byte 64) (b.byte 96) (zeros (maxBlobDataSize - 123))
    rw [hdone] at hround
    rw [hround]
    change (ofFields b.1).data = (take31 (b.1.drop 1)).1 ++ _ at hdata
    rw [hdata, drop_append_of_le_length (by rw [(take31 _).2]; decide), hstart]
    rfl
  unfold decodeOutput
  rw [hfirst, bind_eq_ok]
  simp only [htail]
  constructor
  · rintro ⟨_, ⟨hsix, rfl⟩, hrest⟩
    simp only [hasm] at hrest
    exact ⟨hsix, hrest⟩
  · rintro ⟨hsix, hrest⟩
    refine ⟨_, ⟨hsix, rfl⟩, ?_⟩
    simp only [hasm]
    exact hrest

/-! ## All rounds -/

/-- The variables of the decoder after some rounds. -/
structure Decoded (b : Blob) (rs : List Round) (opos ipos : ℕ) (output : Bytes) : Prop where
  pos : 0 < rs.length
  opos_eq : opos + 4 = 127 * rs.length
  ipos_eq : ipos = 128 * rs.length
  fields : b.clearTop.1.take (128 * rs.length) = fieldsOf rs
  output_eq : output = (dataOf rs).drop 4 ++ zeros (maxBlobDataSize - opos)

lemma decoded_first (h : SixBitTail b.1) : Decoded b [ofFields b.1] 123 128
    ((ofFields b.1).data.drop 4 ++ zeros (maxBlobDataSize - 123)) := by
  refine ⟨one_pos, rfl, rfl, ?_, ?_⟩
  · have hcons := b.eq_cons
    have hflds : ofFields b.1 = ofFields b.clearTop.1 := by
      rw [clearTop_eq, ofFields_sixLow, ← hcons]
    have htail : SixBitTail b.clearTop.1 := by
      simp only [SixBitTail, drop_clearTop]
      exact h
    have hhead : SixBit (b.clearTop.1.headD 0) := by
      rw [clearTop_eq]
      exact sixBit_sixLow _
    rw [hflds, fieldsOf_cons,
      fields_ofFields_of_sixBit hhead htail, takePad_of_le (by rw [b.clearTop.2]; decide)]
    exact (append_nil _).symm
  · exact congrArg (fun bs => bs.drop 4 ++ _) (append_nil _).symm

variable {rs : List Round} {opos ipos : ℕ} {output : Bytes}

section

variable (h : Decoded b rs opos ipos output)
include h

lemma Decoded.drop_eq :
    b.clearTop.1.drop ipos = b.1.drop ipos := by
  have hpos := h.pos
  have hipos := h.ipos_eq
  obtain ⟨k, hk⟩ : ∃ k, ipos = k + 1 := ⟨ipos - 1, by omega⟩
  rw [hk, drop_clearTop]

lemma Decoded.next (hmore : rs.length < rounds)
    (hhead : SixBit (b.byte ipos)) (htail : SixBitTail (b.1.drop ipos)) :
    Decoded b (rs ++ [ofFields (b.1.drop ipos)]) (opos + 127) (ipos + 128)
      ((dataOf rs).drop 4 ++ (ofFields (b.1.drop ipos)).data ++
        zeros (maxBlobDataSize - opos - 127)) := by
  have hopos := h.opos_eq
  have hipos := h.ipos_eq
  have hsize : blobSize = 128 * rounds := rfl
  have hlen : (rs ++ [ofFields (b.1.drop ipos)]).length = rs.length + 1 := by
    rw [length_append, length_singleton]
  have hround : (b.1.drop ipos).take 128 = (ofFields (b.1.drop ipos)).fields := by
    rw [byte_eq] at hhead
    rw [fields_ofFields_of_sixBit hhead htail, takePad_of_le]
    rw [length_drop]
    omega
  refine ⟨?_, ?_, ?_, ?_, ?_⟩
  · rw [hlen]
    exact Nat.succ_pos _
  · omega
  · omega
  · rw [hlen, Nat.mul_succ, take_add, h.fields, ← hipos, h.drop_eq, hround, fieldsOf_append]
    exact congrArg _ (append_nil _).symm
  · have hdrop : (dataOf (rs ++ [ofFields (b.1.drop ipos)])).drop 4 =
        (dataOf rs).drop 4 ++ (ofFields (b.1.drop ipos)).data := by
      rw [dataOf_append, drop_append_of_le_length (by rw [length_dataOf]; omega)]
      exact congrArg _ (append_nil _)
    rw [hdrop, Nat.sub_sub]

lemma Decoded.decodeRounds_iff (hmore : rs.length < rounds)
    (hout : opos < outputLen) {r : ℕ × ℕ × Bytes} :
    b.decodeRounds outputLen (left + 1) opos ipos output = .ok r ↔
      (SixBit (b.byte ipos) ∧ SixBitTail (b.1.drop ipos)) ∧
        b.decodeRounds outputLen left (opos + 127) (ipos + 128)
          ((dataOf rs).drop 4 ++ (ofFields (b.1.drop ipos)).data ++
            zeros (maxBlobDataSize - opos - 127)) = .ok r := by
  have hopos := h.opos_eq
  have hipos := h.ipos_eq
  have hsize : blobSize = 128 * rounds := rfl
  have hmax : maxBlobDataSize + 4 = 127 * rounds := rfl
  have hlen : opos = ((dataOf rs).drop 4).length := by
    rw [length_drop, length_dataOf]
    omega
  rw [h.output_eq]
  exact decodeRounds_succ hlen (by omega) (by omega) hout

lemma Decoded.decodeRounds_ok
    (hleft : rs.length + left = rounds) {opos' ipos' : ℕ} {output' : Bytes}
    (hloop : b.decodeRounds outputLen left opos ipos output = .ok (opos', ipos', output')) :
    ∃ rs', Decoded b rs' opos' ipos' output' ∧ rs'.length ≤ rounds ∧
      (outputLen ≤ opos' ∨ rs'.length = rounds) := by
  induction left generalizing rs opos ipos output with
  | zero =>
    cases hloop
    exact ⟨rs, h, le_of_eq hleft, Or.inr hleft⟩
  | succ left ih =>
    by_cases hout : opos < outputLen
    · obtain ⟨⟨hhead, htail⟩, hrest⟩ := (h.decodeRounds_iff (by omega) hout).mp hloop
      refine ih (h.next (by omega) hhead htail) ?_ hrest
      rw [length_append, length_singleton]
      omega
    · rw [decodeRounds, if_neg hout] at hloop
      cases hloop
      exact ⟨rs, h, by omega, Or.inl (le_of_not_gt hout)⟩

end

lemma sixBit_of_fieldsOf {fs : Bytes} (hk : k < qs.length)
    (hfs : fs = (fieldsOf qs).drop (128 * k)) : SixBit (fs.headD 0) ∧ SixBitTail fs := by
  obtain ⟨q, rest, hrest⟩ : ∃ q rest, qs.drop k = q :: rest :=
    ⟨qs[k], qs.drop (k + 1), drop_eq_getElem_cons hk⟩
  rw [(fieldsOf_split (le_of_lt hk)).2, hrest] at hfs
  rw [hfs]
  exact q.sixBit_fields (fieldsOf rest)

lemma Decoded.decodeRounds_total (h : Decoded b rs opos ipos output)
    (hleft : rs.length + left = rounds) (hqs : qs.length = rounds)
    (hblob : b.clearTop.1 = fieldsOf qs) :
    ∃ r, b.decodeRounds outputLen left opos ipos output = .ok r := by
  induction left generalizing rs opos ipos output with
  | zero => exact ⟨_, rfl⟩
  | succ left ih =>
    by_cases hout : opos < outputLen
    · have hdrop : b.1.drop ipos = (fieldsOf qs).drop (128 * rs.length) := by
        rw [← h.drop_eq, hblob, h.ipos_eq]
      obtain ⟨hhead, htail⟩ := sixBit_of_fieldsOf (by omega) hdrop
      rw [← byte_eq] at hhead
      obtain ⟨r, hr⟩ := ih (h.next (by omega) hhead htail)
        (by rw [length_append, length_singleton]; omega)
      exact ⟨r, (h.decodeRounds_iff (by omega) hout).mpr ⟨⟨hhead, htail⟩, hr⟩⟩
    · rw [decodeRounds, if_neg hout]
      exact ⟨_, rfl⟩

/-! ## Success -/

lemma toData_ok : b.toData = .ok d ↔ b.byte versionOffset = encodingVersion ∧
    b.outputLen ≤ maxBlobDataSize ∧ ∃ opos ipos output, b.decodeOutput = .ok (opos, ipos, output) ∧
      (∀ v ∈ output.drop b.outputLen, v = 0) ∧ (∀ v ∈ b.1.drop ipos, v = 0) ∧
      output.take b.outputLen = d := by
  unfold toData
  split
  · rename_i hver
    exact iff_of_false (by simp) fun h => hver h.1
  · rename_i hver
    split
    · rename_i hlen
      exact iff_of_false (by simp) fun h => not_lt_of_ge h.2.1 hlen
    · rename_i hlen
      rw [bind_eq_ok, and_iff_right (of_not_not hver), and_iff_right (le_of_not_gt hlen)]
      simp only [Prod.exists]
      refine exists_congr fun opos => exists_congr fun ipos => exists_congr fun output =>
        and_congr_right fun _ => ?_
      have hany : (output.drop b.outputLen).any (· ≠ 0) = true ↔
          ¬∀ v ∈ output.drop b.outputLen, v = 0 := by
        simp
      have hidx : (b.1.drop ipos).findIdx? (· ≠ 0) = none ↔ ∀ v ∈ b.1.drop ipos, v = 0 := by
        simp
      split
      · rename_i hbad
        exact iff_of_false (by simp) fun h => hany.mp hbad h.1
      · rename_i hgood
        have hzero := of_not_not fun h => hgood (hany.mpr h)
        split
        · rename_i i hi
          refine iff_of_false (by simp) fun h => ?_
          rw [hidx.mpr h.2.1] at hi
          cases hi
        · rename_i hnone
          rw [Except.ok.injEq]
          exact ⟨fun h => ⟨hzero, hidx.mp hnone, h⟩, fun h => h.2.2⟩

lemma header_bytes (b : Blob) :
    (b.1.drop 1).take 4 = [b.byte 1, b.byte 2, b.byte 3, b.byte 4] := by
  have hsplit : takePad (1 + (1 + (1 + 1))) (b.1.drop 1) =
      [b.byte 1, b.byte 2, b.byte 3, b.byte 4] := by
    simp only [takePad_add, takePad_one, drop_drop, byte_eq, singleton_append]
  rw [← hsplit, takePad_of_le (by rw [length_drop, b.2]; decide)]

lemma header_eq (h : b.byte versionOffset = encodingVersion) :
    header b.outputLen = (b.1.drop 1).take 4 := by
  have hlen : beBytes 3 b.outputLen = [b.byte 2, b.byte 3, b.byte 4] :=
    beBytes_beNat [b.byte 2, b.byte 3, b.byte 4]
  rw [header, hlen, header_bytes, ← h]
  rfl

lemma take_dataOf {rs : List Round} (h : 0 < rs.length) :
    (dataOf rs).take 4 = ((fieldsOf rs).drop 1).take 4 := by
  cases rs with
  | nil => cases h
  | cons r rs =>
    have hle : 4 ≤ r.f0.1.length := by
      rw [r.f0.2]
      decide
    simp only [dataOf_cons, fieldsOf_cons, data, fields, append_assoc]
    rw [drop_left' length_singleton, take_append_of_le_length hle, take_append_of_le_length hle]

lemma Decoded.take_four (h : Decoded b rs opos ipos output) :
    (dataOf rs).take 4 = (b.1.drop 1).take 4 := by
  have hpos := h.pos
  rw [take_dataOf hpos, ← h.fields, drop_take, take_take, drop_clearTop, min_eq_left (by omega)]

/-- A blob that is decoded is that of the data, up to two bits. -/
theorem canonical_of_toData (h : b.toData = .ok d) :
    d.length ≤ maxBlobDataSize ∧ b.clearTop.1 = blobOf d := by
  obtain ⟨hver, hlen, opos, ipos, output, hout, hextra, hrest, rfl⟩ := toData_ok.mp h
  obtain ⟨htail, hloop⟩ := decodeOutput_eq_ok.mp hout
  obtain ⟨rs, hrs, hrnd, hend⟩ := (decoded_first htail).decodeRounds_ok rfl hloop
  have hopos := hrs.opos_eq
  have hmax : maxBlobDataSize + 4 = 127 * rounds := rfl
  have houtlen : output.length = maxBlobDataSize := by
    rw [hrs.output_eq, length_append, length_drop, length_dataOf, length_zeros]
    omega
  have hdlen : (output.take b.outputLen).length = b.outputLen := by grind
  -- The rounds that were decoded, and rounds of zeros, are those of the header and the data.
  have hdata : dataOf (rs ++ roundsOf (rounds - rs.length) []) =
      takePad (127 * rounds) (header b.outputLen ++ output.take b.outputLen) := by
    have hsplit : dataOf rs = header b.outputLen ++ (dataOf rs).drop 4 := by
      rw [header_eq hver, ← hrs.take_four, take_append_drop]
    have hfree : 127 * (rounds - rs.length) = maxBlobDataSize - opos := by omega
    have hzero : output.drop b.outputLen = zeros (maxBlobDataSize - b.outputLen) :=
      (eq_zeros_iff (by rw [length_drop, houtlen])).mpr hextra
    have hpad : 127 * rounds - (4 + b.outputLen) = maxBlobDataSize - b.outputLen := by omega
    rw [dataOf_append, dataOf_roundsOf, takePad_nil, hsplit, append_assoc, hfree, ← hrs.output_eq,
      takePad_of_ge (by rw [length_append, length_header]; omega), length_append,
      length_header, hdlen, hpad, ← hzero, append_assoc, take_append_drop]
  have hall := eq_roundsOf (by rw [length_append, length_roundsOf]; omega) hdata
  have hzero : b.clearTop.1.drop (128 * rs.length) =
      fieldsOf (roundsOf (rounds - rs.length) []) := by
    have hsize : blobSize = 128 * rounds := rfl
    have hfree : blobSize - ipos = 128 * (rounds - rs.length) := by
      rw [hrs.ipos_eq]
      omega
    rw [← hrs.ipos_eq, hrs.drop_eq, (eq_zeros_iff (by rw [length_drop, b.2])).mpr hrest, hfree]
    exact (fieldsOf_roundsOf_zeros _ 0).symm
  refine ⟨by rw [hdlen]; exact hlen, ?_⟩
  rw [blobOf, hdlen, ← hall, fieldsOf_append, ← hrs.fields, ← hzero, take_append_drop]

/-- The blob of some data is decoded to them, whatever the two bits are. -/
theorem toData_of_canonical (hlen : d.length ≤ maxBlobDataSize) (h : b.clearTop.1 = blobOf d) :
    b.toData = .ok d := by
  have hmax : maxBlobDataSize + 4 = 127 * rounds := rfl
  have hqs : (roundsOf rounds (header d.length ++ d)).length = rounds := length_roundsOf _ _
  have hdata := dataOf_roundsOf rounds (header d.length ++ d)
  have hfull : (header d.length ++ d).length ≤ 127 * rounds := by
    rw [length_append, length_header]
    omega
  rw [takePad_of_ge hfull] at hdata
  rw [blobOf] at h
  -- The version and the length are those of the data.
  have hheader : (b.1.drop 1).take 4 = header d.length := by
    rw [← drop_clearTop, h, ← take_dataOf (by rw [hqs]; decide), hdata, append_assoc,
      take_left' (length_header _)]
  rw [header_bytes] at hheader
  obtain ⟨hver, hbytes⟩ := cons_eq_cons.mp hheader
  have hlength : b.outputLen = d.length := by
    rw [outputLen, hbytes]
    exact beNat_beBytes_of_lt (lt_of_le_of_lt hlen (by decide))
  -- All rounds are decoded.
  have htail : SixBitTail b.1 := by
    have hpos : 0 < (roundsOf rounds (header d.length ++ d)).length := by
      rw [hqs]
      decide
    have hclear := (sixBit_of_fieldsOf hpos (h.trans drop_zero.symm)).2
    simp only [SixBitTail, drop_clearTop] at hclear
    exact hclear
  have hfirst := decoded_first htail
  have hleft : [ofFields b.1].length + (rounds - 1) = rounds := rfl
  obtain ⟨⟨opos, ipos, output⟩, hloop⟩ : ∃ r, b.decodeRounds b.outputLen (rounds - 1) 123 128
      ((ofFields b.1).data.drop 4 ++ zeros (maxBlobDataSize - 123)) = .ok r :=
    hfirst.decodeRounds_total hleft hqs h
  have hout := decodeOutput_eq_ok.mpr ⟨htail, hloop⟩
  obtain ⟨rs, hrs, hrnd, hend⟩ := hfirst.decodeRounds_ok hleft hloop
  have hopos := hrs.opos_eq
  obtain ⟨m, hm⟩ : ∃ m, rounds = rs.length + m := ⟨rounds - rs.length, by omega⟩
  have hcover : 4 + d.length ≤ 127 * rs.length := by
    rcases hend with hend | hend
    · omega
    · omega
  have hpref : rs = (roundsOf rounds (header d.length ++ d)).take rs.length := by
    apply fieldsOf_injective
    · grind
    · rw [← hrs.fields, h, (fieldsOf_split (by rw [hqs]; exact hrnd)).1]
  have hrounded : dataOf rs = header d.length ++ d ++ zeros (127 * rs.length - (4 + d.length)) := by
    calc dataOf rs = dataOf ((roundsOf rounds (header d.length ++ d)).take rs.length) :=
          congrArg dataOf hpref
      _ = (header d.length ++ d).take (127 * rs.length) ++
          zeros (127 * rs.length - (4 + d.length)) := by
          rw [dataOf_take (by rw [hqs]; exact hrnd), hdata, take_append, take_zeros,
            length_append, length_header]
          congr 2
          omega
      _ = header d.length ++ d ++ zeros (127 * rs.length - (4 + d.length)) := by
          rw [take_of_length_le (by rw [length_append]; exact hcover)]
  have hdone : output = d ++ zeros (maxBlobDataSize - d.length) := by
    have hfree : 127 * rs.length - (4 + d.length) + (maxBlobDataSize - opos) =
        maxBlobDataSize - d.length := by
      omega
    rw [hrs.output_eq, hrounded, append_assoc,
      drop_left' (length_header _), append_assoc, ← zeros_add, hfree]
  have hrest : b.1.drop ipos = zeros (128 * m) := by
    rw [← hrs.drop_eq, hrs.ipos_eq, h, (fieldsOf_split (by rw [hqs]; exact hrnd)).2, hm,
      drop_roundsOf, drop_eq_nil_of_le (by rw [length_append, length_header]; omega)]
    exact fieldsOf_roundsOf_zeros m 0
  refine toData_ok.mpr ⟨hver, by rw [hlength]; exact hlen, opos, ipos, output, hout, ?_, ?_, ?_⟩
  · intro v hv
    rw [hdone, hlength, drop_left] at hv
    exact eq_of_mem_replicate hv
  · intro v hv
    rw [hrest] at hv
    exact eq_of_mem_replicate hv
  · rw [hdone, hlength, take_left]

end Blob

/-! ## Both directions -/

variable {d : Bytes} {b : Blob}

lemma length_le_of_fromData (h : fromData d = .ok b) : d.length ≤ maxBlobDataSize := by
  by_contra hlong
  rw [fromData, if_pos (lt_of_not_ge hlong)] at h
  cases h

lemma toData_eq_ok_iff (b : Blob) (d : Bytes) :
    b.toData = .ok d ↔ fromData d = .ok b.clearTop := by
  constructor
  · intro h
    obtain ⟨hlen, hblob⟩ := Blob.canonical_of_toData h
    rw [fromData_eq hlen]
    exact congrArg _ (Subtype.ext hblob.symm)
  · intro h
    have hlen := length_le_of_fromData h
    rw [fromData_eq hlen] at h
    exact Blob.toData_of_canonical hlen (congrArg Subtype.val (Except.ok.inj h)).symm

lemma sixBit_fromData (h : fromData d = .ok b) (i : ℕ) : SixBit (b.byte (32 * i)) := by
  have hblob : b.1 = fieldsOf (roundsOf rounds (header d.length ++ d)) := by
    rw [fromData_eq (length_le_of_fromData h)] at h
    exact (congrArg Subtype.val (Except.ok.inj h)).symm
  have hsize : blobSize = 128 * rounds := rfl
  by_cases hi : i / 4 < rounds
  · obtain ⟨h0, h1, h2, h3⟩ := Blob.sixBit_of_fieldsOf (by rw [length_roundsOf]; exact hi)
      (congrArg (List.drop (128 * (i / 4))) hblob)
    have hi : 32 * i = 128 * (i / 4) + 32 * (i % 4) := by omega
    have hlt : i % 4 < 4 := Nat.mod_lt i (by decide)
    rw [Blob.byte_eq, hi, ← List.drop_drop]
    interval_cases i % 4
    · exact h0
    · exact h1
    · exact h2
    · exact h3
  · rw [Blob.byte_eq, List.drop_eq_nil_of_le (by rw [b.2]; omega)]
    rfl

lemma clearTop_of_fromData (h : fromData d = .ok b) : b.clearTop = b :=
  Blob.clearTop_of_sixBit (sixBit_fromData h 0)

/-- Blobs are canonical: decoding a blob returns exactly the data that it is the encoding of, if and
only if the two top bits of its first byte are clear or clearing them gives no encoding either.
Encoded data are always decoded, and a top bit in another field element is always rejected. -/
theorem blob_canonical (b : Blob) :
    ((∀ d, d.length ≤ maxBlobDataSize → (b.toData = .ok d ↔ fromData d = .ok b)) ↔
      SixBit (b.byte 0) ∨ ∀ d, d.length ≤ maxBlobDataSize → fromData d ≠ .ok b.clearTop) ∧
    (∀ d, fromData d = .ok b → b.toData = .ok d) ∧
    ∀ i, 0 < i → ¬SixBit (b.byte (32 * i)) → ∀ d, b.toData ≠ .ok d := by
  refine ⟨⟨?_, ?_⟩, ?_, ?_⟩
  · intro hcan
    by_contra hnot
    simp only [not_or, not_forall, not_not] at hnot
    obtain ⟨hsix, d, hlen, hclear⟩ := hnot
    have henc := (hcan d hlen).mp ((toData_eq_ok_iff b d).mpr hclear)
    exact hsix (sixBit_fromData henc 0)
  · rintro (hsix | hnone) d hlen
    · rw [toData_eq_ok_iff, Blob.clearTop_of_sixBit hsix]
    · rw [toData_eq_ok_iff]
      refine iff_of_false (hnone d hlen) fun henc => hnone d hlen ?_
      rwa [clearTop_of_fromData henc]
  · intro d henc
    rwa [toData_eq_ok_iff, clearTop_of_fromData henc]
  · intro i hi hsix d hdata
    have hclear := sixBit_fromData ((toData_eq_ok_iff b d).mp hdata) i
    obtain ⟨k, hk⟩ : ∃ k, 32 * i = k + 1 := ⟨32 * i - 1, by omega⟩
    rw [Blob.byte_eq, hk, Blob.drop_clearTop, ← hk, ← Blob.byte_eq] at hclear
    exact hsix hclear

/-- A blob of zeros, apart from a top bit of its first byte. -/
def topBitBlob : Blob := ⟨0b01000000 :: zeros (blobSize - 1), by
  rw [List.length_cons, length_zeros]
  rfl⟩

/-- It is decoded to no data, although no data are encoded to a blob of zeros. -/
theorem top_bit_accepted : topBitBlob.toData = .ok [] ∧ fromData [] ≠ .ok topBitBlob := by
  have hclear : topBitBlob.clearTop.1 = blobOf [] := by
    change zeros (blobSize - 1 + 1) = fieldsOf (roundsOf rounds (zeros 4))
    rw [fieldsOf_roundsOf_zeros]
    rfl
  refine ⟨Blob.toData_of_canonical (Nat.zero_le _) hclear, ?_⟩
  intro henc
  exact absurd (sixBit_fromData henc 0) (by decide)

end FightNight.Eth
