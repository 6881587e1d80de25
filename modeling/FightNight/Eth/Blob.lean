import FightNight.Library.Buffer
import FightNight.Library.Checked

/-!
# The blob codec

`FromData` and `ToData` of `op-service/eth/blob.go`.  A blob consists of 4096 field elements of 32
bytes.  A round of the encoder reads 127 bytes and writes four field elements: 31 bytes go into
each, and the bits of the three other bytes into their first bytes, of which the two top bits stay
clear.  The first round begins with a version and the length of the data.

The encoder is the state that its closures share: the blob, the two offsets and the buffer of 31
bytes.  Its panics are errors like the others.
-/

namespace FightNight.Eth

def blobSize : ℕ := 4096 * 32

def maxBlobDataSize : ℕ := (4 * 31 + 3) * 1024 - 4

def encodingVersion : UInt8 := 0

def versionOffset : ℕ := 1

def rounds : ℕ := 1024

abbrev Blob := FixedBytes blobSize

/-- The errors of the codec, with what their texts mention, and the panics of the encoder. -/
inductive BlobError where
  /-- `ErrBlobInvalidFieldElement`, with its offset. -/
  | invalidFieldElement (ipos : ℕ)
  /-- `ErrBlobInvalidEncodingVersion`, with the version that was found. -/
  | invalidEncodingVersion (got : UInt8)
  /-- `ErrBlobInvalidLength`, with the length that was found. -/
  | invalidLength (got : ℕ)
  /-- `ErrBlobInputTooLarge`, with the data. -/
  | inputTooLarge (data : Bytes)
  /-- `ErrBlobExtraneousData`, with its offset. -/
  | extraneousData (ipos : ℕ)
  /-- `ErrBlobExtraneousDataFieldElement`, with the number of the field element. -/
  | extraneousDataFieldElement (fe : ℕ)
  /-- `blob encoding: invalid byte write offset`. -/
  | byteWriteOffset (writeOffset : ℕ)
  /-- `blob encoding: invalid 6 bit value`. -/
  | sixBitValue (v : UInt8)
  /-- `blob encoding: invalid bytes31 write offset`. -/
  | bytes31WriteOffset (writeOffset : ℕ)
  /-- `expected to fit data but failed`. -/
  | expectedToFit (readOffset data : ℕ)
  deriving DecidableEq

/-! ## Encoding -/

/-- The variables of `FromData`. -/
structure Encoder where
  blob : Blob
  readOffset : ℕ
  writeOffset : ℕ
  buf31 : FixedBytes 31

/-- The values `A` and `C` of `FromData`: the low six bits of a byte. -/
def sixLow (x : UInt8) : UInt8 := x &&& (0b00111111 : UInt8)

/-- The value `B` of `FromData`. -/
def sixB (x y : UInt8) : UInt8 :=
  (y &&& (0b00001111 : UInt8)) ||| ((x &&& (0b11000000 : UInt8)) >>> (2 : UInt8))

/-- The value `D` of `FromData`. -/
def sixD (y z : UInt8) : UInt8 :=
  ((z &&& (0b11000000 : UInt8)) >>> (2 : UInt8)) |||
    ((y &&& (0b11110000 : UInt8)) >>> (4 : UInt8))

namespace Encoder

variable (data : Bytes)

def read1 (e : Encoder) : UInt8 × Encoder :=
  if data.length ≤ e.readOffset then (0, e)
  else (data.getD e.readOffset 0, { e with readOffset := e.readOffset + 1 })

/-- `copy` into the buffer of 31 bytes. -/
def copyBuf31 (offset : ℕ) (src : Bytes) (e : Encoder) : Encoder :=
  { e with buf31 := ⟨copyAt e.buf31.1 offset src, by rw [length_copyAt, e.buf31.2]⟩ }

def read31 (e : Encoder) : Encoder :=
  if data.length ≤ e.readOffset then e.copyBuf31 0 (zeros 31)
  else
    let n := min 31 (data.length - e.readOffset)
    let e := (e.copyBuf31 0 (data.drop e.readOffset)).copyBuf31 n (zeros 31)
    { e with readOffset := e.readOffset + n }

/-- What round 0 does in place of `read31`: the version, the length in three bytes, and data. -/
def readFirst (e : Encoder) : Encoder :=
  let ilen := data.length
  let e := e.copyBuf31 0
    [encodingVersion, UInt8.ofNat (ilen / 2 ^ 16), UInt8.ofNat (ilen / 2 ^ 8), UInt8.ofNat ilen]
  let e := e.copyBuf31 4 data
  { e with readOffset := e.readOffset + min 27 data.length }

def write1 (v : UInt8) (e : Encoder) : Except BlobError Encoder :=
  if e.writeOffset % 32 ≠ 0 then .error (.byteWriteOffset e.writeOffset)
  else if v &&& 0b11000000 ≠ 0 then .error (.sixBitValue v)
  else .ok { e with
    blob := ⟨e.blob.1.set e.writeOffset v, by rw [List.length_set, e.blob.2]⟩
    writeOffset := e.writeOffset + 1 }

def write31 (e : Encoder) : Except BlobError Encoder :=
  if e.writeOffset % 32 ≠ 1 then .error (.bytes31WriteOffset e.writeOffset)
  else .ok { e with
    blob := ⟨copyAt e.blob.1 e.writeOffset e.buf31.1, by rw [length_copyAt, e.blob.2]⟩
    writeOffset := e.writeOffset + 31 }

/-- The body of the loop. -/
def encodeRound (round : ℕ) (e : Encoder) : Except BlobError Encoder := do
  let e := if round = 0 then e.readFirst data else e.read31 data
  let (x, e) := e.read1 data
  let e ← e.write1 (sixLow x)
  let e ← e.write31
  let e := e.read31 data
  let (y, e) := e.read1 data
  let e ← e.write1 (sixB x y)
  let e ← e.write31
  let e := e.read31 data
  let (z, e) := e.read1 data
  let e ← e.write1 (sixLow z)
  let e ← e.write31
  let e := e.read31 data
  let e ← e.write1 (sixD y z)
  e.write31

/-- The loop, with the number of rounds that are left. -/
def encodeRounds : ℕ → ℕ → Encoder → Except BlobError Encoder
  | 0, _, e => .ok e
  | left + 1, round, e =>
    if e.readOffset < data.length then do
      let e ← encodeRound data round e
      encodeRounds left (round + 1) e
    else .ok e

/-- The variables at the start: the blob is cleared. -/
def new : Encoder := ⟨⟨zeros blobSize, length_zeros _⟩, 0, 0, ⟨zeros 31, length_zeros _⟩⟩

end Encoder

/-- `FromData`: the blob after it, whatever it was before. -/
def fromData (data : Bytes) : Except BlobError Blob :=
  if maxBlobDataSize < data.length then .error (.inputTooLarge data)
  else do
    let e ← Encoder.encodeRounds data rounds 0 .new
    if e.readOffset < data.length then .error (.expectedToFit e.readOffset data.length)
    else .ok e.blob

/-! ## Decoding -/

namespace Blob

def byte (b : Blob) (i : ℕ) : UInt8 := b.1.getD i 0

def decodeFieldElement (b : Blob) (opos ipos : ℕ) (output : Bytes) :
    Except BlobError (UInt8 × ℕ × ℕ × Bytes) :=
  if b.byte ipos &&& 0b11000000 ≠ 0 then .error (.invalidFieldElement ipos)
  else
    let output := copyAt output opos (slice (ipos + 1) (ipos + 32) b.1)
    .ok (b.byte ipos, opos + 32, ipos + 32, output)

/-- The loops over the field elements of a round, with the first bytes that they save. -/
def decodeFieldElements (b : Blob) : ℕ → ℕ → ℕ → Bytes →
    Except BlobError (List UInt8 × ℕ × ℕ × Bytes)
  | 0, opos, ipos, output => .ok ([], opos, ipos, output)
  | n + 1, opos, ipos, output => do
    let (v, opos, ipos, output) ← b.decodeFieldElement opos ipos output
    let (vs, opos, ipos, output) ← b.decodeFieldElements n opos ipos output
    .ok (v :: vs, opos, ipos, output)

/-- The bytes `x` and `z` of `reassembleBytes`. -/
def reassembleSix (low high : UInt8) : UInt8 :=
  (low &&& (0b00111111 : UInt8)) ||| ((high &&& (0b00110000 : UInt8)) <<< (2 : UInt8))

/-- The byte `y` of `reassembleBytes`. -/
def reassembleFour (low high : UInt8) : UInt8 :=
  (low &&& (0b00001111 : UInt8)) ||| ((high &&& (0b00001111 : UInt8)) <<< (4 : UInt8))

def reassembleBytes (opos : ℕ) (encodedByte : List UInt8) (output : Bytes) : ℕ × Bytes :=
  let opos := opos - 1
  let x := reassembleSix (encodedByte.getD 0 0) (encodedByte.getD 1 0)
  let y := reassembleFour (encodedByte.getD 1 0) (encodedByte.getD 3 0)
  let z := reassembleSix (encodedByte.getD 2 0) (encodedByte.getD 3 0)
  (opos, ((output.set (opos - 32) z).set (opos - 32 * 2) y).set (opos - 32 * 3) x)

/-- The loop over the rounds after the first one, with the number of rounds that are left. -/
def decodeRounds (b : Blob) (outputLen : ℕ) : ℕ → ℕ → ℕ → Bytes → Except BlobError (ℕ × ℕ × Bytes)
  | 0, opos, ipos, output => .ok (opos, ipos, output)
  | left + 1, opos, ipos, output =>
    if opos < outputLen then do
      let (encodedByte, opos, ipos, output) ← b.decodeFieldElements 4 opos ipos output
      let (opos, output) := reassembleBytes opos encodedByte output
      b.decodeRounds outputLen left opos ipos output
    else .ok (opos, ipos, output)

/-- `outputLen`, from three bytes. -/
def outputLen (b : Blob) : ℕ := beNat [b.byte 2, b.byte 3, b.byte 4]

/-- The loops over the field elements: all of the output buffer, and where they end. -/
def decodeOutput (b : Blob) : Except BlobError (ℕ × ℕ × Bytes) := do
  let output := copyAt (zeros maxBlobDataSize) 0 (slice 5 32 b.1)
  let (encodedByte, opos, ipos, output) ← b.decodeFieldElements 3 28 32 output
  let (opos, output) := reassembleBytes opos (b.byte 0 :: encodedByte) output
  b.decodeRounds b.outputLen (rounds - 1) opos ipos output

def toData (b : Blob) : Except BlobError Bytes :=
  if b.byte versionOffset ≠ encodingVersion then
    .error (.invalidEncodingVersion (b.byte versionOffset))
  else if maxBlobDataSize < b.outputLen then .error (.invalidLength b.outputLen)
  else do
    let (opos, ipos, output) ← b.decodeOutput
    if (output.drop b.outputLen).any (· ≠ 0) then .error (.extraneousDataFieldElement (opos / 32))
    else match (b.1.drop ipos).findIdx? (· ≠ 0) with
      | some i => .error (.extraneousData (ipos + i))
      | none => .ok (output.take b.outputLen)

end Blob

end FightNight.Eth
