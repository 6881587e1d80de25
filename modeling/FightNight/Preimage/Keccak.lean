import FightNight.Library.Bytes

/-!
# The Keccak sponge

The sponge of `op-challenger/game/keccak/matrix/keccak.go`: the permutation `keccakF1600` on 25
lanes of 64 bits, and the absorbing and padding of blocks of 136 bytes.  The source unrolls four
rounds of five groups of lanes, which differ in their lanes only, so that a round is a list of
lanes and one function for all of them.

`keccak256`, the hash function of this sponge, stands for `crypto.Keccak256Hash` and for the
instruction of the same name that the contracts use.
-/

namespace FightNight.Preimage

open List

/-! ## Hashes -/

/-- `common.Hash` and `bytes32`. -/
abbrev Hash := FixedBytes 32

/-- `common.Hash{}`. -/
def Hash.zero : Hash := ⟨List.replicate 32 0, length_zeros32⟩

/-- The first 32 bytes of a byte string. -/
def Hash.ofBytes (bs : Bytes) : Hash :=
  ⟨padTo 32 (bs.take 32), length_padTo (by rw [length_take]; exact min_le_left _ _)⟩

lemma Hash.ofBytes_append (v : Hash) (bs : Bytes) : Hash.ofBytes (v.1 ++ bs) = v := by
  apply Subtype.ext
  change padTo 32 ((v.1 ++ bs).take 32) = v.1
  rw [take_append_of_le_length (le_of_eq v.2.symm), take_of_length_le (le_of_eq v.2), padTo, v.2,
    replicate_zero, append_nil]

/-! ## The permutation -/

/-- The 25 lanes of the state: `[25]uint64`. -/
abbrev Lanes := List UInt64

def rotateLeft64 (x k : UInt64) : UInt64 := (x <<< k) ||| (x >>> (64 - k))

/-- A group of assignments of a round: the lanes that are mixed with `d0` to `d4`, by how much
each is rotated, and the number of the variable `bc` that takes the lane of `d0`. -/
structure Group where
  lanes : List ℕ
  rotations : List UInt64
  first : ℕ

/-- The assignments of a group: each lane is mixed with its `d` and rotated into its `bc`; the
lane with number `k` becomes `bc(k) ^ (bc(k+2) &^ bc(k+1))`. -/
def Group.mix (g : Group) (d : List UInt64) (a : Lanes) : Lanes :=
  let mixed := zipWith (fun i x => a.getD i 0 ^^^ x) g.lanes d
  let bc := (zipWith rotateLeft64 mixed g.rotations).rotateRight g.first
  let out := zipWith (fun x y => x ^^^ y) bc
    (zipWith (fun x y => x &&& ~~~y) (bc.rotateLeft 2) (bc.rotateLeft 1))
  (g.lanes.zip out).foldl (fun a p => a.set p.1 p.2) a

/-- The five groups of a round with the given lanes. -/
def roundGroups (l1 l2 l3 l4 l5 : List ℕ) : List Group :=
  [⟨l1, [0, 44, 43, 21, 14], 0⟩, ⟨l2, [3, 45, 61, 28, 20], 2⟩, ⟨l3, [18, 1, 6, 25, 8], 4⟩,
    ⟨l4, [36, 10, 15, 56, 27], 1⟩, ⟨l5, [41, 2, 62, 55, 39], 3⟩]

/-- `Round 1`. -/
def round1 : List Group :=
  roundGroups [0, 6, 12, 18, 24] [10, 16, 22, 3, 9] [20, 1, 7, 13, 19] [5, 11, 17, 23, 4]
    [15, 21, 2, 8, 14]

/-- `Round 2`. -/
def round2 : List Group :=
  roundGroups [0, 16, 7, 23, 14] [20, 11, 2, 18, 9] [15, 6, 22, 13, 4] [10, 1, 17, 8, 24]
    [5, 21, 12, 3, 19]

/-- `Round 3`. -/
def round3 : List Group :=
  roundGroups [0, 11, 22, 8, 19] [15, 1, 12, 23, 9] [5, 16, 2, 13, 24] [20, 6, 17, 3, 14]
    [10, 21, 7, 18, 4]

/-- `Round 4`. -/
def round4 : List Group :=
  roundGroups [0, 1, 2, 3, 4] [5, 6, 7, 8, 9] [10, 11, 12, 13, 14] [15, 16, 17, 18, 19]
    [20, 21, 22, 23, 24]

/-- The variables `d0` to `d4` of a round, from the parities of the columns. -/
def theta (a : Lanes) : List UInt64 :=
  let bc := (range 5).map fun k =>
    a.getD k 0 ^^^ a.getD (k + 5) 0 ^^^ a.getD (k + 10) 0 ^^^ a.getD (k + 15) 0 ^^^
      a.getD (k + 20) 0
  zipWith (fun x y : UInt64 => x ^^^ (y <<< 1 ||| y >>> 63)) (bc.rotateRight 1)
    (bc.rotateLeft 1)

/-- One round.  The round constant goes to lane 0, which only the first group touches. -/
def round (groups : List Group) (c : UInt64) (a : Lanes) : Lanes :=
  let d := theta a
  let a := groups.foldl (fun a g => g.mix d a) a
  a.set 0 (a.getD 0 0 ^^^ c)

def rc : List UInt64 :=
  [0x0000000000000001, 0x0000000000008082, 0x800000000000808A, 0x8000000080008000,
    0x000000000000808B, 0x0000000080000001, 0x8000000080008081, 0x8000000000008009,
    0x000000000000008A, 0x0000000000000088, 0x0000000080008009, 0x000000008000000A,
    0x000000008000808B, 0x800000000000008B, 0x8000000000008089, 0x8000000000008003,
    0x8000000000008002, 0x8000000000000080, 0x000000000000800A, 0x800000008000000A,
    0x8000000080008081, 0x8000000000008080, 0x0000000080000001, 0x8000000080008008]

/-- The loop of `keccakF1600`, four rounds at a time. -/
def rounds : List UInt64 → Lanes → Lanes
  | c1 :: c2 :: c3 :: c4 :: rest, a =>
    rounds rest (round round4 c4 (round round3 c3 (round round2 c2 (round round1 c1 a))))
  | _, a => a

def keccakF1600 (a : Lanes) : Lanes := rounds rc a

/-! ## The sponge -/

/-- `types.BlockSize`, the rate of the sponge. -/
def blockSize : ℕ := 136

/-- The lanes that a byte string fills, read with `binary.LittleEndian.Uint64`. -/
def words : Bytes → List UInt64
  | b0 :: b1 :: b2 :: b3 :: b4 :: b5 :: b6 :: b7 :: rest =>
    UInt64.ofNat (leNat [b0, b1, b2, b3, b4, b5, b6, b7]) :: words rest
  | _ => []

def xorIn (buf : Bytes) (a : Lanes) : Lanes :=
  zipWith (fun x y => x ^^^ y) a (words buf) ++ a.drop (words buf).length

/-- `copyOut`: the first `rate` bytes of the lanes. -/
def copyOut (a : Lanes) : Bytes := (a.flatMap fun x => leBytes 8 x.toNat).take blockSize

/-- `state`: the lanes, the input that is not absorbed or the output that is not read, and whether
the sponge is squeezed. -/
structure Sponge where
  a : Lanes
  buf : Bytes
  squeezing : Bool
  deriving DecidableEq

namespace Sponge

def newLegacyKeccak256 : Sponge := ⟨List.replicate 25 0, [], false⟩

/-- `dsbyte` of the legacy hash. -/
def dsbyte : UInt8 := 0x01

def permute (s : Sponge) : Sponge :=
  if s.squeezing then
    let a := keccakF1600 s.a
    { s with a := a, buf := copyOut a }
  else { s with a := keccakF1600 (xorIn s.buf s.a), buf := [] }

def padAndPermute (s : Sponge) : Sponge :=
  let buf := (padTo blockSize (s.buf ++ [dsbyte])).modify (blockSize - 1) (· ^^^ 0x80)
  let s := { s with buf := buf }.permute
  { s with squeezing := true, buf := copyOut s.a }

/-- The loop of `Write`.  Every round absorbs at least one byte. -/
def writeLoop : ℕ → Bytes → Sponge → Sponge
  | 0, _, s => s
  | rounds + 1, p, s =>
    if p = [] then s
    else if s.buf = [] ∧ blockSize ≤ p.length then
      writeLoop rounds (p.drop blockSize)
        { s with a := keccakF1600 (xorIn (p.take blockSize) s.a) }
    else
      let todo := min (blockSize - s.buf.length) p.length
      let s := { s with buf := s.buf ++ p.take todo }
      writeLoop rounds (p.drop todo) (if s.buf.length = blockSize then s.permute else s)

/-- `Write`, which panics after output has been read. -/
def write (p : Bytes) (s : Sponge) : Except String Sponge :=
  if s.squeezing then .error "sha3: Write after Read" else .ok (writeLoop p.length p s)

end Sponge

/-- `crypto.Keccak256Hash`. -/
def keccak256 (data : Bytes) : Hash :=
  Hash.ofBytes (Sponge.writeLoop data.length data .newLegacyKeccak256).padAndPermute.buf

/-! ## The number of lanes -/

lemma length_foldl {α : Type} {f : Lanes → α → Lanes} (hf : ∀ a x, (f a x).length = a.length)
    (xs : List α) (a : Lanes) : (xs.foldl f a).length = a.length := by
  induction xs generalizing a with
  | nil => rfl
  | cons x xs ih => rw [foldl_cons, ih, hf]

@[simp] lemma length_mix (g : Group) (d : List UInt64) (a : Lanes) :
    (g.mix d a).length = a.length := length_foldl (fun _ _ => length_set) _ _

@[simp] lemma length_round (groups : List Group) (c : UInt64) (a : Lanes) :
    (round groups c a).length = a.length := by
  simp only [round, length_set, length_foldl fun a g => length_mix g _ a]

@[simp] lemma length_keccakF1600 (a : Lanes) : (keccakF1600 a).length = a.length := by
  have hrnd : ∀ (cs : List UInt64) (a : Lanes), (rounds cs a).length = a.length := by
    intro cs a
    induction cs, a using rounds.induct with
    | case1 c1 c2 c3 c4 rest a ih =>
      rw [rounds, ih]
      simp only [length_round]
    | case2 cs a hcs => rw [rounds]; exact hcs
  exact hrnd rc a

-- Proofs use no more of the permutation than this.
attribute [irreducible] keccakF1600

@[simp] lemma length_xorIn (buf : Bytes) (a : Lanes) : (xorIn buf a).length = a.length := by
  simp only [xorIn, length_append, length_zipWith, length_drop]
  omega

/-! ## Blocks -/

def absorbBlock (a : Lanes) (block : Bytes) : Lanes := keccakF1600 (xorIn block a)

@[simp] lemma length_absorbBlock (a : Lanes) (block : Bytes) :
    (absorbBlock a block).length = a.length := by
  rw [absorbBlock, length_keccakF1600, length_xorIn]

/-- The padding rule: a one bit, zeros, and a one bit at the end of the last block. -/
def padBytes (data : Bytes) : Bytes :=
  let size := (data.length / blockSize + 1) * blockSize
  (padTo size (data ++ [Sponge.dsbyte])).modify (size - 1) (· ^^^ 0x80)

/-- The first blocks of a byte string. -/
def chunks : ℕ → Bytes → List Bytes
  | 0, _ => []
  | n + 1, data => data.take blockSize :: chunks n (data.drop blockSize)

def paddedBlocks (data : Bytes) : List Bytes :=
  chunks (data.length / blockSize + 1) (padBytes data)

/-- `keccak256(abi.encode(stateMatrix))`, the commitment to a state: each lane takes a word of
32 bytes. -/
def stateCommitment (a : Lanes) : Hash := keccak256 (a.flatMap fun x => beBytes 32 x.toNat)

def stateCommitments : Lanes → List Bytes → List Hash
  | _, [] => []
  | a, b :: bs => stateCommitment (absorbBlock a b) :: stateCommitments (absorbBlock a b) bs

def trueCommitments (data : Bytes) : List Hash :=
  stateCommitments Sponge.newLegacyKeccak256.a (paddedBlocks data)

@[simp] lemma length_chunks (n : ℕ) (data : Bytes) : (chunks n data).length = n := by
  induction n generalizing data with
  | zero => rfl
  | succ n ih => rw [chunks, length_cons, ih]

variable {data xs : Bytes} {n : ℕ}

lemma chunks_append (m : ℕ) (ys : Bytes) (hxs : xs.length = n * blockSize) :
    chunks (n + m) (xs ++ ys) = chunks n xs ++ chunks m ys := by
  induction n generalizing xs with
  | zero =>
    have hnil : xs = [] := length_eq_zero_iff.mp (by rw [hxs, zero_mul])
    rw [hnil, zero_add]
    rfl
  | succ n ih =>
    have hle : blockSize ≤ xs.length := by rw [hxs, Nat.succ_mul]; exact Nat.le_add_left _ _
    have hdrop : (xs.drop blockSize).length = n * blockSize := by grind
    rw [add_right_comm, chunks, chunks, take_append_of_le_length hle,
      drop_append_of_le_length hle, ih hdrop, cons_append]

lemma length_padBytes (data : Bytes) :
    (padBytes data).length = (data.length / blockSize + 1) * blockSize := by
  unfold padBytes
  rw [length_modify, length_padTo]
  rw [length_append, length_singleton, add_mul, one_mul]
  exact Nat.lt_div_mul_add (by decide)

lemma padBytes_append (ys : Bytes) (hxs : xs.length = n * blockSize) :
    padBytes (xs ++ ys) = xs ++ padBytes ys := by
  have hmodify : ∀ (xs zs : Bytes) (k : ℕ),
      (xs ++ zs).modify (xs.length + k) (· ^^^ 0x80) = xs ++ zs.modify k (· ^^^ 0x80) := by
    intro xs zs k
    induction xs with
    | nil => rw [length_nil, zero_add]; rfl
    | cons x xs ih =>
      rw [length_cons, add_right_comm, cons_append, modify_succ_cons, ih]
      rfl
  have hsize : ((xs ++ ys).length / blockSize + 1) * blockSize =
      xs.length + (ys.length / blockSize + 1) * blockSize := by
    rw [length_append, hxs, mul_comm n, Nat.mul_add_div (by decide)]
    ring
  have hlast : xs.length + (ys.length / blockSize + 1) * blockSize - 1 =
      xs.length + ((ys.length / blockSize + 1) * blockSize - 1) := by
    apply Nat.add_sub_assoc
    rw [add_mul]
    exact Nat.le_add_left_of_le (by decide)
  simp only [padBytes, hsize, hlast, append_assoc]
  rw [padTo, length_append, Nat.add_sub_add_left, append_assoc, hmodify]
  rfl

lemma paddedBlocks_of_lt (h : data.length < blockSize) : paddedBlocks data = [padBytes data] := by
  have hlen := length_padBytes data
  rw [Nat.div_eq_of_lt h, zero_add, one_mul] at hlen
  rw [paddedBlocks, Nat.div_eq_of_lt h, chunks, chunks, ← hlen, take_length]

lemma paddedBlocks_append (ys : Bytes) (hxs : xs.length = n * blockSize) :
    paddedBlocks (xs ++ ys) = chunks n xs ++ paddedBlocks ys := by
  have hcnt : (xs ++ ys).length / blockSize + 1 = n + (ys.length / blockSize + 1) := by
    rw [length_append, hxs, mul_comm, Nat.mul_add_div (by decide), add_assoc]
  rw [paddedBlocks, padBytes_append ys hxs, hcnt]
  exact chunks_append _ _ hxs

lemma paddedBlocks_of_le (h : blockSize ≤ data.length) :
    paddedBlocks data = data.take blockSize :: paddedBlocks (data.drop blockSize) := by
  have htake : (data.take blockSize).length = 1 * blockSize := by
    rw [length_take, min_eq_left h, one_mul]
  have happ := paddedBlocks_append (data.drop blockSize) htake
  rw [take_append_drop] at happ
  rw [happ, chunks, take_take]
  rfl

@[simp] lemma length_paddedBlocks (data : Bytes) :
    (paddedBlocks data).length = data.length / blockSize + 1 := by
  rw [paddedBlocks, length_chunks]

lemma length_of_mem_paddedBlocks {data block : Bytes} (h : block ∈ paddedBlocks data) :
    block.length = blockSize := by
  have hchunks : ∀ (n : ℕ) (data : Bytes), n * blockSize ≤ data.length →
      ∀ b ∈ chunks n data, b.length = blockSize := by
    intro n
    induction n with
    | zero => intro data _ b hb; cases hb
    | succ n ih =>
      intro data hdata b hb
      rw [Nat.succ_mul] at hdata
      rw [chunks, mem_cons] at hb
      rcases hb with rfl | hb
      · grind
      · exact ih _ (by rw [length_drop]; exact Nat.le_sub_of_add_le hdata) b hb
  exact hchunks _ _ (le_of_eq (length_padBytes data).symm) block h

@[simp] lemma length_stateCommitments (a : Lanes) (bs : List Bytes) :
    (stateCommitments a bs).length = bs.length := by
  induction bs generalizing a with
  | nil => rfl
  | cons b bs ih => rw [stateCommitments, length_cons, ih, length_cons]

/-! ## Writing to the sponge -/

namespace Sponge

lemma writeLoop_nil (rounds : ℕ) (s : Sponge) : writeLoop rounds [] s = s := by
  cases rounds <;> rfl

variable {p : Bytes} {rounds : ℕ}

lemma writeLoop_full (a : Lanes) (hp : blockSize ≤ p.length) (rounds : ℕ) :
    writeLoop (rounds + 1) p ⟨a, [], false⟩ =
      writeLoop rounds (p.drop blockSize) ⟨absorbBlock a (p.take blockSize), [], false⟩ := by
  have hne : p ≠ [] := by
    rintro rfl
    exact absurd hp (by decide)
  rw [writeLoop, if_neg hne, if_pos ⟨rfl, hp⟩]
  rfl

lemma writeLoop_short (a : Lanes) (hp : p.length < blockSize) (hrnd : p.length ≤ rounds) :
    writeLoop rounds p ⟨a, [], false⟩ = ⟨a, p, false⟩ := by
  cases p with
  | nil => exact writeLoop_nil rounds _
  | cons b p =>
    obtain ⟨n, rfl⟩ : ∃ n, rounds = n + 1 := Nat.exists_eq_succ_of_ne_zero (by
      rintro rfl
      cases hrnd)
    have hmin : min (blockSize - ([] : Bytes).length) (b :: p).length = (b :: p).length :=
      min_eq_right (le_of_lt hp)
    rw [writeLoop, if_neg (cons_ne_nil b p), if_neg (fun h => not_le_of_gt hp h.2)]
    simp only [hmin, take_length, drop_length, nil_append, writeLoop_nil]
    rw [if_neg (ne_of_lt hp)]

lemma write_block (a : Lanes) (hp : p.length = blockSize) :
    write p ⟨a, [], false⟩ = .ok ⟨absorbBlock a p, [], false⟩ := by
  have hloop := writeLoop_full a (le_of_eq hp.symm) 135
  rw [← hp, take_length, drop_length, writeLoop_nil] at hloop
  rw [write, hp, ← hloop]
  rfl

lemma write_short (a : Lanes) (hp : p.length < blockSize) :
    write p ⟨a, [], false⟩ = .ok ⟨a, p, false⟩ := by
  rw [write, writeLoop_short a hp (le_refl _)]
  rfl

lemma padAndPermute_eq (a : Lanes) (hp : p.length < blockSize) :
    padAndPermute ⟨a, p, false⟩ =
      ⟨absorbBlock a (padBytes p), copyOut (absorbBlock a (padBytes p)), true⟩ := by
  have hpad : padBytes p =
      (padTo blockSize (p ++ [dsbyte])).modify (blockSize - 1) (· ^^^ 0x80) := by
    rw [padBytes, Nat.div_eq_of_lt hp, zero_add, one_mul]
  rw [hpad]
  rfl

lemma writeLoop_padAndPermute (a : Lanes) (p : Bytes) (h : p.length ≤ rounds) :
    (writeLoop rounds p ⟨a, [], false⟩).padAndPermute =
      ⟨(paddedBlocks p).foldl absorbBlock a, copyOut ((paddedBlocks p).foldl absorbBlock a),
        true⟩ := by
  induction rounds generalizing a p with
  | zero =>
    have hp : p.length < blockSize := lt_of_le_of_lt h (by decide)
    rw [writeLoop_short a hp h, padAndPermute_eq a hp, paddedBlocks_of_lt hp]
    rfl
  | succ rounds ih =>
    by_cases hp : p.length < blockSize
    · rw [writeLoop_short a hp h, padAndPermute_eq a hp, paddedBlocks_of_lt hp]
      rfl
    · have hle : blockSize ≤ p.length := le_of_not_gt hp
      have hdrop : (p.drop blockSize).length ≤ rounds := by
        rw [length_drop]
        exact Nat.sub_le_of_le_add (Nat.le_trans h (Nat.add_le_add_left (by decide) rounds))
      rw [writeLoop_full a hle, ih _ _ hdrop, paddedBlocks_of_le hle, foldl_cons]

end Sponge

lemma keccak256_eq (data : Bytes) :
    keccak256 data = Hash.ofBytes
      (copyOut ((paddedBlocks data).foldl absorbBlock Sponge.newLegacyKeccak256.a)) := by
  have hsponge := Sponge.writeLoop_padAndPermute Sponge.newLegacyKeccak256.a data
    (le_refl data.length)
  exact congrArg (fun s => Hash.ofBytes s.buf) hsponge

/-! ## The commitment after a block of zeros -/

/-- A function of lanes, evaluated after each of the lanes. -/
def afterLanes {β : Type} : Lanes → (Lanes → β) → β
  | [], k => k []
  | x :: xs, k =>
    match x.toNat with
    | 0 => afterLanes xs fun ys => k (0 :: ys)
    | n + 1 => afterLanes xs fun ys => k (UInt64.ofNat (n + 1) :: ys)

lemma afterLanes_eq {β : Type} (a : Lanes) (k : Lanes → β) : afterLanes a k = k a := by
  induction a generalizing k with
  | nil => rfl
  | cons x xs ih =>
    rw [afterLanes]
    split
    · rename_i hx
      have hzero : x = 0 := UInt64.toNat_inj.mp hx
      rw [ih, hzero]
    · rename_i n hx
      have hx : n + 1 = x.toNat := hx.symm
      rw [ih, hx, UInt64.ofNat_toNat]

/-- Absorbing blocks, with the state evaluated after each of them. -/
def absorbEach : List Bytes → Lanes → Lanes
  | [], a => a
  | b :: bs, a => afterLanes (absorbBlock a b) (absorbEach bs)

lemma absorbEach_eq (bs : List Bytes) (a : Lanes) :
    absorbEach bs a = bs.foldl absorbBlock a := by
  induction bs generalizing a with
  | nil => rfl
  | cons b bs ih => rw [absorbEach, afterLanes_eq, ih, foldl_cons]

def zeroBlock : Bytes := List.replicate blockSize 0

lemma stateCommitment_zeroBlock :
    (stateCommitment (absorbBlock Sponge.newLegacyKeccak256.a zeroBlock)).1.head? = some 0x9a := by
  have hcomm : stateCommitment = fun a => Hash.ofBytes (copyOut (absorbEach
      (paddedBlocks (a.flatMap fun x => beBytes 32 x.toNat)) Sponge.newLegacyKeccak256.a)) := by
    funext a
    rw [stateCommitment, keccak256_eq, absorbEach_eq]
  -- The seven permutations are evaluated one after the other.
  rw [hcomm]
  decide +kernel

end FightNight.Preimage
