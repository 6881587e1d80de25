import FightNight.Library.Bits
import FightNight.Library.Reader

/-!
# Recursive length prefixes

A byte string or a list is written as a header, which has the length of what follows, and the
content; a single byte below 128 stands for itself.  The content of a list is what is written for
its elements.  Numbers are written as byte strings without leading zeros.

The readers follow the canonical decoding: a length or a number that could have been written with
fewer bytes is refused.  What is written is read back, whatever follows it, as long as lengths fit
in eight bytes.
-/

namespace FightNight.RLP

open Reader List

/-! ## Writing -/

/-- The header of a content of length `n`; `base` is 128 for byte strings and 192 for lists. -/
def header (base n : ℕ) : Bytes :=
  if n < 56 then [UInt8.ofNat (base + n)]
  else UInt8.ofNat (base + 55 + byteLen n) :: natBytes n

/-- Whether a byte string stands for itself. -/
def isSingle : Bytes → Bool
  | [b] => decide (b.toNat < 128)
  | _ => false

/-- A byte string. -/
def encodeString (bs : Bytes) : Bytes := if isSingle bs then bs else header 128 bs.length ++ bs

/-- A list with the given content. -/
def encodeList (content : Bytes) : Bytes := header 192 content.length ++ content

/-- A number. -/
def encodeNat (n : ℕ) : Bytes := encodeString (natBytes n)

/-! ## Reading -/

/-- What can be wrong with an encoding. -/
inductive Error where
  | eof
  | unexpectedEOF
  | canonSize
  | canonInt
  | uintOverflow
  | expectedString
  | expectedList
  | valueTooLarge
  | wrongSize
  | notAtEOL
  | moreThanOneValue
  deriving DecidableEq

/-- The kinds of values. -/
inductive Kind where
  | byte (b : UInt8)
  | string
  | list
  deriving DecidableEq

/-- The length in a long header. -/
def readSize (k : ℕ) : Reader Error ℕ := do
  let bs ← readFull (fun _ => .unexpectedEOF) k
  failIf (bs.head? = some 0 ∨ beNat bs < 56) .canonSize
  pure (beNat bs)

/-- A header: the kind and the length of the content. -/
def readKind : Reader Error (Kind × ℕ) := do
  let b ← readByte fun _ => Error.eof
  if b.toNat < 128 then pure (.byte b, 0)
  else if b.toNat < 184 then pure (.string, b.toNat - 128)
  else if b.toNat < 192 then do
    let size ← readSize (b.toNat - 183)
    pure (.string, size)
  else if b.toNat < 248 then pure (.list, b.toNat - 192)
  else do
    let size ← readSize (b.toNat - 247)
    pure (.list, size)

/-- The content behind a header that is expected to be that of a byte string. -/
def readStringContent : Kind × ℕ → Reader Error Bytes
  | (.byte b, _) => pure [b]
  | (.string, size) => do
    let bs ← readFull (fun _ => Error.unexpectedEOF) size
    failIf (isSingle bs = true) .canonSize
    pure bs
  | (.list, _) => fail .expectedString

/-- A byte string. -/
def readString : Reader Error Bytes := do
  let kind ← readKind
  readStringContent kind

/-- A byte string of a fixed length. -/
def readFixed (n : ℕ) : Reader Error (FixedBytes n) := do
  let bs ← readString
  if h : bs.length = n then pure ⟨bs, h⟩ else fail .wrongSize

/-- A byte string of a fixed length or, if it is empty, nothing. -/
def readOptional (n : ℕ) : Reader Error (Option (FixedBytes n)) := do
  let bs ← readString
  if bs = [] then pure none
  else if h : bs.length = n then pure (some ⟨bs, h⟩)
  else fail .wrongSize

/-- A number. -/
def readNat : Reader Error ℕ := do
  let bs ← readString
  failIf (bs.head? = some 0) .canonInt
  pure (beNat bs)

/-- A number of `k` bits. -/
def readUint (k : ℕ) : Reader Error (Fin (2 ^ k)) := do
  let n ← readNat
  if h : n < 2 ^ k then pure ⟨n, h⟩ else fail .uintOverflow

/-- The content behind a header that is expected to be that of a list. -/
def readListContent {α : Type} (content : Reader Error α) : Kind × ℕ → Reader Error α
  | (.list, size) => do
    let bs ← readFull (fun _ => Error.unexpectedEOF) size
    match content bs with
    | .ok (a, []) => pure a
    | .ok (_, _ :: _) => fail .notAtEOL
    | .error e => fail e
  | _ => fail .expectedList

/-- A list, whose content is read by the given reader. -/
def readList {α : Type} (content : Reader Error α) : Reader Error α := do
  let kind ← readKind
  readListContent content kind

/-- All elements of a list. -/
def readElements {α : Type} (r : Reader Error α) : Reader Error (List α) := fun bs =>
  match readAll r (fun _ e => e) .eof bs.length [] bs with
  | .ok l => .ok (l, [])
  | .error e => .error e

/-- One value and nothing behind it. -/
def decodeBytes {α : Type} (r : Reader Error α) (bs : Bytes) : Except Error α :=
  match r bs with
  | .ok (a, []) => .ok a
  | .ok (_, _ :: _) => .error .moreThanOneValue
  | .error e => .error e

/-- The encoding of a list, which may have at most `limit` bytes with its header. -/
def readRawList (limit : ℕ) : Reader Error Bytes := fun bs =>
  match readKind bs with
  | .error e => .error e
  | .ok ((kind, size), rest) =>
    let length := bs.length - rest.length + size
    if limit < length then .error .valueTooLarge
    else if kind ≠ .list then .error .expectedList
    else if bs.length < length then .error .unexpectedEOF
    else .ok (bs.take length, bs.drop length)

/-! ## What is written is read back -/

lemma header_ne_nil (base n : ℕ) : header base n ≠ [] := by
  unfold header
  split <;> exact cons_ne_nil _ _

variable {n : ℕ} {bs content : Bytes} {α : Type}

lemma readSize_natBytes (hn : 56 ≤ n) (rest : Bytes) :
    readSize (byteLen n) (natBytes n ++ rest) = .ok (n, rest) := by
  refine bind_eq_ok.mpr ⟨natBytes n, rest, readFull_eq_ok.mpr ⟨length_natBytes n, rfl⟩, ?_⟩
  refine bind_eq_ok.mpr ⟨(), rest, failIf_eq_ok.mpr ⟨?_, rfl⟩,
    pure_eq_ok.mpr ⟨beNat_natBytes n, rfl⟩⟩
  rw [beNat_natBytes]
  rintro (hhead | hsmall)
  · obtain ⟨bs, hbs⟩ := head?_eq_some_iff.mp hhead
    exact head_natBytes hbs rfl
  · omega

lemma byteLen_bounds (hn : 56 ≤ n) (hlt : n < 2 ^ 64) : 1 ≤ byteLen n ∧ byteLen n ≤ 8 := by
  refine ⟨?_, byteLen_le.mpr hlt⟩
  by_contra hzero
  have hsmall : n < 256 ^ 0 := byteLen_le.mp (by omega)
  omega

lemma readKind_header {base : ℕ} {kind : Kind}
    (hkind : base = 128 ∧ kind = .string ∨ base = 192 ∧ kind = .list) (hn : n < 2 ^ 64)
    (rest : Bytes) : readKind (header base n ++ rest) = .ok ((kind, n), rest) := by
  rw [header]
  by_cases hshort : n < 56
  · have hbyte : (UInt8.ofNat (base + n)).toNat = base + n :=
      UInt8.toNat_ofNat_of_lt' (by show _ < 256; omega)
    rw [if_pos hshort]
    refine andThen (rfl) ?_
    rw [hbyte, if_neg (by omega)]
    rcases hkind with ⟨rfl, rfl⟩ | ⟨rfl, rfl⟩
    · rw [if_pos (by omega), Nat.add_sub_cancel_left]
      rfl
    · rw [if_neg (by omega), if_neg (by omega), if_pos (by omega), Nat.add_sub_cancel_left]
      rfl
  · obtain ⟨hpos, hle⟩ := byteLen_bounds (le_of_not_gt hshort) hn
    have hbyte : (UInt8.ofNat (base + 55 + byteLen n)).toNat = base + 55 + byteLen n :=
      UInt8.toNat_ofNat_of_lt' (by show _ < 256; omega)
    have hsize := readSize_natBytes (le_of_not_gt hshort) rest
    rw [if_neg hshort]
    refine andThen (rfl) ?_
    rw [hbyte, if_neg (by omega), if_neg (by omega)]
    rcases hkind with ⟨rfl, rfl⟩ | ⟨rfl, rfl⟩
    · rw [if_pos (by omega), Nat.add_sub_cancel_left]
      exact bind_eq_ok.mpr ⟨n, rest, hsize, rfl⟩
    · rw [if_neg (by omega), if_neg (by omega), Nat.add_sub_cancel_left]
      exact bind_eq_ok.mpr ⟨n, rest, hsize, rfl⟩

lemma readString_of_length_lt (hlen : bs.length < 2 ^ 64) (rest : Bytes) :
    readString (encodeString bs ++ rest) = .ok (bs, rest) := by
  rw [encodeString]
  by_cases hone : isSingle bs = true
  · rw [if_pos hone]
    match bs, hone with
    | [b], hb =>
      have hlt : b.toNat < 128 := of_decide_eq_true hb
      have hkind : readKind (b :: rest) = .ok ((.byte b, 0), rest) :=
        bind_eq_ok.mpr ⟨b, rest, rfl, by rw [if_pos hlt]; rfl⟩
      exact bind_eq_ok.mpr ⟨_, rest, hkind, rfl⟩
  · rw [if_neg hone, append_assoc]
    refine andThen (readKind_header (.inl ⟨rfl, rfl⟩) hlen _) ?_
    refine andThen (readFull_eq_ok.mpr ⟨rfl, rfl⟩) ?_
    exact bind_eq_ok.mpr ⟨(), rest, failIf_eq_ok.mpr ⟨hone, rfl⟩, rfl⟩

lemma length_le_encodeString (bs : Bytes) : bs.length ≤ (encodeString bs).length := by
  unfold encodeString
  split
  · exact le_refl _
  · simp

lemma length_le_encodeList (content : Bytes) : content.length ≤ (encodeList content).length := by
  rw [encodeList, length_append]
  exact Nat.le_add_left _ _

lemma length_header_le (hn : n < 2 ^ 64) (base : ℕ) : (header base n).length ≤ 9 := by
  unfold header
  split
  · exact Nat.le_add_left 1 8
  · rw [length_cons, length_natBytes]
    exact Nat.succ_le_succ (byteLen_le.mpr hn)

lemma length_encodeString_le {bs : Bytes} (hlen : bs.length < 2 ^ 64) :
    (encodeString bs).length ≤ bs.length + 9 := by
  unfold encodeString
  split
  · exact Nat.le_add_right _ _
  · rw [length_append, add_comm]
    exact Nat.add_le_add_left (length_header_le hlen _) _

lemma length_encodeNat_le (hn : n < 2 ^ 256) : (encodeNat n).length ≤ 41 := by
  have hlen : byteLen n ≤ 32 := byteLen_le.mpr hn
  have hstr := @length_encodeString_le (natBytes n) (by rw [length_natBytes]; omega)
  rw [length_natBytes] at hstr
  rw [encodeNat]
  omega

lemma length_encodeList_le {content : Bytes} (hlen : content.length < 2 ^ 64) :
    (encodeList content).length ≤ content.length + 9 := by
  rw [encodeList, length_append, add_comm]
  exact Nat.add_le_add_left (length_header_le hlen _) _

lemma readString_encode (hlen : (encodeString bs).length < 2 ^ 64) (rest : Bytes) :
    readString (encodeString bs ++ rest) = .ok (bs, rest) :=
  readString_of_length_lt (lt_of_le_of_lt (length_le_encodeString bs) hlen) rest

lemma readFixed_encode (hn : n < 2 ^ 64) (a : FixedBytes n) (rest : Bytes) :
    readFixed n (encodeString a.1 ++ rest) = .ok (a, rest) := by
  refine andThen (readString_of_length_lt (by rw [a.2]; exact hn) rest) ?_
  rw [dif_pos]
  rfl

lemma readOptional_encode (hpos : 0 < n) (hn : n < 2 ^ 64) (a : Option (FixedBytes n))
    (rest : Bytes) :
    readOptional n (encodeString (a.elim [] Subtype.val) ++ rest) = .ok (a, rest) := by
  cases a with
  | none =>
    have hlen : ([] : Bytes).length < 2 ^ 64 := Nat.two_pow_pos 64
    exact bind_eq_ok.mpr ⟨[], rest, readString_of_length_lt hlen rest, rfl⟩
  | some a =>
    have hlen : a.1.length < 2 ^ 64 := by rw [a.2]; exact hn
    refine andThen (readString_of_length_lt hlen rest) ?_
    have hne : a.1 ≠ [] := fun hnil => by
      have := a.2
      rw [hnil, length_nil] at this
      omega
    rw [if_neg hne, dif_pos]
    rfl

lemma readNat_encode (hlen : (encodeNat n).length < 2 ^ 64) (rest : Bytes) :
    readNat (encodeNat n ++ rest) = .ok (n, rest) := by
  refine andThen (readString_encode hlen rest) ?_
  refine bind_eq_ok.mpr ⟨(), rest, failIf_eq_ok.mpr ⟨fun hhead => ?_, rfl⟩,
    pure_eq_ok.mpr ⟨beNat_natBytes n, rfl⟩⟩
  obtain ⟨bs, hbs⟩ := head?_eq_some_iff.mp hhead
  exact head_natBytes hbs rfl

lemma readUint_encode {k : ℕ} {n : Fin (2 ^ k)} (hlen : (encodeNat n).length < 2 ^ 64)
    (rest : Bytes) : readUint k (encodeNat n ++ rest) = .ok (n, rest) := by
  refine andThen (readNat_encode hlen rest) ?_
  rw [dif_pos]
  rfl

lemma readList_encode {content : Reader Error α} {a : α} (hlen : (encodeList bs).length < 2 ^ 64)
    (hcont : content bs = .ok (a, [])) (rest : Bytes) :
    readList content (encodeList bs ++ rest) = .ok (a, rest) := by
  replace hlen := lt_of_le_of_lt (length_le_encodeList bs) hlen
  rw [encodeList, append_assoc]
  refine andThen (readKind_header (.inr ⟨rfl, rfl⟩) hlen _) ?_
  refine andThen (readFull_eq_ok.mpr ⟨rfl, rfl⟩) ?_
  rw [hcont]
  rfl

lemma readElements_encode {r : Reader Error α} {write : α → Bytes} {l : List α}
    (hr : ∀ a ∈ l, ∀ rest, r (write a ++ rest) = .ok (a, rest)) (hwrite : ∀ a ∈ l, write a ≠ []) :
    readElements r (l.map write).flatten = .ok (l, []) := by
  rw [readElements, readAll_write hr hwrite (le_refl _)]
  rfl

/-- A reader gives back the value from the bytes that were written for it, if these are not too
many. -/
def Reads (r : Reader Error α) (bs : Bytes) (a : α) : Prop :=
  bs.length < 2 ^ 64 → ∀ rest, r (bs ++ rest) = .ok (a, rest)

section Reads

variable {β : Type} {r : Reader Error α} {cs : Bytes} {a : α} {b : β}

lemma Reads.bind {f : α → Reader Error β} (h : Reads r bs a) (h' : Reads (f a) cs b) :
    Reads (r >>= f) (bs ++ cs) b := by
  intro hlen rest
  rw [length_append] at hlen
  rw [append_assoc]
  exact andThen (h (by omega) _) (h' (by omega) rest)

lemma Reads.pure {g : α → β} (h : Reads r bs a) : Reads (r >>= fun x => pure (g x)) bs (g a) :=
  fun hlen rest => andThen (h hlen rest) rfl

lemma Reads.nil (h : Reads r bs a) (hlen : bs.length < 2 ^ 64) : r bs = .ok (a, []) := by
  simpa using h hlen []

end Reads

lemma encodeString_ne_nil (bs : Bytes) : encodeString bs ≠ [] := by
  unfold encodeString
  split
  · rintro rfl
    exact absurd ‹isSingle [] = true› Bool.false_ne_true
  · exact append_ne_nil_of_left_ne_nil (header_ne_nil _ _) _

lemma encodeList_ne_nil (content : Bytes) : encodeList content ≠ [] :=
  append_ne_nil_of_left_ne_nil (header_ne_nil _ _) _

lemma readRawList_encode (hlen : content.length < 2 ^ 64) (limit : ℕ) (rest : Bytes) :
    readRawList limit (encodeList content ++ rest) =
      if limit < (encodeList content).length then .error .valueTooLarge
      else .ok (encodeList content, rest) := by
  have hkind := readKind_header (.inr ⟨rfl, rfl⟩) hlen (content ++ rest)
  rw [← append_assoc] at hkind
  have hlength : (encodeList content ++ rest).length - (content ++ rest).length + content.length =
      (encodeList content).length := by simp [encodeList, length_append]
  rw [readRawList, encodeList, hkind]
  dsimp only
  have henough : ¬ (encodeList content ++ rest).length < (encodeList content).length := by
    rw [length_append]
    omega
  rw [← encodeList, hlength, if_neg (show ¬ (Kind.list ≠ .list) from fun h => h rfl),
    if_neg henough, take_left, drop_left]

lemma head_encodeList (hlen : content.length < 2 ^ 64) :
    ∃ b bs, encodeList content = b :: bs ∧ 192 ≤ b.toNat := by
  rw [encodeList, header]
  by_cases hshort : content.length < 56
  · rw [if_pos hshort]
    refine ⟨_, _, rfl, ?_⟩
    rw [UInt8.toNat_ofNat_of_lt' (by show _ < 256; omega)]
    omega
  · obtain ⟨hpos, hle⟩ := byteLen_bounds (le_of_not_gt hshort) hlen
    rw [if_neg hshort]
    refine ⟨_, _, rfl, ?_⟩
    rw [UInt8.toNat_ofNat_of_lt' (by show _ < 256; omega)]
    omega

end FightNight.RLP
