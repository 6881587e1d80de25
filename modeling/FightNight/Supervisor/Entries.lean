import FightNight.Library.Bytes

/-!
# The entries of the supervisor's log database

The database of `op-supervisor` is a sequence of entries of 24 bytes.  The first byte is the type:

* 0, a search checkpoint: block number, log index and timestamp.
* 1, a canonical hash.
* 2, an initiating event: the difference of its block number to the previous log, two flags, and
  the hash of the log.
* 3, an executing link: chain, block number, log index and timestamp of the message that the log
  executes.
* 4, an executing check: the hash of that message.

Decoding what was encoded gives the same value back, except that an executing link keeps only 24
bits of its log index.
-/

namespace FightNight.Supervisor

abbrev entrySize : ℕ := 24

abbrev Entry := FixedBytes entrySize

abbrev TruncatedHash := FixedBytes 20

abbrev Hash := FixedBytes 32

def truncateHash (hash : Hash) : TruncatedHash :=
  ⟨hash.1.take 20, by rw [List.length_take, hash.2]; rfl⟩

/-- The hash of zeros, the value of a hash that was not set. -/
def TruncatedHash.zero : TruncatedHash := ⟨List.replicate 20 0, rfl⟩

structure ExecutingMessage where
  chain : UInt32
  blockNum : UInt64
  logIdx : UInt32
  timestamp : UInt64
  hash : TruncatedHash
  deriving DecidableEq

/-- `types.ExecutingMessage{}`. -/
def ExecutingMessage.empty : ExecutingMessage := ⟨0, 0, 0, 0, .zero⟩

/-- The errors of the database: the values that callers test for with `errors.Is`, other errors
with their format strings, and errors that wrap another one. -/
inductive DBError where
  | eof
  /-- `ErrLogOutOfOrder`. -/
  | logOutOfOrder
  /-- `ErrDataCorruption`. -/
  | dataCorruption
  /-- `ErrNotFound`. -/
  | notFound
  | other (text : String)
  | wrap (text : String) (cause : DBError)
  deriving DecidableEq

/-- `errors.Is`: some error in the chain is the target. -/
def DBError.is : DBError → DBError → Bool
  | .wrap text cause, target => decide (DBError.wrap text cause = target) || cause.is target
  | e, target => decide (e = target)

/-- `logContext`: the position of a log. -/
structure LogContext where
  blockNum : UInt64
  logIdx : UInt32
  deriving DecidableEq

/-! ## Types and flags -/

def typeSearchCheckpoint : UInt8 := 0

def typeCanonicalHash : UInt8 := 1

def typeInitiatingEvent : UInt8 := 2

def typeExecutingLink : UInt8 := 3

def typeExecutingCheck : UInt8 := 4

def eventFlagIncrementLogIdx : UInt8 := 1

def eventFlagHasExecutingMessage : UInt8 := 2

/-- The type of an entry, its first byte. -/
def Entry.type (entry : Entry) : UInt8 := entry.1.getD 0 0

/-- An entry of the given type with the given fields. -/
def Entry.make (type : UInt8) (fields : Bytes) (h : fields.length ≤ 23) : Entry :=
  ⟨padTo entrySize (type :: fields), length_padTo (Nat.succ_le_succ h)⟩

@[simp] lemma Entry.type_make (type : UInt8) (fields : Bytes) (h : fields.length ≤ 23) :
    (Entry.make type fields h).type = type := rfl

lemma Entry.slice_make {type : UInt8} {fields field : Bytes} {h : fields.length ≤ 23}
    {i j : ℕ} (pre post : Bytes) (hflds : fields = pre ++ field ++ post) (hi : pre.length + 1 = i)
    (hj : i + field.length = j) : slice i j (Entry.make type fields h).1 = field := by
  have hsplit : (make type fields h).1 =
      (type :: pre) ++ field ++ (post ++ List.replicate (entrySize - (fields.length + 1)) 0) := by
    simp [make, padTo, hflds]
  rw [hsplit]
  exact slice_append (by simpa using hi) hj

def bytes64 (n : UInt64) : Bytes := leBytes 8 n.toNat

def bytes32 (n : UInt32) : Bytes := leBytes 4 n.toNat

@[simp] lemma length_bytes64 (n : UInt64) : (bytes64 n).length = 8 := length_leBytes 8 _

@[simp] lemma length_bytes32 (n : UInt32) : (bytes32 n).length = 4 := length_leBytes 4 _

def uint64 (bs : Bytes) : UInt64 := UInt64.ofNat (leNat bs)

def uint32 (bs : Bytes) : UInt32 := UInt32.ofNat (leNat bs)

@[simp] lemma uint64_bytes64 (n : UInt64) : uint64 (bytes64 n) = n := by
  rw [uint64, bytes64, leNat_leBytes_of_lt n.toNat_lt]
  exact UInt64.ofNat_toNat

@[simp] lemma uint32_bytes32 (n : UInt32) : uint32 (bytes32 n) = n := by
  rw [uint32, bytes32, leNat_leBytes_of_lt n.toNat_lt]
  exact UInt32.ofNat_toNat

/-! ## Search checkpoints and canonical hashes -/

structure SearchCheckpoint where
  blockNum : UInt64
  logIdx : UInt32
  timestamp : UInt64
  deriving DecidableEq

/-- The position that a checkpoint carries. -/
def SearchCheckpoint.context (s : SearchCheckpoint) : LogContext := ⟨s.blockNum, s.logIdx⟩

def SearchCheckpoint.encode (s : SearchCheckpoint) : Entry :=
  Entry.make typeSearchCheckpoint (bytes64 s.blockNum ++ bytes32 s.logIdx ++ bytes64 s.timestamp)
    (by simp)

def newSearchCheckpointFromEntry (data : Entry) : Except DBError SearchCheckpoint :=
  if data.type ≠ typeSearchCheckpoint then
    .error (.wrap "attempting to decode search checkpoint but was type %v" .dataCorruption)
  else
    .ok ⟨uint64 (slice 1 9 data.1), uint32 (slice 9 13 data.1), uint64 (slice 13 21 data.1)⟩

@[simp] lemma newSearchCheckpointFromEntry_encode (s : SearchCheckpoint) :
    newSearchCheckpointFromEntry s.encode = .ok s := by
  have hblock : slice 1 9 s.encode.1 = bytes64 s.blockNum :=
    Entry.slice_make [] (bytes32 s.logIdx ++ bytes64 s.timestamp) (by simp) (by simp) (by simp)
  have hidx : slice 9 13 s.encode.1 = bytes32 s.logIdx :=
    Entry.slice_make (bytes64 s.blockNum) (bytes64 s.timestamp) (by simp) (by simp) (by simp)
  have htime : slice 13 21 s.encode.1 = bytes64 s.timestamp :=
    Entry.slice_make (bytes64 s.blockNum ++ bytes32 s.logIdx) [] (by simp) (by simp) (by simp)
  have htype : s.encode.type = typeSearchCheckpoint := Entry.type_make _ _ _
  simp only [newSearchCheckpointFromEntry, htype, hblock, hidx, htime, uint64_bytes64,
    uint32_bytes32, ne_eq, not_true_eq_false, if_false]

def hashEntry (type : UInt8) (hash : TruncatedHash) : Entry :=
  Entry.make type hash.1 (by rw [hash.2]; decide)

/-- The bytes from 1 to 21 of an entry. -/
def hashOf (data : Entry) : TruncatedHash :=
  ⟨slice 1 21 data.1, length_slice (by rw [data.2]; decide)⟩

@[simp] lemma type_hashEntry (type : UInt8) (hash : TruncatedHash) :
    (hashEntry type hash).type = type := rfl

@[simp] lemma hashOf_hashEntry (type : UInt8) (hash : TruncatedHash) :
    hashOf (hashEntry type hash) = hash := by
  apply Subtype.ext
  exact Entry.slice_make [] [] (by simp) (by simp) (by rw [hash.2])

/-- `canonicalHash.encode`. -/
def canonicalHashEncode (hash : TruncatedHash) : Entry := hashEntry typeCanonicalHash hash

def newCanonicalHashFromEntry (data : Entry) : Except DBError TruncatedHash :=
  if data.type ≠ typeCanonicalHash then
    .error (.wrap "attempting to decode canonical hash but was type %v" .dataCorruption)
  else .ok (hashOf data)

@[simp] lemma newCanonicalHashFromEntry_encode (hash : TruncatedHash) :
    newCanonicalHashFromEntry (canonicalHashEncode hash) = .ok hash := by
  simp [newCanonicalHashFromEntry, canonicalHashEncode]

/-! ## Initiating events -/

structure InitiatingEvent where
  blockDiff : UInt8
  incrementLogIdx : Bool
  hasExecMsg : Bool
  logHash : TruncatedHash
  deriving DecidableEq

def eventFlags (incrementLogIdx hasExecMsg : Bool) : UInt8 :=
  let flags := if incrementLogIdx then 0 ||| eventFlagIncrementLogIdx else 0
  if hasExecMsg then flags ||| eventFlagHasExecutingMessage else flags

def InitiatingEvent.encode (i : InitiatingEvent) : Entry :=
  Entry.make typeInitiatingEvent
    ([i.blockDiff] ++ [eventFlags i.incrementLogIdx i.hasExecMsg] ++ i.logHash.1)
    (by simp [i.logHash.2])

def newInitiatingEventFromEntry (data : Entry) : Except DBError InitiatingEvent :=
  if data.type ≠ typeInitiatingEvent then
    .error (.wrap "attempting to decode initiating event but was type %v" .dataCorruption)
  else
    let blockNumDiff := data.1.getD 1 0
    let flags := data.1.getD 2 0
    .ok ⟨blockNumDiff, flags &&& eventFlagIncrementLogIdx ≠ 0,
      flags &&& eventFlagHasExecutingMessage ≠ 0,
      ⟨slice 3 23 data.1, length_slice (by rw [data.2]; decide)⟩⟩

lemma eventFlags_and : ∀ incrementLogIdx hasExecMsg : Bool,
    decide (eventFlags incrementLogIdx hasExecMsg &&& eventFlagIncrementLogIdx ≠ 0) =
      incrementLogIdx ∧
    decide (eventFlags incrementLogIdx hasExecMsg &&& eventFlagHasExecutingMessage ≠ 0) =
      hasExecMsg := by
  decide

@[simp] lemma newInitiatingEventFromEntry_encode (i : InitiatingEvent) :
    newInitiatingEventFromEntry i.encode = .ok i := by
  have hhash : slice 3 23 i.encode.1 = i.logHash.1 :=
    Entry.slice_make ([i.blockDiff] ++ [eventFlags i.incrementLogIdx i.hasExecMsg])
      [] (by simp) (by simp) (by rw [i.logHash.2])
  have htype : i.encode.type = typeInitiatingEvent := Entry.type_make _ _ _
  have hdiff : i.encode.1.getD 1 0 = i.blockDiff := rfl
  have hflags : i.encode.1.getD 2 0 = eventFlags i.incrementLogIdx i.hasExecMsg := rfl
  obtain ⟨hinc, hexec⟩ := eventFlags_and i.incrementLogIdx i.hasExecMsg
  simp only [newInitiatingEventFromEntry, htype, hdiff, hflags, hhash, hinc, hexec,
    not_true_eq_false, if_false, ne_eq]

def newInitiatingEvent (pre : LogContext) (blockNum : UInt64) (logIdx : UInt32)
    (logHash : TruncatedHash) (hasExecMsg : Bool) : Except DBError InitiatingEvent :=
  let blockDiff := blockNum - pre.blockNum
  if 255 < blockDiff then .error (.other "too many block skipped between %v and %v")
  else
    let currLogIdx := if 0 < blockDiff then 0 else pre.logIdx
    let logDiff := logIdx - currLogIdx
    if 1 < logDiff then .error (.other "skipped logs between %v and %v")
    else .ok ⟨blockDiff.toUInt8, 0 < logDiff, hasExecMsg, logHash⟩

def InitiatingEvent.postContext (i : InitiatingEvent) (pre : LogContext) : LogContext :=
  let logIdx := if 0 < i.blockDiff then 0 else pre.logIdx
  ⟨pre.blockNum + i.blockDiff.toUInt64, if i.incrementLogIdx then logIdx + 1 else logIdx⟩

def InitiatingEvent.preContext (i : InitiatingEvent) (post : LogContext) : LogContext :=
  ⟨post.blockNum - i.blockDiff.toUInt64,
    if i.incrementLogIdx then post.logIdx - 1 else post.logIdx⟩

lemma toUInt64_toUInt8_of_le {d : UInt64} (h : ¬255 < d) :
    d.toUInt8.toUInt64 = d ∧ (0 < d.toUInt8 ↔ 0 < d) := by
  have hnat : d.toUInt8.toNat = d.toNat := Nat.mod_eq_of_lt (Nat.lt_succ_of_le (not_lt.mp h))
  constructor
  · rw [← UInt64.toNat_inj, UInt8.toNat_toUInt64, hnat]
  · rw [UInt8.lt_iff_toNat_lt, hnat]
    rfl

variable {logHash : TruncatedHash} {evt : InitiatingEvent} {hasExecMsg : Bool} {pre : LogContext}

/-- What an accepted event holds: both differences are small, and the flag tells whether the log
index differs. -/
theorem newInitiatingEvent_ok {blockNum : UInt64} {logIdx : UInt32}
    (h : newInitiatingEvent pre blockNum logIdx logHash hasExecMsg = .ok evt) :
    ¬255 < blockNum - pre.blockNum ∧
    ¬1 < logIdx - (if 0 < blockNum - pre.blockNum then 0 else pre.logIdx) ∧
    evt = ⟨(blockNum - pre.blockNum).toUInt8,
      0 < logIdx - (if 0 < blockNum - pre.blockNum then 0 else pre.logIdx), hasExecMsg,
      logHash⟩ := by
  unfold newInitiatingEvent at h
  by_cases hblock : 255 < blockNum - pre.blockNum
  · simp [hblock] at h
  · by_cases hlog : 1 < logIdx - (if 0 < blockNum - pre.blockNum then 0 else pre.logIdx)
    · simp [hblock, hlog] at h
    · grind

/-- The positions around an event that was created for the position `post`: from the position it was
created with it leads to `post`, and so it does from the one computed backwards. -/
theorem postContext_of_newInitiatingEvent (post : LogContext)
    (h : newInitiatingEvent pre post.blockNum post.logIdx logHash hasExecMsg = .ok evt) :
    evt.postContext pre = post ∧ evt.postContext (evt.preContext post) = post := by
  obtain ⟨hblock, hlog, rfl⟩ := newInitiatingEvent_ok h
  obtain ⟨hdiff, hpos⟩ := toUInt64_toUInt8_of_le hblock
  obtain ⟨preBlock, preIdx⟩ := pre
  obtain ⟨postBlock, postIdx⟩ := post
  simp only [InitiatingEvent.postContext, InitiatingEvent.preContext, LogContext.mk.injEq] at hlog ⊢
  by_cases hb : 0 < postBlock - preBlock
  · grind
  · grind

/-! ## Executing messages -/

structure ExecutingLink where
  chain : UInt32
  blockNum : UInt64
  logIdx : UInt32
  timestamp : UInt64
  deriving DecidableEq

def newExecutingLink (msg : ExecutingMessage) : Except DBError ExecutingLink :=
  if (1 : UInt32) <<< 24 < msg.logIdx then .error (.other "log idx is too large (%v)")
  else .ok ⟨msg.chain, msg.blockNum, msg.logIdx, msg.timestamp⟩

/-- `executingLink.encode`.  Only the three low bytes of the log index are stored. -/
def ExecutingLink.encode (e : ExecutingLink) : Entry :=
  Entry.make typeExecutingLink
    (bytes32 e.chain ++ bytes64 e.blockNum ++ leBytes 3 e.logIdx.toNat ++ bytes64 e.timestamp)
    (by simp)

def newExecutingLinkFromEntry (data : Entry) : Except DBError ExecutingLink :=
  if data.type ≠ typeExecutingLink then
    .error (.wrap "attempting to decode executing link but was type %v" .dataCorruption)
  else
    .ok ⟨uint32 (slice 1 5 data.1), uint64 (slice 5 13 data.1), uint32 (slice 13 16 data.1),
      uint64 (slice 16 24 data.1)⟩

/-- Decoding an encoded link gives the link with its log index cut to 24 bits. -/
@[simp] theorem newExecutingLinkFromEntry_encode (e : ExecutingLink) :
    newExecutingLinkFromEntry e.encode =
      .ok { e with logIdx := UInt32.ofNat (e.logIdx.toNat % 2 ^ 24) } := by
  have hchain : slice 1 5 e.encode.1 = bytes32 e.chain := Entry.slice_make []
      (bytes64 e.blockNum ++ leBytes 3 e.logIdx.toNat ++ bytes64 e.timestamp)
      (by simp) (by simp) (by simp)
  have hblock : slice 5 13 e.encode.1 = bytes64 e.blockNum := Entry.slice_make (bytes32 e.chain)
      (leBytes 3 e.logIdx.toNat ++ bytes64 e.timestamp) (by simp) (by simp) (by simp)
  have hidx : slice 13 16 e.encode.1 = leBytes 3 e.logIdx.toNat :=
    Entry.slice_make (bytes32 e.chain ++ bytes64 e.blockNum) (bytes64 e.timestamp)
      (by simp) (by simp) (by simp)
  have htime : slice 16 24 e.encode.1 = bytes64 e.timestamp :=
    Entry.slice_make (bytes32 e.chain ++ bytes64 e.blockNum ++ leBytes 3 e.logIdx.toNat)
      [] (by simp) (by simp) (by simp)
  have htype : e.encode.type = typeExecutingLink := Entry.type_make _ _ _
  have hnat : uint32 (leBytes 3 e.logIdx.toNat) = UInt32.ofNat (e.logIdx.toNat % 2 ^ 24) := by
    rw [uint32, leNat_leBytes]
    rfl
  simp only [newExecutingLinkFromEntry, htype, hchain, hblock, hidx, htime, uint64_bytes64,
    uint32_bytes32, hnat, ne_eq, not_true_eq_false, if_false]

/-- `executingCheck.encode`. -/
def executingCheckEncode (hash : TruncatedHash) : Entry := hashEntry typeExecutingCheck hash

def newExecutingCheckFromEntry (entry : Entry) : Except DBError TruncatedHash :=
  if entry.type ≠ typeExecutingCheck then
    .error (.wrap "attempting to decode executing check but was type %v" .dataCorruption)
  else .ok (hashOf entry)

@[simp] lemma newExecutingCheckFromEntry_encode (hash : TruncatedHash) :
    newExecutingCheckFromEntry (executingCheckEncode hash) = .ok hash := by
  simp [newExecutingCheckFromEntry, executingCheckEncode]

def newExecutingMessageFromEntries (linkEntry checkEntry : Entry) :
    Except DBError ExecutingMessage :=
  match newExecutingLinkFromEntry linkEntry with
  | .error e => .error (.wrap "invalid executing link" e)
  | .ok link =>
    match newExecutingCheckFromEntry checkEntry with
    | .error e => .error (.wrap "invalid executing check" e)
    | .ok hash => .ok ⟨link.chain, link.blockNum, link.logIdx, link.timestamp, hash⟩

/-- A message that becomes a link is decoded from its entries unless its log index is the greatest one
that is let through. -/
theorem executing_message_round_trip_iff {msg : ExecutingMessage} {link : ExecutingLink}
    (h : newExecutingLink msg = .ok link) :
    newExecutingMessageFromEntries link.encode (executingCheckEncode msg.hash) = .ok msg ↔
      msg.logIdx ≠ 0x1000000 := by
  rw [newExecutingLink] at h
  split at h
  case isTrue => cases h
  case isFalse hle =>
    cases h
    have hnat : msg.logIdx.toNat ≤ 2 ^ 24 := not_lt.mp hle
    obtain ⟨chain, blockNum, logIdx, timestamp, hash⟩ := msg
    simp only [newExecutingMessageFromEntries, newExecutingLinkFromEntry_encode,
      newExecutingCheckFromEntry_encode, Except.ok.injEq, ExecutingMessage.mk.injEq, true_and,
      and_true, ne_eq, ← UInt32.toNat_inj]
    have hcut : (UInt32.ofNat (logIdx.toNat % 2 ^ 24)).toNat = logIdx.toNat % 2 ^ 24 :=
      Nat.mod_eq_of_lt (lt_trans (Nat.mod_lt _ (by decide)) (by decide))
    rw [hcut, show (0x1000000 : UInt32).toNat = 2 ^ 24 from rfl]
    dsimp only at hnat
    omega

theorem executing_message_round_trip_three :
    newExecutingMessageFromEntries (ExecutingLink.encode ⟨1, 2, 3, 4⟩) (executingCheckEncode .zero) =
      .ok ⟨1, 2, 3, 4, .zero⟩ :=
  (@executing_message_round_trip_iff ⟨1, 2, 3, 4, .zero⟩ _ rfl).mpr (by decide)

/-- The greatest log index is stored as zero. -/
theorem log_index_cut : ∃ msg : ExecutingMessage, ∃ link, newExecutingLink msg = .ok link ∧
    newExecutingMessageFromEntries link.encode (executingCheckEncode msg.hash) =
      .ok { msg with logIdx := 0 } ∧ msg.logIdx = 0x1000000 := by
  refine ⟨⟨1, 2, 0x1000000, 4, .zero⟩, _, rfl, ?_, rfl⟩
  simp only [newExecutingMessageFromEntries, newExecutingLinkFromEntry_encode,
    newExecutingCheckFromEntry_encode]
  rfl

end FightNight.Supervisor
