import FightNight.Library.BinarySearch
import FightNight.Supervisor.Entries

/-!
# The supervisor's log database

The database `logs.DB` of `op-supervisor`: an append-only list of entries and the position of the
last log in memory.  A log is stored as an initiating event, followed by an executing link and an
executing check when it executes a message; a search checkpoint and a canonical hash stand at
every index that is a multiple of 256, also in the middle of a log.

Reading and writing the store do not fail.  Locks, metrics and the trace output are left out.  A
loop over the entries has as many rounds as there are unread entries: without them the source's
loop sees the end of the file.
-/

namespace FightNight.Supervisor

open FightNight.Except

def searchCheckpointFrequency : ℤ := 256

/-- Wrap the error of a computation, as `fmt.Errorf` with the verb `%w` does. -/
def wrapError {α : Type} (text : String) (x : Except DBError α) : Except DBError α :=
  x.mapError (.wrap text)

@[simp] lemma wrapError_ok {α : Type} (text : String) (a : α) :
    wrapError text (.ok a) = .ok a := rfl

lemma wrapError_eq_ok {α : Type} {text : String} {x : Except DBError α} {a : α} :
    wrapError text x = .ok a ↔ x = .ok a := by
  cases x with
  | error e => simp [wrapError, Except.mapError]
  | ok b => simp

/-! ## The entry store -/

namespace EntryStore

def lastEntryIdx (store : List Entry) : ℤ := store.length - 1

def read (store : List Entry) (idx : ℤ) : Except DBError Entry :=
  if lastEntryIdx store < idx then .error .eof
  else if idx < 0 then .error (.wrap "failed to read entry %v" (.other "negative offset"))
  else
    match store[idx.toNat]? with
    | some entry => .ok entry
    | none => .error .eof

/-- `EntryDB.Truncate`, for an index within the store. -/
def truncate (idx : ℤ) (store : List Entry) : List Entry := store.take (idx + 1).toNat

end EntryStore

structure DB where
  store : List Entry
  lastEntryContext : LogContext
  deriving DecidableEq

structure Iterator where
  nextEntryIdx : ℤ
  current : LogContext
  hasExecMsg : Bool
  deriving DecidableEq

namespace DB

def empty : DB := ⟨[], ⟨0, 0⟩⟩

def lastEntryIdx (db : DB) : ℤ := EntryStore.lastEntryIdx db.store

def readSearchCheckpoint (db : DB) (entryIdx : ℤ) : Except DBError SearchCheckpoint := do
  let data ← wrapError "failed to read entry %v" (EntryStore.read db.store entryIdx)
  newSearchCheckpointFromEntry data

def readCanonicalHash (db : DB) (entryIdx : ℤ) : Except DBError TruncatedHash := do
  let data ← wrapError "failed to read entry %v" (EntryStore.read db.store entryIdx)
  newCanonicalHashFromEntry data

/-! ## The iterator -/

/-- The number of entries from the next one of an iterator on. -/
def unread (db : DB) (i : Iterator) : ℕ := (db.lastEntryIdx + 1 - i.nextEntryIdx).toNat

/-- The loop of `iterator.NextLog`.  It returns the iterator also when it fails. -/
def nextLogLoop (db : DB) :
    ℕ → Iterator → Iterator × Except DBError (LogContext × TruncatedHash)
  | 0, i => (i, .error .eof)
  | rounds + 1, i =>
    match EntryStore.read db.store i.nextEntryIdx with
    | .error e => (i, .error (.wrap "failed to read entry %v" e))
    | .ok entry =>
      let i := { i with nextEntryIdx := i.nextEntryIdx + 1, hasExecMsg := false }
      if entry.type = typeSearchCheckpoint then
        match newSearchCheckpointFromEntry entry with
        | .error e => (i, .error (.wrap "failed to parse search checkpoint at idx %v" e))
        | .ok current => nextLogLoop db rounds { i with current := current.context }
      else if entry.type = typeInitiatingEvent then
        match newInitiatingEventFromEntry entry with
        | .error e => (i, .error (.wrap "failed to parse initiating event at idx %v" e))
        | .ok evt =>
          let current := evt.postContext i.current
          ({ i with current := current, hasExecMsg := evt.hasExecMsg },
            .ok (current, evt.logHash))
      else if entry.type = typeCanonicalHash ∨ entry.type = typeExecutingCheck ∨
          entry.type = typeExecutingLink then
        nextLogLoop db rounds i
      else (i, .error (.other "unknown entry type at idx %v %v"))

def nextLog (db : DB) (i : Iterator) :
    Iterator × Except DBError (LogContext × TruncatedHash) :=
  db.nextLogLoop (db.unread i) i

/-- The entry after `idx` that belongs to the same log: a search checkpoint and a canonical hash
in between are skipped. -/
def nextOfLog (idx : ℤ) : ℤ :=
  if (idx + 1).tmod searchCheckpointFrequency = 0 then idx + 1 + 2 else idx + 1

def readExpected (db : DB) (missing failed : String) (idx : ℤ) : Except DBError Entry :=
  match EntryStore.read db.store idx with
  | .ok entry => .ok entry
  | .error e =>
    if e.is .eof then .error (.wrap missing .dataCorruption) else .error (.wrap failed e)

def readExecMessage (db : DB) (initEntryIdx : ℤ) : Except DBError ExecutingMessage := do
  let linkIdx := nextOfLog initEntryIdx
  let linkEntry ← db.readExpected "missing expected executing link event at idx %v"
    "failed to read executing link event at idx %v" linkIdx
  let checkIdx := nextOfLog linkIdx
  let checkEntry ← db.readExpected "missing expected executing check event at idx %v"
    "failed to read executing check event at idx %v" checkIdx
  newExecutingMessageFromEntries linkEntry checkEntry

def execMessage (db : DB) (i : Iterator) : Except DBError ExecutingMessage :=
  if i.hasExecMsg then
    wrapError "failed to read exec message for initiating event at %v"
      (db.readExecMessage (i.nextEntryIdx - 1))
  else .ok .empty

def newIterator (db : DB) (startCheckpointEntry : ℤ) : Except DBError Iterator := do
  let checkpoint ← wrapError "failed to read search checkpoint entry %v"
    (db.readSearchCheckpoint startCheckpointEntry)
  let firstEntry ← db.readExpected "no entry after checkpoint and canonical hash at %v"
    "failed to read first entry to iterate %v" (startCheckpointEntry + 2)
  if firstEntry.type = typeExecutingLink ∨ firstEntry.type = typeExecutingCheck then
    -- The checkpoint stands inside a log: step back to the initiating event.
    let startIdx := if firstEntry.type = typeExecutingLink then startCheckpointEntry - 1
      else startCheckpointEntry - 2
    let initEntry ← wrapError "failed to read prior initiating event"
      (EntryStore.read db.store startIdx)
    let initEvt ← wrapError "invalid initiating event at idx %v"
      (newInitiatingEventFromEntry initEntry)
    .ok ⟨startIdx, initEvt.preContext checkpoint.context, false⟩
  else .ok ⟨startCheckpointEntry + 2, checkpoint.context, false⟩

/-! ## Looking up logs -/

/-- The comparison of the binary search: the checkpoint stands before the position. -/
def before (checkpoint : SearchCheckpoint) (blockNum : UInt64) (logIdx : UInt32) : Bool :=
  checkpoint.blockNum < blockNum ∨ (checkpoint.blockNum = blockNum ∧ checkpoint.logIdx < logIdx)

/-- One probe of the binary search: whether the checkpoint with number `h` stands before the
position. -/
def probe (db : DB) (blockNum : UInt64) (logIdx : UInt32) (h : ℕ) : Except DBError Bool := do
  let checkpoint ← wrapError "failed to read entry %v"
    (db.readSearchCheckpoint (h * searchCheckpointFrequency))
  .ok (before checkpoint blockNum logIdx)

def searchCheckpoint (db : DB) (blockNum : UInt64) (logIdx : UInt32) : Except DBError ℤ := do
  -- Division of integers rounds towards zero: an empty store has `n = 1`.
  let n := (db.lastEntryIdx.tdiv searchCheckpointFrequency + 1).toNat
  let i ← BinarySearch.search (db.probe blockNum logIdx) n 0 n
  let found ← if i < n then do
      let checkpoint ← wrapError "failed to read entry %v"
        (db.readSearchCheckpoint (i * searchCheckpointFrequency))
      .ok (decide (checkpoint.blockNum = blockNum ∧ checkpoint.logIdx = logIdx))
    else .ok false
  if found then .ok (i * searchCheckpointFrequency)
  else if i = 0 then .error .eof
  else .ok ((i - 1 : ℕ) * searchCheckpointFrequency)

/-- The loop of `findLogInfo`. -/
def findLoop (db : DB) (blockNum : UInt64) (logIdx : UInt32) :
    ℕ → Iterator → Except DBError (TruncatedHash × Iterator)
  | 0, _ => .error .notFound
  | rounds + 1, i =>
    match db.nextLog i with
    | (_, .error e) =>
      if e.is .eof then .error .notFound else .error (.wrap "failed to read next log" e)
    | (i, .ok (evt, evtHash)) =>
      if evt.blockNum = blockNum ∧ evt.logIdx = logIdx then .ok (evtHash, i)
      else if blockNum < evt.blockNum ∨ (evt.blockNum = blockNum ∧ logIdx < evt.logIdx) then
        .error .notFound
      else findLoop db blockNum logIdx rounds i

def findLogInfo (db : DB) (blockNum : UInt64) (logIdx : UInt32) :
    Except DBError (TruncatedHash × Iterator) :=
  match db.searchCheckpoint blockNum logIdx with
  | .error e => if e.is .eof then .error .notFound else .error e
  | .ok entryIdx => do
    let i ← wrapError "failed to create iterator" (db.newIterator entryIdx)
    db.findLoop blockNum logIdx (db.unread i) i

def contains (db : DB) (blockNum : UInt64) (logIdx : UInt32) (logHash : TruncatedHash) :
    Except DBError Bool :=
  match db.findLogInfo blockNum logIdx with
  | .error e => if e.is .notFound then .ok false else .error e
  | .ok (evtHash, _) => .ok (decide (evtHash = logHash))

def executes (db : DB) (blockNum : UInt64) (logIdx : UInt32) :
    Except DBError ExecutingMessage := do
  let (_, iter) ← db.findLogInfo blockNum logIdx
  wrapError "failed to read executing message" (db.execMessage iter)

def latestBlockNum (db : DB) : UInt64 := db.lastEntryContext.blockNum

def closestBlockInfo (db : DB) (blockNum : UInt64) : Except DBError (UInt64 × TruncatedHash) := do
  let checkpointIdx ← wrapError "no checkpoint at or before block %v found"
    (db.searchCheckpoint blockNum 4294967295)
  let checkpoint ← wrapError "failed to reach checkpoint" (db.readSearchCheckpoint checkpointIdx)
  let entry ← wrapError "failed to read canonical hash" (db.readCanonicalHash (checkpointIdx + 1))
  .ok (checkpoint.blockNum, entry)

/-! ## Opening a database -/

/-- Whether an entry can be the last one of a store: an executing check, or an initiating event
without an executing message. -/
def validFinal (entry : Entry) : Bool :=
  entry.type = typeExecutingCheck ||
    (entry.type = typeInitiatingEvent &&
      match newInitiatingEventFromEntry entry with
      | .error _ => false
      | .ok evt => !evt.hasExecMsg)

/-- The loop of `trimInvalidTrailingEntries`: the index of the last valid final entry among the
first `n` entries. -/
def trimLoop (store : List Entry) : ℕ → Except DBError ℤ
  | 0 => .ok (-1)
  | n + 1 => do
    let entry ← wrapError "failed to read %v to check for trailing entries"
      (EntryStore.read store n)
    if validFinal entry then .ok n else trimLoop store n

def trimInvalidTrailingEntries (db : DB) : Except DBError DB := do
  let i ← trimLoop db.store db.store.length
  if i < db.lastEntryIdx then .ok { db with store := EntryStore.truncate i db.store } else .ok db

/-- The loop of `init`: read all logs until the end of the file. -/
def readToEnd (db : DB) : ℕ → Iterator → Except DBError Iterator
  | 0, i => .ok i
  | rounds + 1, i =>
    match db.nextLog i with
    | (i, .error e) =>
      if e.is .eof then .ok i else .error (.wrap "failed to init from existing entries" e)
    | (i, .ok _) => readToEnd db rounds i

def init (db : DB) : Except DBError DB := do
  let db ← wrapError "failed to trim invalid trailing entries" db.trimInvalidTrailingEntries
  if db.lastEntryIdx < 0 then .ok db
  else do
    let lastCheckpoint :=
      db.lastEntryIdx.tdiv searchCheckpointFrequency * searchCheckpointFrequency
    let i ← wrapError "failed to create iterator at last search checkpoint"
      (db.newIterator lastCheckpoint)
    let i ← db.readToEnd (db.unread i) i
    .ok { db with lastEntryContext := i.current }

/-- `NewFromEntryStore`: open a database on an existing store. -/
def newFromEntryStore (store : List Entry) : Except DBError DB :=
  wrapError "failed to init database" (DB.init ⟨store, ⟨0, 0⟩⟩)

end DB

/-! ## Adding logs -/

/-- The arguments of `AddLog`. -/
structure LogRecord where
  logHash : TruncatedHash
  /-- `block.Hash`. -/
  blockHash : Hash
  /-- `block.Number`. -/
  blockNum : UInt64
  timestamp : UInt64
  logIdx : UInt32
  execMsg : Option ExecutingMessage
  deriving DecidableEq

/-- The position of a log. -/
def LogRecord.context (r : LogRecord) : LogContext := ⟨r.blockNum, r.logIdx⟩

/-- The local variables of `AddLog`: the entries to add, the index of the last entry, and the
position that the next event is relative to. -/
structure Pending where
  entriesToAdd : List Entry
  lastEntryIdx : ℤ
  newContext : LogContext

def Pending.addEntry (entry : Entry) (p : Pending) : Pending :=
  { p with entriesToAdd := p.entriesToAdd ++ [entry], lastEntryIdx := p.lastEntryIdx + 1 }

def Pending.maybeAddCheckpoint (r : LogRecord) (p : Pending) : Pending :=
  if (p.lastEntryIdx + 1).tmod searchCheckpointFrequency = 0 then
    { (p.addEntry (SearchCheckpoint.encode ⟨r.blockNum, r.logIdx, r.timestamp⟩)).addEntry
        (canonicalHashEncode (truncateHash r.blockHash)) with
      newContext := r.context }
  else p

namespace DB

/-- The entries of a log's executing message. -/
def addExecMsg (r : LogRecord) (p : Pending) : Except DBError Pending :=
  match r.execMsg with
  | none => .ok p
  | some execMsg => do
    let p := p.maybeAddCheckpoint r
    let link ← wrapError "failed to create executing link" (newExecutingLink execMsg)
    let p := p.addEntry link.encode
    let p := p.maybeAddCheckpoint r
    .ok (p.addEntry (executingCheckEncode execMsg.hash))

def addLog (r : LogRecord) (db : DB) : Except DBError DB := do
  revertIf (r.blockNum = 0) (.wrap "should not have logs in block 0" .logOutOfOrder)
  revertIf (r.blockNum < db.lastEntryContext.blockNum)
    (.wrap "adding block %v, head block: %v" .logOutOfOrder)
  -- The index of the last log is a 32-bit number, and so is its successor.
  revertIf
    (db.lastEntryContext.blockNum = r.blockNum ∧ db.lastEntryContext.logIdx + 1 ≠ r.logIdx)
    (.wrap "adding log %v in block %v, but currently at log %v" .logOutOfOrder)
  revertIf (db.lastEntryContext.blockNum < r.blockNum ∧ r.logIdx ≠ 0)
    (.wrap "adding log %v as first log in block %v" .logOutOfOrder)
  let p : Pending := ⟨[], db.lastEntryIdx, db.lastEntryContext⟩
  let p := p.maybeAddCheckpoint r
  let evt ← wrapError "failed to create initiating event"
    (newInitiatingEvent p.newContext r.blockNum r.logIdx r.logHash r.execMsg.isSome)
  let p := p.addEntry evt.encode
  let p ← addExecMsg r p
  .ok ⟨db.store ++ p.entriesToAdd, r.context⟩

/-! ## Rewinding -/

/-- The loop of `Rewind`: the index of the last entry to keep, or nothing when the end of the
file is reached and everything is kept. -/
def rewindLoop (db : DB) (headBlockNum : UInt64) : ℕ → ℤ → Iterator → Except DBError (Option ℤ)
  | 0, _, _ => .ok none
  | rounds + 1, idx, i =>
    match db.nextLog i with
    | (_, .error e) =>
      if e.is .eof then .ok none else .error (.wrap "failed to find rewind point" e)
    | (i, .ok (evt, _)) =>
      if headBlockNum < evt.blockNum then .ok (some idx)
      else rewindLoop db headBlockNum rounds (i.nextEntryIdx - 1) i

/-- The end of `Rewind`: delete everything after the entry `idx` and open the rest. -/
def truncateTo (idx : ℤ) (db : DB) : Except DBError DB :=
  wrapError "failed to find new last entry context"
    (DB.init { db with store := EntryStore.truncate idx db.store })

def rewind (headBlockNum : UInt64) (db : DB) : Except DBError DB :=
  if db.lastEntryContext.blockNum ≤ headBlockNum then .ok db
  else
    match db.searchCheckpoint (headBlockNum + 1) 0 with
    | .error e =>
      if e.is .eof then db.truncateTo (-1)
      else .error (.wrap "failed to find checkpoint prior to block %v" e)
    | .ok idx => do
      let i ← wrapError "failed to create iterator when searching for rewind point"
        (db.newIterator idx)
      match ← db.rewindLoop headBlockNum (db.unread i) (idx - 1) i with
      | none => .ok db
      | some idx => db.truncateTo idx

def resume (db : DB) : Except DBError DB :=
  match db.closestBlockInfo 18446744073709551615 with
  | .error e =>
    if e.is .eof then .ok db else .error (.wrap "failed to get block from checkpoint" e)
  | .ok (checkPointBlock, _) =>
    if checkPointBlock = 0 then .ok db
    else wrapError "failed to rewind the database" (db.rewind (checkPointBlock - 1))

/-! ## Runs -/

/-- An operation on a database.  Closing and opening it again keeps the store only. -/
inductive Op where
  | addLog (r : LogRecord)
  | rewind (headBlockNum : UInt64)
  | resume
  | reopen
  deriving DecidableEq

def exec : Op → DB → Except DBError DB
  | .addLog r, db => db.addLog r
  | .rewind headBlockNum, db => db.rewind headBlockNum
  | .resume, db => db.resume
  | .reopen, db => newFromEntryStore db.store

end DB

end FightNight.Supervisor
