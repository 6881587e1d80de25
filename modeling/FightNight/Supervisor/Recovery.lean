import Mathlib.Data.List.Basic
import Mathlib.Data.List.Induction
import FightNight.Library.Buffer
import FightNight.Supervisor.Rewind

/-!
# Recovery after a crash

The entries are kept in a file (`op-supervisor/supervisor/backend/db/entrydb/entry_db.go`), of
which a crash can leave any part.  Opening it cuts it to complete entries and removes the entries
of an incomplete log.  What is left is the database as it was after the last log that is
completely in the file (`recovers`).

The log that comes next is accepted again, and it is found again in every database in which the
positions of the logs do not repeat and no executing message has the log index `2 ^ 24`
(`crash_recovery`): `AddLog` accepts this index, although it is stored in 24 bits, and it accepts
log index 0 again after `2 ^ 32` logs of a block.
-/

namespace FightNight.Supervisor

open Run DB
open List hiding getElem?_eq_some_iff

/-! ## The file -/

/-- `EntryDB`: the content of the file and the index of the last entry.  Writes do not fail. -/
structure EntryDB where
  data : Bytes
  lastEntryIdx : ℤ

namespace EntryDB

def size (db : EntryDB) : ℤ := db.lastEntryIdx + 1

def recover (db : EntryDB) : EntryDB := { db with data := db.data.take (db.size * entrySize).toNat }

/-- `NewEntryDB`, for the content of the file. -/
def newEntryDB (file : Bytes) : EntryDB :=
  let size : ℕ := file.length / entrySize
  let db : EntryDB := ⟨file, size - 1⟩
  if size * entrySize ≠ file.length then db.recover else db

def read (db : EntryDB) (idx : ℤ) : Except DBError Entry :=
  if db.lastEntryIdx < idx then .error .eof
  else if idx < 0 then .error (.wrap "failed to read entry %v" (.other "negative offset"))
  else
    let out := slice (idx.toNat * entrySize) (idx.toNat * entrySize + entrySize) db.data
    if h : out.length = entrySize then .ok ⟨out, h⟩
    else .error (.wrap "failed to read entry %v" .eof)

def append (entries : List Entry) (db : EntryDB) : EntryDB where
  data := db.data ++ entries.flatMap Subtype.val
  lastEntryIdx := db.lastEntryIdx + entries.length

/-- `Truncate`, for an index within the file. -/
def truncate (idx : ℤ) (db : EntryDB) : EntryDB where
  data := db.data.take ((idx + 1) * entrySize).toNat
  lastEntryIdx := idx

def entries (db : EntryDB) : List Entry :=
  (range db.size.toNat).filterMap fun (i : ℕ) => (db.read i).toOption

end EntryDB

def fileBytes (store : List Entry) : Bytes := store.flatMap Subtype.val

@[simp] lemma length_fileBytes (store : List Entry) :
    (fileBytes store).length = store.length * entrySize := by
  induction store with
  | nil => rfl
  | cons e store ih =>
    rw [fileBytes, flatMap_cons, length_append, e.2, ← fileBytes, ih, length_cons,
      Nat.succ_mul, add_comm]

lemma fileBytes_append (xs ys : List Entry) :
    fileBytes (xs ++ ys) = fileBytes xs ++ fileBytes ys := flatMap_append

lemma take_fileBytes (store : List Entry) (k : ℕ) :
    (fileBytes store).take (k * entrySize) = fileBytes (store.take k) := by
  have hsplit : fileBytes store = fileBytes (store.take k) ++ fileBytes (store.drop k) := by
    rw [← fileBytes_append, take_append_drop]
  by_cases hk : k ≤ store.length
  · rw [hsplit, take_append_of_le_length, take_of_length_le]
    · simp
    · rw [length_fileBytes, length_take, min_eq_left hk]
  · have hle : store.length ≤ k := le_of_not_ge hk
    rw [take_of_length_le hle, take_of_length_le]
    rw [length_fileBytes]
    exact Nat.mul_le_mul_right _ hle

lemma slice_fileBytes {store : List Entry} {i : ℕ} {e : Entry} (h : store[i]? = some e)
    (junk : Bytes) :
    slice (i * entrySize) (i * entrySize + entrySize) (fileBytes store ++ junk) = e.1 := by
  obtain ⟨hi, rfl⟩ := getElem?_eq_some_iff.mp h
  have hsplit : fileBytes store =
      fileBytes (store.take i) ++ store[i].1 ++ fileBytes (store.drop (i + 1)) := by
    have hone : store[i].1 = fileBytes [store[i]] := by
      rw [fileBytes, flatMap_singleton]
    rw [hone, ← fileBytes_append, ← fileBytes_append, append_assoc, singleton_append,
      getElem_cons_drop, take_append_drop]
  rw [hsplit, append_assoc]
  refine slice_append ?_ (by rw [store[i].2])
  rw [length_fileBytes, length_take, min_eq_left (le_of_lt hi)]

lemma EntryDB.read_eq {db : EntryDB} {store : List Entry} {junk : Bytes}
    (hdata : db.data = fileBytes store ++ junk)
    (hlast : db.lastEntryIdx = EntryStore.lastEntryIdx store) (idx : ℤ) :
    db.read idx = EntryStore.read store idx := by
  rw [EntryDB.read, EntryStore.read, hlast, hdata]
  by_cases hlast : EntryStore.lastEntryIdx store < idx
  · rw [if_pos hlast, if_pos hlast]
  · by_cases hneg : idx < 0
    · rw [if_pos hneg, if_pos hneg]
    · have hi : idx.toNat < store.length := by
        rw [EntryStore.lastEntryIdx] at hlast
        omega
      have hget := getElem?_eq_getElem hi
      simp only [slice_fileBytes hget, hget, store[idx.toNat].2, dite_true]

/-- The file holds the given entries. -/
structure Represents (db : EntryDB) (store : List Entry) : Prop where
  data_eq : db.data = fileBytes store
  last_eq : db.lastEntryIdx = EntryStore.lastEntryIdx store

namespace Represents

variable {db : EntryDB} {store : List Entry}

lemma append (h : Represents db store) (new : List Entry) :
    Represents (db.append new) (store ++ new) := by
  constructor
  · rw [EntryDB.append, h.data_eq, fileBytes_append]
    rfl
  · grind [EntryDB.append, h.last_eq, EntryStore.lastEntryIdx, length_append]

lemma truncate (h : Represents db store) {idx : ℤ} (hlow : -1 ≤ idx)
    (hhigh : idx ≤ db.lastEntryIdx) :
    Represents (db.truncate idx) (EntryStore.truncate idx store) := by
  have hnat : ((idx + 1) * entrySize).toNat = (idx + 1).toNat * entrySize := by grind
  constructor
  · rw [EntryDB.truncate, h.data_eq, hnat, take_fileBytes]
    rfl
  · rw [h.last_eq, EntryStore.lastEntryIdx] at hhigh
    change idx = EntryStore.lastEntryIdx (store.take (idx + 1).toNat)
    rw [EntryStore.lastEntryIdx, length_take]
    omega

lemma filterMap_getElem?_range {α : Type} (xs : List α) :
    (range xs.length).filterMap (fun i => xs[i]?) = xs := by
  induction xs using reverseRecOn with
  | nil => rfl
  | append_singleton xs x ih =>
    have hold : ∀ i ∈ range xs.length, (xs ++ [x])[i]? = xs[i]? :=
      fun i hi => getElem?_append_left (mem_range.mp hi)
    rw [length_append, length_singleton, range_succ, filterMap_append,
      filterMap_congr hold, ih, filterMap_cons, getElem?_concat_length]
    rfl

lemma entries_eq (h : Represents db store) : db.entries = store := by
  have hsize : db.size.toNat = store.length := by
    rw [EntryDB.size, h.last_eq, EntryStore.lastEntryIdx]
    omega
  have hread : ∀ i ∈ range store.length, (db.read (i : ℤ)).toOption = store[i]? := by
    intro i hi
    have hlt := mem_range.mp hi
    have hdata := h.data_eq.trans (append_nil _).symm
    rw [EntryDB.read_eq hdata h.last_eq, EntryStore.read, EntryStore.lastEntryIdx,
      if_neg (by omega), Int.toNat_natCast, getElem?_eq_getElem hlt]
    rfl
  rw [EntryDB.entries, hsize, filterMap_congr hread, filterMap_getElem?_range]

end Represents

/-- Opening the first `n` bytes of a file gives the entries that are completely there. -/
theorem represents_newEntryDB (store : List Entry) (n : ℕ) :
    Represents (EntryDB.newEntryDB ((fileBytes store).take n)) (store.take (n / entrySize)) := by
  obtain ⟨size, hsize⟩ : ∃ size, size = ((fileBytes store).take n).length / entrySize := ⟨_, rfl⟩
  have hdiv : size = min n (store.length * 24) / 24 := by
    rw [hsize, length_take, length_fileBytes]
  have hcut : store.take (n / entrySize) = store.take size := by grind [take_eq_take_iff]
  have hle : size * 24 ≤ n ∧ size ≤ store.length := by omega
  have htake : ((fileBytes store).take n).take (size * entrySize) = fileBytes (store.take size) := by
    rw [take_take, min_eq_left hle.1, take_fileBytes]
  have hlast : ((size : ℕ) : ℤ) - 1 = EntryStore.lastEntryIdx (store.take size) := by
    rw [EntryStore.lastEntryIdx, length_take, min_eq_left hle.2]
  rw [hcut, EntryDB.newEntryDB, ← hsize]
  split
  · refine ⟨?_, hlast⟩
    have hnat : (((size : ℕ) : ℤ) - 1 + 1) * entrySize = ((size * entrySize : ℕ) : ℤ) := by
      push_cast
      ring
    change ((fileBytes store).take n).take ((((size : ℕ) : ℤ) - 1 + 1) * entrySize).toNat = _
    rw [hnat, Int.toNat_natCast, htake]
  · rename_i heq
    refine ⟨?_, hlast⟩
    rw [← htake, not_not.mp heq, take_length]

/-! ## Failing writes -/

/-- What fails in a call of `Append`: the truncation before the write, the write after some bytes, and
the truncation after it. -/
structure Faults where
  cleanup : Bool
  write : Option ℕ
  rollback : Bool

inductive FileCall where
  | append (entries : List Entry) (faults : Faults)
  | truncate (idx : ℤ) (fails : Bool)

/-- `EntryDB` on a file whose writes may fail. -/
structure FaultyDB extends EntryDB where
  cleanupFailedWrite : Bool

namespace FaultyDB

/-- `Truncate`, which extends a shorter file by zeros. -/
def truncate (idx : ℤ) (fails : Bool) (db : FaultyDB) : Option FaultyDB :=
  if fails ∨ idx < -1 then none
  else some ⟨⟨takePad ((idx + 1) * entrySize).toNat db.data, idx⟩, false⟩

/-- `Append`, and whether it succeeds. -/
def append (entries : List Entry) (faults : Faults) (db : FaultyDB) : FaultyDB × Bool :=
  match if db.cleanupFailedWrite then db.truncate db.lastEntryIdx faults.cleanup else some db with
  | none => (db, false)
  | some db =>
    match faults.write with
    | none => ({ db with toEntryDB := db.toEntryDB.append entries }, true)
    | some n =>
      let written := (fileBytes entries).take n
      if written = [] then (db, false)
      else
        let db := { db with data := db.data ++ written }
        match db.truncate db.lastEntryIdx faults.rollback with
        | some db => (db, false)
        | none => ({ db with cleanupFailedWrite := true }, false)

/-- A call on a database and the entries that the successful calls have left. -/
def exec : FileCall → FaultyDB × List Entry → Except DBError (FaultyDB × List Entry)
  | .append entries faults, (db, store) =>
    let r := db.append entries faults
    .ok (r.1, if r.2 then store ++ entries else store)
  | .truncate idx fails, (db, store) =>
    match db.truncate idx fails with
    | some db => .ok (db, EntryStore.truncate idx store)
    | none => .ok (db, store)

/-- A truncation does not go beyond the last entry. -/
def Within : FileCall → FaultyDB × List Entry → Prop
  | .truncate idx false, (db, _) => idx ≤ db.lastEntryIdx
  | _, _ => True

/-- The file begins with the entries of a store, and nothing is behind them unless it is to be
removed. -/
structure Begins (db : FaultyDB) (store : List Entry) : Prop where
  data_eq : ∃ junk, db.data = fileBytes store ++ junk ∧ (db.cleanupFailedWrite = false → junk = [])
  last_eq : db.lastEntryIdx = EntryStore.lastEntryIdx store

variable {db db' : FaultyDB} {store : List Entry} {idx : ℤ} {fails : Bool}

lemma begins_of_represents (h : Represents db.toEntryDB store) : Begins db store :=
  ⟨⟨[], h.data_eq.trans (append_nil _).symm, fun _ => rfl⟩, h.last_eq⟩

lemma Begins.truncate (h : Begins db store) (hidx : idx ≤ db.lastEntryIdx)
    (htrunc : db.truncate idx fails = some db') :
    Represents db'.toEntryDB (EntryStore.truncate idx store) := by
  unfold FaultyDB.truncate at htrunc
  split at htrunc <;> cases htrunc
  rename_i hcond
  obtain ⟨junk, hdata, -⟩ := h.data_eq
  have hrep := @Represents.truncate ⟨fileBytes store, db.lastEntryIdx⟩ store ⟨rfl, h.last_eq⟩ idx
    (not_lt.mp fun hlow => hcond (.inr hlow)) hidx
  have hle : ((idx + 1) * entrySize).toNat ≤ (fileBytes store).length := by
    grind [h.last_eq, EntryStore.lastEntryIdx, length_fileBytes]
  refine ⟨?_, hrep.last_eq⟩
  rw [hdata, takePad_of_le (by rw [length_append]; omega), take_append_of_le_length hle]
  exact hrep.data_eq

lemma Begins.truncate_last (h : Begins db store)
    (htrunc : db.truncate db.lastEntryIdx fails = some db') : Represents db'.toEntryDB store := by
  have hcut := h.truncate le_rfl htrunc
  rwa [h.last_eq, EntryStore.truncate, EntryStore.lastEntryIdx, sub_add_cancel, Int.toNat_natCast,
    take_length] at hcut

lemma Begins.append (h : Begins db store) (entries : List Entry) (faults : Faults) :
    let r := db.append entries faults
    Begins r.1 (if r.2 then store ++ entries else store) := by
  have hclean : ∀ db₁, (if db.cleanupFailedWrite then db.truncate db.lastEntryIdx faults.cleanup
      else some db) = some db₁ → Represents db₁.toEntryDB store := by
    intro db₁ hdb
    split at hdb
    · exact h.truncate_last hdb
    · rename_i hflag
      cases hdb
      obtain ⟨junk, hdata, hjunk⟩ := h.data_eq
      rw [hjunk (Bool.eq_false_iff.mpr hflag), append_nil] at hdata
      exact ⟨hdata, h.last_eq⟩
  unfold FaultyDB.append
  split
  · exact h
  · rename_i db₁ hdb
    have hrep := hclean db₁ hdb
    split
    · exact begins_of_represents (hrep.append entries)
    · dsimp only
      split
      · exact begins_of_represents hrep
      · -- part of the entries is in the file
        have hpart (junk : Bytes) : Begins ⟨⟨db₁.data ++ junk, _⟩, true⟩ store :=
          ⟨⟨junk, congrArg (· ++ junk) hrep.data_eq, nofun⟩, hrep.last_eq⟩
        split
        · rename_i htrunc
          exact begins_of_represents ((hpart _).truncate_last htrunc)
        · exact hpart _

lemma Begins.exec {call : FileCall} {s s' : FaultyDB × List Entry} (h : Begins s.1 s.2)
    (hwithin : Within call s) (hexec : FaultyDB.exec call s = .ok s') : Begins s'.1 s'.2 := by
  unfold FaultyDB.exec at hexec
  split at hexec
  · cases hexec
    exact h.append _ _
  · rename_i fails _ _
    split at hexec <;> cases hexec
    · rename_i htrunc
      cases fails with
      | false => exact begins_of_represents (h.truncate hwithin htrunc)
      | true => cases htrunc
    · exact h

end FaultyDB

/-- Whatever fails, as long as no truncation goes beyond the last entry, what is read are the entries
that the successful calls have left. -/
theorem reads_appended {db : EntryDB} {store : List Entry} (hrep : Represents db store)
    (calls : List FileCall)
    (hcalls : AllMeet FaultyDB.exec FaultyDB.Within calls (⟨db, false⟩, store)) (idx : ℤ) :
    let s := runAll FaultyDB.exec calls (⟨db, false⟩, store)
    s.1.read idx = EntryStore.read s.2 idx := by
  intro s
  have hs : s.1.Begins s.2 := runAll_inv_of_allMeet (P := fun s => FaultyDB.Begins s.1 s.2)
    (fun _ _ _ h hwithin hexec => h.exec hwithin hexec) (FaultyDB.begins_of_represents hrep) hcalls
  obtain ⟨junk, hdata, -⟩ := hs.data_eq
  exact EntryDB.read_eq hdata hs.last_eq idx

theorem reads_appended_after_failure :
    let entry (b : UInt8) : Entry := ⟨replicate 24 b, length_replicate⟩
    (runAll FaultyDB.exec [.append [entry 1] ⟨false, some 7, true⟩,
      .append [entry 2] ⟨false, none, false⟩] (⟨⟨[], -1⟩, false⟩, [])).1.read 0 = .ok (entry 2) :=
  reads_appended ⟨rfl, rfl⟩ [.append _ _, .append _ _] ⟨trivial, trivial, trivial⟩ 0

/-- A truncation beyond the end makes an entry that was never appended. -/
theorem truncate_adds_entry :
    (runAll FaultyDB.exec [.truncate 0 false] (⟨⟨[], -1⟩, false⟩, [])).1.read 0 =
      .ok ⟨replicate 24 0, rfl⟩ := by
  decide

/-! ## Opening what is left of a file -/

namespace DB

def file (db : DB) : Bytes := fileBytes db.store

/-- `NewFromFile`, for the content of the file. -/
def newFromFile (file : Bytes) : Except DBError DB :=
  newFromEntryStore (EntryDB.newEntryDB file).entries

end DB

variable {logs : List LogRecord} {pre : LogContext} {db : DB} {r u : LogRecord} {n : ℕ}

lemma Stores.length_file (h : Stores db logs) : db.file.length = endOf 0 logs * entrySize := by
  rw [file, length_fileBytes, h.length_store]

/-- What a crash leaves of a file is opened as the database with the logs `xs` that are completely
there; of the first log behind them something is missing. -/
theorem Stores.recovers (h : Stores db logs) (n : ℕ) :
    ∃ xs ys db', logs = xs ++ ys ∧ DB.newFromFile (db.file.take n) = .ok db' ∧ Holds db' xs ∧
      endOf 0 xs * entrySize ≤ n ∧ ∀ r ∈ ys.head?, n < endOf 0 (xs ++ [r]) * entrySize := by
  have hopen : ∀ db', init ⟨db.store.take (n / entrySize), ⟨0, 0⟩⟩ = .ok db' →
      newFromFile (db.file.take n) = .ok db' := by
    intro db' hinit
    rw [newFromFile, file, (represents_newEntryDB db.store n).entries_eq,
      newFromEntryStore, hinit]
    rfl
  by_cases hq : n / entrySize < endOf 0 logs
  · obtain ⟨xs, r, ys, howner⟩ := exists_owner hq
    have hacc : Accepts 0 ⟨0, 0⟩ xs := by
      have hall := h.accepts
      rw [howner.split] at hall
      exact (accepts_append.mp hall).1
    have hsto : Stores ⟨db.store, ⟨0, 0⟩⟩ logs := ⟨h.store_eq, h.accepts⟩
    have htrunc := wrapError_eq_ok.mp (hsto.truncateTo howner)
    have hidx : ((n / entrySize : ℕ) : ℤ) - 1 + 1 = ((n / entrySize : ℕ) : ℤ) := sub_add_cancel _ _
    rw [EntryStore.truncate, hidx] at htrunc
    refine ⟨xs, r :: ys, _, howner.split, hopen _ htrunc, ⟨⟨rfl, hacc⟩, rfl⟩, ?_, ?_⟩
    · have hle := howner.le
      exact (Nat.le_div_iff_mul_le (by decide)).mp hle
    · intro s hs
      cases hs
      have hlt := howner.lt
      rw [endOf_append]
      exact (Nat.div_lt_iff_lt_mul (by decide)).mp hlt
  · have hge : endOf 0 logs ≤ n / entrySize := le_of_not_gt hq
    have htake : db.store.take (n / entrySize) = db.store :=
      take_of_length_le (by rw [h.length_store]; exact hge)
    have hholds : Holds ⟨db.store, headContext ⟨0, 0⟩ logs⟩ logs := ⟨⟨h.store_eq, h.accepts⟩, rfl⟩
    have hinit := wrapError_eq_ok.mp hholds.newFromEntryStore
    refine ⟨logs, [], _, (append_nil _).symm, hopen _ (by rw [htake]; exact hinit), hholds, ?_,
      fun r hr => by cases hr⟩
    exact (Nat.le_div_iff_mul_le (by decide)).mp hge

/-! ## The logs after a crash -/

/-- A log is found at its position, with its message and its hash. -/
def Retrievable (db : DB) (r : LogRecord) : Prop :=
  db.executes r.blockNum r.logIdx = .ok (r.execMsg.getD .empty) ∧
    ∀ logHash, db.contains r.blockNum r.logIdx logHash = .ok (decide (r.logHash = logHash))

lemma Stores.retrievable (h : Stores db logs) (hsorted : Ascending logs) (hr : r ∈ logs)
    (hmsg : ∀ msg ∈ r.execMsg, msg.logIdx.toNat < 2 ^ 24) : Retrievable db r := by
  have hrec := hsorted.recorded_of_mem hr
  have hexec := h.executes hsorted r.blockNum r.logIdx
  have hcont := h.contains hsorted r.blockNum r.logIdx
  rw [LogRecord.context] at hrec
  simp only [hrec] at hexec hcont
  rw [LogRecord.executing_eq hmsg] at hexec
  exact ⟨hexec, hcont⟩

/-- The log that comes next when the logs `xs` of `xs ++ ys` are left: the one that followed them, or
the next one of the same block. -/
def IsNext (xs ys : List LogRecord) (r : LogRecord) : Prop :=
  ys.head? = some r ∨ ∃ u ∈ xs.getLast?, r.blockNum = u.blockNum ∧
    r.logIdx.toNat = u.logIdx.toNat + 1 ∧ ∀ msg ∈ r.execMsg, msg.logIdx.toNat < 2 ^ 24

lemma follows_next (hpos : u.blockNum ≠ 0) (hpre : pre = u.context)
    (hblock : r.blockNum = u.blockNum) (hidx : r.logIdx.toNat = u.logIdx.toNat + 1)
    (hmsg : ∀ msg ∈ r.execMsg, msg.logIdx.toNat < 2 ^ 24) :
    Follows n pre r ∧ pre.key < r.context.key := by
  have hsucc : r.logIdx = u.logIdx + 1 := by
    have hlt := r.logIdx.toNat_lt
    rw [← UInt32.toNat_inj, hidx]
    exact (Nat.mod_eq_of_lt (by omega)).symm
  rw [hpre]
  refine ⟨⟨hblock ▸ hpos, .inl ⟨hblock, hsucc⟩, .inr ?_, ?_⟩, ?_⟩
  · rw [hblock]
    change ¬255 < u.blockNum - u.blockNum
    rw [UInt64.sub_self]
    decide
  · intro msg hm
    have hlt := hmsg msg hm
    exact not_lt.mpr (le_of_lt hlt)
  · rw [LogContext.key_lt_iff]
    refine .inr ⟨hblock.symm, ?_⟩
    change u.logIdx.toNat < r.logIdx.toNat
    omega

lemma headContext_of_getLast? (h : u ∈ logs.getLast?) (pre : LogContext) :
    headContext pre logs = u.context := by
  obtain ⟨front, rfl⟩ := getLast?_eq_some_iff.mp h
  exact headContext_append_singleton ..

lemma Accepts.blockNum_ne_zero (h : Accepts n pre logs) : ∀ r ∈ logs, r.blockNum ≠ 0 := by
  induction logs generalizing n pre with
  | nil => exact fun r hr => nomatch hr
  | cons s rs ih => exact forall_mem_cons.mpr ⟨h.1.pos, ih h.2⟩

lemma Accepts.link (h : Accepts n pre logs) :
    ∀ r ∈ logs, ∀ msg ∈ r.execMsg, ¬(1 : UInt32) <<< 24 < msg.logIdx := by
  induction logs generalizing n pre with
  | nil => exact fun r hr => nomatch hr
  | cons s rs ih => exact forall_mem_cons.mpr ⟨h.1.link, ih h.2⟩

lemma Holds.next {xs ys : List LogRecord} (h : Holds db xs)
    (hacc : Accepts 0 ⟨0, 0⟩ (xs ++ ys)) (hsorted : Ascending (xs ++ ys)) (hnext : IsNext xs ys r) :
    Follows db.store.length db.lastEntryContext r ∧ Ascending (xs ++ [r]) := by
  rw [h.length_store, h.head_eq]
  rcases hnext with hhead | ⟨u, hu, hblock, hidx, hmsg⟩
  · obtain ⟨rs, rfl⟩ := head?_eq_some_iff.mp hhead
    rw [append_cons] at hsorted
    exact ⟨(accepts_append.mp hacc).2.1, (pairwise_append.mp hsorted).1⟩
  · have hpre := headContext_of_getLast? hu ⟨0, 0⟩
    have hpos := h.accepts.blockNum_ne_zero u (mem_of_getLast? hu)
    obtain ⟨hfol, hlt⟩ := follows_next hpos hpre hblock hidx hmsg
    exact ⟨hfol, Ascending.append (pairwise_append.mp hsorted).1 hlt⟩

lemma holds_of_accepts (h : Accepts 0 ⟨0, 0⟩ logs) :
    Holds (runAll exec (logs.map .addLog) empty) logs := by
  induction logs using reverseRecOn with
  | nil => exact holds_empty
  | append_singleton logs r ih =>
    obtain ⟨hlogs, hr, -⟩ := accepts_append.mp h
    have hholds := ih hlogs
    rw [← hholds.length_store, ← hholds.head_eq] at hr
    have hadd := addLog_eq_ok.mpr ⟨hr, rfl⟩
    rw [map_append, map_singleton, runAll_append, runAll_cons, (accepted_addLog hadd).1]
    exact hholds.addLog hadd

/-- After any run of `AddLog` calls without an overflow and without a message that has the log index
`2 ^ 24`, any number of bytes that a crash leaves of the file is opened.  The database contains the
logs `xs` whose entries are completely there, and it accepts and finds the log that comes next. -/
theorem crash_recovery {ops : List Op}
    (hops : ∀ op ∈ ops, ∃ r, op = .addLog r ∧ ∀ msg ∈ r.execMsg, msg.logIdx ≠ (1 : UInt32) <<< 24)
    (hmeet : Run.AllMeet exec NoOverflow ops empty) (n : ℕ) :
    ∃ xs ys db, accepted ops empty = xs ++ ys ∧
      DB.newFromFile ((runAll exec ops empty).file.take n) = .ok db ∧
      ((runAll exec (xs.map .addLog) empty).file.length ≤ n ∧ ∀ r ∈ ys.head?,
        n < (runAll exec ((xs ++ [r]).map .addLog) empty).file.length) ∧
      (∀ r ∈ xs, Retrievable db r) ∧
      (∀ blockNum logIdx, (∀ r ∈ xs, r.context ≠ ⟨blockNum, logIdx⟩) →
        db.executes blockNum logIdx = .error .notFound ∧
        ∀ logHash, db.contains blockNum logIdx logHash = .ok false) ∧
      ∀ r, IsNext xs ys r → ∃ db', db.addLog r = .ok db' ∧ Retrievable db' r := by
  have hadds : ∀ op ∈ ops, op.Adds := by
    intro op hop
    obtain ⟨r, rfl, -⟩ := hops op hop
    trivial
  have hholds := run_holds hadds holds_empty
  have hsorted := run_ascending hadds holds_empty Pairwise.nil hmeet
  rw [nil_append] at hholds hsorted
  have hsmall : ∀ r ∈ accepted ops empty, ∀ msg ∈ r.execMsg, msg.logIdx.toNat < 2 ^ 24 := by
    intro r hr msg hmsg
    obtain ⟨s, hs, hne⟩ := hops _ (mem_ops_of_accepted hr)
    cases hs
    have hle := hholds.accepts.link r hr msg hmsg
    have hne := mt UInt32.toNat_inj.mp (hne msg hmsg)
    change ¬2 ^ 24 < msg.logIdx.toNat at hle
    change msg.logIdx.toNat ≠ 2 ^ 24 at hne
    omega
  obtain ⟨xs, ys, db, hsplit, hopen, hxs, hlow, hhigh⟩ := hholds.recovers n
  rw [hsplit] at hsorted hsmall
  have hacc := hholds.accepts
  rw [hsplit] at hacc
  have hxsorted : Ascending xs := (pairwise_append.mp hsorted).1
  refine ⟨xs, ys, db, hsplit, hopen, ⟨?_, ?_⟩, ?_, ?_, ?_⟩
  · rwa [(holds_of_accepts hxs.accepts).length_file]
  · intro r hr
    obtain ⟨rs, rfl⟩ := head?_eq_some_iff.mp hr
    rw [append_cons] at hacc
    rw [(holds_of_accepts (accepts_append.mp hacc).1).length_file]
    exact hhigh r hr
  · exact fun r hr => hxs.retrievable hxsorted hr (hsmall r (mem_append_left _ hr))
  · intro blockNum logIdx hnone
    exact ⟨(hxs.executes_notFound_iff hxsorted blockNum logIdx).mpr hnone,
      (hxs.contains_false_iff hxsorted blockNum logIdx).mpr hnone⟩
  · intro r hnext
    obtain ⟨hfol, hrsorted⟩ := hxs.next hacc hsorted hnext
    have hadd := addLog_eq_ok.mpr ⟨hfol, rfl⟩
    refine ⟨_, hadd, (hxs.addLog hadd).retrievable hrsorted (by simp) ?_⟩
    rcases hnext with hhead | ⟨u, -, -, -, hmsg⟩
    · exact hsmall r (mem_append_right _ (mem_of_mem_head? hhead))
    · exact hmsg

/-- Two logs, the second of which executes a message. -/
def crashOps : List Op :=
  [.addLog (sampleLog 50 0 none), .addLog (sampleLog 50 1 (some sampleMessage))]

/-- When a crash leaves 100 bytes of the file, the first log is found, and the second one is accepted
and found again. -/
theorem crash_recovery_second_log_cut : ∃ db db',
    DB.newFromFile ((runAll exec crashOps empty).file.take 100) = .ok db ∧
      Retrievable db (sampleLog 50 0 none) ∧
      db.addLog (sampleLog 50 1 (some sampleMessage)) = .ok db' ∧
      Retrievable db' (sampleLog 50 1 (some sampleMessage)) := by
  have hops : ∀ op ∈ crashOps, ∃ r, op = .addLog r ∧
      ∀ msg ∈ r.execMsg, msg.logIdx ≠ (1 : UInt32) <<< 24 := by
    have hne : (3 : UInt32) ≠ (1 : UInt32) <<< 24 := by decide
    simpa [crashOps, sampleLog, sampleMessage] using hne
  have hmeet : AllMeet exec NoOverflow crashOps empty := by decide
  obtain ⟨xs, ys, db, hsplit, hopen, ⟨hlow, hhigh⟩, hfound, -, hnext⟩ := crash_recovery hops hmeet 100
  -- The file of the first log has 72 bytes, the one of both logs 144.
  rcases xs with _ | ⟨r, _ | ⟨s, xs⟩⟩
  · obtain rfl := hsplit
    exact absurd (hhigh _ rfl) (by decide)
  · cases hsplit
    obtain ⟨db', hadd, hfound'⟩ := hnext _ (.inl rfl)
    exact ⟨db, db', hopen, hfound _ mem_cons_self, hadd, hfound'⟩
  · obtain ⟨rfl, hrest⟩ := cons.inj hsplit
    obtain ⟨rfl, hnil⟩ := cons.inj hrest
    rw [(append_eq_nil_iff.mp hnil.symm).1] at hlow
    exact absurd hlow (by decide +kernel)

lemma Holds.newFromFile (h : Holds db logs) : DB.newFromFile db.file = .ok db := by
  have hents := (represents_newEntryDB db.store db.file.length).entries_eq
  have hall : db.file.length / entrySize = db.store.length := by simp [file, length_fileBytes]
  rw [hall, take_length, ← file, take_length] at hents
  rw [DB.newFromFile, hents, h.newFromEntryStore]

/-- When the position of a numbered log is the one of the first log, a crash that leaves the logs before
it keeps the database from finding both. -/
theorem numberedLog_not_retrievable {k : ℕ} (hsame : (numberedLog k).context = (numberedLog 0).context)
    (hne : (numberedLog k).logHash ≠ (numberedLog 0).logHash) :
    ∃ n db db', DB.newFromFile ((runAll exec (numberedOps (k + 1)) empty).file.take n) = .ok db ∧
      db.addLog (numberedLog k) = .ok db' ∧
      ¬(Retrievable db' (numberedLog 0) ∧ Retrievable db' (numberedLog k)) := by
  obtain ⟨hholds, db, hadd⟩ := addLog_numberedLog (accepted_numberedOps k)
  refine ⟨(runAll exec (numberedOps k) empty).file.length, _, db, ?_, hadd, ?_⟩
  · rw [numberedOps_succ, runAll_append, runAll_cons, (accepted_addLog hadd).1,
      (addLog_eq_ok.mp hadd).2]
    change newFromFile ((fileBytes (_ ++ _)).take _) = _
    rw [fileBytes_append, ← file, take_left', hholds.newFromFile]
    rfl
  · rintro ⟨hfirst, hlast⟩
    have hblock : (numberedLog k).blockNum = (numberedLog 0).blockNum :=
      congrArg LogContext.blockNum hsame
    have hidx : (numberedLog k).logIdx = (numberedLog 0).logIdx := congrArg LogContext.logIdx hsame
    have hone := hfirst.2 (numberedLog 0).logHash
    have htwo := hlast.2 (numberedLog 0).logHash
    rw [hblock, hidx, hone, decide_eq_false hne] at htwo
    cases htwo

/-- A log whose message has the log index `2 ^ 24`. -/
def wideLog : LogRecord := sampleLog 1 0 (some { sampleMessage with logIdx := (1 : UInt32) <<< 24 })

/-- Nothing is left of a file with this log; it is accepted again, but its message has the log index
0 when it is read.  And nothing is left of the last of `2 ^ 32 + 1` logs of a block; it is accepted
again with log index 0, and the database finds at most one of the two logs with this index. -/
theorem next_log_not_retrievable :
    (∃ db db', DB.newFromFile ((runAll exec [.addLog wideLog] empty).file.take 0) = .ok db ∧
      db.addLog wideLog = .ok db' ∧ ¬Retrievable db' wideLog) ∧
    ∃ n db db', DB.newFromFile
        ((runAll exec (numberedOps (2 ^ 32 + 1)) empty).file.take n) = .ok db ∧
      db.addLog (numberedLog (2 ^ 32)) = .ok db' ∧
      ¬(Retrievable db' (numberedLog 0) ∧ Retrievable db' (numberedLog (2 ^ 32))) := by
  constructor
  · refine ⟨⟨[], ⟨0, 0⟩⟩, attempt exec (.addLog wideLog) empty, by decide,
      by decide, fun h => ?_⟩
    exact absurd h.1 (by decide)
  · exact numberedLog_not_retrievable (by decide) (by decide)

end FightNight.Supervisor
