import Mathlib.Data.List.MinMax
import FightNight.Node.BlockRef

/-!
# The database of safe heads

`op-node/node/safedb/safedb.go` records which L2 block was safe once an L1 block had been processed;
the number of the L1 block is the key.  A reset searches from the L1 origin of the new safe head on
for the first entry that had reached that head, removes the entries from there on, and puts the new
head in the place of the first of them.  The iterators and the removal leave out the largest key.
-/

namespace FightNight.Node

open List

structure SafeEntry where
  l1 : BlockID
  l2 : BlockID
  deriving DecidableEq

def SafeEntry.key (e : SafeEntry) : ℕ := e.l1.number

/-- The entries; no two have the same key. -/
abbrev SafeDB := List SafeEntry

namespace SafeDB

/-- `Max`. -/
def maxKey : ℕ := 2 ^ 64 - 1

/-- The entries that an iterator finds between two keys. -/
def iterRange (lower upper : ℕ) (db : SafeDB) : List SafeEntry :=
  db.filter fun e => lower ≤ e.key ∧ e.key < upper ∧ e.key < maxKey

def set (e : SafeEntry) (db : SafeDB) : SafeDB := e :: db.filter fun d => d.key ≠ e.key

def deleteRange (key : ℕ) (db : SafeDB) : SafeDB :=
  db.filter fun d => d.key < key ∨ maxKey ≤ d.key

def safeHeadUpdated (safeHead : L2BlockRef) (l1Head : BlockID) (db : SafeDB) : SafeDB :=
  db.set ⟨l1Head, safeHead.hash, safeHead.number⟩

/-- The entries that had reached a safe head, from its L1 origin on. -/
def reached (safeHead : L2BlockRef) (db : SafeDB) : List SafeEntry :=
  (db.iterRange safeHead.l1Origin.number maxKey).filter fun e => safeHead.number ≤ e.l2.number

def safeHeadReset (safeHead : L2BlockRef) (db : SafeDB) : SafeDB :=
  match (db.reached safeHead).argmin SafeEntry.key with
  | none => db
  | some e =>
    let hasPrevEntry := db.iterRange 0 e.key ≠ []
    if hasPrevEntry then (db.deleteRange e.key).set ⟨e.l1, safeHead.hash, safeHead.number⟩
    else db.deleteRange e.key

inductive Call where
  | updated (safeHead : L2BlockRef) (l1Head : BlockID)
  | reset (safeHead : L2BlockRef)

def Call.safeHead : Call → L2BlockRef
  | .updated safeHead _ => safeHead
  | .reset safeHead => safeHead

def exec (db : SafeDB) : Call → SafeDB
  | .updated safeHead l1Head => db.safeHeadUpdated safeHead l1Head
  | .reset safeHead => db.safeHeadReset safeHead

/-- The database after some calls. -/
def run (calls : List Call) : SafeDB := calls.foldl exec []

/-! ## What a reset does -/

variable {db : SafeDB} {safeHead : L2BlockRef} {calls : List Call} {e : SafeEntry} {upper : ℕ}

/-- Every entry is about the safe head of a call, whose origin is not after the L1 block. -/
def Recorded (calls : List Call) (db : SafeDB) : Prop :=
  ∀ e ∈ db, e.key < maxKey ∧
    ∃ c ∈ calls, e.l2.number = c.safeHead.number ∧ c.safeHead.l1Origin.number ≤ e.key

end SafeDB

end FightNight.Node
