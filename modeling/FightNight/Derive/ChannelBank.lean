import FightNight.Derive.Channel

/-!
# The channel bank

The stage that collects frames into channels (`op-node/rollup/derive/channel_bank.go`).  It keeps
the channels by identifier and a queue of the identifiers in the order in which the channels were
opened.  Pruning, timeouts and reading each remove a channel from both, at the head of the queue
or, since Canyon, anywhere in it.

An operation has no result when it panics: on the head of an empty queue, or on an identifier in
the queue without channel.  Neither happens, because the queue and the map always have the same
identifiers.
-/

namespace FightNight.Derive

open Option
open List hiding getElem?_eq_some_iff

/-- The part of the chain configuration that the channel bank looks at. -/
structure ChainSpec where
  canyonTime : Option ℕ
  fjordTime : Option ℕ
  channelTimeout : ℕ

namespace ChainSpec

/-- Whether a fork is active at a time: `IsCanyon` and `IsFjord`. -/
def isActive (forkTime : Option ℕ) (t : ℕ) : Bool :=
  match forkTime with
  | none => false
  | some time => decide (time ≤ t)

def isCanyon (spec : ChainSpec) (t : ℕ) : Bool := isActive spec.canyonTime t

def isFjord (spec : ChainSpec) (t : ℕ) : Bool := isActive spec.fjordTime t

def maxChannelBankSize (spec : ChainSpec) (t : ℕ) : ℕ :=
  if spec.isFjord t then 1000000000 else 100000000

end ChainSpec

structure ChannelBank where
  channels : FinMap ChannelID Channel
  channelQueue : List ChannelID
  deriving DecidableEq

/-- The results of `Read`. -/
inductive ReadResult where
  | eof
  /-- No data and no error: a channel was dropped. -/
  | skipped
  | data (data : Bytes)
  deriving DecidableEq

def newChannelBank : ChannelBank := ⟨∅, []⟩

namespace ChannelBank

def timedOut (spec : ChainSpec) (origin : L1BlockRef) (ch : Channel) : Prop :=
  (ch.openBlock.number + spec.channelTimeout) % 2 ^ 64 < origin.number

instance timedOut.decidable (spec : ChainSpec) (origin : L1BlockRef) (ch : Channel) :
    Decidable (timedOut spec origin ch) := inferInstanceAs (Decidable (_ < _))

/-- The sum of `Size()` over the channels. -/
def totalSize (cb : ChannelBank) : ℕ := (cb.channels.values.map Channel.size).sum

/-- The loop of `prune`. -/
def pruneLoop (limit : ℕ) : List ChannelID → FinMap ChannelID Channel → ℕ → Option ChannelBank
  | [], channels, totalSize => if limit < totalSize then none else some ⟨channels, []⟩
  | id :: queue, channels, totalSize =>
    if limit < totalSize then do
      let ch ← channels.lookup id
      pruneLoop limit queue (channels.erase id) (totalSize - ch.size)
    else some ⟨channels, id :: queue⟩

def prune (spec : ChainSpec) (origin : L1BlockRef) (cb : ChannelBank) : Option ChannelBank :=
  pruneLoop (spec.maxChannelBankSize origin.time) cb.channelQueue cb.channels cb.totalSize

/-- The start of `IngestFrame`: there is a channel for the frame. -/
def ensureChannel (origin : L1BlockRef) (id : ChannelID) (cb : ChannelBank) : ChannelBank :=
  if id ∈ cb.channels then cb
  else ⟨cb.channels.insert id (newChannel id origin), cb.channelQueue ++ [id]⟩

def ingestFrame (spec : ChainSpec) (origin : L1BlockRef) (f : Frame) (cb : ChannelBank) :
    Option ChannelBank := do
  let cb := cb.ensureChannel origin f.id
  let currentCh ← cb.channels.lookup f.id
  if timedOut spec origin currentCh then some cb
  else
    match currentCh.addFrame f origin with
    | .error _ => some cb
    | .ok currentCh => prune spec origin { cb with channels := cb.channels.insert f.id currentCh }

def tryReadChannelAtIndex (spec : ChainSpec) (origin : L1BlockRef) (i : ℕ) (cb : ChannelBank) :
    Option (ReadResult × ChannelBank) := do
  let chanID ← cb.channelQueue[i]?
  let ch ← cb.channels.lookup chanID
  if timedOut spec origin ch ∨ ch.isReady = false then some (.eof, cb)
  else do
    let data ← ch.reader
    some (.data data, ⟨cb.channels.erase chanID, cb.channelQueue.eraseIdx i⟩)

/-- The loop of `Read` over the indices of the queue. -/
def readLoop (spec : ChainSpec) (origin : L1BlockRef) (cb : ChannelBank) :
    List ℕ → Option (ReadResult × ChannelBank)
  | [] => some (.eof, cb)
  | i :: is => do
    let (result, cb') ← cb.tryReadChannelAtIndex spec origin i
    match result with
    | .eof => readLoop spec origin cb is
    | result => some (result, cb')

def read (spec : ChainSpec) (origin : L1BlockRef) (cb : ChannelBank) :
    Option (ReadResult × ChannelBank) :=
  match cb.channelQueue with
  | [] => some (.eof, cb)
  | first :: queue => do
    let ch ← cb.channels.lookup first
    if timedOut spec origin ch then some (.skipped, ⟨cb.channels.erase first, queue⟩)
    else if spec.isCanyon origin.time then
      readLoop spec origin cb (range cb.channelQueue.length)
    else cb.tryReadChannelAtIndex spec origin 0

/-! ## The queue and the map -/

/-- The queue has the identifiers of the map, each of them once. -/
structure Consistent (cb : ChannelBank) : Prop where
  nodup : cb.channelQueue.Nodup
  mem_iff : ∀ id, id ∈ cb.channelQueue ↔ id ∈ cb.channels

lemma consistent_new : newChannelBank.Consistent :=
  ⟨nodup_nil, fun id => iff_of_false not_mem_nil (AList.notMem_empty id)⟩

variable {cb : ChannelBank} {channels : FinMap ChannelID Channel} {id : ChannelID}
  {queue : List ChannelID} {i : ℕ}

lemma Consistent.exists_lookup (h : cb.Consistent) (hid : id ∈ cb.channelQueue) :
    ∃ ch, cb.channels.lookup id = some ch :=
  isSome_iff_exists.mp (AList.lookup_isSome.mpr ((h.mem_iff id).mp hid))

lemma Consistent.ensureChannel (h : cb.Consistent) (origin : L1BlockRef) (id : ChannelID) :
    (cb.ensureChannel origin id).Consistent ∧
      id ∈ (cb.ensureChannel origin id).channelQueue := by
  rw [ChannelBank.ensureChannel]
  by_cases hid : id ∈ cb.channels
  · rw [if_pos hid]
    exact ⟨h, (h.mem_iff id).mpr hid⟩
  · rw [if_neg hid]
    have hnew : id ∉ cb.channelQueue := fun hmem => hid ((h.mem_iff id).mp hmem)
    refine ⟨⟨?_, fun i => ?_⟩, mem_append_right _ (mem_singleton_self id)⟩
    · exact h.nodup.append (nodup_singleton id) (disjoint_singleton.mpr hnew)
    · rw [mem_append, mem_singleton, h.mem_iff, AList.mem_insert, or_comm]

lemma Consistent.update (h : cb.Consistent) (hid : id ∈ cb.channelQueue) (ch : Channel) :
    Consistent { cb with channels := cb.channels.insert id ch } := by
  refine ⟨h.nodup, fun i => ?_⟩
  rw [AList.mem_insert, h.mem_iff]
  exact ⟨Or.inr, fun hi => hi.elim (fun heq => heq ▸ (h.mem_iff id).mp hid) (fun hi => hi)⟩

lemma Consistent.remove (h : cb.Consistent) (hi : cb.channelQueue[i]? = some id) :
    Consistent ⟨cb.channels.erase id, cb.channelQueue.eraseIdx i⟩ := by
  obtain ⟨hlt, hget⟩ := getElem?_eq_some_iff.mp hi
  have herase : cb.channelQueue.eraseIdx i = cb.channelQueue.erase id := by
    rw [← hget, h.nodup.erase_getElem]
  refine ⟨h.nodup.sublist (eraseIdx_sublist _ _), fun j => ?_⟩
  rw [herase, h.nodup.mem_erase_iff, AList.mem_erase, h.mem_iff]

lemma Consistent.tail (h : Consistent ⟨channels, id :: queue⟩) :
    Consistent ⟨channels.erase id, queue⟩ :=
  h.remove (i := 0) rfl

lemma Consistent.totalSize_nil (h : Consistent ⟨channels, []⟩) :
    totalSize ⟨channels, []⟩ = 0 := by
  have hkeys : channels.entries.map Sigma.fst = [] := eq_nil_iff_forall_not_mem.mpr fun id hid =>
    absurd ((h.mem_iff id).mpr (AList.mem_keys.mpr hid)) not_mem_nil
  rw [totalSize, FinMap.values, map_eq_nil_iff.mp hkeys]
  rfl

lemma totalSize_erase {queue' : List ChannelID} {ch : Channel}
    (hch : channels.lookup id = some ch) :
    totalSize ⟨channels, queue⟩ = ch.size + totalSize ⟨channels.erase id, queue'⟩ :=
  ((FinMap.values_perm hch).map Channel.size).sum_nat

lemma Consistent.pruneLoop (limit : ℕ) (h : Consistent ⟨channels, queue⟩) :
    ∃ cb, ChannelBank.pruneLoop limit queue channels (totalSize ⟨channels, queue⟩) = some cb ∧
      cb.Consistent ∧ cb.totalSize ≤ limit := by
  induction queue generalizing channels with
  | nil =>
    have hzero := h.totalSize_nil
    rw [pruneLoop, if_neg (by omega)]
    exact ⟨_, rfl, h, by omega⟩
  | cons id queue ih =>
    rw [pruneLoop]
    by_cases hlimit : limit < totalSize ⟨channels, id :: queue⟩
    · obtain ⟨ch, hch⟩ := h.exists_lookup mem_cons_self
      rw [if_pos hlimit, hch, bind_eq_bind, bind_some, totalSize_erase hch, Nat.add_sub_cancel_left]
      exact ih h.tail
    · grind

lemma Consistent.prune (h : cb.Consistent) (spec : ChainSpec) (origin : L1BlockRef) :
    ∃ cb', cb.prune spec origin = some cb' ∧ cb'.Consistent ∧
      cb'.totalSize ≤ spec.maxChannelBankSize origin.time :=
  pruneLoop _ h

lemma Consistent.ingestFrame (h : cb.Consistent) (spec : ChainSpec) (origin : L1BlockRef)
    (f : Frame) : ∃ cb', cb.ingestFrame spec origin f = some cb' ∧ cb'.Consistent := by
  obtain ⟨hopen, hmem⟩ := h.ensureChannel origin f.id
  obtain ⟨ch, hch⟩ := hopen.exists_lookup hmem
  rw [ChannelBank.ingestFrame, hch, bind_eq_bind, bind_some]
  by_cases htime : timedOut spec origin ch
  · grind
  · rw [if_neg htime]
    cases ch.addFrame f origin with
    | error e => exact ⟨_, rfl, hopen⟩
    | ok ch' =>
      obtain ⟨cb', hprune, hcb', -⟩ := (hopen.update hmem ch').prune spec origin
      exact ⟨cb', hprune, hcb'⟩

/-! ## Reading -/

/-- The channel at an index of the queue, if it can be read at an origin. -/
def candidate (spec : ChainSpec) (origin : L1BlockRef) (cb : ChannelBank) (i : ℕ) : Option Channel :=
  ((cb.channelQueue[i]?).bind fun id => cb.channels.lookup id).filter fun ch =>
    decide (¬ timedOut spec origin ch) && ch.isReady

/-- A read at an index returns the data of the channel there and removes it, if it can be read. -/
theorem Consistent.tryRead (h : cb.Consistent) (spec : ChainSpec) (origin : L1BlockRef)
    (hi : i < cb.channelQueue.length) :
    (cb.candidate spec origin i = none ∧
      cb.tryReadChannelAtIndex spec origin i = some (.eof, cb)) ∨
    ∃ ch data cb', cb.candidate spec origin i = some ch ∧ ch.reader = some data ∧
      cb.tryReadChannelAtIndex spec origin i = some (.data data, cb') ∧ cb'.Consistent := by
  have hget : cb.channelQueue[i]? = some cb.channelQueue[i] := getElem?_eq_getElem hi
  obtain ⟨ch, hch⟩ := h.exists_lookup (getElem_mem hi)
  rw [candidate, tryReadChannelAtIndex, hget, bind_eq_bind, bind_some, bind_some,
    hch, bind_eq_bind, bind_some]
  by_cases hcan : timedOut spec origin ch ∨ ch.isReady = false
  · left
    rw [if_pos hcan]
    refine ⟨filter_eq_none_iff.mpr fun ch' hch' => ?_, rfl⟩
    cases hch'
    rcases hcan with htime | hready
    · simp [htime]
    · simp [hready]
  · right
    obtain ⟨htime, hready⟩ := not_or.mp hcan
    have hready : ch.isReady = true := (Bool.not_eq_false _).mp hready
    have hrd := Channel.reader_of_isReady hready
    rw [if_neg hcan, hrd]
    refine ⟨ch, _, _, ?_, hrd, rfl, h.remove hget⟩
    exact filter_eq_some_iff.mpr ⟨rfl, by simp [htime, hready]⟩

/-- Which channel the data of a read is from. -/
structure ReadsFrom (spec : ChainSpec) (origin : L1BlockRef) (cb : ChannelBank) (data : Bytes)
    (i : ℕ) : Prop where
  exists_candidate : ∃ ch, cb.candidate spec origin i = some ch ∧ ch.reader = some data
  earliest : ∀ j < i, cb.candidate spec origin j = none
  first_of_not_canyon : spec.isCanyon origin.time = false → i = 0

lemma Consistent.readLoop (h : cb.Consistent) {spec : ChainSpec} {origin : L1BlockRef}
    (hcanyon : spec.isCanyon origin.time = true) (n i : ℕ) (hi : i + n = cb.channelQueue.length)
    (hpre : ∀ j < i, cb.candidate spec origin j = none) :
    ∃ result cb', ChannelBank.readLoop spec origin cb (range' i n) = some (result, cb') ∧
      cb'.Consistent ∧ ∀ data, result = .data data → ∃ i, cb.ReadsFrom spec origin data i := by
  induction n generalizing i with
  | zero => exact ⟨.eof, cb, rfl, h, fun _ hd => nomatch hd⟩
  | succ n ih =>
    rw [range'_succ, ChannelBank.readLoop]
    rcases h.tryRead spec origin (i := i) (by omega) with ⟨hnone, htry⟩ | ⟨ch, data, cb', hch, hdata,
      htry, hcb'⟩
    · rw [htry]
      refine ih (i + 1) (by omega) fun j hj => ?_
      rcases Nat.lt_succ_iff_lt_or_eq.mp hj with hj | rfl
      · exact hpre j hj
      · exact hnone
    · rw [htry]
      refine ⟨.data data, cb', rfl, hcb', fun data' hd => ?_⟩
      obtain rfl := ReadResult.data.inj hd
      exact ⟨i, ⟨ch, hch, hdata⟩, hpre, fun hc => by rw [hcanyon] at hc; cases hc⟩

lemma Consistent.read (h : cb.Consistent) (spec : ChainSpec) (origin : L1BlockRef) :
    ∃ result cb', cb.read spec origin = some (result, cb') ∧ cb'.Consistent ∧
      ∀ data, result = .data data → ∃ i, cb.ReadsFrom spec origin data i := by
  rw [ChannelBank.read]
  split
  · exact ⟨.eof, cb, rfl, h, fun _ hd => nomatch hd⟩
  · rename_i first queue hqueue
    have hget : cb.channelQueue[0]? = some first := by rw [hqueue]; rfl
    obtain ⟨ch, hch⟩ := h.exists_lookup (mem_of_getElem? hget)
    rw [hch, bind_eq_bind, bind_some]
    by_cases htime : timedOut spec origin ch
    · rw [if_pos htime]
      have hrem := h.remove hget
      rw [hqueue] at hrem
      exact ⟨.skipped, _, rfl, hrem, fun _ hd => nomatch hd⟩
    · rw [if_neg htime]
      cases hcanyon : spec.isCanyon origin.time with
      | true =>
        rw [range_eq_range']
        exact h.readLoop hcanyon _ 0 (zero_add _) fun j hj => absurd hj (Nat.not_lt_zero j)
      | false =>
        have hpos : 0 < cb.channelQueue.length := by rw [hqueue]; exact Nat.succ_pos _
        rcases h.tryRead spec origin hpos with ⟨-, htry⟩ | ⟨ch, data, cb', hch, hdata, htry, hcb'⟩
        · exact ⟨.eof, cb, htry, h, fun _ hd => nomatch hd⟩
        · refine ⟨.data data, cb', htry, hcb', fun data' hd => ?_⟩
          obtain rfl := ReadResult.data.inj hd
          exact ⟨0, ⟨ch, hch, hdata⟩, fun j hj => absurd hj (Nat.not_lt_zero j), fun _ => rfl⟩

/-! ## Sequences of operations -/

/-- The operations on a channel bank, with the origin at which they are made. -/
inductive Op where
  | ingestFrame (f : Frame) (origin : L1BlockRef)
  | read (origin : L1BlockRef)
  | prune (origin : L1BlockRef)
  | reset

/-- The channel bank after an operation; there is none after a panic. -/
def step (spec : ChainSpec) (cb : ChannelBank) : Op → Option ChannelBank
  | .ingestFrame f origin => cb.ingestFrame spec origin f
  | .read origin => (cb.read spec origin).map Prod.snd
  | .prune origin => cb.prune spec origin
  | .reset => some newChannelBank

lemma Consistent.step {cb : ChannelBank} (h : cb.Consistent) (spec : ChainSpec) (op : Op) :
    ∃ cb', cb.step spec op = some cb' ∧ cb'.Consistent := by
  cases op with
  | ingestFrame f origin => exact h.ingestFrame spec origin f
  | read origin =>
    obtain ⟨result, cb', hread, hcb', -⟩ := h.read spec origin
    exact ⟨cb', by rw [ChannelBank.step, hread]; rfl, hcb'⟩
  | prune origin =>
    obtain ⟨cb', hprune, hcb', -⟩ := h.prune spec origin
    exact ⟨cb', hprune, hcb'⟩
  | reset => exact ⟨newChannelBank, rfl, consistent_new⟩

def run (spec : ChainSpec) (ops : List Op) (cb : ChannelBank) : Option ChannelBank :=
  ops.foldlM (ChannelBank.step spec) cb

lemma Consistent.run {cb : ChannelBank} (h : cb.Consistent) (spec : ChainSpec) (ops : List Op) :
    ∃ cb', cb.run spec ops = some cb' ∧ cb'.Consistent := by
  induction ops generalizing cb with
  | nil => exact ⟨cb, rfl, h⟩
  | cons op ops ih =>
    obtain ⟨cb', hstep, hcb'⟩ := h.step spec op
    rw [ChannelBank.run, foldlM_cons, hstep]
    exact ih hcb'

/-- No sequence of operations makes the channel bank panic.  After it the queue has the identifiers
of the map, each once; pruning leaves channels of bounded total size; and a read that returns data
returns that of the earliest channel in the queue that is ready and not timed out, which is the
first one before Canyon. -/
theorem channel_bank_invariant (spec : ChainSpec) (ops : List Op) :
    ∃ cb, newChannelBank.run spec ops = some cb ∧ cb.channelQueue.Nodup ∧
      (∀ id, id ∈ cb.channelQueue ↔ id ∈ cb.channels) ∧
      (∀ origin, ∃ cb', cb.prune spec origin = some cb' ∧
        cb'.totalSize ≤ spec.maxChannelBankSize origin.time) ∧
      ∀ origin, ∃ result cb', cb.read spec origin = some (result, cb') ∧
        ∀ data, result = .data data → ∃ i, cb.ReadsFrom spec origin data i := by
  obtain ⟨cb, hrun, hcb⟩ := consistent_new.run spec ops
  refine ⟨cb, hrun, hcb.nodup, hcb.mem_iff, fun origin => ?_, fun origin => ?_⟩
  · obtain ⟨cb', hprune, -, hsize⟩ := hcb.prune spec origin
    exact ⟨cb', hprune, hsize⟩
  · obtain ⟨result, cb', hread, -, hdata⟩ := hcb.read spec origin
    exact ⟨result, cb', hread, hdata⟩

end ChannelBank

end FightNight.Derive
