import FightNight.Supervisor.DB

/-!
# How logs are laid out

`logItems` describes the entries that `AddLog` appends for a log, from the number of entries
before it and the position of the previous log: a search checkpoint and a canonical hash wherever
the number of entries is a multiple of 256, the initiating event, and the executing link and
check.  The store of a database is the layout of the logs it has accepted (`Holds`), and `AddLog`
accepts a log exactly when it follows the last one (`addLog_eq_ok`).
-/

namespace FightNight.Supervisor

open FightNight.Except List

/-! ## Items -/

inductive Item where
  | checkpoint (s : SearchCheckpoint)
  | canonicalHash (hash : TruncatedHash)
  | initiating (evt : InitiatingEvent)
  | link (l : ExecutingLink)
  | check (hash : TruncatedHash)
  deriving DecidableEq

def Item.encode : Item → Entry
  | .checkpoint s => s.encode
  | .canonicalHash hash => canonicalHashEncode hash
  | .initiating evt => evt.encode
  | .link l => l.encode
  | .check hash => executingCheckEncode hash

def Item.type : Item → UInt8
  | .checkpoint _ => typeSearchCheckpoint
  | .canonicalHash _ => typeCanonicalHash
  | .initiating _ => typeInitiatingEvent
  | .link _ => typeExecutingLink
  | .check _ => typeExecutingCheck

@[simp] lemma Item.type_encode (item : Item) : item.encode.type = item.type := by
  cases item <;> rfl

/-! ## The entries of a log -/

/-- The position of the last log of a list, given the one before the list. -/
def headContext : LogContext → List LogRecord → LogContext
  | pre, [] => pre
  | _, r :: rs => headContext r.context rs

/-- The initiating event of a log after the position `pre`. -/
def initEvent (pre : LogContext) (r : LogRecord) : InitiatingEvent :=
  ⟨(r.blockNum - pre.blockNum).toUInt8,
    0 < r.logIdx - (if 0 < r.blockNum - pre.blockNum then 0 else pre.logIdx),
    r.execMsg.isSome, r.logHash⟩

/-- The search checkpoint of a log with its canonical hash. -/
def checkpointItems (r : LogRecord) : List Item :=
  [.checkpoint ⟨r.blockNum, r.logIdx, r.timestamp⟩, .canonicalHash (truncateHash r.blockHash)]

/-- The checkpoint that is due after `n` entries. -/
def dueItems (n : ℕ) (r : LogRecord) : List Item := if n % 256 = 0 then checkpointItems r else []

/-- The items of an executing message, when `n` entries come before. -/
def execItems (n : ℕ) (r : LogRecord) : List Item :=
  match r.execMsg with
  | none => []
  | some msg =>
    dueItems n r ++ [.link ⟨msg.chain, msg.blockNum, msg.logIdx, msg.timestamp⟩] ++
      dueItems (n + (dueItems n r).length + 1) r ++ [.check msg.hash]

/-- The index of the initiating event of a log, when `n` entries come before the log. -/
def initIdx (n : ℕ) : ℕ := if n % 256 = 0 then n + 2 else n

/-- The items of a log, when `n` entries and the position `pre` come before. -/
def logItems (n : ℕ) (pre : LogContext) (r : LogRecord) : List Item :=
  dueItems n r ++ [.initiating (initEvent (if n % 256 = 0 then r.context else pre) r)] ++
    execItems (initIdx n + 1) r

/-- The number of entries after a log that begins at index `n`. -/
def endIdx (n : ℕ) (r : LogRecord) : ℕ := initIdx n + 1 + (execItems (initIdx n + 1) r).length

/-- The items of a list of logs, when `n` entries and the position `pre` come before. -/
def layoutFrom : ℕ → LogContext → List LogRecord → List Item
  | _, _, [] => []
  | n, pre, r :: rs => logItems n pre r ++ layoutFrom (endIdx n r) r.context rs

def layout (logs : List LogRecord) : List Item := layoutFrom 0 ⟨0, 0⟩ logs

lemma length_dueItems (n : ℕ) (r : LogRecord) :
    (dueItems n r).length = if n % 256 = 0 then 2 else 0 := by
  unfold dueItems
  split <;> rfl

lemma length_logItems (n : ℕ) (pre : LogContext) (r : LogRecord) :
    n + (logItems n pre r).length = endIdx n r := by
  simp only [logItems, length_append, length_dueItems, length_singleton, endIdx, initIdx]
  split <;> omega

/-- The number of entries after a list of logs. -/
def endOf : ℕ → List LogRecord → ℕ
  | n, [] => n
  | n, r :: rs => endOf (endIdx n r) rs

lemma length_layoutFrom (n : ℕ) (pre : LogContext) (logs : List LogRecord) :
    n + (layoutFrom n pre logs).length = endOf n logs := by
  induction logs generalizing n pre with
  | nil => rfl
  | cons r rs ih =>
    rw [layoutFrom, length_append, ← add_assoc, length_logItems, ih, endOf]

@[simp] lemma length_layout (logs : List LogRecord) : (layout logs).length = endOf 0 logs := by
  rw [layout, ← length_layoutFrom, zero_add]

lemma endOf_append (n : ℕ) (xs ys : List LogRecord) :
    endOf n (xs ++ ys) = endOf (endOf n xs) ys := by
  induction xs generalizing n with
  | nil => rfl
  | cons r rs ih => exact ih _

lemma headContext_append (pre : LogContext) (xs ys : List LogRecord) :
    headContext pre (xs ++ ys) = headContext (headContext pre xs) ys := by
  induction xs generalizing pre with
  | nil => rfl
  | cons r rs ih => exact ih _

@[simp] lemma headContext_append_singleton (pre : LogContext) (xs : List LogRecord)
    (r : LogRecord) : headContext pre (xs ++ [r]) = r.context := by
  rw [headContext_append]
  rfl

lemma layoutFrom_append (n : ℕ) (pre : LogContext) (xs ys : List LogRecord) :
    layoutFrom n pre (xs ++ ys) =
      layoutFrom n pre xs ++ layoutFrom (endOf n xs) (headContext pre xs) ys := by
  induction xs generalizing n pre with
  | nil => rfl
  | cons r rs ih =>
    rw [cons_append, layoutFrom, ih, layoutFrom, append_assoc, endOf, headContext]

lemma initIdx_lt_endIdx (n : ℕ) (r : LogRecord) : n ≤ initIdx n ∧ initIdx n < endIdx n r := by
  unfold endIdx initIdx
  split <;> omega

lemma length_le_endOf (n : ℕ) (logs : List LogRecord) : n + logs.length ≤ endOf n logs := by
  induction logs generalizing n with
  | nil => exact le_refl _
  | cons r rs ih =>
    have hr := initIdx_lt_endIdx n r
    have hrs := ih (endIdx n r)
    simp only [length_cons, endOf]
    omega

/-! ## Accepted logs -/

/-- A log can follow after `n` entries, the last of which is at the position `pre`. -/
structure Follows (n : ℕ) (pre : LogContext) (r : LogRecord) : Prop where
  pos : r.blockNum ≠ 0
  /-- It is the next log of the same block or the first of a later one.  The successor of a log
  index is taken modulo `2 ^ 32`. -/
  order : (r.blockNum = pre.blockNum ∧ r.logIdx = pre.logIdx + 1) ∨
    (pre.blockNum < r.blockNum ∧ r.logIdx = 0)
  /-- Only a new checkpoint can bridge more than 255 blocks. -/
  near : n % 256 = 0 ∨ ¬255 < r.blockNum - pre.blockNum
  link : ∀ msg ∈ r.execMsg, ¬(1 : UInt32) <<< 24 < msg.logIdx

/-- Each log of a list can follow the one before. -/
def Accepts : ℕ → LogContext → List LogRecord → Prop
  | _, _, [] => True
  | n, pre, r :: rs => Follows n pre r ∧ Accepts (endIdx n r) r.context rs

variable {r : LogRecord} {logs : List LogRecord} {pre : LogContext} {db db' : DB}
  {evt : InitiatingEvent} {n : ℕ} {p : Pending}

lemma accepts_append {xs ys : List LogRecord} :
    Accepts n pre (xs ++ ys) ↔
      Accepts n pre xs ∧ Accepts (endOf n xs) (headContext pre xs) ys := by
  induction xs generalizing n pre with
  | nil => simp [Accepts, endOf, headContext]
  | cons r rs ih => simp only [cons_append, Accepts, ih, endOf, headContext, and_assoc]

lemma newInitiatingEvent_self (r : LogRecord) :
    newInitiatingEvent r.context r.blockNum r.logIdx r.logHash r.execMsg.isSome =
      .ok (initEvent r.context r) := by
  simp [newInitiatingEvent, initEvent, LogRecord.context]

lemma newInitiatingEvent_eq_ok (horder : (r.blockNum = pre.blockNum ∧
      r.logIdx = pre.logIdx + 1) ∨ (pre.blockNum < r.blockNum ∧ r.logIdx = 0)) :
    newInitiatingEvent pre r.blockNum r.logIdx r.logHash r.execMsg.isSome = .ok evt ↔
      ¬255 < r.blockNum - pre.blockNum ∧ evt = initEvent pre r := by
  constructor
  · intro h
    obtain ⟨hblock, -, hevt⟩ := newInitiatingEvent_ok h
    exact ⟨hblock, hevt⟩
  · rintro ⟨hblock, rfl⟩
    have hlog : ¬1 < r.logIdx - (if 0 < r.blockNum - pre.blockNum then 0 else pre.logIdx) := by
      rcases horder with ⟨hb, hi⟩ | ⟨hb, hi⟩ <;> grind
    simp only [newInitiatingEvent, hblock, hlog, if_false, initEvent]

lemma postContext_initEvent (h : Follows n pre r) {c : LogContext}
    (hc : n % 256 = 0 ∧ c = r.context ∨ ¬n % 256 = 0 ∧ c = pre) :
    (initEvent c r).postContext c = r.context ∧
      (initEvent c r).postContext ((initEvent c r).preContext r.context) = r.context := by
  rcases hc with ⟨-, rfl⟩ | ⟨hn, rfl⟩
  · exact postContext_of_newInitiatingEvent r.context (newInitiatingEvent_self r)
  · have hnear := h.near.resolve_left hn
    exact postContext_of_newInitiatingEvent r.context
      ((newInitiatingEvent_eq_ok h.order).mpr ⟨hnear, rfl⟩)

/-! ## What `AddLog` appends -/

lemma tmod_frequency (n : ℕ) :
    (n : ℤ).tmod searchCheckpointFrequency = 0 ↔ n % 256 = 0 := by
  rw [Int.tmod_eq_emod_of_nonneg (Int.natCast_nonneg n), searchCheckpointFrequency]
  omega

lemma maybeAddCheckpoint_eq (hn : p.lastEntryIdx + 1 = n) :
    p.maybeAddCheckpoint r =
      ⟨p.entriesToAdd ++ (dueItems n r).map Item.encode,
        p.lastEntryIdx + (dueItems n r).length,
        if n % 256 = 0 then r.context else p.newContext⟩ := by
  unfold Pending.maybeAddCheckpoint
  rw [hn]
  by_cases hmod : n % 256 = 0
  · simp only [(tmod_frequency n).mpr hmod, if_true, dueItems, hmod, checkpointItems,
      Pending.addEntry, map_cons, Item.encode]
    simp [add_assoc]
  · simp only [mt (tmod_frequency n).mp hmod, dueItems, hmod]
    simp

lemma addExecMsg_eq_ok {p' : Pending} (hn : p.lastEntryIdx + 1 = n)
    (h : DB.addExecMsg r p = .ok p') :
    (∀ msg ∈ r.execMsg, ¬(1 : UInt32) <<< 24 < msg.logIdx) ∧
      p'.entriesToAdd = p.entriesToAdd ++ (execItems n r).map Item.encode := by
  unfold DB.addExecMsg at h
  unfold execItems
  cases hmsg : r.execMsg with
  | none =>
    rw [hmsg] at h
    cases h
    simp
  | some msg =>
    rw [hmsg] at h
    obtain ⟨link, hlink, h⟩ := bind_eq_ok.mp h
    rw [newExecutingLink] at hlink
    split at hlink
    · cases hlink
    · cases hlink
      have hn' : (p.lastEntryIdx + (dueItems n r).length + 1) + 1 =
          ((n + (dueItems n r).length + 1 : ℕ) : ℤ) := by
        omega
      rw [maybeAddCheckpoint_eq hn] at h
      simp only [Pending.addEntry] at h
      rw [maybeAddCheckpoint_eq hn'] at h
      cases h
      refine ⟨?_, ?_⟩
      · intro m hm
        cases hm
        assumption
      · simp [Item.encode]

lemma addExecMsg_succeeds (p : Pending)
    (hlink : ∀ msg ∈ r.execMsg, ¬(1 : UInt32) <<< 24 < msg.logIdx) :
    ∃ p', DB.addExecMsg r p = .ok p' := by
  unfold DB.addExecMsg
  cases hmsg : r.execMsg with
  | none => exact ⟨p, rfl⟩
  | some msg =>
    have hsmall : ¬(1 : UInt32) <<< 24 < msg.logIdx := hlink msg (by simp [hmsg])
    simp only [newExecutingLink, hsmall]
    exact ⟨_, rfl⟩

lemma addLog_guards :
    (¬r.blockNum < db.lastEntryContext.blockNum ∧
      ¬(db.lastEntryContext.blockNum = r.blockNum ∧ db.lastEntryContext.logIdx + 1 ≠ r.logIdx) ∧
      ¬(db.lastEntryContext.blockNum < r.blockNum ∧ r.logIdx ≠ 0)) ↔
    (r.blockNum = db.lastEntryContext.blockNum ∧ r.logIdx = db.lastEntryContext.logIdx + 1) ∨
      (db.lastEntryContext.blockNum < r.blockNum ∧ r.logIdx = 0) := by
  constructor
  · rintro ⟨h1, h2, h3⟩
    grind
  · rintro (⟨h1, h2⟩ | ⟨h1, h2⟩) <;> grind

lemma addLog_event (horder : (r.blockNum = pre.blockNum ∧
      r.logIdx = pre.logIdx + 1) ∨ (pre.blockNum < r.blockNum ∧ r.logIdx = 0)) :
    newInitiatingEvent (if n % 256 = 0 then r.context else pre) r.blockNum r.logIdx r.logHash
        r.execMsg.isSome = .ok evt ↔
      (n % 256 = 0 ∨ ¬255 < r.blockNum - pre.blockNum) ∧
        evt = initEvent (if n % 256 = 0 then r.context else pre) r := by
  by_cases hn : n % 256 = 0
  · simp only [hn, if_true, newInitiatingEvent_self, Except.ok.injEq, true_or, true_and]
    exact eq_comm
  · simp only [hn, false_or]
    exact newInitiatingEvent_eq_ok horder

/-- `AddLog` accepts a log exactly when it can follow the last one, and appends its items. -/
theorem addLog_eq_ok :
    db.addLog r = .ok db' ↔
      Follows db.store.length db.lastEntryContext r ∧
      db' = ⟨db.store ++ (logItems db.store.length db.lastEntryContext r).map Item.encode,
        r.context⟩ := by
  have hn : db.lastEntryIdx + 1 = (db.store.length : ℤ) := by
    simp [DB.lastEntryIdx, EntryStore.lastEntryIdx]
  have hn' : db.lastEntryIdx + (dueItems db.store.length r).length + 1 + 1 =
      ((initIdx db.store.length + 1 : ℕ) : ℤ) := by
    rw [length_dueItems, initIdx]
    split <;> (push_cast; omega)
  have hstart := maybeAddCheckpoint_eq (r := r) (p := ⟨[], db.lastEntryIdx, db.lastEntryContext⟩) hn
  constructor
  · intro h
    obtain ⟨_, hzero, h⟩ := bind_eq_ok.mp h
    obtain ⟨_, hlow, h⟩ := bind_eq_ok.mp h
    obtain ⟨_, hsame, h⟩ := bind_eq_ok.mp h
    obtain ⟨_, hfirst, h⟩ := bind_eq_ok.mp h
    have horder := addLog_guards.mp ⟨revertIf_eq_ok.mp hlow,
      revertIf_eq_ok.mp hsame, revertIf_eq_ok.mp hfirst⟩
    simp only [hstart] at h
    obtain ⟨evt, hevt, h⟩ := bind_eq_ok.mp h
    obtain ⟨hnear, rfl⟩ := (addLog_event horder).mp (wrapError_eq_ok.mp hevt)
    obtain ⟨p, hp, h⟩ := bind_eq_ok.mp h
    obtain ⟨hlink, hents⟩ := addExecMsg_eq_ok hn' hp
    cases h
    refine ⟨⟨revertIf_eq_ok.mp hzero, horder, hnear, hlink⟩, ?_⟩
    rw [hents]
    simp [logItems, Pending.addEntry, Item.encode]
  · rintro ⟨hfol, rfl⟩
    obtain ⟨hlow, hsame, hfirst⟩ := addLog_guards.mpr hfol.order
    have hevt := (addLog_event hfol.order).mpr ⟨hfol.near, rfl⟩
    simp only [DB.addLog, bind_eq_ok, revertIf_eq_ok, hstart, hevt, wrapError_ok,
      exists_const, Except.ok.injEq, exists_eq_left']
    refine ⟨hfol.pos, hlow, hsame, hfirst, ?_⟩
    obtain ⟨p, hp⟩ := addExecMsg_succeeds (r := r) _ hfol.link
    refine ⟨p, hp, ?_⟩
    rw [(addExecMsg_eq_ok hn' hp).2]
    simp [logItems, Pending.addEntry, Item.encode]

/-! ## Databases and their logs -/

/-- The store of the database is the layout of the given logs, each of which could follow the
one before. -/
structure Stores (db : DB) (logs : List LogRecord) : Prop where
  store_eq : db.store = (layout logs).map Item.encode
  accepts : Accepts 0 ⟨0, 0⟩ logs

/-- The database holds the given logs: they are in its store, and the position in memory is that
of the last one. -/
structure Holds (db : DB) (logs : List LogRecord) : Prop extends Stores db logs where
  head_eq : db.lastEntryContext = headContext ⟨0, 0⟩ logs

lemma holds_empty : Holds DB.empty [] := ⟨⟨rfl, trivial⟩, rfl⟩

lemma Stores.length_store (h : Stores db logs) : db.store.length = endOf 0 logs := by
  rw [h.store_eq, length_map, length_layout]

lemma Stores.logs_eq_nil (h : Stores db logs) (hnil : db.store = []) : logs = [] := by
  have hlogs := length_le_endOf 0 logs
  rw [← h.length_store, hnil, length_nil] at hlogs
  exact length_eq_zero_iff.mp (by omega)

lemma Stores.exists_cons (h : Stores db logs) (hne : db.store ≠ []) : ∃ r rs, logs = r :: rs := by
  cases logs with
  | nil => exact absurd h.store_eq hne
  | cons r rs => exact ⟨r, rs, rfl⟩

lemma Holds.addLog (h : Holds db logs) (hadd : db.addLog r = .ok db') :
    Holds db' (logs ++ [r]) := by
  obtain ⟨hfol, rfl⟩ := addLog_eq_ok.mp hadd
  rw [h.length_store, h.head_eq] at hfol ⊢
  refine ⟨⟨?_, accepts_append.mpr ⟨h.accepts, hfol, trivial⟩⟩, ?_⟩
  · rw [h.store_eq]
    simp [layout, layoutFrom_append, layoutFrom]
  · rw [headContext_append_singleton]

end FightNight.Supervisor
