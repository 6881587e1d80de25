import FightNight.Supervisor.Layout

/-!
# Reading the logs back

What the iterator does on a store that is the layout of a list of logs.  From the beginning of a
log, and from the search checkpoint inside it, `NextLog` returns that log (`LogAt.nextLog`,
`LogAt.newIterator`); after a log it returns the next one or the end of the file
(`LogAt.nextLog_after`, `LogAt.nextLog_end`).  `ExecMessage` reads the executing message of the
log that was returned last (`LogAt.execMessage`).
-/

namespace FightNight.Supervisor

open Option FightNight.Except List Item DB

/-! ## Positions in a store -/

/-- From index `i` on, the store consists of the given items. -/
structure At (db : DB) (i : ℕ) (items : List Item) : Prop where
  drop_eq : db.store.drop i = items.map encode
  le : i ≤ db.store.length

namespace At

variable {db : DB} {i : ℕ} {x : Item} {xs ys : List Item}

lemma length_eq (h : At db i xs) : db.store.length = i + xs.length := by
  have hlen := congrArg length h.drop_eq
  simp only [length_drop, length_map] at hlen
  have := h.le
  omega

lemma append (h : At db i (xs ++ ys)) : At db (i + xs.length) ys := by
  refine ⟨?_, ?_⟩
  · rw [← drop_drop, h.drop_eq, map_append]
    exact drop_left' (length_map _)
  · rw [h.length_eq, length_append]
    omega

lemma tail (h : At db i (x :: xs)) : At db (i + 1) xs := @append db i [x] xs h

lemma read (h : At db i (x :: xs)) : EntryStore.read db.store i = .ok x.encode := by
  have hlen := h.length_eq
  have hget : db.store[i]? = some x.encode := by
    rw [← head?_drop, h.drop_eq]
    rfl
  have hlast : ¬EntryStore.lastEntryIdx db.store < (i : ℤ) := by
    rw [EntryStore.lastEntryIdx, hlen, length_cons]
    omega
  have hneg : ¬(i : ℤ) < 0 := by omega
  simp only [EntryStore.read, hlast, hneg, if_false, Int.toNat_natCast, hget]

lemma read_append (h : At db i (xs ++ x :: ys)) {k : ℤ} (hk : k = i + xs.length) :
    EntryStore.read db.store k = .ok x.encode := by
  rw [hk]
  exact_mod_cast h.append.read

lemma unread (h : At db i xs) (c : LogContext) (b : Bool) : db.unread ⟨i, c, b⟩ = xs.length := by
  have hlen := h.length_eq
  simp only [DB.unread, lastEntryIdx, EntryStore.lastEntryIdx]
  omega

/-! ## One round of the iterator -/

lemma nextLog_nil (h : At db i []) (c : LogContext) (b : Bool) :
    db.nextLog ⟨i, c, b⟩ = (⟨i, c, b⟩, .error .eof) := by
  rw [nextLog, h.unread]
  rfl

lemma nextLog_initiating {evt : InitiatingEvent} (h : At db i (.initiating evt :: xs))
    (c : LogContext) (b : Bool) :
    db.nextLog ⟨i, c, b⟩ = (⟨(i + 1 : ℕ), evt.postContext c, evt.hasExecMsg⟩,
      .ok (evt.postContext c, evt.logHash)) := by
  have hdec : newInitiatingEventFromEntry (initiating evt).encode = .ok evt :=
    newInitiatingEventFromEntry_encode evt
  rw [nextLog, h.unread, length_cons, nextLogLoop, h.read]
  simp only [hdec, typeInitiatingEvent]
  rfl

lemma nextLog_checkpoint {s : SearchCheckpoint} (h : At db i (.checkpoint s :: xs))
    (c : LogContext) (b : Bool) :
    db.nextLog ⟨i, c, b⟩ = db.nextLog ⟨(i + 1 : ℕ), s.context, false⟩ := by
  have hdec : newSearchCheckpointFromEntry (checkpoint s).encode = .ok s :=
    newSearchCheckpointFromEntry_encode s
  rw [nextLog, nextLog, h.unread, h.tail.unread, length_cons, nextLogLoop, h.read]
  simp only [hdec]
  rfl

lemma nextLog_skip (h : At db i (x :: xs))
    (hx : x.type = typeCanonicalHash ∨ x.type = typeExecutingCheck ∨ x.type = typeExecutingLink)
    (c : LogContext) (b : Bool) :
    db.nextLog ⟨i, c, b⟩ = db.nextLog ⟨(i + 1 : ℕ), c, false⟩ := by
  have hcp : ¬x.type = typeSearchCheckpoint := by
    rcases hx with hx | hx | hx <;> rw [hx] <;> decide
  have hinit : ¬x.type = typeInitiatingEvent := by
    rcases hx with hx | hx | hx <;> rw [hx] <;> decide
  rw [nextLog, nextLog, h.unread, h.tail.unread, length_cons, nextLogLoop, h.read]
  simp only [type_encode, hcp, hinit, hx, if_true]
  rfl

end At

/-! ## The items of one log -/

/-- An item that does not change the position `c`. -/
def Item.Neutral (c : LogContext) : Item → Prop
  | .checkpoint s => s.context = c
  | .initiating _ => False
  | _ => True

variable {r : LogRecord} {logs rs : List LogRecord} {pre : LogContext} {db : DB}
  {msg : ExecutingMessage} {n q : ℕ}

lemma At.nextLog_neutral {i : ℕ} {xs ys : List Item} {c : LogContext} (h : At db i (xs ++ ys))
    (hxs : ∀ x ∈ xs, x.Neutral c) (b : Bool) :
    ∃ b', db.nextLog ⟨i, c, b⟩ = db.nextLog ⟨(i + xs.length : ℕ), c, b'⟩ := by
  induction xs generalizing i b with
  | nil => exact ⟨b, rfl⟩
  | cons x xs ih =>
    have hround : db.nextLog ⟨i, c, b⟩ = db.nextLog ⟨(i + 1 : ℕ), c, false⟩ := by
      have hx := hxs x mem_cons_self
      cases x with
      | checkpoint s =>
        rw [nextLog_checkpoint h]
        rw [show s.context = c from hx]
      | canonicalHash hash => exact nextLog_skip h (Or.inl rfl) c b
      | initiating evt => exact hx.elim
      | link l => exact nextLog_skip h (Or.inr (Or.inr rfl)) c b
      | check hash => exact nextLog_skip h (Or.inr (Or.inl rfl)) c b
    obtain ⟨b', hrest⟩ := ih h.tail (fun y hy => hxs y (mem_cons_of_mem _ hy)) false
    refine ⟨b', ?_⟩
    rw [hround, hrest, length_cons]
    congr 3
    omega

lemma neutral_dueItems (n : ℕ) (r : LogRecord) : ∀ x ∈ dueItems n r, x.Neutral r.context := by
  intro x hx
  unfold dueItems checkpointItems at hx
  split at hx
  · simp only [mem_cons, not_mem_nil, or_false] at hx
    rcases hx with rfl | rfl
    · rfl
    · trivial
  · cases hx

lemma neutral_execItems (n : ℕ) (r : LogRecord) : ∀ x ∈ execItems n r, x.Neutral r.context := by
  intro x hx
  unfold execItems at hx
  cases hmsg : r.execMsg with
  | none => simp [hmsg] at hx
  | some msg =>
    simp only [hmsg, mem_append, mem_singleton] at hx
    rcases hx with ((hx | rfl) | hx) | rfl
    · exact neutral_dueItems _ _ x hx
    · trivial
    · exact neutral_dueItems _ _ x hx
    · trivial

/-! ## Logs in a store -/

/-- The log `r` begins at index `n` of the store, after the position `pre`, and is followed by
the logs `rs`. -/
structure LogAt (db : DB) (n : ℕ) (pre : LogContext) (r : LogRecord) (rs : List LogRecord) :
    Prop where
  at_items : At db n (logItems n pre r ++ layoutFrom (endIdx n r) r.context rs)
  follows : Follows n pre r
  accepts : Accepts (endIdx n r) r.context rs

/-- The iterator after it has returned the log that begins at index `n`. -/
def afterLog (n : ℕ) (r : LogRecord) : Iterator :=
  ⟨(initIdx n + 1 : ℕ), r.context, r.execMsg.isSome⟩

lemma logAt_layout {xs ys : List LogRecord}
    (hstore : db.store = (layout (xs ++ r :: ys)).map encode)
    (hacc : Accepts 0 ⟨0, 0⟩ (xs ++ r :: ys)) :
    LogAt db (endOf 0 xs) (headContext ⟨0, 0⟩ xs) r ys := by
  obtain ⟨-, hr, hys⟩ := accepts_append.mp hacc
  refine ⟨?_, hr, hys⟩
  have hat : At db 0 (layout (xs ++ r :: ys)) := ⟨by rw [drop_zero, hstore], Nat.zero_le _⟩
  rw [layout, layoutFrom_append] at hat
  have hend := length_layoutFrom 0 ⟨0, 0⟩ xs
  rw [← hend]
  rw [← hend] at hat
  exact hat.append

lemma Stores.logAt {db : DB} {xs ys : List LogRecord} {r : LogRecord}
    (h : Stores db (xs ++ r :: ys)) : LogAt db (endOf 0 xs) (headContext ⟨0, 0⟩ xs) r ys :=
  logAt_layout h.store_eq h.accepts

namespace LogAt

variable {db : DB} {n : ℕ} {pre : LogContext} {r s : LogRecord} {rs : List LogRecord}

lemma next (h : LogAt db n pre r (s :: rs)) : LogAt db (endIdx n r) r.context s rs := by
  refine ⟨?_, h.accepts.1, h.accepts.2⟩
  have hat := h.at_items.append
  rwa [length_logItems] at hat

section

variable (h : LogAt db n pre r rs)
include h

lemma at_init :
    At db (initIdx n) (.initiating (initEvent (if n % 256 = 0 then r.context else pre) r) ::
      (execItems (initIdx n + 1) r ++ layoutFrom (endIdx n r) r.context rs)) := by
  have hat := h.at_items
  simp only [logItems, append_assoc] at hat
  have hinit := hat.append
  have hidx : n + (dueItems n r).length = initIdx n := by
    rw [length_dueItems, initIdx]
    split <;> rfl
  rwa [hidx] at hinit

lemma nextLog_init {c : LogContext}
    (hc : (initEvent (if n % 256 = 0 then r.context else pre) r).postContext c = r.context)
    (b : Bool) :
    db.nextLog ⟨initIdx n, c, b⟩ = (afterLog n r, .ok (r.context, r.logHash)) := by
  rw [h.at_init.nextLog_initiating, hc]
  rfl

/-- The event of a log leads from the position it was created with to the position of the log,
and so it does from the position computed backwards. -/
theorem postContext :
    (initEvent (if n % 256 = 0 then r.context else pre) r).postContext
        (if n % 256 = 0 then r.context else pre) = r.context ∧
    (initEvent (if n % 256 = 0 then r.context else pre) r).postContext
        ((initEvent (if n % 256 = 0 then r.context else pre) r).preContext r.context) =
      r.context := by
  apply postContext_initEvent h.follows
  split
  · exact Or.inl ⟨‹_›, rfl⟩
  · exact Or.inr ⟨‹_›, rfl⟩

lemma nextLog (b : Bool) :
    db.nextLog ⟨n, pre, b⟩ = (afterLog n r, .ok (r.context, r.logHash)) := by
  have hpost := h.postContext.1
  by_cases hn : n % 256 = 0
  · -- The checkpoint sets the position before the event is read.
    have hat := h.at_items
    simp only [logItems, dueItems, hn] at hat
    have hinit : ((n + 1 + 1 : ℕ) : ℤ) = initIdx n := by
      rw [initIdx, if_pos hn]
    rw [hat.nextLog_checkpoint, hat.tail.nextLog_skip (Or.inl rfl), hinit]
    apply h.nextLog_init
    simp only [hn] at hpost ⊢
    exact hpost
  · have hinit : (n : ℤ) = initIdx n := by
      rw [initIdx, if_neg hn]
    rw [hinit]
    apply h.nextLog_init
    simp only [hn] at hpost ⊢
    exact hpost

lemma at_after :
    At db (initIdx n + 1)
      (execItems (initIdx n + 1) r ++ layoutFrom (endIdx n r) r.context rs) := h.at_init.tail

end

lemma nextLog_after (h : LogAt db n pre r (s :: rs)) :
    db.nextLog (afterLog n r) = (afterLog (endIdx n r) s, .ok (s.context, s.logHash)) := by
  obtain ⟨b, hb⟩ := h.at_after.nextLog_neutral (neutral_execItems _ r) r.execMsg.isSome
  rw [afterLog, hb]
  exact h.next.nextLog b

lemma nextLog_end (h : LogAt db n pre r []) :
    ∃ i, db.nextLog (afterLog n r) = (i, .error .eof) ∧ i.current = r.context := by
  obtain ⟨b, hb⟩ := h.at_after.nextLog_neutral (neutral_execItems _ r) r.execMsg.isSome
  have hend : At db (endIdx n r) [] := h.at_after.append
  refine ⟨⟨endIdx n r, r.context, b⟩, ?_, rfl⟩
  rw [afterLog, hb]
  exact hend.nextLog_nil r.context b

lemma length_le_unread (h : LogAt db n pre r rs) : rs.length ≤ db.unread (afterLog n r) := by
  have hunr := h.at_after.unread r.context r.execMsg.isSome
  have hlen := length_layoutFrom (endIdx n r) r.context rs
  have hle := length_le_endOf (endIdx n r) rs
  rw [afterLog, hunr, length_append]
  omega

end LogAt

/-! ## Executing messages -/

/-- An executing message as it is stored: its log index is cut to 24 bits. -/
def ExecutingMessage.stored (msg : ExecutingMessage) : ExecutingMessage :=
  { msg with logIdx := UInt32.ofNat (msg.logIdx.toNat % 2 ^ 24) }

lemma ExecutingMessage.stored_of_lt (h : msg.logIdx.toNat < 2 ^ 24) : msg.stored = msg := by
  rw [stored, Nat.mod_eq_of_lt h, UInt32.ofNat_toNat]

/-- The executing message that is read back for a log, the empty one when it has none. -/
def LogRecord.executing (r : LogRecord) : ExecutingMessage :=
  (r.execMsg.map ExecutingMessage.stored).getD .empty

lemma readExpected_of_read {missing failed : String} {idx : ℤ} {entry : Entry}
    (h : EntryStore.read db.store idx = .ok entry) :
    db.readExpected missing failed idx = .ok entry := by
  rw [readExpected, h]

lemma nextOfLog_eq (k : ℕ) (r : LogRecord) :
    nextOfLog k = (k + 1 + (dueItems (k + 1) r).length : ℕ) := by
  have hmod : ((k : ℤ) + 1).tmod searchCheckpointFrequency = 0 ↔ (k + 1) % 256 = 0 := by
    exact_mod_cast tmod_frequency (k + 1)
  rw [nextOfLog, length_dueItems]
  by_cases hk : (k + 1) % 256 = 0
  · grind
  · grind

lemma At.readExecMessage {k : ℕ} {rest : List Item} (hmsg : r.execMsg = some msg)
    (h : At db (k + 1) (execItems (k + 1) r ++ rest)) : db.readExecMessage k = .ok msg.stored := by
  simp only [execItems, hmsg, append_assoc, cons_append, nil_append] at h
  have hlink := h.append
  have hcheck := hlink.tail.append
  rw [DB.readExecMessage, nextOfLog_eq, readExpected_of_read hlink.read]
  simp only [ok_bind]
  rw [nextOfLog_eq, readExpected_of_read hcheck.read]
  simp only [ok_bind, newExecutingMessageFromEntries, encode, newExecutingLinkFromEntry_encode,
    newExecutingCheckFromEntry_encode]
  rfl

lemma LogAt.execMessage (h : LogAt db n pre r rs) :
    db.execMessage (afterLog n r) = .ok r.executing := by
  cases hmsg : r.execMsg with
  | none => simp [DB.execMessage, afterLog, LogRecord.executing, hmsg]
  | some msg =>
    have hidx : ((initIdx n + 1 : ℕ) : ℤ) - 1 = (initIdx n : ℕ) := by
      omega
    have hread := h.at_after.readExecMessage hmsg
    simp only [DB.execMessage, afterLog, LogRecord.executing, hmsg, isSome_some, if_true,
      hidx, hread, wrapError_ok, map_some, getD_some]

/-! ## Starting from a checkpoint -/

/-- The items of an executing message from index `k` on: a link and a check, with a checkpoint
before the link, before the check, or nowhere. -/
theorem execItems_cases (k : ℕ) (hmsg : r.execMsg = some msg) :
    ∃ link check : Item, link.type = typeExecutingLink ∧ check.type = typeExecutingCheck ∧
      ((k % 256 = 0 ∧ execItems k r = checkpointItems r ++ [link, check]) ∨
        ((k + 1) % 256 = 0 ∧ execItems k r = link :: (checkpointItems r ++ [check])) ∨
        (¬k % 256 = 0 ∧ ¬(k + 1) % 256 = 0 ∧ execItems k r = [link, check])) := by
  refine ⟨.link ⟨msg.chain, msg.blockNum, msg.logIdx, msg.timestamp⟩, .check msg.hash, rfl, rfl, ?_⟩
  simp only [execItems, hmsg, length_dueItems]
  by_cases hlink : k % 256 = 0
  · have hcheck : ¬(k + 2 + 1) % 256 = 0 := by omega
    exact Or.inl ⟨hlink, by simp [dueItems, hlink, hcheck]⟩
  · by_cases hcheck : (k + 1) % 256 = 0
    · exact Or.inr (Or.inl ⟨hcheck, by simp [dueItems, hlink, hcheck]⟩)
    · exact Or.inr (Or.inr ⟨hlink, hcheck, by simp [dueItems, hlink, hcheck]⟩)

lemma endIdx_le (hn : n % 256 = 0) (r : LogRecord) : endIdx n r ≤ n + 5 := by
  have hinit : initIdx n = n + 2 := by rw [initIdx, if_pos hn]
  rw [endIdx, hinit]
  cases hmsg : r.execMsg with
  | none => simp [execItems, hmsg]
  | some msg =>
    obtain ⟨link, check, -, -, ⟨hk, -⟩ | ⟨hk, -⟩ | ⟨-, -, hitems⟩⟩ := execItems_cases (n + 2 + 1) hmsg
    · omega
    · omega
    · rw [hitems]
      exact le_refl _

/-- A checkpoint inside a log stands at its beginning, or between the initiating event and the
link, or between the link and the check; the entry after it and its hash tells which. -/
theorem LogAt.checkpoint_cases (h : LogAt db n pre r rs) (hq : q % 256 = 0) (hnq : n ≤ q)
    (hqn : q < endIdx n r) :
    ∃ x rest, At db q (checkpointItems r ++ x :: rest) ∧
      ((n = q ∧ x.type = typeInitiatingEvent) ∨
        (¬n % 256 = 0 ∧ q = n + 1 ∧ x.type = typeExecutingLink) ∨
        (¬n % 256 = 0 ∧ q = n + 2 ∧ x.type = typeExecutingCheck)) := by
  by_cases hn : n % 256 = 0
  · have hle := endIdx_le hn r
    obtain rfl : n = q := by omega
    have hat := h.at_items
    simp only [logItems, dueItems, hn, if_true] at hat
    exact ⟨_, _, hat, Or.inl ⟨rfl, rfl⟩⟩
  · have hinit : initIdx n = n := by rw [initIdx, if_neg hn]
    have hat := h.at_after
    rw [endIdx, hinit] at hqn
    rw [hinit] at hat
    cases hmsg : r.execMsg with
    | none =>
      simp only [execItems, hmsg, length_nil] at hqn
      omega
    | some msg =>
      obtain ⟨link, check, hlink, hcheck, hitems⟩ := execItems_cases (n + 1) hmsg
      rcases hitems with ⟨hk, hitems⟩ | ⟨hk, hitems⟩ | ⟨hk, hk', hitems⟩ <;> rw [hitems] at hqn hat
      · obtain rfl : q = n + 1 := by grind [checkpointItems, length_append, length_cons, length_nil]
        exact ⟨_, _, hat, Or.inr (Or.inl ⟨hn, rfl, hlink⟩)⟩
      · obtain rfl : q = n + 2 := by grind [checkpointItems, length_append, length_cons, length_nil]
        exact ⟨_, _, hat.tail, Or.inr (Or.inr ⟨hn, rfl, hcheck⟩)⟩
      · grind

lemma LogAt.readSearchCheckpoint (h : LogAt db n pre r rs) (hq : q % 256 = 0) (hnq : n ≤ q)
    (hqn : q < endIdx n r) :
    db.readSearchCheckpoint q = .ok ⟨r.blockNum, r.logIdx, r.timestamp⟩ ∧
      db.readCanonicalHash (q + 1) = .ok (truncateHash r.blockHash) := by
  obtain ⟨x, rest, hat, -⟩ := h.checkpoint_cases hq hnq hqn
  have hhash : EntryStore.read db.store ((q : ℤ) + 1) =
      .ok (canonicalHash (truncateHash r.blockHash)).encode := by
    exact_mod_cast hat.tail.read
  constructor
  · rw [DB.readSearchCheckpoint, hat.read]
    exact newSearchCheckpointFromEntry_encode _
  · rw [readCanonicalHash, hhash]
    exact newCanonicalHashFromEntry_encode _

/-- An iterator that starts at the checkpoint inside a log returns that log first. -/
theorem LogAt.newIterator (h : LogAt db n pre r rs) (hq : q % 256 = 0) (hnq : n ≤ q)
    (hqn : q < endIdx n r) :
    ∃ c, db.newIterator q = .ok ⟨initIdx n, c, false⟩ ∧
      db.nextLog ⟨initIdx n, c, false⟩ = (afterLog n r, .ok (r.context, r.logHash)) := by
  have hcp := (h.readSearchCheckpoint hq hnq hqn).1
  obtain ⟨x, rest, hat, hcases⟩ := h.checkpoint_cases hq hnq hqn
  have hfirst : EntryStore.read db.store ((q : ℤ) + 2) = .ok x.encode := by
    exact_mod_cast hat.tail.tail.read
  obtain ⟨hpost, hpre⟩ := h.postContext
  have hevt : newInitiatingEventFromEntry (initiating
      (initEvent (if n % 256 = 0 then r.context else pre) r)).encode = .ok _ :=
    newInitiatingEventFromEntry_encode _
  rcases hcases with ⟨rfl, hx⟩ | ⟨hn, rfl, hx⟩ | ⟨hn, rfl, hx⟩
  · -- The log begins at the checkpoint.
    have hinit : ((initIdx n : ℕ) : ℤ) = n + 2 := by
      rw [initIdx, if_pos hq]
      rfl
    refine ⟨r.context, ?_, ?_⟩
    · rw [newIterator, hcp, readExpected_of_read hfirst, hinit]
      simp only [ok_bind, type_encode, hx]
      rfl
    · apply h.nextLog_init
      simp only [hq] at hpost ⊢
      exact hpost
  · -- The checkpoint stands before the link, one entry after the initiating event.
    have hinit : ((initIdx n : ℕ) : ℤ) = ((n + 1 : ℕ) : ℤ) - 1 := by
      rw [initIdx, if_neg hn]
      omega
    refine ⟨_, ?_, h.nextLog_init hpre false⟩
    rw [newIterator, hcp, readExpected_of_read hfirst]
    simp only [wrapError_ok, ok_bind, type_encode, hx, if_true, ← hinit, h.at_init.read, hevt]
    rfl
  · -- The checkpoint stands before the check, two entries after the initiating event.
    have hinit : ((initIdx n : ℕ) : ℤ) = ((n + 2 : ℕ) : ℤ) - 2 := by
      rw [initIdx, if_neg hn]
      omega
    have htype : ¬typeExecutingCheck = typeExecutingLink := by decide
    refine ⟨_, ?_, h.nextLog_init hpre false⟩
    rw [newIterator, hcp, readExpected_of_read hfirst]
    simp only [wrapError_ok, ok_bind, type_encode, hx, or_true, if_true, htype,
      if_false, ← hinit, h.at_init.read, hevt]
    rfl

lemma LogAt.length_lt_unread (h : LogAt db n pre r rs) (c : LogContext) :
    db.unread ⟨initIdx n, c, false⟩ = db.unread (afterLog n r) + 1 := by
  rw [h.at_init.unread, afterLog, h.at_after.unread, length_cons]

/-! ## The log that an entry belongs to -/

/-- The entry with index `q` belongs to the log `r`, which comes after the logs `xs` and before
the logs `ys`. -/
structure Owner (logs : List LogRecord) (q : ℕ) (xs : List LogRecord) (r : LogRecord)
    (ys : List LogRecord) : Prop where
  split : logs = xs ++ r :: ys
  le : endOf 0 xs ≤ q
  lt : q < endIdx (endOf 0 xs) r

lemma exists_split (hnq : n ≤ q) (hq : q < endOf n logs) :
    ∃ xs r ys, logs = xs ++ r :: ys ∧ endOf n xs ≤ q ∧ q < endIdx (endOf n xs) r := by
  induction logs generalizing n with
  | nil => exact absurd hq (not_lt.mpr hnq)
  | cons r rs ih =>
    by_cases hr : q < endIdx n r
    · exact ⟨[], r, rs, rfl, hnq, hr⟩
    · obtain ⟨xs, s, ys, rfl, hle, hlt⟩ := ih (not_lt.mp hr) hq
      exact ⟨r :: xs, s, ys, rfl, hle, hlt⟩

lemma exists_owner (hq : q < endOf 0 logs) : ∃ xs r ys, Owner logs q xs r ys := by
  obtain ⟨xs, r, ys, hsplit, hle, hlt⟩ := exists_split (Nat.zero_le q) hq
  exact ⟨xs, r, ys, hsplit, hle, hlt⟩

end FightNight.Supervisor
