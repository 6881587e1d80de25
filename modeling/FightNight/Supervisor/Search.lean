import FightNight.Supervisor.Opening

/-!
# Looking up logs

`searchCheckpoint` finds a checkpoint next to a position (`exists_stopsAt`), and the scan from
there finds the log at that position.  When the positions of the logs are in ascending order,
`Executes` and `Contains` answer from the list of logs alone (`Stores.executes`,
`Stores.contains`).

The positions ascend as long as no log index overflows: `AddLog` compares a log index with the
32-bit successor of the last one.
-/

namespace FightNight.Supervisor

open Option FightNight.Except LogContext EntryStore List

/-! ## The order of positions -/

/-- The number of a position in the order of the logs. -/
def LogContext.key (c : LogContext) : ℕ := c.blockNum.toNat * 2 ^ 32 + c.logIdx.toNat

variable {logs xs ys : List LogRecord} {db : DB} {c d : LogContext} {r : LogRecord}
  {blockNum : UInt64} {logIdx : UInt32} {k n q : ℕ} {i : Iterator}

lemma LogContext.key_lt_iff :
    c.key < d.key ↔ c.blockNum < d.blockNum ∨ (c.blockNum = d.blockNum ∧ c.logIdx < d.logIdx) := by
  have hc := c.logIdx.toNat_lt
  have hd := d.logIdx.toNat_lt
  rw [UInt64.lt_iff_toNat_lt, UInt32.lt_iff_toNat_lt, ← UInt64.toNat_inj, key, key]
  omega

lemma LogContext.key_inj : c.key = d.key ↔ c = d := by
  have hc := c.logIdx.toNat_lt
  have hd := d.logIdx.toNat_lt
  constructor
  · intro h
    rw [key, key] at h
    exact congrArg₂ mk (UInt64.toNat_inj.mp (by omega)) (UInt32.toNat_inj.mp (by omega))
  · rintro rfl
    rfl

-- From here on only the order of the numbers matters, not how they are computed.
attribute [irreducible] key

lemma before_iff {checkpoint : SearchCheckpoint} :
    DB.before checkpoint blockNum logIdx = true ↔
      checkpoint.context.key < key ⟨blockNum, logIdx⟩ := by
  rw [key_lt_iff, DB.before, decide_eq_true_eq]
  rfl

/-- The positions of the logs are in ascending order. -/
def Ascending (logs : List LogRecord) : Prop :=
  logs.Pairwise fun r s => r.context.key < s.context.key

/-! ## The search for a checkpoint -/

/-- The checkpoint of a log, as it is stored. -/
def LogRecord.checkpoint (r : LogRecord) : SearchCheckpoint := ⟨r.blockNum, r.logIdx, r.timestamp⟩

@[simp] lemma LogRecord.context_checkpoint (r : LogRecord) : r.checkpoint.context = r.context :=
  rfl

lemma Stores.readSearchCheckpoint (h : Stores db logs) (howner : Owner logs (k * 256) xs r ys) :
    db.readSearchCheckpoint (k * searchCheckpointFrequency) = .ok r.checkpoint := by
  have hlog := (howner.split ▸ h).logAt
  have hread := (hlog.readSearchCheckpoint (Nat.mul_mod_left _ _) howner.le howner.lt).1
  exact_mod_cast hread

lemma Stores.newIterator (h : Stores db logs) (howner : Owner logs (k * 256) xs r ys) :
    ∃ c, db.newIterator (k * searchCheckpointFrequency) = .ok ⟨initIdx (endOf 0 xs), c, false⟩ ∧
      db.nextLog ⟨initIdx (endOf 0 xs), c, false⟩ =
        (afterLog (endOf 0 xs) r, .ok (r.context, r.logHash)) := by
  have hlog := (howner.split ▸ h).logAt
  have hiter := hlog.newIterator (Nat.mul_mod_left _ _) howner.le howner.lt
  exact_mod_cast hiter

lemma checkpoint_lt_length {c : SearchCheckpoint}
    (hread : db.readSearchCheckpoint (k * searchCheckpointFrequency) = .ok c) :
    k * 256 < db.store.length := by
  by_contra hge
  have hlast : lastEntryIdx db.store < k * searchCheckpointFrequency := by
    rw [lastEntryIdx, searchCheckpointFrequency]
    omega
  rw [DB.readSearchCheckpoint, EntryStore.read, if_pos hlast] at hread
  cases hread

lemma Stores.checkpoint_lt (h : Stores db logs) {c : SearchCheckpoint}
    (hread : db.readSearchCheckpoint (k * searchCheckpointFrequency) = .ok c) :
    k * 256 < endOf 0 logs := h.length_store ▸ checkpoint_lt_length hread

lemma Stores.owner_of_checkpoint (h : Stores db logs) {c : SearchCheckpoint}
    (hread : db.readSearchCheckpoint (k * searchCheckpointFrequency) = .ok c) :
    ∃ xs r ys, Owner logs (k * 256) xs r ys ∧ c = r.checkpoint := by
  obtain ⟨xs, r, ys, howner⟩ := exists_owner (h.checkpoint_lt hread)
  refine ⟨xs, r, ys, howner, ?_⟩
  rw [h.readSearchCheckpoint howner] at hread
  exact (Except.ok.inj hread).symm

lemma probe_of_read {c : SearchCheckpoint}
    (h : db.readSearchCheckpoint (k * searchCheckpointFrequency) = .ok c) :
    db.probe blockNum logIdx k = .ok (DB.before c blockNum logIdx) := by
  rw [DB.probe, h]
  rfl

lemma searchCheckpoint_empty (h : db.store = []) (blockNum : UInt64) (logIdx : UInt32) :
    ∃ e, db.searchCheckpoint blockNum logIdx = .error e ∧ e.is .eof = true := by
  obtain ⟨store, head⟩ := db
  subst h
  exact ⟨_, rfl, rfl⟩

/-- The search for a position stops at the checkpoint with number `k`: the one before it stands
before the position.  The result is the checkpoint `k` when it carries the position; otherwise it
does not stand before the position, and the result is the one before it. -/
structure StopsAt (db : DB) (blockNum : UInt64) (logIdx : UInt32) (k : ℕ) : Prop where
  prev : k = 0 ∨ ∃ c, db.readSearchCheckpoint ((k - 1 : ℕ) * searchCheckpointFrequency) = .ok c ∧
    DB.before c blockNum logIdx = true
  result : (∃ c, db.readSearchCheckpoint (k * searchCheckpointFrequency) = .ok c ∧
      c.context = ⟨blockNum, logIdx⟩ ∧
      db.searchCheckpoint blockNum logIdx = .ok (k * searchCheckpointFrequency)) ∨
    ((∀ c, db.readSearchCheckpoint (k * searchCheckpointFrequency) = .ok c →
        DB.before c blockNum logIdx = false ∧ c.context ≠ ⟨blockNum, logIdx⟩) ∧
      db.searchCheckpoint blockNum logIdx =
        if k = 0 then .error .eof else .ok ((k - 1 : ℕ) * searchCheckpointFrequency))

lemma checkpointCount_eq {store : List Entry} (h : store ≠ []) :
    ((lastEntryIdx store).tdiv searchCheckpointFrequency + 1).toNat =
      (store.length - 1) / 256 + 1 := by
  have hpos : 0 < store.length := length_pos_iff.mpr h
  have hlast : lastEntryIdx store = ((store.length - 1 : ℕ) : ℤ) := by
    rw [lastEntryIdx]
    omega
  rw [hlast, Int.tdiv_eq_ediv_of_nonneg (Int.natCast_nonneg _), searchCheckpointFrequency]
  omega

lemma searchCheckpoint_eq (hn : (db.lastEntryIdx.tdiv searchCheckpointFrequency + 1).toNat = n)
    (hsearch : BinarySearch.search (db.probe blockNum logIdx) n 0 n = .ok k) {found : Bool}
    (hfound : (k < n ∧ ∃ c, db.readSearchCheckpoint (k * searchCheckpointFrequency) = .ok c ∧
      found = decide (c.blockNum = blockNum ∧ c.logIdx = logIdx)) ∨ (¬k < n ∧ found = false)) :
    db.searchCheckpoint blockNum logIdx =
      if found then .ok (k * searchCheckpointFrequency)
      else if k = 0 then .error .eof else .ok ((k - 1 : ℕ) * searchCheckpointFrequency) := by
  rw [DB.searchCheckpoint, hn, hsearch]
  rcases hfound with ⟨hlt, c, hc, rfl⟩ | ⟨hge, rfl⟩
  · simp only [ok_bind, hlt, if_true, hc, wrapError_ok]
  · simp only [ok_bind, hge, if_false]

/-- Where the search for a position stops, when there is a checkpoint at every multiple of 256. -/
theorem exists_stopsAt (hread : ∀ k : ℕ, k * 256 < db.store.length →
      ∃ c, db.readSearchCheckpoint (k * searchCheckpointFrequency) = .ok c)
    (hne : db.store ≠ []) (blockNum : UInt64) (logIdx : UInt32) :
    ∃ k, StopsAt db blockNum logIdx k := by
  obtain ⟨n, hn⟩ : ∃ n, n = (db.store.length - 1) / 256 + 1 := ⟨_, rfl⟩
  have hcnt : (db.lastEntryIdx.tdiv searchCheckpointFrequency + 1).toNat = n := by
    rw [hn]
    exact checkpointCount_eq hne
  have hpos : 0 < db.store.length := length_pos_iff.mpr hne
  have hread : ∀ k < n, ∃ c, db.readSearchCheckpoint (k * searchCheckpointFrequency) = .ok c :=
    fun k hk => hread k (by omega)
  have hprobe : ∀ k < n, ∃ answer, db.probe blockNum logIdx k = .ok answer := by
    intro k hk
    obtain ⟨c, hc⟩ := hread k hk
    exact ⟨_, probe_of_read hc⟩
  obtain ⟨k, hsearch, -, hk, hprev, hat⟩ :=
    BinarySearch.search_spec hprobe (Nat.zero_le n) (le_refl n) (Nat.sub_le n 0)
  refine ⟨k, hprev.imp_right fun h => ?_, ?_⟩
  · obtain ⟨c, hc, hans⟩ := bind_eq_ok.mp h
    exact ⟨c, wrapError_eq_ok.mp hc, Except.ok.inj hans⟩
  by_cases hlt : k < n
  · obtain ⟨c, hc⟩ := hread k hlt
    have hres := searchCheckpoint_eq hcnt hsearch (Or.inl ⟨hlt, c, hc, rfl⟩)
    have hpre : DB.before c blockNum logIdx = false := by
      have hans := hat.resolve_left (ne_of_lt hlt)
      rw [probe_of_read hc] at hans
      exact Except.ok.inj hans
    by_cases hfound : c.blockNum = blockNum ∧ c.logIdx = logIdx
    · refine Or.inl ⟨c, hc, ?_, ?_⟩
      · rw [SearchCheckpoint.context, hfound.1, hfound.2]
      · grind
    · refine Or.inr ⟨?_, ?_⟩
      · intro d hd
        cases hc.symm.trans hd
        refine ⟨hpre, ?_⟩
        intro heq
        exact hfound ⟨congrArg LogContext.blockNum heq, congrArg LogContext.logIdx heq⟩
      · grind
  · refine Or.inr ⟨?_, searchCheckpoint_eq hcnt hsearch (Or.inr ⟨hlt, rfl⟩)⟩
    -- Behind the last checkpoint there is nothing to read.
    intro c hc
    have hend := checkpoint_lt_length hc
    omega

lemma Stores.searchCheckpoint (h : Stores db logs) (hne : db.store ≠ []) (blockNum : UInt64)
    (logIdx : UInt32) : ∃ k, StopsAt db blockNum logIdx k := by
  apply exists_stopsAt _ hne
  intro k hk
  obtain ⟨xs, r, ys, howner⟩ := exists_owner (h.length_store ▸ hk)
  exact ⟨_, h.readSearchCheckpoint howner⟩

/-! ## Lookups -/

/-- The log at a position, as an ordered map from positions to logs has it. -/
def recorded (logs : List LogRecord) (c : LogContext) : Option LogRecord :=
  logs.find? fun r => r.context = c

lemma recorded_eq_none : recorded logs c = none ↔ ∀ r ∈ logs, r.context ≠ c := by
  simp [recorded]

lemma recorded_cons (r : LogRecord) (rs : List LogRecord) (c : LogContext) :
    recorded (r :: rs) c = if r.context = c then some r else recorded rs c := by
  rw [recorded]
  by_cases hr : r.context = c
  · simp [hr]
  · simp [hr, recorded]

lemma recorded_append (h : ∀ r ∈ xs, r.context ≠ c) : recorded (xs ++ ys) c = recorded ys c := by
  have hxs := recorded_eq_none.mpr h
  rw [recorded] at hxs
  rw [recorded, find?_append, hxs]
  rfl

lemma recorded_append_left (h : ∀ r ∈ ys, r.context ≠ c) :
    recorded (xs ++ ys) c = recorded xs c := by
  have hys := recorded_eq_none.mpr h
  rw [recorded] at hys
  rw [recorded, find?_append, hys, or_none]
  rfl

lemma Ascending.recorded_of_mem (h : Ascending logs) (hr : r ∈ logs) :
    recorded logs r.context = some r := by
  induction logs with
  | nil => cases hr
  | cons s rs ih =>
    obtain ⟨hs, hrs⟩ := pairwise_cons.mp h
    rw [recorded_cons]
    rcases mem_cons.mp hr with rfl | hmem
    · rw [if_pos rfl]
    · have hne : s.context ≠ r.context := by
        intro heq
        have hlt := hs r hmem
        rw [heq] at hlt
        exact lt_irrefl _ hlt
      rw [if_neg hne]
      exact ih hrs hmem

/-- The result of a lookup: the hash of the log that was found, with an iterator that has
returned it, or the error that there is none. -/
def Finds (db : DB) : Option LogRecord → Except DBError (TruncatedHash × Iterator) → Prop
  | none, result => result = .error .notFound
  | some r, result => ∃ n pre rs, LogAt db n pre r rs ∧ result = .ok (r.logHash, afterLog n r)

lemma findLoop_succ {j : Iterator} (hi : db.nextLog i = (j, .ok (r.context, r.logHash)))
    (blockNum : UInt64) (logIdx : UInt32) (rounds : ℕ) :
    db.findLoop blockNum logIdx (rounds + 1) i =
      if r.context = ⟨blockNum, logIdx⟩ then .ok (r.logHash, j)
      else if key ⟨blockNum, logIdx⟩ < r.context.key then .error .notFound
      else db.findLoop blockNum logIdx rounds j := by
  have heq : r.context = ⟨blockNum, logIdx⟩ ↔
      r.context.blockNum = blockNum ∧ r.context.logIdx = logIdx := by
    rw [mk.injEq]
  have hlt : key ⟨blockNum, logIdx⟩ < r.context.key ↔ blockNum < r.context.blockNum ∨
      (r.context.blockNum = blockNum ∧ logIdx < r.context.logIdx) := by
    rw [key_lt_iff]
    simp only [eq_comm]
  rw [DB.findLoop, hi]
  simp only [heq, hlt]

lemma LogAt.findLoop {pre : LogContext} {rs : List LogRecord} (h : LogAt db n pre r rs)
    (hsorted : Ascending (r :: rs)) {rounds : ℕ} (hrnd : rs.length < rounds)
    (hi : db.nextLog i = (afterLog n r, .ok (r.context, r.logHash))) (blockNum : UInt64)
    (logIdx : UInt32) :
    Finds db (recorded (r :: rs) ⟨blockNum, logIdx⟩) (db.findLoop blockNum logIdx rounds i) := by
  induction rs generalizing n pre r rounds i with
  | nil =>
    cases rounds with
    | zero => cases hrnd
    | succ rounds =>
      rw [recorded_cons, findLoop_succ hi]
      split
      · exact ⟨n, pre, [], h, rfl⟩
      · split
        · rfl
        · -- Behind the last log the scan ends, whether there are rounds left or not.
          cases rounds with
          | zero => rfl
          | succ rounds =>
            obtain ⟨j, hj, -⟩ := h.nextLog_end
            rw [DB.findLoop, hj]
            rfl
  | cons s rs ih =>
    cases rounds with
    | zero => cases hrnd
    | succ rounds =>
      obtain ⟨hr, hrs⟩ := pairwise_cons.mp hsorted
      rw [recorded_cons, findLoop_succ hi]
      split
      · exact ⟨n, pre, s :: rs, h, rfl⟩
      · split
        · -- All later logs stand behind the position as well.
          have hnone : recorded (s :: rs) ⟨blockNum, logIdx⟩ = none := by
            apply recorded_eq_none.mpr
            intro t ht heq
            have hrt := hr t ht
            rw [heq] at hrt
            omega
          rw [hnone]
          rfl
        · exact ih h.next hrs (Nat.lt_of_succ_lt_succ hrnd) h.nextLog_after

lemma Ascending.recorded_owner (h : Ascending logs) (howner : Owner logs q xs r ys)
    (hc : r.context.key ≤ c.key) : recorded logs c = recorded (r :: ys) c := by
  rw [howner.split]
  apply recorded_append
  intro s hs heq
  rw [howner.split] at h
  have hlt : s.context.key < r.context.key := (pairwise_append.mp h).2.2 s hs r mem_cons_self
  rw [heq] at hlt
  omega

lemma Stores.findLogInfo_of_owner (h : Stores db logs) (hsorted : Ascending logs)
    (howner : Owner logs (k * 256) xs r ys) (hle : r.context.key ≤ key ⟨blockNum, logIdx⟩)
    (hsearch : db.searchCheckpoint blockNum logIdx = .ok (k * searchCheckpointFrequency)) :
    Finds db (recorded logs ⟨blockNum, logIdx⟩) (db.findLogInfo blockNum logIdx) := by
  have hlog := (howner.split ▸ h).logAt
  obtain ⟨c, hiter, hnext⟩ := h.newIterator howner
  have hsuf : Ascending (r :: ys) := by
    rw [howner.split] at hsorted
    exact (pairwise_append.mp hsorted).2.1
  rw [hsorted.recorded_owner howner hle, DB.findLogInfo, hsearch]
  simp only [hiter]
  apply hlog.findLoop hsuf _ hnext
  rw [hlog.length_lt_unread]
  exact Nat.lt_succ_of_le hlog.length_le_unread

lemma Ascending.recorded_of_lt (h : Ascending logs) (hc : ∀ r ∈ logs.head?, c.key < r.context.key) :
    recorded logs c = none := by
  apply recorded_eq_none.mpr
  intro s hs heq
  cases logs with
  | nil => cases hs
  | cons r rs =>
    have hr : c.key < r.context.key := hc r rfl
    rcases mem_cons.mp hs with rfl | hmem
    · grind
    · have hlt := (pairwise_cons.mp h).1 s hmem
      rw [heq] at hlt
      omega

lemma owner_first (r : LogRecord) (rs : List LogRecord) (hq : q = 0) :
    Owner (r :: rs) q [] r rs := by
  have hend := initIdx_lt_endIdx 0 r
  refine ⟨rfl, Nat.zero_le q, ?_⟩
  rw [hq]
  exact lt_of_le_of_lt hend.1 hend.2

lemma Stores.findLogInfo (h : Stores db logs) (hsorted : Ascending logs) (blockNum : UInt64)
    (logIdx : UInt32) :
    Finds db (recorded logs ⟨blockNum, logIdx⟩) (db.findLogInfo blockNum logIdx) := by
  by_cases hne : db.store = []
  · obtain ⟨e, hsearch, he⟩ := searchCheckpoint_empty hne blockNum logIdx
    rw [h.logs_eq_nil hne, DB.findLogInfo, hsearch]
    simp only [he]
    rfl
  · obtain ⟨k, hprev, hres⟩ := h.searchCheckpoint hne blockNum logIdx
    rcases hres with ⟨c, hc, hctx, hsearch⟩ | ⟨hat, hsearch⟩
    · obtain ⟨xs, r, ys, howner, rfl⟩ := h.owner_of_checkpoint hc
      apply h.findLogInfo_of_owner hsorted howner _ hsearch
      rw [← hctx]
      exact le_refl _
    · by_cases hk : k = 0
      · -- The first checkpoint, and with it the first log, stands behind the position.
        obtain ⟨r, ys, rfl⟩ := h.exists_cons hne
        have howner : Owner (r :: ys) (k * 256) [] r ys := owner_first r ys (by omega)
        obtain ⟨hpre, hctx⟩ := hat _ (h.readSearchCheckpoint howner)
        have hnone : recorded (r :: ys) ⟨blockNum, logIdx⟩ = none := by
          apply hsorted.recorded_of_lt
          intro s hs
          cases hs
          have hge := mt before_iff.mpr (Bool.not_eq_true _ ▸ hpre)
          have hkey := mt key_inj.mp hctx
          rw [LogRecord.context_checkpoint] at hge hkey
          omega
        rw [hnone, DB.findLogInfo, hsearch, if_pos hk]
        rfl
      · obtain ⟨c, hc, hpre⟩ := hprev.resolve_left hk
        obtain ⟨xs, r, ys, howner, rfl⟩ := h.owner_of_checkpoint hc
        have hlt := before_iff.mp hpre
        rw [if_neg hk] at hsearch
        exact h.findLogInfo_of_owner hsorted howner (le_of_lt hlt) hsearch

lemma Stores.executes (h : Stores db logs) (hsorted : Ascending logs) (blockNum : UInt64)
    (logIdx : UInt32) :
    db.executes blockNum logIdx =
      match recorded logs ⟨blockNum, logIdx⟩ with
      | none => .error .notFound
      | some r => .ok r.executing := by
  have hfind := h.findLogInfo hsorted blockNum logIdx
  rw [DB.executes]
  cases hrec : recorded logs ⟨blockNum, logIdx⟩ with
  | none =>
    rw [hrec] at hfind
    rw [show db.findLogInfo blockNum logIdx = .error .notFound from hfind]
    rfl
  | some r =>
    rw [hrec] at hfind
    obtain ⟨n, pre, rs, hlog, hres⟩ := hfind
    simp only [hres, ok_bind, hlog.execMessage, wrapError_ok]

lemma Stores.contains (h : Stores db logs) (hsorted : Ascending logs) (blockNum : UInt64)
    (logIdx : UInt32) (logHash : TruncatedHash) :
    db.contains blockNum logIdx logHash =
      .ok ((recorded logs ⟨blockNum, logIdx⟩).any fun r => r.logHash = logHash) := by
  have hfind := h.findLogInfo hsorted blockNum logIdx
  rw [DB.contains]
  cases hrec : recorded logs ⟨blockNum, logIdx⟩ with
  | none =>
    rw [hrec] at hfind
    rw [show db.findLogInfo blockNum logIdx = .error .notFound from hfind]
    rfl
  | some r =>
    rw [hrec] at hfind
    obtain ⟨n, pre, rs, hlog, hres⟩ := hfind
    simp only [hres, any_some]

end FightNight.Supervisor
