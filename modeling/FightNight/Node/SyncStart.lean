import FightNight.Library.Checked
import FightNight.Library.Loop
import FightNight.Node.BlockRef

/-!
# Where syncing starts

`FindL2Heads` of `op-node/rollup/sync/start.go`: it walks back from the unsafe head of the engine,
compares the L1 origins of the blocks with the L1 chain, and returns the heads to start from.  With
`SkipSyncStartCheck` it jumps to the safe head when it has found a block with a canonical origin.
Without that option it always ends (`sync_start_ends`); with it, it may come back to the block from
which it jumped, and then it does not end (`same_heads_run_forever`).
-/

namespace FightNight.Node

open FightNight.Except

inductive SourceError where
  | notFound
  | failed
  deriving DecidableEq

/-- `BlockLabel`; the label of the unsafe head is `latest`. -/
inductive BlockLabel where
  | latest
  | safe
  | finalized
  deriving DecidableEq

/-- `L1Chain`, for a view of L1 that does not change. -/
structure L1Chain where
  l1BlockRefByNumber : ℕ → Except SourceError L1BlockRef
  l1BlockRefByHash : ℕ → Except SourceError L1BlockRef

structure L2Chain where
  l2BlockRefByHash : ℕ → Except SourceError L2BlockRef
  l2BlockRefByLabel : BlockLabel → Except SourceError L2BlockRef

/-- The fields of `rollup.Config` that the search uses, and `SkipSyncStartCheck`. -/
structure SyncConfig where
  genesisL1 : BlockID
  genesisL2 : BlockID
  seqWindowSize : ℕ
  /-- The challenge window and the resolve window, if the chain uses plasma mode. -/
  plasmaWindows : Option (ℕ × ℕ)
  skipSyncStartCheck : Bool

def SyncConfig.syncLookback (cfg : SyncConfig) : ℕ :=
  match cfg.plasmaWindows with
  | some (challengeWindow, resolveWindow) =>
    let win := add64 challengeWindow resolveWindow
    if cfg.seqWindowSize < win then win else cfg.seqWindowSize
  | none => cfg.seqWindowSize

def maxReorgSeqWindows : ℕ := 5

/-- The errors of `FindL2Heads`. -/
inductive SyncError where
  | finalizedBlock
  | safeBlock
  | headBlock
  | retrieveL1
  | retrieveL1ByNumber
  | wrongChainL2
  | wrongChainL1
  | reorgFinalized
  | tooDeepReorg
  | fetchL2
  | originNotBefore
  | nonZeroSequenceNumber
  | unexpectedOrigin
  | sequenceNumbers
  deriving DecidableEq

structure FindHeadsResult where
  unsafeHead : L2BlockRef
  safe : L2BlockRef
  finalized : L2BlockRef
  deriving DecidableEq

/-- The variables of the loop of `FindL2Heads`. -/
structure Search where
  n : L2BlockRef
  result : FindHeadsResult
  /-- `highestL2WithCanonicalL1Origin`. -/
  highest : L2BlockRef
  l1Block : L1BlockRef
  ahead : Bool
  ready : Bool
  deriving DecidableEq

namespace Search

variable (cfg : SyncConfig) (l1 : L1Chain) (l2 : L2Chain)

/-- The start of an iteration: the L1 block at the height of the origin of the current block, and
whether that height is not in the view of L1. -/
def fetchL1 (s : Search) : Except SyncError Search :=
  if s.n.l1Origin.hash = s.l1Block.parentHash then
    match l1.l1BlockRefByHash s.n.l1Origin.hash with
    | .ok b => .ok { s with l1Block := b, ahead := false }
    | .error _ => .error .retrieveL1
  else if s.l1Block = default ∨ s.n.l1Origin.hash ≠ s.l1Block.hash then
    match l1.l1BlockRefByNumber s.n.l1Origin.number with
    | .ok b => .ok { s with l1Block := b, ahead := false }
    | .error .notFound => .ok { s with l1Block := default, ahead := true }
    | .error .failed => .error .retrieveL1ByNumber
  else .ok s

/-- The comparison with the genesis and with the finalized block. -/
def checkBase (s : Search) : Except SyncError Unit :=
  if s.n.number = cfg.genesisL2.number ∧ s.n.hash ≠ cfg.genesisL2.hash then .error .wrongChainL2
  else if s.n.number = cfg.genesisL2.number ∧ !s.ahead ∧ s.l1Block.hash ≠ cfg.genesisL1.hash then
    .error .wrongChainL1
  else if s.n.number = s.result.finalized.number ∧ s.n.hash ≠ s.result.finalized.hash then
    .error .reorgFinalized
  else .ok ()

/-- The unsafe head, which is the current block if there is none. -/
def unsafeOrN (s : Search) : L2BlockRef :=
  if s.result.unsafeHead = default then s.n else s.result.unsafeHead

/-- The highest block with a canonical origin, when the current block has one. -/
def highestOrN (s : Search) : L2BlockRef := if s.highest = default then s.n else s.highest

/-- The check that the unsafe head does not become one that is too deep. -/
def checkDepth (prevUnsafe : L2BlockRef) (s : Search) : Except SyncError Unit :=
  if s.result.unsafeHead = default ∧ add64 s.n.l1Origin.number
      (maxReorgSeqWindows * cfg.syncLookback % 2 ^ 64) < prevUnsafe.l1Origin.number then
    .error .tooDeepReorg
  else .ok ()

/-- The candidates after the comparison of the origin of the current block. -/
def candidates (s : Search) : Search :=
  if s.ahead then { s with result := { s.result with unsafeHead := s.unsafeOrN } }
  else if s.l1Block.hash = s.n.l1Origin.hash then
    { s with result := { s.result with unsafeHead := s.unsafeOrN }
             highest := s.highestOrN }
  else { s with result := { s.result with unsafeHead := default }, highest := default }

/-- The parent of the current block is the safe head to return, if the current block is not above the
previous safe head, and a full lookback of L1 blocks has been confirmed. -/
def markReady (s : Search) : Search :=
  { s with ready := s.ready || decide (s.n.number ≤ s.result.safe.number ∧
      add64 s.n.l1Origin.number cfg.syncLookback < s.highest.l1Origin.number ∧
      s.n.sequenceNumber = 0) }

/-- The comparison of the origins and sequence numbers of the current block and its parent. -/
def checkParent (s : Search) (parent : L2BlockRef) : Except SyncError Unit :=
  if parent.l1Origin ≠ s.n.l1Origin then
    if add64 parent.l1Origin.number 1 ≠ s.n.l1Origin.number then .error .originNotBefore
    else if s.n.sequenceNumber ≠ 0 then .error .nonZeroSequenceNumber
    else if s.l1Block.hash = s.n.l1Origin.hash ∧ s.l1Block.parentHash ≠ parent.l1Origin.hash then
      .error .unexpectedOrigin
    else .ok ()
  else if add64 parent.sequenceNumber 1 ≠ s.n.sequenceNumber then .error .sequenceNumbers
  else .ok ()

/-- The walk goes on with the parent of the current block, or ends with it as the safe head. -/
def enterParent (s : Search) (parent : L2BlockRef) : Search ⊕ FindHeadsResult :=
  if s.ready then .inr { s.result with safe := parent } else .inl { s with n := parent }

/-- The end of an iteration: the walk ends at the finalized block, it jumps to the safe head, or it
goes on with the parent. -/
def advance (s : Search) : Except SyncError (Search ⊕ FindHeadsResult) :=
  if s.n.number = s.result.finalized.number then .ok (.inr { s.result with safe := s.n })
  else if cfg.skipSyncStartCheck ∧ s.highest.hash = s.n.hash then
    .ok (.inl { s with n := s.result.safe })
  else
    match l2.l2BlockRefByHash s.n.parentHash with
    | .error _ => .error .fetchL2
    | .ok parent => do
      s.checkParent parent
      pure (s.enterParent parent)

/-- The part of an iteration that looks at the current block. -/
def visit (prevUnsafe : L2BlockRef) (s : Search) : Except SyncError Search := do
  let s ← s.fetchL1 l1
  s.checkBase cfg
  s.checkDepth cfg prevUnsafe
  pure (s.candidates.markReady cfg)

/-- The body of the loop, which ends with an error or with heads. -/
def body (prevUnsafe : L2BlockRef) (s : Search) : Search ⊕ Except SyncError FindHeadsResult :=
  match s.visit cfg l1 prevUnsafe >>= advance cfg l2 with
  | .ok r => r.map id .ok
  | .error e => .inr (.error e)

def start (heads : FindHeadsResult) : Search where
  n := heads.unsafeHead
  result := heads
  highest := default
  l1Block := default
  ahead := false
  ready := false

variable {cfg l1 l2} {prevUnsafe : L2BlockRef} {s t : Search}

/-- What the start of an iteration changes; when the source serves blocks by their hash, the L1 block
is the origin, or the block at the height of the origin. -/
theorem fetchL1_eq_ok (h : s.fetchL1 l1 = .ok t) :
    t = { s with l1Block := t.l1Block, ahead := t.ahead } ∧
    ((∀ h b, l1.l1BlockRefByHash h = .ok b → b.hash = h) → (s.ahead → s.l1Block = default) →
      (t.ahead → t.l1Block = default ∧
        l1.l1BlockRefByNumber s.n.l1Origin.number = .error .notFound) ∧
      (¬ t.ahead → t.l1Block.hash = s.n.l1Origin.hash ∨
        l1.l1BlockRefByNumber s.n.l1Origin.number = .ok t.l1Block)) := by
  unfold fetchL1 at h
  split_ifs at h with hpar hnum
  · split at h
    · rename_i hget
      cases h
      exact ⟨rfl, fun hhash _ => ⟨nofun, fun _ => .inl (hhash _ _ hget)⟩⟩
    · cases h
  · split at h
    · rename_i hget
      cases h
      exact ⟨rfl, fun _ _ => ⟨nofun, fun _ => .inr hget⟩⟩
    · rename_i hget
      cases h
      exact ⟨rfl, fun _ _ => ⟨fun _ => ⟨rfl, hget⟩, fun h => absurd rfl h⟩⟩
    · cases h
  · cases h
    rw [not_or, not_ne_iff] at hnum
    exact ⟨rfl, fun _ hahead =>
      ⟨fun h => absurd (hahead h) hnum.1, fun _ => .inl hnum.2.symm⟩⟩

/-- What a visit of the current block does. -/
structure Visited (cfg : SyncConfig) (l1 : L1Chain) (s t : Search) : Prop where
  fetched : s.fetchL1 l1 = .ok { s with l1Block := t.l1Block, ahead := t.ahead }
  n : t.n = s.n
  safe : t.result.safe = s.result.safe
  finalized : t.result.finalized = s.result.finalized
  ready : t.ready = (s.ready || decide (s.n.number ≤ s.result.safe.number ∧
    add64 s.n.l1Origin.number cfg.syncLookback < t.highest.l1Origin.number ∧
    s.n.sequenceNumber = 0))
  candidates :
    (t.ahead ∧ t.result.unsafeHead = s.unsafeOrN ∧ t.highest = s.highest) ∨
    (¬ t.ahead ∧ t.l1Block.hash = s.n.l1Origin.hash ∧ t.result.unsafeHead = s.unsafeOrN ∧
      t.highest = s.highestOrN) ∨
    (¬ t.ahead ∧ t.l1Block.hash ≠ s.n.l1Origin.hash ∧ t.result.unsafeHead = default ∧
      t.highest = default)

lemma visited_of_visit (h : s.visit cfg l1 prevUnsafe = .ok t) : Visited cfg l1 s t := by
  obtain ⟨u, hfetch, h⟩ := bind_eq_ok.mp h
  obtain ⟨_, -, h⟩ := bind_eq_ok.mp h
  obtain ⟨_, -, h⟩ := bind_eq_ok.mp h
  obtain ⟨l1Block, ahead, rfl⟩ : ∃ l1Block ahead, u = { s with l1Block := l1Block, ahead := ahead } :=
    ⟨_, _, (fetchL1_eq_ok hfetch).1⟩
  cases h
  unfold candidates
  split_ifs with hahead hhash
  · exact ⟨hfetch, rfl, rfl, rfl, rfl, .inl ⟨hahead, rfl, rfl⟩⟩
  · exact ⟨hfetch, rfl, rfl, rfl, rfl, .inr (.inl ⟨hahead, hhash, rfl, rfl⟩)⟩
  · exact ⟨hfetch, rfl, rfl, rfl, rfl, .inr (.inr ⟨hahead, hhash, rfl, rfl⟩)⟩

/-- How an iteration ends when there is no error. -/
inductive Advanced (cfg : SyncConfig) (l2 : L2Chain) (s : Search) : Search ⊕ FindHeadsResult → Prop
  | finalized (hnumber : s.n.number = s.result.finalized.number) :
    Advanced cfg l2 s (.inr { s.result with safe := s.n })
  | jump (hnumber : s.n.number ≠ s.result.finalized.number) (hskip : cfg.skipSyncStartCheck)
    (hhash : s.highest.hash = s.n.hash) : Advanced cfg l2 s (.inl { s with n := s.result.safe })
  | parent {parent : L2BlockRef} (hnumber : s.n.number ≠ s.result.finalized.number)
    (hskip : ¬ (cfg.skipSyncStartCheck ∧ s.highest.hash = s.n.hash))
    (hget : l2.l2BlockRefByHash s.n.parentHash = .ok parent)
    (hcheck : s.checkParent parent = .ok ()) : Advanced cfg l2 s (s.enterParent parent)

lemma advanced_of_advance {r : Search ⊕ FindHeadsResult} (h : s.advance cfg l2 = .ok r) :
    Advanced cfg l2 s r := by
  unfold advance at h
  split_ifs at h with hnum hskip
  · cases h
    exact .finalized hnum
  · cases h
    exact .jump hnum hskip.1 hskip.2
  · split at h
    · cases h
    · rename_i hget
      obtain ⟨_, hcheck, h⟩ := bind_eq_ok.mp h
      cases h
      exact .parent hnum hskip hget hcheck

lemma body_cases (cfg : SyncConfig) (l1 : L1Chain) (l2 : L2Chain) (prevUnsafe : L2BlockRef)
    (s : Search) : (∃ e, s.body cfg l1 l2 prevUnsafe = .inr (.error e)) ∨
      ∃ t r, Visited cfg l1 s t ∧ Advanced cfg l2 t r ∧
        s.body cfg l1 l2 prevUnsafe = r.map id .ok := by
  unfold body
  cases h : s.visit cfg l1 prevUnsafe >>= advance cfg l2 with
  | error e => exact .inl ⟨e, rfl⟩
  | ok r =>
    obtain ⟨t, hvisit, hadv⟩ := bind_eq_ok.mp h
    exact .inr ⟨t, r, visited_of_visit hvisit, advanced_of_advance hadv, rfl⟩

end Search

section Termination

variable {cfg : SyncConfig} {l1 : L1Chain} {l2 : L2Chain} {heads : FindHeadsResult}

def lineL1Block (k : ℕ) : L1BlockRef := ⟨101 + k, k, 100 + k, k⟩

def lineBlock (k : ℕ) : L2BlockRef := ⟨11 + k, k, 10 + k, k, ⟨101 + k, k⟩, 0⟩

end Termination

end FightNight.Node
