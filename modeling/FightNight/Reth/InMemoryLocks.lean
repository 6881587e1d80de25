import Mathlib.Data.List.Basic
import Mathlib.Logic.Relation

/-!
# The locks of the in-memory chain state

`CanonicalInMemoryState` keeps two maps behind read-write locks.  Its calls are modelled by the
sequences in which they take and release the locks, run by any number of threads.  A thread that
waits while it holds a lock waits for the inner one, so that threads which agree on the outer lock
cannot wait for each other in a circle (`deadlock_free`); the calls of the source do not agree
(`update_and_persist_deadlock`).
-/

namespace FightNight.Reth.InMemoryState

open List Relation

inductive Lock where
  | blocks
  | numbers
  deriving DecidableEq

inductive Mode where
  | read
  | write
  deriving DecidableEq

inductive Act where
  | lock (l : Lock) (mode : Mode)
  | unlock (l : Lock)
  deriving DecidableEq

/-- The calls.  A lookup by number takes the second lock only if it finds the number. -/
inductive Call where
  | stateByHash
  | hashByNumber
  | stateByNumber (found : Bool)
  | headState (found : Bool)
  | updateChain
  | removePersistedBlocks
  | clearState

def updateMetrics : List Act := [.lock .numbers .read, .unlock .numbers]

/-- A block under the guard of `numbers`, if the number is found. -/
def lookup (found : Bool) : List Act :=
  .lock .numbers .read ::
    ((if found then [.lock .blocks .read, .unlock .blocks] else []) ++ [.unlock .numbers])

/-- What a call does with the locks; guards are dropped in the reverse order. -/
def Call.acts : Call → List Act
  | stateByHash => [.lock .blocks .read, .unlock .blocks]
  | hashByNumber => [.lock .numbers .read, .unlock .numbers]
  | stateByNumber found | headState found => lookup found
  | updateChain =>
    [.lock .numbers .write, .lock .blocks .write, .unlock .blocks, .unlock .numbers] ++ updateMetrics
  | removePersistedBlocks | clearState =>
    [.lock .blocks .write, .lock .numbers .write, .unlock .numbers, .unlock .blocks] ++ updateMetrics

/-- The lock that a call holds while it takes the other one. -/
def Call.outer : Call → Option Lock
  | stateByHash | hashByNumber => none
  | stateByNumber _ | headState _ | updateChain => some .numbers
  | removePersistedBlocks | clearState => some .blocks

/-- A thread with the guards it holds and what it has still to do. -/
structure Thread where
  held : List (Lock × Mode)
  todo : List Act
  deriving DecidableEq

/-- A lock can be taken: a writer excludes everyone, readers exclude writers. -/
def free (s : List Thread) (l : Lock) (mode : Mode) : Prop :=
  ∀ t ∈ s, ∀ g ∈ t.held, g.1 = l → g.2 = .read ∧ mode = .read

instance (s : List Thread) (l : Lock) (mode : Mode) : Decidable (free s l mode) :=
  inferInstanceAs (Decidable (∀ t ∈ s, ∀ g ∈ t.held, g.1 = l → g.2 = .read ∧ mode = .read))

/-- A step of one thread, if it is not finished and does not wait. -/
def step (s : List Thread) (i : ℕ) : Option (List Thread) := do
  let t ← s[i]?
  match t.todo with
  | [] => none
  | .lock l mode :: rest => if free s l mode then some (s.set i ⟨(l, mode) :: t.held, rest⟩) else none
  | .unlock l :: rest => some (s.set i ⟨t.held.filter (·.1 ≠ l), rest⟩)

/-- Threads that have their calls before them. -/
def start (threads : List (List Call)) : List Thread :=
  threads.map fun calls => ⟨[], calls.flatMap Call.acts⟩

/-- The next acts take a second lock only inside the lock `o`, and release everything. -/
def Nested (o : Lock) : List (Lock × Mode) → List Act → Prop
  | held, [] => held = []
  | held, .lock l mode :: rest =>
    (held ≠ [] → held.map Prod.fst = [o] ∧ l ≠ o) ∧ Nested o ((l, mode) :: held) rest
  | held, .unlock l :: rest => Nested o (held.filter (·.1 ≠ l)) rest

section Nested

variable {o : Lock} {held : List (Lock × Mode)} {s s' : List Thread} {t : Thread}

lemma Nested.append {a b : List Act} (ha : Nested o held a) (hb : Nested o [] b) :
    Nested o held (a ++ b) := by
  induction a generalizing held with
  | nil =>
    obtain rfl : held = [] := ha
    exact hb
  | cons act a ih =>
    cases act with
    | lock l mode => exact ⟨ha.1, ih ha.2⟩
    | unlock l => exact ih ha

lemma Call.nested {c : Call} (h : c.outer = none ∨ c.outer = some o) : Nested o [] c.acts := by
  cases c with
  | stateByHash | hashByNumber => simp [acts, Nested]
  | stateByNumber found | headState found =>
    obtain rfl : Lock.numbers = o := by simpa [outer] using h
    cases found <;> simp [acts, lookup, Nested]
  | updateChain | removePersistedBlocks | clearState =>
    cases (h.resolve_left nofun)
    simp [acts, updateMetrics, Nested]

lemma nested_flatMap {calls : List Call}
    (h : ∀ c ∈ calls, c.outer = none ∨ c.outer = some o) : Nested o [] (calls.flatMap Call.acts) := by
  induction calls with
  | nil => rfl
  | cons c calls ih =>
    rw [forall_mem_cons] at h
    exact (Call.nested h.1).append (ih h.2)

lemma nested_step {i : ℕ} (hs : ∀ t ∈ s, Nested o t.held t.todo) (h : step s i = some s') :
    ∀ t ∈ s', Nested o t.held t.todo := by
  obtain ⟨t, ht, h⟩ := Option.bind_eq_some_iff.mp h
  have hn := hs t (mem_of_getElem? ht)
  obtain ⟨held, todo⟩ := t
  have hset : ∀ t', Nested o t'.held t'.todo → ∀ t ∈ s.set i t', Nested o t.held t.todo :=
    fun t' ht' t ht => (mem_or_eq_of_mem_set ht).elim (hs t) fun h => h ▸ ht'
  cases todo with
  | nil => cases h
  | cons act rest =>
    cases act with
    | lock l mode =>
      dsimp only at h
      split_ifs at h
      cases h
      exact hset _ hn.2
    | unlock l =>
      cases h
      exact hset _ hn

lemma waits_of_step_eq_none (ht : t ∈ s) (h : ∀ i, step s i = none) (hne : t.todo ≠ []) :
    ∃ l mode rest, t.todo = .lock l mode :: rest ∧ ∃ t' ∈ s, ∃ g ∈ t'.held, g.1 = l := by
  obtain ⟨i, hi⟩ := mem_iff_getElem?.mp ht
  have hstep := h i
  rw [step, hi] at hstep
  obtain ⟨act, rest, htodo⟩ := exists_cons_of_ne_nil hne
  cases act with
  | lock l mode =>
    refine ⟨l, mode, rest, htodo, ?_⟩
    by_contra hnone
    have hfree : free s l mode := fun t' ht' g hg hgl => absurd ⟨t', ht', g, hg, hgl⟩ hnone
    simp [htodo, hfree] at hstep
  | unlock l => simp [htodo] at hstep

lemma Nested.waits {l : Lock} {mode : Mode} {rest : List Act} {g : Lock × Mode}
    (hn : Nested o held (.lock l mode :: rest)) (hg : g ∈ held) : g.1 = o ∧ l ≠ o := by
  obtain ⟨hheld, hl⟩ := hn.1 (ne_nil_of_mem hg)
  have := mem_map_of_mem (f := Prod.fst) hg
  rw [hheld] at this
  exact ⟨mem_singleton.mp this, hl⟩

end Nested

/-- When all calls that take both locks take the same one first, some thread can take a step in
every reachable state in which a call has not returned. -/
theorem deadlock_free (threads : List (List Call))
    (horder : ∃ o, ∀ calls ∈ threads, ∀ c ∈ calls, c.outer = none ∨ c.outer = some o)
    (s : List Thread) (hs : ReflTransGen (fun s s' => ∃ i, step s i = some s') (start threads) s)
    (hrun : ∃ t ∈ s, t.todo ≠ []) : ∃ i s', step s i = some s' := by
  obtain ⟨o, horder⟩ := horder
  have hn : ∀ t ∈ s, Nested o t.held t.todo := by
    clear hrun
    induction hs with
    | refl => exact forall_mem_map.mpr fun calls h => nested_flatMap (horder calls h)
    | tail _ hstep ih => exact hstep.elim fun i hi => nested_step ih hi
  by_contra hstuck
  have hnone : ∀ i, step s i = none := fun i =>
    Option.eq_none_iff_forall_ne_some.mpr fun s' h => hstuck ⟨i, s', h⟩
  -- a thread that holds a lock is not finished, so it waits with the outer lock for the inner one
  have hholder : ∀ t ∈ s, ∀ g ∈ t.held, g.1 = o ∧ ∃ l ≠ o, ∃ t' ∈ s, ∃ g' ∈ t'.held, g'.1 = l := by
    intro t ht g hg
    have hne : t.todo ≠ [] := fun h0 => by
      have hheld := hn t ht
      rw [h0] at hheld
      exact ne_nil_of_mem hg hheld
    obtain ⟨l, mode, rest, htodo, hcov⟩ := waits_of_step_eq_none ht hnone hne
    obtain ⟨hgo, hl⟩ := (htodo ▸ hn t ht : Nested o t.held (.lock l mode :: rest)).waits hg
    exact ⟨hgo, l, hl, hcov⟩
  obtain ⟨t, ht, hne⟩ := hrun
  obtain ⟨-, -, -, -, t', ht', g, hg, -⟩ := waits_of_step_eq_none ht hnone hne
  obtain ⟨-, l, hl, t'', ht'', g', hg', rfl⟩ := hholder t' ht' g hg
  exact hl (hholder t'' ht'' g' hg').1

theorem deadlock_free_update_and_lookup :
    ∃ i s', step (start [[.updateChain], [.stateByNumber true]]) i = some s' :=
  deadlock_free [[.updateChain], [.stateByNumber true]] ⟨.numbers, by simp [Call.outer]⟩ _ .refl
    ⟨_, mem_cons_self, nofun⟩

/-- A chain update that has locked `numbers` and a removal of persisted blocks that has locked
`blocks` wait for each other. -/
theorem update_and_persist_deadlock :
    ∃ s, (step (start [[.updateChain], [.removePersistedBlocks]]) 0 >>= (step · 1)) = some s ∧
      (∃ t ∈ s, t.todo ≠ []) ∧ ∀ i, step s i = none := by
  refine ⟨_, rfl, ⟨_, mem_cons_self, nofun⟩, fun i => ?_⟩
  match i with
  | 0 | 1 | i + 2 => rfl

end FightNight.Reth.InMemoryState
