import Mathlib.Data.List.Dedup
import Mathlib.Data.List.Sort
import FightNight.Library.Bytes

/-!
# Fork identifiers

A node announces a checksum of the forks it has passed and the next fork it knows of; the
`ForkFilter` of a peer decides from them whether both can be on one chain.  The forks of a chain
are one list, block forks before time forks, and a head has passed an initial part of it
(`exists_cut`).  The rules of `validate` are the ways in which the cuts of two heads can lie to
each other.

The filter keeps what it has computed for its head until `set_head` moves the head out of the
epoch between two forks.  As heads pass the forks in order, no other fork is passed in between
(`Cached.active_eq`), and the filter is always the one that would be built anew.
-/

namespace FightNight.Reth

open Option List

def timestampBeforeEthereumMainnet : ℕ := 1300000000

/-- How to filter forks: by block number or by timestamp. -/
inductive ForkFilterKey where
  | block (number : ℕ)
  | time (timestamp : ℕ)
  deriving DecidableEq

/-- The head of a chain, as far as the filter reads it. -/
structure Head where
  number : ℕ
  timestamp : ℕ

namespace ForkFilterKey

/-- The number that is hashed and announced for a fork. -/
def toU64 : ForkFilterKey → ℕ
  | block n | time n => n

/-- The order of the forks: every block comes before every time. -/
def le : ForkFilterKey → ForkFilterKey → Bool
  | block a, block b | time a, time b => a ≤ b
  | block _, time _ => true
  | time _, block _ => false

def active (head : Head) : ForkFilterKey → Bool
  | block n => n ≤ head.number
  | time t => t ≤ head.timestamp

instance : Std.Total (fun a b => le a b = true) :=
  ⟨fun a b => by cases a <;> cases b <;> simp [le, le_total]⟩

instance : IsTrans ForkFilterKey (fun a b => le a b = true) :=
  ⟨fun a b c => by cases a <;> cases b <;> cases c <;> simp [le]; all_goals omega⟩

end ForkFilterKey

/-- The CRC-32 of the `crc` crate: the checksum of a genesis hash, and a checksum continued with
the bytes of a number. -/
structure Crc32 (H : Type) where
  ofGenesis : ℕ → H
  extend : H → ℕ → H

/-- A fork identifier; `next` is 0 when no fork is announced. -/
structure ForkId (H : Type) where
  hash : H
  next : ℕ

inductive ValidationError (H : Type) where
  | remoteStale (localId remote : ForkId H)
  | localIncompatibleOrStale (localId remote : ForkId H)

/-- Forks with their checksums, in the order of the keys. -/
abbrev Forks (H : Type) := List (ForkFilterKey × H)

/-- The part of the cache that the walk over the forks fills in. -/
structure Epochs (H : Type) where
  epochStart : ForkFilterKey := .block 0
  epochEnd : Option ForkFilterKey := none
  past : Forks H := []
  future : List H := []

structure Cache (H : Type) extends Epochs H where
  forkId : ForkId H

structure ForkFilter (H : Type) where
  forks : Forks H
  head : Head
  cache : Cache H

open ForkFilterKey

variable {H : Type}

/-- One fork of the walk of `compute_cache`. -/
def Epochs.add (head : Head) (c : Epochs H) (fork : ForkFilterKey × H) : Epochs H :=
  if active head fork.1 then { c with epochStart := fork.1, past := c.past ++ [fork] }
  else { c with epochEnd := c.epochEnd.or (some fork.1), future := c.future ++ [fork.2] }

/-- The cache for a head; there is none when no fork is active. -/
def Cache.computeCache (forks : Forks H) (head : Head) : Option (Cache H) :=
  let c := forks.foldl (Epochs.add head) {}
  c.past.getLast?.map fun last =>
    { c with forkId := ⟨last.2, (c.epochEnd.getD (.block 0)).toU64⟩ }

/-- The head is before the epoch of the cache or after it. -/
def Epochs.leaves (c : Epochs H) (head : Head) : Bool :=
  let headInPast : Bool := match c.epochStart with
    | .block epochStartBlock => head.number < epochStartBlock
    | .time epochStartTime => head.timestamp < epochStartTime
  let headInFuture : Bool := match c.epochEnd with
    | some (.block epochEndBlock) => epochEndBlock ≤ head.number
    | some (.time epochEndTime) => epochEndTime ≤ head.timestamp
    | none => false
  headInPast || headInFuture

/-- A transition from one fork to another. -/
structure ForkTransition (H : Type) where
  current : ForkId H
  past : ForkId H

namespace ForkFilter

/-- The forks that count: without the genesis block and the forks before the genesis time. -/
def keys (genesisTimestamp : ℕ) (forks : List ForkFilterKey) : List ForkFilterKey :=
  ((forks.dedup.insertionSort (fun a b => le a b = true)).filter
    fun k => k ≠ .time 0 ∧ k ≠ .block 0).filter fun
      | .block _ => true
      | .time t => genesisTimestamp < t

/-- The forks with the checksums up to each of them, from the genesis on. -/
def hashed (crc : Crc32 H) (genesisHash : ℕ) (keys : List ForkFilterKey) : Forks H :=
  let genesis := crc.ofGenesis genesisHash
  (keys.foldl (fun (acc, base) key =>
    (acc ++ [(key, crc.extend base key.toU64)], crc.extend base key.toU64))
    ([(.block 0, genesis)], genesis)).1

/-- Create the filter from a head, the genesis block and the list of forks. -/
def new (crc : Crc32 H) (head : Head) (genesisHash genesisTimestamp : ℕ)
    (forks : List ForkFilterKey) : Option (ForkFilter H) :=
  let forks := hashed crc genesisHash (keys genesisTimestamp forks)
  (Cache.computeCache forks head).map (⟨forks, head, ·⟩)

def current (f : ForkFilter H) : ForkId H := f.cache.forkId

/-- Whether an announced fork is already passed locally; a number above the old timestamp is
taken for a time. -/
def isIncompatible (f : ForkFilter H) (next : ℕ) : Bool :=
  if f.head.number < timestampBeforeEthereumMainnet then
    (timestampBeforeEthereumMainnet < next ∧ next ≤ f.head.timestamp) ∨
      (next ≤ timestampBeforeEthereumMainnet ∧ next ≤ f.head.number)
  else
    match f.cache.epochStart with
    | .block _ => next ≤ f.head.number
    | .time _ => next ≤ f.head.timestamp

/-- `set_head`, with the transition that it returns. -/
def setHead (head : Head) (f : ForkFilter H) :
    Option (ForkFilter H × Option (ForkTransition H)) :=
  if f.cache.leaves head then
    (Cache.computeCache f.forks head).map fun cache =>
      (⟨f.forks, head, cache⟩, some ⟨cache.forkId, f.current⟩)
  else some ({ f with head }, none)

/-- The filter after a sequence of calls of `set_head`. -/
def setHeads (heads : List Head) (f : ForkFilter H) : Option (ForkFilter H) :=
  heads.foldlM (fun f head => (f.setHead head).map Prod.fst) f

variable [DecidableEq H]

/-- The fork after the one with the given checksum, if both are in the list. -/
def following (hash : H) : Forks H → Option ForkFilterKey
  | [] => none
  | (_, h) :: rest => if h = hash then rest.head?.map Prod.fst else following hash rest

/-- Whether a peer with the given fork identifier can be on the same chain. -/
def validate (f : ForkFilter H) (forkId : ForkId H) : Except (ValidationError H) Unit :=
  if f.current.hash = forkId.hash then
    if forkId.next = 0 then .ok ()
    else if f.isIncompatible forkId.next then
      .error (.localIncompatibleOrStale f.current forkId)
    else .ok ()
  else
    match following forkId.hash f.cache.past with
    | some key =>
      if key.toU64 = forkId.next then .ok () else .error (.remoteStale f.current forkId)
    | none =>
      if forkId.hash ∈ f.cache.future then .ok ()
      else .error (.localIncompatibleOrStale f.current forkId)

omit [DecidableEq H]

lemma foldl_add (head : Head) (forks : Forks H) (c : Epochs H) :
    let past := forks.filter fun k => active head k.1
    let future := forks.filter fun k => !active head k.1
    let c' := forks.foldl (Epochs.add head) c
    c'.past = c.past ++ past ∧ c'.future = c.future ++ future.map Prod.snd ∧
      c'.epochEnd = c.epochEnd.or (future.head?.map Prod.fst) ∧
      c'.epochStart = (past.getLast?.map Prod.fst).getD c.epochStart := by
  induction forks generalizing c with
  | nil => simp
  | cons k forks ih =>
    by_cases hk : active head k.1 <;> simp_all [Epochs.add, getLast?_cons]

lemma filter_append_filter {α : Type} {p : α → Bool} {l : List α}
    (h : l.Pairwise fun a b => p b → p a) : l.filter p ++ l.filter (fun a => !p a) = l := by
  induction l with
  | nil => rfl
  | cons a l ih =>
    obtain ⟨ha, hl⟩ := pairwise_cons.mp h
    by_cases hp : p a
    · simp [hp, ih hl]
    · have hnone : ∀ b ∈ l, ¬p b := fun b hb hpb => hp (ha b hb hpb)
      simpa [hp, filter_eq_nil_iff.mpr hnone] using hnone

/-- A head has passed `past` of the forks of a chain, and `future` is still to come. -/
structure Cut (forks : Forks H) (f : ForkFilter H) (past future : Forks H) : Prop where
  parts : past ++ future = forks
  waits : ∀ k ∈ future, active f.head k.1 = false
  cachePast : f.cache.past = past
  cacheFuture : f.cache.future = future.map Prod.snd
  hash : past.getLast?.map Prod.snd = some f.current.hash
  next : f.current.next = ((future.head?.map Prod.fst).getD (.block 0)).toU64

section Accepts

variable {f g : ForkFilter H} {forks past between future : Forks H}

lemma Cut.hash_mem (h : Cut forks f (past ++ between) future) (hne : between ≠ []) :
    f.current.hash ∈ between.map Prod.snd := by
  have hlast := h.hash
  rw [getLast?_append_of_ne_nil _ hne, getLast?_eq_some_getLast hne] at hlast
  exact some.inj hlast ▸ mem_map_of_mem (getLast_mem hne)

variable [DecidableEq H]

lemma following_append {hash : H} (h : hash ∉ past.map Prod.snd) (rest : Forks H) :
    following hash (past ++ rest) = following hash rest := by
  induction past with
  | nil => rfl
  | cons a l ih =>
    rw [map_cons, mem_cons, not_or] at h
    rw [cons_append, following, if_neg (Ne.symm h.1), ih h.2]

/-- A peer that has passed the same forks is accepted: its next fork is not passed here. -/
theorem validate_same (hf : Cut forks f past future) (hg : Cut forks g past future)
    (hnum : f.head.number < timestampBeforeEthereumMainnet)
    (hblock : ∀ b h, (.block b, h) ∈ forks → b < timestampBeforeEthereumMainnet)
    (htime : ∀ t h, (.time t, h) ∈ forks → timestampBeforeEthereumMainnet < t) :
    f.validate g.current = .ok () := by
  have hhash : f.current.hash = g.current.hash := some.inj (hf.hash.symm.trans hg.hash)
  rw [validate]
  split_ifs with h0 h1
  · rfl
  · rw [hg.next] at h0 h1
    rw [isIncompatible, if_pos hnum, decide_eq_true_eq] at h1
    cases future with
    | nil => exact absurd rfl h0
    | cons k rest =>
      obtain ⟨k, h⟩ := k
      have hk := hf.waits _ mem_cons_self
      have hmem : (k, h) ∈ forks := hf.parts ▸ mem_append_right _ mem_cons_self
      cases k with
      | block b =>
        have := hblock b h hmem
        simp [active, toU64] at hk h1
        omega
      | time t =>
        have := htime t h hmem
        simp [active, toU64] at hk h1
        omega
  · rfl

/-- A peer that has passed fewer forks is accepted: it announces the one that follows here. -/
theorem validate_behind (hf : Cut forks f (past ++ between) future)
    (hg : Cut forks g past (between ++ future)) (hne : between ≠ [])
    (hnodup : (forks.map Prod.snd).Nodup) : f.validate g.current = .ok () := by
  obtain ⟨fork, rest, rfl⟩ := exists_cons_of_ne_nil hne
  obtain ⟨last, hlast, hsnd⟩ := map_eq_some_iff.mp hg.hash
  obtain ⟨init, rfl⟩ := getLast?_eq_some_iff.mp hlast
  have hparts := hf.parts ▸ hnodup
  simp only [map_append, nodup_append, map_cons, hsnd] at hparts
  have hhash : f.current.hash ≠ g.current.hash := fun h =>
    hparts.1.2.2 g.current.hash (by simp) _ (hf.hash_mem hne) h.symm
  have hfollow : following g.current.hash f.cache.past = some fork.1 := by
    rw [hf.cachePast, append_assoc, following_append fun h => hparts.1.1.2.2 _ h _ (by simp) rfl]
    simp [following, hsnd]
  simp [validate, hhash, hfollow, hg.next]

/-- A peer that has passed more forks is accepted: they are known here. -/
theorem validate_ahead (hf : Cut forks f past (between ++ future))
    (hg : Cut forks g (past ++ between) future) (hne : between ≠ [])
    (hnodup : (forks.map Prod.snd).Nodup) : f.validate g.current = .ok () := by
  have hparts := hg.parts ▸ hnodup
  simp only [map_append, nodup_append] at hparts
  have hmem := hg.hash_mem hne
  have hnew : g.current.hash ∉ past.map Prod.snd := fun h => hparts.1.2.2 _ h _ hmem rfl
  have hhash : f.current.hash ≠ g.current.hash := by
    obtain ⟨last, hlast, hsnd⟩ := map_eq_some_iff.mp hf.hash
    exact fun h => hnew (h ▸ hsnd ▸ mem_map_of_mem (mem_of_getLast? hlast))
  have hfollow : following g.current.hash f.cache.past = none := by
    simpa [following, hf.cachePast] using following_append hnew []
  simp [validate, hhash, hfollow, hf.cacheFuture, mem_append.mpr (.inl hmem)]

end Accepts

/-- A head within the estimate of the filter, at which no time fork is active before all block
forks are. -/
structure Settled (forks : List ForkFilterKey) (head : Head) : Prop where
  number : head.number < timestampBeforeEthereumMainnet
  ordered : ∀ t b, .time t ∈ forks → t ≤ head.timestamp → .block b ∈ forks → b ≤ head.number

variable (crc : Crc32 H) (genesisHash genesisTimestamp : ℕ) {forks : List ForkFilterKey}
  {head : Head}

lemma keys_hashed (keys : List ForkFilterKey) :
    (hashed crc genesisHash keys).map Prod.fst = .block 0 :: keys := by
  have hfold : ∀ (acc : Forks H) (base : H), ((keys.foldl (fun (acc, base) key =>
      (acc ++ [(key, crc.extend base key.toU64)], crc.extend base key.toU64)) (acc, base)).1).map
        Prod.fst = acc.map Prod.fst ++ keys := by
    induction keys with
    | nil => simp
    | cons k keys ih => simp [ih]
  exact hfold _ _

lemma mem_of_mem_keys {k : ForkFilterKey} (h : k ∈ keys genesisTimestamp forks) : k ∈ forks := by
  simpa using mem_of_mem_filter (mem_of_mem_filter h)

/-- At a head no time fork is active before all block forks are. -/
def Ordered (forks : List ForkFilterKey) (head : Head) : Prop :=
  ∀ t b, .time t ∈ forks → t ≤ head.timestamp → .block b ∈ forks → b ≤ head.number

lemma Ordered.pairwise (h : Ordered forks head) :
    (hashed crc genesisHash (keys genesisTimestamp forks)).Pairwise
      fun a b => active head b.1 → active head a.1 := by
  have hsorted : (keys genesisTimestamp forks).Pairwise fun a b => le a b = true :=
    ((pairwise_insertionSort _ _).filter _).filter _
  have hkeys : (.block 0 :: keys genesisTimestamp forks).Pairwise
      fun a b => active head b → active head a := by
    refine pairwise_cons.mpr ⟨fun _ _ _ => by simp [active], hsorted.imp_of_mem ?_⟩
    intro a b ha hb hle
    have ha := mem_of_mem_keys _ ha
    have hb := mem_of_mem_keys _ hb
    cases a <;> cases b <;> simp only [le, active, decide_eq_true_eq] at hle ⊢
    · omega
    · exact fun ht => h _ _ hb ht ha
    · cases hle
    · omega
  rw [← keys_hashed] at hkeys
  exact pairwise_map.mp hkeys

lemma exists_new (forks : List ForkFilterKey) (head : Head) :
    ∃ f, new crc head genesisHash genesisTimestamp forks = some f := by
  have hkeys := keys_hashed crc genesisHash (keys genesisTimestamp forks)
  rw [new]
  generalize hashed crc genesisHash (keys genesisTimestamp forks) = hashes at *
  -- the genesis block is active at every head
  have hne : (hashes.foldl (Epochs.add head) {}).past ≠ [] := by
    obtain ⟨⟨k, h⟩, rest, rfl, rfl, -⟩ := map_eq_cons_iff.mp hkeys
    rw [(foldl_add head _ {}).1]
    simp [active]
  exact ⟨_, by rw [Cache.computeCache, getLast?_eq_some_getLast hne]; rfl⟩

lemma exists_cut (h : Settled forks head) :
    ∃ f, new crc head genesisHash genesisTimestamp forks = some f ∧ f.head = head ∧
      ∃ past future, Cut (hashed crc genesisHash (keys genesisTimestamp forks)) f past future := by
  have hsorted := Ordered.pairwise crc genesisHash genesisTimestamp h.ordered
  obtain ⟨f, hf⟩ := exists_new crc genesisHash genesisTimestamp forks head
  refine ⟨f, hf, ?_⟩
  rw [new] at hf
  generalize hashed crc genesisHash (keys genesisTimestamp forks) = hashes at *
  obtain ⟨c, hc, rfl⟩ := map_eq_some_iff.mp hf
  obtain ⟨last, hlast, rfl⟩ := map_eq_some_iff.mp hc
  obtain ⟨hpast, hfuture, hend, -⟩ := foldl_add head hashes {}
  refine ⟨rfl, _, _, filter_append_filter hsorted, fun k hk => by simpa using (mem_filter.mp hk).2,
    hpast, hfuture, ?_, ?_⟩
  · rw [hpast, nil_append] at hlast
    rw [hlast]
    rfl
  · rw [hend]
    rfl

/-- Peers on one chain accept each other, wherever their heads are in the list of forks. -/
theorem same_chain_accepted [DecidableEq H] (forks : List ForkFilterKey) (head head' : Head)
    (htime : ∀ t, .time t ∈ forks → timestampBeforeEthereumMainnet < t)
    (hblock : ∀ b, .block b ∈ forks → b < timestampBeforeEthereumMainnet)
    (hhead : Settled forks head) (hhead' : Settled forks head')
    (hdistinct : ((hashed crc genesisHash (keys genesisTimestamp forks)).map Prod.snd).Nodup) :
    ∃ f g, new crc head genesisHash genesisTimestamp forks = some f ∧
      new crc head' genesisHash genesisTimestamp forks = some g ∧
      f.validate g.current = .ok () := by
  obtain ⟨f, hf, rfl, past, future, hcut⟩ := exists_cut crc genesisHash genesisTimestamp hhead
  obtain ⟨g, hg, -, past', future', hcut'⟩ := exists_cut crc genesisHash genesisTimestamp hhead'
  have hmem : ∀ k h, (k, h) ∈ hashed crc genesisHash (keys genesisTimestamp forks) →
      k = .block 0 ∨ k ∈ forks := fun k h hk =>
    (mem_cons.mp (keys_hashed crc genesisHash _ ▸ mem_map_of_mem hk)).imp_right
      (mem_of_mem_keys _)
  refine ⟨f, g, hf, hg, ?_⟩
  obtain ⟨between, rfl, rfl⟩ | ⟨between, rfl, rfl⟩ :=
    append_eq_append_iff.mp (hcut.parts.trans hcut'.parts.symm)
  all_goals
    by_cases hne : between = []
    · subst hne
      simp only [append_nil] at hcut hcut'
      refine validate_same hcut hcut' hhead.number (fun b h hk => ?_) fun t h hk => ?_
      · obtain h0 | hk := hmem _ _ hk
        · cases h0; decide
        · exact hblock b hk
      · exact htime t ((hmem _ _ hk).resolve_left nofun)
  · exact validate_ahead hcut hcut' hne hdistinct
  · exact validate_behind hcut hcut' hne hdistinct

/-- A chain with a block fork and a time fork: a head before both accepts one after both. -/
theorem same_chain_accepted_two_forks :
    let crc : Crc32 (List ℕ) := ⟨fun g => [g], fun h n => n :: h⟩
    let forks : List ForkFilterKey := [.time 1681338455, .block 1150000]
    ∃ f g, new crc ⟨0, 0⟩ 7 0 forks = some f ∧ new crc ⟨17034870, 1681338455⟩ 7 0 forks = some g ∧
      f.validate g.current = .ok () :=
  same_chain_accepted _ _ _ _ _ _ (by simp; decide) (by simp; decide)
    ⟨by decide, by simp; omega⟩ ⟨by decide, by simp; omega⟩ (by decide)

/-! ## Moving the head -/

section

variable {forks : Forks H} {head' : Head} {c c' : Cache H} {last last' k : ForkFilterKey × H}

lemma leaves_iff : c.leaves head ↔
    active head c.epochStart = false ∨ ∃ k ∈ c.epochEnd, active head k := by
  obtain ⟨⟨start, stop, -, -⟩, -⟩ := c
  rcases start with _ | _ <;> rcases stop with _ | (_ | _) <;> simp [Epochs.leaves, active]

/-- What the cache holds for a head at which `last` is the last active fork. -/
structure Cached (forks : Forks H) (head : Head) (c : Cache H) (last : ForkFilterKey × H) :
    Prop where
  last_eq : (forks.filter fun k => active head k.1).getLast? = some last
  start : c.epochStart = last.1
  stop : c.epochEnd = (forks.filter fun k => !active head k.1).head?.map Prod.fst
  hash : c.forkId.hash = last.2

lemma exists_cached (h : Cache.computeCache forks head = some c) : ∃ last, Cached forks head c last := by
  obtain ⟨last, hlast, rfl⟩ := map_eq_some_iff.mp h
  obtain ⟨hpast, -, hend, hstart⟩ := foldl_add head forks {}
  rw [hpast, nil_append] at hlast
  rw [hlast] at hstart
  exact ⟨last, hlast, hstart, hend, rfl⟩

lemma Cached.mem_last (h : Cached forks head c last) : last ∈ forks ∧ active head last.1 :=
  mem_filter.mp (mem_of_getLast? h.last_eq)

/-- Where the last fork that was active is active, all that were active are. -/
lemma Cached.active_of_last (h : Cached forks head c last)
    (hsorted : forks.Pairwise fun a b => active head' b.1 → active head' a.1)
    (hlast : active head' last.1) (hk : k ∈ forks) (hact : active head k.1) :
    active head' k.1 := by
  obtain ⟨init, hinit⟩ := getLast?_eq_some_iff.mp h.last_eq
  have hpast := hsorted.filter fun k => active head k.1
  have hmem : k ∈ init ++ [last] := hinit ▸ mem_filter.mpr ⟨hk, hact⟩
  rw [hinit] at hpast
  rcases mem_append.mp hmem with hmem | hmem
  · exact (pairwise_append.mp hpast).2.2 k hmem last (mem_singleton_self last) hlast
  · rwa [mem_singleton.mp hmem]

/-- While the head stays in the epoch, no fork becomes active or inactive. -/
theorem Cached.active_eq (h : Cached forks head c last)
    (hsorted : forks.Pairwise fun a b => active head' b.1 → active head' a.1)
    (hstay : ¬c.leaves head') (hk : k ∈ forks) : active head' k.1 = active head k.1 := by
  rw [leaves_iff, not_or, h.start, h.stop, Bool.not_eq_false] at hstay
  cases hact : active head k.1 with
  | true => exact h.active_of_last hsorted hstay.1 hk hact
  | false =>
    -- the first inactive fork is still inactive, and the others come after it
    have hfuture := hsorted.filter fun k => !active head k.1
    have hmem : k ∈ forks.filter fun k => !active head k.1 := by simp [hk, hact]
    cases hforks : forks.filter fun k => !active head k.1 with
    | nil => simp [hforks] at hmem
    | cons first rest =>
      simp only [hforks, mem_cons, pairwise_cons] at hfuture hmem hstay
      rw [← Bool.not_eq_true]
      intro hk'
      refine hstay.2 ⟨first.1, rfl, ?_⟩
      rcases hmem with rfl | hmem
      · exact hk'
      · exact hfuture.1 k hmem hk'

/-- When the head leaves the epoch, the fork identifier changes. -/
theorem Cached.forkId_ne (h : Cached forks head c last) (h' : Cached forks head' c' last')
    (hsorted : forks.Pairwise fun a b => active head b.1 → active head a.1)
    (hnodup : (forks.map Prod.snd).Nodup) (hleaves : c.leaves head') : c'.forkId ≠ c.forkId := by
  intro heq
  obtain rfl : last' = last := inj_on_of_nodup_map hnodup h'.mem_last.1 h.mem_last.1
    (by rw [← h'.hash, heq, h.hash])
  rw [leaves_iff, h.start, h.stop, h'.mem_last.2] at hleaves
  obtain ⟨_, hstop, hact⟩ := hleaves.resolve_left nofun
  obtain ⟨fork, hfork, rfl⟩ := map_eq_some_iff.mp hstop
  obtain ⟨hmem, hwaits⟩ := mem_filter.mp (mem_of_head? hfork)
  simp [h'.active_of_last hsorted h.mem_last.2 hmem hact] at hwaits

lemma computeCache_congr (h : ∀ k ∈ forks, active head' k.1 = active head k.1) :
    Cache.computeCache forks head' = Cache.computeCache forks head := by
  have hfold : forks.foldl (Epochs.add head') {} = forks.foldl (Epochs.add head) {} := by
    apply foldl_ext
    intro c k hk
    rw [Epochs.add, h k hk, Epochs.add]
  rw [Cache.computeCache, hfold, Cache.computeCache]

end

variable {f : ForkFilter H}

/-- After a call of `set_head` the filter is the one that is built at the new head. -/
theorem setHead_coherent (hf : new crc f.head genesisHash genesisTimestamp forks = some f)
    (h : Ordered forks head) :
    ∃ f' transition, f.setHead head = some (f', transition) ∧ f'.head = head ∧
      new crc head genesisHash genesisTimestamp forks = some f' ∧
      (Ordered forks f.head →
        ((hashed crc genesisHash (keys genesisTimestamp forks)).map Prod.snd).Nodup →
        (transition.isSome ↔ f'.current ≠ f.current)) := by
  have hsorted := fun {head} (h : Ordered forks head) =>
    h.pairwise crc genesisHash genesisTimestamp
  obtain ⟨f', hf'⟩ := exists_new crc genesisHash genesisTimestamp forks head
  simp only [new] at hf hf' ⊢
  generalize hashed crc genesisHash (keys genesisTimestamp forks) = hashes at *
  obtain ⟨c, hc, hfc⟩ := map_eq_some_iff.mp hf
  obtain ⟨c', hc', rfl⟩ := map_eq_some_iff.mp hf'
  obtain ⟨start, rfl⟩ : ∃ start, f = ⟨hashes, start, c⟩ := ⟨_, hfc.symm⟩
  obtain ⟨last, hcached⟩ := exists_cached hc
  obtain ⟨last', hcached'⟩ := exists_cached hc'
  by_cases hleaves : c.leaves head
  · refine ⟨_, some ⟨c'.forkId, c.forkId⟩, ?_, rfl, hf', fun hs hnodup => ?_⟩
    · simp [setHead, hleaves, hc', current]
    · simpa [current] using hcached.forkId_ne hcached' (hsorted hs) hnodup hleaves
  · have hsame := computeCache_congr fun k hk => hcached.active_eq (hsorted h) hleaves hk
    rw [hc, hc'] at hsame
    cases hsame
    exact ⟨_, none, by simp [setHead, hleaves], rfl, hf', fun _ _ => by simp [current]⟩

lemma setHeads_coherent {heads : List Head} (hheads : ∀ h ∈ heads, Ordered forks h)
    (hf : new crc f.head genesisHash genesisTimestamp forks = some f) :
    ∃ f', f.setHeads heads = some f' ∧
      new crc f'.head genesisHash genesisTimestamp forks = some f' := by
  induction heads generalizing f with
  | nil => exact ⟨f, rfl, hf⟩
  | cons head heads ih =>
    obtain ⟨hhead, hrest⟩ := forall_mem_cons.mp hheads
    obtain ⟨f₁, transition, hset, rfl, hf₁, -⟩ := setHead_coherent _ _ _ hf hhead
    simpa [setHeads, hset] using ih hrest hf₁

/-- After every sequence of heads, forwards and backwards, at which no time fork is active before
all block forks are, the filter is the one that is built at the last head.  The last call returned a
transition exactly when the fork identifier changed, if the forks have different checksums. -/
theorem set_head_coherent (forks : List ForkFilterKey) (start head : Head) (heads : List Head)
    (hheads : ∀ h ∈ heads, Ordered forks h) (hhead : Ordered forks head) :
    ∃ f₀ f f' transition, new crc start genesisHash genesisTimestamp forks = some f₀ ∧
      f₀.setHeads heads = some f ∧ f.setHead head = some (f', transition) ∧
      new crc head genesisHash genesisTimestamp forks = some f' ∧
      (Ordered forks f.head →
        ((hashed crc genesisHash (keys genesisTimestamp forks)).map Prod.snd).Nodup →
        (transition.isSome ↔ f'.current ≠ f.current)) := by
  obtain ⟨f₀, hf₀⟩ := exists_new crc genesisHash genesisTimestamp forks start
  obtain rfl : f₀.head = start := by
    obtain ⟨c, -, rfl⟩ := map_eq_some_iff.mp hf₀
    rfl
  obtain ⟨f, hrun, hf⟩ := setHeads_coherent _ _ _ hheads hf₀
  obtain ⟨f', transition, hset, -, hf', hiff⟩ := setHead_coherent _ _ _ hf hhead
  exact ⟨f₀, f, f', transition, hf₀, hrun, hset, hf', hiff⟩

/-- The head moves behind both forks and back. -/
theorem set_head_coherent_two_forks :
    let crc : Crc32 (List ℕ) := ⟨fun g => [g], fun h n => n :: h⟩
    let forks : List ForkFilterKey := [.time 1681338455, .block 1150000]
    ∃ f₀ f f' transition, new crc ⟨0, 0⟩ 7 0 forks = some f₀ ∧
      f₀.setHeads [⟨17034870, 1681338455⟩] = some f ∧ f.setHead ⟨3, 0⟩ = some (f', transition) ∧
      new crc ⟨3, 0⟩ 7 0 forks = some f' := by
  intro crc forks
  obtain ⟨f₀, f, f', transition, hnew, hrun, hset, hf', -⟩ := set_head_coherent crc 7 0 forks ⟨0, 0⟩
    ⟨3, 0⟩ [⟨17034870, 1681338455⟩] (by simp [Ordered, forks]; omega) (by simp [Ordered, forks]; omega)
  exact ⟨f₀, f, f', transition, hnew, hrun, hset, hf'⟩

/-- One bit of the checksum. -/
def crcBit (c : BitVec 32) : BitVec 32 :=
  if c.getLsbD 0 then (c >>> 1) ^^^ 0xEDB88320#32 else c >>> 1

/-- A CRC-32 continued with bytes. -/
def crc32 (c : BitVec 32) (bs : Bytes) : BitVec 32 :=
  ~~~(bs.foldl (fun c b => crcBit^[8] (c ^^^ b.toBitVec.setWidth 32)) (~~~c))

/-- The checksums of `ForkHash`. -/
def forkHash : Crc32 (BitVec 32) :=
  ⟨fun g => crc32 0 (beBytes 32 g), fun h n => crc32 h (beBytes 8 n)⟩

example : forkHash.extend (forkHash.ofGenesis
    0xd4e56740f876aef8c010b86a40d5f56745a118d0906a34e69aec8c0db1cb8fa3) 1150000 = 0x97c2c34c := by
  decide +kernel

/-- The checksum of this genesis hash does not change when it is continued with 5.  The head passes
the block 5 before the time 5 and a transition is returned, but the fork identifier is the same. -/
theorem transition_unchanged :
    Ordered [.block 5, .time 5] ⟨0, 0⟩ ∧ Ordered [.block 5, .time 5] ⟨5, 0⟩ ∧
    ((new forkHash ⟨0, 0⟩ 0xd4479f76 0 [.block 5, .time 5]).bind fun f =>
      (f.setHead ⟨5, 0⟩).map fun (f', transition) => (transition.isSome, f.current.hash,
        f.current.next, f'.current.hash, f'.current.next)) =
      some (true, 0x8a56a2fa, 5, 0x8a56a2fa, 5) := by
  refine ⟨?_, ?_, by decide +kernel⟩
  · simp [Ordered]
    omega
  · simp [Ordered]
    omega

end FightNight.Reth.ForkFilter
