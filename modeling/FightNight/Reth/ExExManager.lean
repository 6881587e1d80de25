import FightNight.Library.Run
import Mathlib.Algebra.Group.Nat.Defs
import Mathlib.Data.List.Perm.Basic
import Mathlib.Data.List.Range

/-!
# The manager of execution extensions

The `ExExManager` buffers the notifications of the node and sends them to the extensions, each
through a channel of capacity one; an extension that has reported a height is not sent the commits
up to that height.  The first entry of the buffer has the identifier `minId`.  A poll offers each
extension its next notification once (`advance_spec`), and in every run an extension was sent what
it was offered without the commits that were skipped (`exex_delivery`).
-/

namespace FightNight.ExEx

open List

/-- A block, as far as chains are compared. -/
structure Block where
  number : ℕ
  hash : ℕ
  deriving DecidableEq

/-- The chain of a notification, which has at least one block. -/
structure Chain where
  init : List Block
  tip : Block

inductive ExExNotification where
  | chainCommitted (new : Chain)
  | chainReorged (old new : Chain)
  | chainReverted (old : Chain)

/-- What `send` writes to the log for a notification it is done with. -/
inductive Logged where
  | skipping (notificationId finishedHeight newTip : ℕ)
  | sending (notificationId : ℕ)

/-- A handle to an extension.  The channel of capacity one is given by all that was sent and by
how much of it the extension has taken. -/
structure ExExHandle where
  sent : List ExExNotification := []
  taken : ℕ := 0
  /-- Whether the last poll found the channel full and left a waker there. -/
  senderWaker : Bool := false
  events : List ℕ := []
  nextNotificationId : ℕ := 0
  finishedHeight : Option ℕ := none
  log : List Logged := []

structure ExExManager where
  exexHandles : List ExExHandle
  maxCapacity : ℕ
  currentCapacity : ℕ
  handleRx : List ExExNotification := []
  minId : ℕ := 0
  nextId : ℕ := 0
  buffer : List (ℕ × ExExNotification) := []
  finishedHeight : Option ℕ := none

namespace ExExHandle

/-- Reserves a slot in the channel and sends the notification if there is one. -/
def reserveAndSend (h : ExExHandle) (id : ℕ) (n : ExExNotification) : ExExHandle :=
  if h.taken < h.sent.length then { h with senderWaker := true }
  else { h with sent := h.sent ++ [n], nextNotificationId := id + 1,
                log := h.log ++ [.sending id] }

/-- `ExExHandle::send`. -/
def send (h : ExExHandle) (id : ℕ) (n : ExExNotification) : ExExHandle :=
  match h.finishedHeight, n with
  | some height, .chainCommitted new =>
    if new.tip.number ≤ height then
      { h with nextNotificationId := id + 1,
               log := h.log ++ [.skipping id height new.tip.number] }
    else h.reserveAndSend id n
  | _, _ => h.reserveAndSend id n

/-- The last event that came in gives the finished height. -/
def receiveEvents (h : ExExHandle) : ExExHandle :=
  { h with
    events := []
    finishedHeight := h.events.foldl (fun _ height => some height) h.finishedHeight }

end ExExHandle

/-- `Vec::swap_remove`: the last element takes the place of the removed one. -/
def swapRemove {α : Type} (l : List α) (i : ℕ) : Option (α × List α) := do
  return (← l[i]?, (l.set i (← l.getLast?)).dropLast)

/-- `usize::MAX` and `u64::MAX`. -/
def maxU64 : ℕ := 2 ^ 64 - 1

namespace ExExManager

/-- A manager of new handles. -/
def new (extensions maxCapacity : ℕ) : ExExManager :=
  { exexHandles := replicate extensions {}, maxCapacity, currentCapacity := maxCapacity }

def updateCapacity (m : ExExManager) : ExExManager :=
  { m with currentCapacity := m.maxCapacity - m.buffer.length }

def pushNotification (m : ExExManager) (n : ExExNotification) : ExExManager :=
  { m with buffer := m.buffer ++ [(m.nextId, n)], nextId := m.nextId + 1 }

/-- Moves notifications from the channel to the buffer while it has room. -/
def drain : List ExExNotification → ExExManager → ExExManager
  | [], m => { m with handleRx := [] }
  | n :: rest, m =>
    if m.buffer.length < m.maxCapacity then drain rest (m.pushNotification n)
    else { m with handleRx := n :: rest }

/-- The handle after it was offered its next notification, if there is one. -/
def offer (m : ExExManager) (h : ExExHandle) : ExExHandle :=
  match m.buffer[h.nextNotificationId - m.minId]? with
  | some (id, n) => { h with senderWaker := false }.send id n
  | none => { h with senderWaker := false }

/-- The loop over the handles from the last index down, with the least identifier so far. -/
def advance (m : ExExManager) : ℕ → List ExExHandle → Option ℕ →
    Except String (List ExExHandle × Option ℕ)
  | 0, handles, least => .ok (handles, least)
  | idx + 1, handles, least =>
    match swapRemove handles idx with
    | none => .error "swap_remove index should be < len"
    | some (exex, handles) =>
      if exex.nextNotificationId < m.minId then
        .error "exex expected notification ID outside the manager's range"
      else
        let id := (m.offer exex).nextNotificationId
        m.advance idx (handles ++ [m.offer exex]) (some (least.elim id (min id)))

/-- The manager after the loop over the handles. -/
def finish (m : ExExManager) (handles : List ExExHandle) (minId : ℕ) : ExExManager :=
  let m := updateCapacity
    { m with exexHandles := handles.map (·.receiveEvents), minId,
             buffer := m.buffer.filter (minId ≤ ·.1) }
  { m with finishedHeight := (m.exexHandles.foldl (fun least h => do
      return min (← least) (← h.finishedHeight)) (some maxU64)).or m.finishedHeight }

/-- `ExExManager::poll`; it is always pending unless it panics. -/
def poll (m : ExExManager) : Except String ExExManager := do
  let m := (drain m.handleRx m).updateCapacity
  let (handles, least) ← m.advance m.exexHandles.length m.exexHandles none
  return m.finish handles (least.getD maxU64)

end ExExManager

/-- What happens around the manager: a notification comes in, the manager is polled, an extension
takes a notification from its channel or reports a finished height. -/
inductive Op where
  | notify (n : ExExNotification)
  | poll
  | receive (exex : ℕ)
  | finishedHeight (exex height : ℕ)

def exec : Op → ExExManager → Except String ExExManager
  | .notify n, m => .ok { m with handleRx := m.handleRx ++ [n] }
  | .poll, m => m.poll
  | .receive k, m => .ok { m with exexHandles := m.exexHandles.modify k fun h =>
      { h with taken := min (h.taken + 1) h.sent.length } }
  | .finishedHeight k height, m => .ok { m with exexHandles := m.exexHandles.modify k fun h =>
      { h with events := h.events ++ [height] } }

/-- The notifications that come in, in their order. -/
def incoming (ops : List Op) : List ExExNotification :=
  ops.filterMap fun
    | .notify n => some n
    | _ => none

/-- The log of an extension and what it was sent: it was offered the notifications one after the
other, and sent each of them but commits up to the height it had reported. -/
inductive Delivers (ns : List ExExNotification) : List Logged → List ExExNotification → Prop
  | start : Delivers ns [] []
  | sending {log sent n} (h : Delivers ns log sent) (hn : ns[log.length]? = some n) :
    Delivers ns (log ++ [.sending log.length]) (sent ++ [n])
  | skipping {log sent new height} (h : Delivers ns log sent)
    (hn : ns[log.length]? = some (.chainCommitted new)) (hle : new.tip.number ≤ height) :
    Delivers ns (log ++ [.skipping log.length height new.tip.number]) sent

/-- The buffer holds the notifications from `a` up to `b`, with their identifiers. -/
def Holds (ns : List ExExNotification) (a b : ℕ) (buffer : List (ℕ × ExExNotification)) : Prop :=
  buffer.map (fun p => (p.1, some p.2)) = (range' a (b - a)).map fun i => (i, ns[i]?)

section Buffer

variable {ns : List ExExNotification} {a b i : ℕ} {n : ExExNotification}
  {buffer : List (ℕ × ExExNotification)}

lemma Holds.push (h : Holds ns a b buffer) (hab : a ≤ b) (hn : ns[b]? = some n) :
    Holds ns a (b + 1) (buffer ++ [(b, n)]) := by
  rw [Holds] at h ⊢
  rw [Nat.sub_add_comm hab, range'_concat, map_append, h]
  simp [hn, Nat.add_sub_cancel' hab]

lemma Holds.getElem? (h : Holds ns a b buffer) (hai : a ≤ i) (hib : i < b) :
    (buffer[i - a]?).map (fun p => (p.1, some p.2)) = some (i, ns[i]?) := by
  have := congrArg (·[i - a]?) h
  simpa [Nat.sub_lt_sub_right hai hib, Nat.add_sub_cancel' hai] using this

lemma Holds.length (h : Holds ns a b buffer) : buffer.length = b - a := by
  simpa using congrArg List.length h

lemma filter_range' {a b c : ℕ} (hac : a ≤ c) (hcb : c ≤ b) :
    (range' a (b - a)).filter (c ≤ ·) = range' c (b - c) := by
  obtain ⟨k, rfl⟩ := Nat.exists_eq_add_of_le hac
  have hsplit : range' a (b - a) = range' a k ++ range' (a + k) (b - (a + k)) := by
    rw [range'_append_1]
    congr 1
    omega
  rw [hsplit, filter_append, filter_eq_nil_iff.mpr, filter_eq_self.mpr, nil_append]
  all_goals simp only [mem_range'_1, decide_eq_true_eq]; omega

lemma Holds.filter (h : Holds ns a b buffer) {c : ℕ} (hac : a ≤ c) (hcb : c ≤ b) :
    Holds ns c b (buffer.filter (c ≤ ·.1)) := by
  have := congrArg (List.filter (c ≤ ·.1)) h
  rw [filter_map, filter_map] at this
  simpa [Holds, Function.comp_def, filter_range' hac hcb] using this

end Buffer

/-! ## One poll -/

section Poll

variable {m : ExExManager} {h : ExExHandle}

lemma swapRemove_append {α : Type} (front back : List α) (x : α) :
    ∃ back', swapRemove (front ++ [x] ++ back) front.length = some (x, front ++ back') ∧
      back'.Perm back := by
  rcases eq_nil_or_concat back with rfl | ⟨init, last, rfl⟩
  · exact ⟨[], by simp [swapRemove], .nil⟩
  · refine ⟨last :: init, ?_, ?_⟩
    · simp [swapRemove, getLast?_cons]
      rw [← cons_append, dropLast_concat]
    · simpa using (perm_append_singleton last init).symm

lemma advance_spec {front back back₀ : List ExExHandle}
    (hmin : ∀ h ∈ front, m.minId ≤ h.nextNotificationId) (hperm : back.Perm back₀) :
    ∃ handles, handles.Perm (front.map m.offer ++ back₀) ∧
      m.advance front.length (front ++ back) (back₀.map (·.nextNotificationId)).min? =
        .ok (handles, ((front.map m.offer ++ back₀).map (·.nextNotificationId)).min?) := by
  induction front using reverseRecOn generalizing back back₀ with
  | nil => exact ⟨back, hperm, rfl⟩
  | append_singleton front x ih =>
    obtain ⟨back', hswap, hback⟩ := swapRemove_append front back x
    have hx : m.minId ≤ x.nextNotificationId := hmin x (by simp)
    obtain ⟨handles, hhand, heq⟩ := @ih (back' ++ [m.offer x]) (m.offer x :: back₀)
      (fun h hh => hmin h (mem_append_left _ hh))
      ((perm_append_comm.trans ((hback.trans hperm).cons _)))
    refine ⟨handles, by simpa using hhand, ?_⟩
    rw [length_append, length_singleton, ExExManager.advance, hswap]
    simp only [if_neg (not_lt.mpr hx)]
    simpa [min?_cons] using heq

variable {ns rest : List ExExNotification}

/-- What an offer does to a handle: nothing but a waker, or the next notification is sent, or it is
a commit that is skipped. -/
theorem offer_cases (hholds : Holds ns m.minId m.nextId m.buffer)
    (hmin : m.minId ≤ h.nextNotificationId) (hnext : h.nextNotificationId ≤ m.nextId) :
    (∃ w, m.offer h = { h with senderWaker := w }) ∨
    ∃ n, ns[h.nextNotificationId]? = some n ∧ h.nextNotificationId < m.nextId ∧
      (m.offer h = { h with
        senderWaker := false, sent := h.sent ++ [n], nextNotificationId := h.nextNotificationId + 1,
        log := h.log ++ [.sending h.nextNotificationId] } ∨
      ∃ new height, n = .chainCommitted new ∧ h.finishedHeight = some height ∧
        new.tip.number ≤ height ∧ m.offer h = { h with
          senderWaker := false, nextNotificationId := h.nextNotificationId + 1,
          log := h.log ++ [.skipping h.nextNotificationId height new.tip.number] }) := by
  rw [ExExManager.offer]
  obtain hlt | heq := hnext.lt_or_eq
  · have hget := hholds.getElem? hmin hlt
    obtain ⟨⟨id, n⟩, hb, hpair⟩ := Option.map_eq_some_iff.mp hget
    obtain ⟨rfl, hn⟩ := Prod.mk.inj hpair
    rw [hb]
    simp only [ExExHandle.send, ExExHandle.reserveAndSend]
    split
    · rename_i height new hht
      split_ifs with hle hfull
      · exact .inr ⟨_, hn.symm, hlt, .inr ⟨new, height, rfl, hht, hle, rfl⟩⟩
      · exact .inl ⟨_, rfl⟩
      · exact .inr ⟨_, hn.symm, hlt, .inl rfl⟩
    · split_ifs with hfull
      · exact .inl ⟨_, rfl⟩
      · exact .inr ⟨_, hn.symm, hlt, .inl rfl⟩
  · rw [getElem?_eq_none (by rw [hholds.length, heq])]
    exact .inl ⟨_, rfl⟩

/-- What is known of a handle of a manager whose buffer goes from `a` to `b`. -/
structure Follows (ns : List ExExNotification) (a b : ℕ) (h : ExExHandle) : Prop where
  min_le : a ≤ h.nextNotificationId
  le_next : h.nextNotificationId ≤ b
  length : h.log.length = h.nextNotificationId
  delivers : Delivers ns h.log h.sent

/-- The state of a manager that was sent `ns` except for the part `rest` that is still to come. -/
structure Inv (ns rest : List ExExNotification) (m : ExExManager) : Prop where
  come : m.handleRx ++ rest = ns.drop m.nextId
  holds : m.exexHandles ≠ [] → m.minId ≤ m.nextId ∧ Holds ns m.minId m.nextId m.buffer
  follows : ∀ h ∈ m.exexHandles, Follows ns m.minId m.nextId h

lemma Follows.offer (hh : Follows ns m.minId m.nextId h)
    (hholds : Holds ns m.minId m.nextId m.buffer) : Follows ns m.minId m.nextId (m.offer h) := by
  obtain ⟨hmin, hle, hlen, hdel⟩ := hh
  obtain ⟨w, hw⟩ | ⟨n, hn, hlt, hs | ⟨new, height, rfl, -, hle', hs⟩⟩ := offer_cases hholds hmin hle
  · exact hw ▸ ⟨hmin, hle, hlen, hdel⟩
  · rw [hs]
    refine ⟨hmin.trans (Nat.le_succ _), hlt, by simp [hlen], ?_⟩
    simpa [hlen] using hdel.sending (hlen ▸ hn)
  · rw [hs]
    refine ⟨hmin.trans (Nat.le_succ _), hlt, by simp [hlen], ?_⟩
    simpa [hlen] using hdel.skipping (hlen ▸ hn) hle'

lemma drain_spec (queue : List ExExNotification) (hcome : queue ++ rest = ns.drop m.nextId)
    (hholds : m.exexHandles ≠ [] → m.minId ≤ m.nextId ∧ Holds ns m.minId m.nextId m.buffer) :
    ∃ k buffer, ExExManager.drain queue m =
        { m with handleRx := queue.drop k, nextId := m.nextId + k, buffer } ∧
      queue.drop k ++ rest = ns.drop (m.nextId + k) ∧
      (m.exexHandles ≠ [] → m.minId ≤ m.nextId + k ∧ Holds ns m.minId (m.nextId + k) buffer) := by
  induction queue generalizing m with
  | nil => exact ⟨0, m.buffer, rfl, hcome, hholds⟩
  | cons n queue ih =>
    rw [ExExManager.drain]
    split_ifs with hroom
    · have hn : ns[m.nextId]? = some n := by
        rw [← head?_drop, ← hcome]
        rfl
      obtain ⟨k, buffer, heq, hcome', hholds'⟩ := @ih (m.pushNotification n)
        (by simpa [ExExManager.pushNotification] using congrArg tail hcome)
        fun hne => ⟨(hholds hne).1.trans (Nat.le_succ _), (hholds hne).2.push (hholds hne).1 hn⟩
      refine ⟨k + 1, buffer, ?_, ?_, fun hne => ?_⟩
      · rw [heq]
        simp [ExExManager.pushNotification, add_comm, Nat.add_left_comm]
      · simpa [ExExManager.pushNotification, add_comm, Nat.add_left_comm] using hcome'
      · simpa [ExExManager.pushNotification, add_comm, Nat.add_left_comm] using hholds' hne
    · exact ⟨0, m.buffer, rfl, hcome, hholds⟩

/-- The end of a poll: the buffer is trimmed to what some handle still needs. -/
theorem Inv.finish (hm : Inv ns rest m) {handles : List ExExHandle}
    (hperm : handles.Perm (m.exexHandles.map m.offer)) :
    Inv ns rest (m.finish handles
      (((m.exexHandles.map m.offer).map (·.nextNotificationId)).min?.getD maxU64)) := by
  by_cases h0 : m.exexHandles = []
  · obtain rfl : handles = [] := by simpa [h0] using hperm
    exact ⟨hm.come, fun h => absurd rfl h, nofun⟩
  · obtain ⟨hle, hbuf⟩ := hm.holds h0
    have hoffer : ∀ h ∈ m.exexHandles.map m.offer, Follows ns m.minId m.nextId h :=
      forall_mem_map.mpr fun h hh => (hm.follows h hh).offer hbuf
    obtain ⟨c, hc⟩ := Option.isSome_iff_exists.mp (isSome_min?_of_ne_nil
      (l := (m.exexHandles.map m.offer).map (·.nextNotificationId)) (by simpa using h0))
    obtain ⟨hmem, hleast⟩ := min?_eq_some_iff.mp hc
    obtain ⟨h', hh', rfl⟩ := mem_map.mp hmem
    rw [hc]
    refine ⟨hm.come, fun _ => ⟨(hoffer h' hh').le_next, hbuf.filter (hoffer h' hh').min_le
      (hoffer h' hh').le_next⟩, forall_mem_map.mpr fun x hx => ?_⟩
    have hx := hperm.mem_iff.mp hx
    obtain ⟨-, hle, hlen, hdel⟩ := hoffer x hx
    exact ⟨hleast x.nextNotificationId (mem_map_of_mem hx), hle, hlen, hdel⟩

lemma Inv.poll (hm : Inv ns rest m) : ∃ m' d, m.poll = .ok m' ∧ Inv ns rest m' ∧ Inv ns rest d ∧
    d = (ExExManager.drain m.handleRx m).updateCapacity ∧ d.exexHandles = m.exexHandles ∧
    m'.exexHandles.Perm (m.exexHandles.map fun h => (d.offer h).receiveEvents) := by
  obtain ⟨k, buffer, hdrain, hcome, hholds⟩ := drain_spec m.handleRx hm.come hm.holds
  set d := (ExExManager.drain m.handleRx m).updateCapacity with hd
  have hhand : d.exexHandles = m.exexHandles := by rw [hd, hdrain]; rfl
  have hinv : Inv ns rest d := by
    rw [hd, hdrain]
    exact ⟨hcome, hholds, fun h hh => { hm.follows h hh with
      le_next := (hm.follows h hh).le_next.trans (Nat.le_add_right _ _) }⟩
  obtain ⟨handles, hperm, hadv⟩ := @advance_spec d d.exexHandles [] []
    (fun h hh => (hinv.follows h hh).min_le) .nil
  simp only [append_nil] at hperm hadv
  refine ⟨_, d, ?_, hinv.finish hperm, hinv, rfl, hhand, ?_⟩
  · exact (congrArg (· >>= _) hadv).trans rfl
  · have hmap := hperm.map (·.receiveEvents)
    rwa [hhand, map_map] at hmap

end Poll

/-! ## Runs -/

lemma mem_modify {α : Type} {l : List α} {f : α → α} {k : ℕ} {a : α} (h : a ∈ l.modify k f) :
    a ∈ l ∨ ∃ b, l[k]? = some b ∧ a = f b := by
  obtain ⟨i, hi⟩ := mem_iff_getElem?.mp h
  rw [getElem?_modify] at hi
  obtain ⟨b, hb, rfl⟩ := Option.map_eq_some_iff.mp hi
  split_ifs with hk
  · exact .inr ⟨b, hk ▸ hb, rfl⟩
  · exact .inl (mem_of_getElem? hb)

lemma Inv.exec {ns rest : List ExExNotification} {m : ExExManager} (op : Op)
    (hm : Inv ns (incoming [op] ++ rest) m) :
    ∃ m', exec op m = .ok m' ∧ Inv ns rest m' ∧ m'.exexHandles.length = m.exexHandles.length := by
  cases op with
  | notify n => exact ⟨_, rfl, ⟨by simpa [incoming] using hm.come, hm.holds, hm.follows⟩, rfl⟩
  | poll =>
    obtain ⟨m', d, hpoll, hm', -, -, -, hperm⟩ := hm.poll
    exact ⟨m', hpoll, hm', by simpa using hperm.length_eq⟩
  | receive k | finishedHeight k height =>
    refine ⟨_, rfl, ⟨hm.come, fun hne => hm.holds fun h0 => hne (by simp [h0]), fun h hh => ?_⟩,
      length_modify _ _ _⟩
    obtain hh | ⟨h, hk, rfl⟩ := mem_modify hh
    · exact hm.follows h hh
    · obtain ⟨hmin, hle, hlen, hdel⟩ := hm.follows h (mem_of_getElem? hk)
      exact ⟨hmin, hle, hlen, hdel⟩

lemma Inv.new (ns : List ExExNotification) (extensions cap : ℕ) :
    Inv ns ns (.new extensions cap) := by
  refine ⟨by simp [ExExManager.new], fun _ => ⟨le_refl 0, by simp [ExExManager.new, Holds]⟩, ?_⟩
  intro h hh
  obtain ⟨-, rfl⟩ := mem_replicate.mp hh
  exact ⟨le_refl 0, le_refl 0, rfl, .start⟩

lemma Inv.runAll {ns : List ExExNotification} {m : ExExManager} {ops : List Op}
    (hm : Inv ns (incoming ops) m) : Inv ns [] (Run.runAll ExEx.exec ops m) ∧
      (Run.runAll ExEx.exec ops m).exexHandles.length = m.exexHandles.length := by
  induction ops generalizing m with
  | nil => exact ⟨hm, rfl⟩
  | cons op ops ih =>
    obtain ⟨m', hexec, hm', hlen⟩ := exec op
      (show Inv ns (incoming [op] ++ incoming ops) m by rwa [incoming, incoming, ← filterMap_append])
    rw [Run.runAll_cons, Run.attempt_of_ok _ hexec, ← hlen]
    exact ih hm'

/-- For every number of extensions and every order of operations: no operation panics, no extension
gets lost, each was sent what it was offered except for commits up to its finished height, and what
it was not offered yet is in the buffer or still in the channel of the manager. -/
theorem exex_delivery (extensions cap : ℕ) (ops : List Op) :
    let m := Run.runAll exec ops (.new extensions cap)
    (∀ op, ∃ m', exec op m = .ok m') ∧ m.exexHandles.length = extensions ∧
      m.handleRx = (incoming ops).drop m.nextId ∧
      ∀ h ∈ m.exexHandles, h.log.length = h.nextNotificationId ∧
        Delivers (incoming ops) h.log h.sent ∧
        ∀ i n, h.nextNotificationId ≤ i → i < m.nextId → (incoming ops)[i]? = some n →
          (i, n) ∈ m.buffer := by
  obtain ⟨hm, hlen⟩ := Inv.runAll (Inv.new (incoming ops) extensions cap)
  refine ⟨fun op => ?_, by simpa [ExExManager.new] using hlen, by simpa using hm.come,
    fun h hh => ⟨(hm.follows h hh).length, (hm.follows h hh).delivers, fun i n hi hlt hn => ?_⟩⟩
  · cases op with
    | poll =>
      obtain ⟨m', -, hpoll, -⟩ := hm.poll
      exact ⟨m', hpoll⟩
    | notify | receive | finishedHeight => exact ⟨_, rfl⟩
  · have hget := (hm.holds (ne_nil_of_mem hh)).2.getElem? ((hm.follows h hh).min_le.trans hi) hlt
    obtain ⟨⟨id, n'⟩, hb, hpair⟩ := Option.map_eq_some_iff.mp hget
    obtain ⟨rfl, hn'⟩ := Prod.mk.inj hpair
    cases hn'.trans hn
    exact mem_of_getElem? hb

end FightNight.ExEx
