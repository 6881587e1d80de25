import FightNight.Library.Loop
import FightNight.Reth.ExExManager

/-!
# What the extensions see

Two properties of whole runs of the `ExExManager`.  An extension that was offered all notifications
knows the chain as the node does, when no height it reports reaches a commit that is still to come
(`same_view`).  A finite list of notifications is delivered by the wakers alone only if it has at
most one (`progress_iff`): a poll that sends a notification leaves no waker behind, whatever else is
in the buffer.
-/

namespace FightNight.ExEx

open Run List ExExManager

def Chain.blocks (c : Chain) : List Block := c.init ++ [c.tip]

/-- The chain after a notification. -/
def ExExNotification.apply (c : List Block) : ExExNotification → List Block
  | .chainCommitted new => c ++ new.blocks
  | .chainReorged old new => c.take (c.length - old.blocks.length) ++ new.blocks
  | .chainReverted old => c.take (c.length - old.blocks.length)

/-- The chain after a list of notifications. -/
def view (ns : List ExExNotification) : List Block := ns.foldl ExExNotification.apply []

/-- A reported height is below the tips of the commits that the extension is still to be offered. -/
def Ahead (ns : List ExExNotification) : Op → ExExManager → Prop
  | .finishedHeight k height, m => ∀ h, m.exexHandles[k]? = some h → ∀ i new,
      h.nextNotificationId ≤ i → ns[i]? = some (.chainCommitted new) → height < new.tip.number
  | _, _ => True

/-- An extension to which nothing was skipped, and nothing will be for what it has reported. -/
structure Unskipped (ns : List ExExNotification) (h : ExExHandle) : Prop where
  sent : h.sent = ns.take h.nextNotificationId
  ahead : ∀ height, height ∈ h.events ∨ h.finishedHeight = some height → ∀ i new,
    h.nextNotificationId ≤ i → ns[i]? = some (.chainCommitted new) → height < new.tip.number

section View

variable {ns rest : List ExExNotification} {m m' : ExExManager} {h : ExExHandle}

lemma mem_or_eq_of_foldl {events : List ℕ} {o : Option ℕ} {height : ℕ}
    (h : events.foldl (fun _ height => some height) o = some height) :
    height ∈ events ∨ o = some height := by
  induction events generalizing o with
  | nil => exact .inr h
  | cons e events ih =>
    obtain h | h := ih h
    · exact .inl (mem_cons_of_mem _ h)
    · cases h
      exact .inl mem_cons_self

lemma Unskipped.receiveEvents (hh : Unskipped ns h) : Unskipped ns h.receiveEvents :=
  ⟨hh.sent, fun height hmem => hh.ahead height
    (mem_or_eq_of_foldl (hmem.resolve_left not_mem_nil))⟩

lemma Unskipped.offer (hh : Unskipped ns h) (hf : Follows ns m.minId m.nextId h)
    (hholds : Holds ns m.minId m.nextId m.buffer) : Unskipped ns (m.offer h) := by
  obtain ⟨hsent, hahead⟩ := hh
  obtain ⟨w, hw⟩ | ⟨n, hn, -, hs | ⟨new, height, rfl, hht, hle, -⟩⟩ :=
    offer_cases hholds hf.min_le hf.le_next
  · exact hw ▸ ⟨hsent, hahead⟩
  · rw [hs]
    exact ⟨by simp [take_add_one, hn, hsent], fun height hmem i new hi =>
      hahead height hmem i new ((Nat.le_succ _).trans hi)⟩
  · exact absurd hle (not_le.mpr (hahead height (.inr hht) _ new (le_refl _) hn))

lemma Unskipped.exec {op : Op} (hm : Inv ns (incoming [op] ++ rest) m)
    (hun : ∀ h ∈ m.exexHandles, Unskipped ns h) (hok : Ahead ns op m)
    (hexec : exec op m = .ok m') : ∀ h ∈ m'.exexHandles, Unskipped ns h := by
  cases op with
  | notify n => cases hexec; exact hun
  | poll =>
    obtain ⟨m₁, d, hpoll, -, hd, -, hhand, hperm⟩ := hm.poll
    cases hpoll.symm.trans hexec
    intro h hh
    obtain ⟨h₀, hh₀, rfl⟩ := mem_map.mp (hperm.mem_iff.mp hh)
    have hh₁ : h₀ ∈ d.exexHandles := hhand ▸ hh₀
    exact ((hun h₀ hh₀).offer (hd.follows h₀ hh₁) (hd.holds (ne_nil_of_mem hh₁)).2).receiveEvents
  | receive k =>
    cases hexec
    intro h hh
    obtain hh | ⟨h, hk, rfl⟩ := mem_modify hh
    · exact hun h hh
    · exact ⟨(hun h (mem_of_getElem? hk)).sent, (hun h (mem_of_getElem? hk)).ahead⟩
  | finishedHeight k height =>
    cases hexec
    intro h hh
    obtain hh | ⟨h, hk, rfl⟩ := mem_modify hh
    · exact hun h hh
    · obtain ⟨hsent, hahead⟩ := hun h (mem_of_getElem? hk)
      refine ⟨hsent, fun e he => ?_⟩
      obtain he | he := he
      · obtain he | rfl := by simpa using he
        · exact hahead e (.inl he)
        · exact hok h hk
      · exact hahead e (.inr he)

lemma Unskipped.runAll {ops : List Op} (hm : Inv ns (incoming ops) m)
    (hun : ∀ h ∈ m.exexHandles, Unskipped ns h) (hmeet : Run.AllMeet ExEx.exec (Ahead ns) ops m) :
    ∀ h ∈ (runAll ExEx.exec ops m).exexHandles, Unskipped ns h := by
  induction ops generalizing m with
  | nil => exact hun
  | cons op ops ih =>
    have hm : Inv ns (incoming [op] ++ incoming ops) m := by
      rwa [incoming, incoming, ← filterMap_append]
    obtain ⟨m', hexec, hm', -⟩ := hm.exec
    obtain ⟨hok, hmeet⟩ := hmeet
    rw [attempt_of_ok _ hexec] at hmeet
    rw [runAll_cons, attempt_of_ok _ hexec]
    exact ih hm' (exec hm hun hok hexec) hmeet

end View

/-- In a run in which no reported height reaches a commit still to come, an extension without
notifications left to consider knows the chain that all of them describe. -/
theorem same_view (extensions cap : ℕ) (ops : List Op)
    (hmeet : Run.AllMeet exec (Ahead (incoming ops)) ops (.new extensions cap)) :
    ∀ h ∈ (runAll exec ops (.new extensions cap)).exexHandles,
      h.nextNotificationId = (incoming ops).length → view h.sent = view (incoming ops) := by
  intro h hh hall
  have hnew : ∀ h ∈ (new extensions cap).exexHandles, Unskipped (incoming ops) h := by
    intro h hh
    obtain ⟨-, rfl⟩ := mem_replicate.mp hh
    exact ⟨rfl, by simp⟩
  have hsent := (Unskipped.runAll (Inv.new _ extensions cap) hnew hmeet h hh).sent
  rw [hsent, hall, take_length]

theorem same_view_extended :
    let c (n : ℕ) : ExExNotification := .chainCommitted ⟨[], ⟨n, n⟩⟩
    let ops : List Op := [.notify (c 1), .poll, .receive 0, .finishedHeight 0 1, .notify (c 2), .poll]
    ∀ h ∈ (runAll exec ops (.new 1 4)).exexHandles,
      h.nextNotificationId = (incoming ops).length → view h.sent = view (incoming ops) := by
  refine same_view 1 4 _ ⟨trivial, trivial, trivial, ?_, trivial, trivial, trivial⟩
  rintro h ⟨⟩ (_ | _ | i) new hi hn
  · cases hi
  · cases hn
    decide
  · cases hn

/-- Block 2 is committed, received and reported, then reverted; the commit of another block 2 is
skipped, and the extension stays at block 1. -/
theorem recommit_skipped :
    let c (n hash : ℕ) : Chain := ⟨[], ⟨n, hash⟩⟩
    let ops : List Op := [.notify (.chainCommitted (c 1 1)), .notify (.chainCommitted (c 2 2)), .poll,
      .receive 0, .poll, .receive 0, .finishedHeight 0 2, .notify (.chainReverted (c 2 2)), .poll,
      .receive 0, .notify (.chainCommitted (c 2 3)), .poll]
    view (incoming ops) = [⟨1, 1⟩, ⟨2, 3⟩] ∧
      (runAll exec ops (.new 1 4)).exexHandles.map (fun h =>
        (h.nextNotificationId, h.taken, view h.sent)) = [(4, 3, [⟨1, 1⟩])] := by
  decide

/-! ## Progress -/

/-- What can happen when the extensions only receive: a woken task is polled, and an extension that
takes a notification wakes the task if the last poll left a waker in its channel. -/
inductive Step : ExExManager × Bool → ExExManager × Bool → Prop
  | poll {m m'} (h : m.poll = .ok m') : Step (m, true) (m', false)
  | receive {m m' woken k h} (hk : m.exexHandles[k]? = some h) (hlt : h.taken < h.sent.length)
    (hm : exec (.receive k) m = .ok m') : Step (m, woken) (m', woken || h.senderWaker)

/-- The manager with a list of notifications in its channel, before its first poll. -/
def queued (extensions cap : ℕ) (ns : List ExExNotification) : ExExManager × Bool :=
  ({ new extensions cap with handleRx := ns }, true)

/-- Every extension has taken all notifications. -/
def Received (ns : List ExExNotification) (s : ExExManager × Bool) : Prop :=
  ∀ h ∈ s.1.exexHandles, h.sent.take h.taken = ns

lemma countP_modify_lt {α : Type} {p : α → Bool} {f : α → α} {l : List α} {k : ℕ} {b : α}
    (hk : l[k]? = some b) (hb : p b) (hf : p (f b) = false) :
    (l.modify k f).countP p < l.countP p := by
  induction l generalizing k with
  | nil => cases hk
  | cons a l ih =>
    cases k with
    | zero => cases hk; simp [hb, hf]
    | succ k => simpa [countP_cons] using ih hk

lemma drain_buffer (queue : List ExExNotification) (m : ExExManager) :
    (drain queue m).minId = m.minId ∧
      ∃ added, (drain queue m).buffer = m.buffer ++ added := by
  induction queue generalizing m with
  | nil => exact ⟨rfl, [], (append_nil _).symm⟩
  | cons n queue ih =>
    rw [drain]
    split_ifs
    · obtain ⟨hmin, added, h⟩ := ih (m.pushNotification n)
      exact ⟨hmin, _, h.trans (append_assoc _ _ _)⟩
    · exact ⟨rfl, [], (append_nil _).symm⟩

/-- A state without wakers in which every extension was sent the same notifications. -/
structure Quiet (extensions : ℕ) (sent : List ExExNotification) (s : ExExManager × Bool) : Prop where
  woken : s.2 = false
  length : s.1.exexHandles.length = extensions
  handles : ∀ h ∈ s.1.exexHandles, h.sent = sent ∧ h.senderWaker = false

section Progress

variable {extensions cap : ℕ} {ns : List ExExNotification} {s s' : ExExManager × Bool}

lemma Quiet.step (hs : Quiet extensions ns s) (h : Step s s') : Quiet extensions ns s' := by
  obtain ⟨hw, hlen, hall⟩ := hs
  cases h with
  | poll => cases hw
  | receive hk _ hexec =>
    cases hexec
    refine ⟨by simp_all [hall _ (mem_of_getElem? hk)], (length_modify _ _ _).trans hlen, ?_⟩
    intro h hh
    obtain hh | ⟨h, hk, rfl⟩ := mem_modify hh
    · exact hall h hh
    · exact hall h (mem_of_getElem? hk)

/-- A single notification that was sent is taken by everyone, since the extensions keep receiving. -/
theorem Quiet.eventually_received (hs : Quiet extensions ns s) (hns : ns.length ≤ 1) :
    Loop.Eventually Step (Received ns) s := by
  refine .of_measure (Quiet extensions ns) (fun s => s.1.exexHandles.countP (·.taken = 0)) ?_ hs
  intro s hs hnot
  constructor
  · obtain ⟨h, hh, hne⟩ : ∃ h ∈ s.1.exexHandles, h.sent.take h.taken ≠ ns := by
      simpa [Received] using hnot
    obtain ⟨k, hk⟩ := mem_iff_getElem?.mp hh
    rw [(hs.handles h hh).1] at hne
    have hlt : h.taken < ns.length := lt_of_not_ge fun hle => hne (take_of_length_le hle)
    exact ⟨_, .receive hk ((hs.handles h hh).1 ▸ hlt) rfl⟩
  · intro s' hstep
    refine ⟨hs.step hstep, ?_⟩
    cases hstep with
    | poll => cases hs.woken
    | receive hk hlt hexec =>
      cases hexec
      rw [(hs.handles _ (mem_of_getElem? hk)).1] at hlt
      refine countP_modify_lt hk (decide_eq_true (by omega)) (decide_eq_false ?_)
      simp only [(hs.handles _ (mem_of_getElem? hk)).1]
      omega

/-- The first poll sends every extension the first notification, if there is room for it, and
leaves no waker in the channels. -/
theorem poll_queued (extensions cap : ℕ) (ns : List ExExNotification) :
    ∃ m, (queued extensions cap ns).1.poll = .ok m ∧
      Quiet extensions (ns.take (min cap 1)) (m, false) := by
  have hinv : Inv ns [] (queued extensions cap ns).1 :=
    { Inv.new ns extensions cap with come := append_nil _ }
  obtain ⟨m, d, hpoll, -, -, hd, -, hperm⟩ := hinv.poll
  refine ⟨m, hpoll, rfl, by simpa [queued, new] using hperm.length_eq, fun h hh => ?_⟩
  obtain ⟨h, hmem, rfl⟩ := mem_map.mp (hperm.mem_iff.mp hh)
  obtain ⟨-, rfl⟩ := mem_replicate.mp hmem
  have hbuf : d.buffer[0 - d.minId]? = (ns.take (min cap 1)).head?.map (0, ·) := by
    subst hd
    cases ns with
    | nil => simp [queued, drain, updateCapacity, new]
    | cons n ns =>
      cases cap with
      | zero => simp [queued, drain, updateCapacity, new]
      | succ cap =>
        obtain ⟨hmin, added, h⟩ := drain_buffer ns
          (pushNotification (queued extensions (cap + 1) (n :: ns)).1 n)
        have hdrain : drain (n :: ns) (queued extensions (cap + 1) (n :: ns)).1 =
          drain ns _ := if_pos (Nat.succ_pos cap)
        simp_all [queued, updateCapacity, new, pushNotification]
  rw [offer, hbuf]
  cases ns <;> cases cap <;>
    simp [ExExHandle.send, ExExHandle.reserveAndSend, ExExHandle.receiveEvents]

lemma not_eventually_received (hext : extensions ≠ 0) (hlen : ¬ns.length ≤ min cap 1) :
    ¬Loop.Eventually Step (Received ns) (queued extensions cap ns) := by
  obtain ⟨m, hpoll, hm⟩ := poll_queued extensions cap ns
  have hstuck : ¬Loop.Eventually Step (Received ns) (m, false) := by
    refine Loop.Eventually.not_of_inv _ (fun s hs hrec => ?_) (fun _ _ => Quiet.step) hm
    obtain ⟨h, hh⟩ := exists_mem_of_length_pos (hs.length ▸ Nat.pos_of_ne_zero hext)
    have hall := congrArg length (hrec h hh)
    rw [(hs.handles h hh).1, length_take, length_take] at hall
    omega
  intro h
  cases h with
  | here h =>
    have hnil := h {} (mem_replicate.mpr ⟨hext, rfl⟩)
    exact hlen (hnil ▸ Nat.zero_le _)
  | later _ h => exact hstuck (h _ (.poll hpoll))

end Progress

/-- The wakers alone deliver a list of notifications exactly when it has at most one, with room for
it in the buffer, or there is no extension. -/
theorem progress_iff (extensions cap : ℕ) (ns : List ExExNotification) :
    Loop.Eventually Step (Received ns) (queued extensions cap ns) ↔
      extensions = 0 ∨ ns.length ≤ min cap 1 := by
  refine ⟨fun h => or_iff_not_imp_left.mpr fun hext => ?_, ?_⟩
  · exact not_not.mp fun hlen => not_eventually_received hext hlen h
  · rintro (rfl | hlen)
    · exact .here nofun
    · obtain ⟨m, hpoll, hm⟩ := poll_queued extensions cap ns
      rw [take_of_length_le hlen] at hm
      refine .later ⟨_, .poll hpoll⟩ fun s hs => ?_
      cases hs with
      | poll h =>
        cases hpoll.symm.trans h
        exact hm.eventually_received (hlen.trans (min_le_right _ _))
      | receive hk hlt =>
        obtain ⟨-, rfl⟩ := mem_replicate.mp (mem_of_getElem? hk)
        cases hlt

theorem second_commit_stuck :
    let ns : List ExExNotification := [.chainCommitted ⟨[], ⟨1, 1⟩⟩, .chainCommitted ⟨[], ⟨2, 2⟩⟩]
    ¬Loop.Eventually Step (Received ns) (queued 1 16 ns) :=
  not_eventually_received (by decide) (by decide)

end FightNight.ExEx
