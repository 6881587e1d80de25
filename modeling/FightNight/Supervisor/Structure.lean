import FightNight.Supervisor.Refinement

/-!
# The structure of the entry store

The lookups rely on where the entries of each type are (the comment of `DB` in
`op-supervisor/supervisor/backend/db/logs/db.go`, and `checkDBInvariants` in its tests): a search
checkpoint at the multiples of 256, a canonical hash behind each, the link and the check of an
executing message behind the event that announces it, and a complete log at the end.  Adding a log
keeps this structure, and so does cutting the store anywhere and trimming what is left, which is
all that `Rewind` does to it (`store_wellFormed`).  The search for a checkpoint rests on it
(`searchCheckpoint_findsLast`).
-/

namespace FightNight.Supervisor

open Option FightNight.Except DB
open List hiding getElem?_eq_some_iff

/-- Whether an entry is an initiating event that announces an executing message. -/
def announces (entry : Entry) : Bool :=
  match newInitiatingEventFromEntry entry with
  | .ok evt => evt.hasExecMsg
  | .error _ => false

/-- The entries from the index `n` on have the structure of a store.  The entry behind another one,
without a search checkpoint and a canonical hash in between, is found with `initIdx`. -/
structure WellFormed (n : ℕ) (entries : List Entry) : Prop where
  checkpoint_iff : ∀ {i e}, entries[i]? = some e →
    (e.type = typeSearchCheckpoint ↔ (n + i) % 256 = 0)
  canonicalHash_iff : ∀ {i e}, entries[i]? = some e →
    (e.type = typeCanonicalHash ↔ (n + i) % 256 = 1)
  /-- A search checkpoint is followed by a canonical hash. -/
  hash_follows : ∀ {i e}, entries[i]? = some e → e.type = typeSearchCheckpoint →
    ∃ e', entries[i + 1]? = some e' ∧ e'.type = typeCanonicalHash
  /-- An event that announces a message is followed by a link, and this one by a check. -/
  message_follows : ∀ {i e}, entries[i]? = some e → announces e = true →
    ∃ l c e₁ e₂, n + l = initIdx (n + i + 1) ∧ n + c = initIdx (n + l + 1) ∧
      entries[l]? = some e₁ ∧ e₁.type = typeExecutingLink ∧
      entries[c]? = some e₂ ∧ e₂.type = typeExecutingCheck
  link_only : ∀ {l e}, entries[l]? = some e → e.type = typeExecutingLink →
    ∃ i e', n + l = initIdx (n + i + 1) ∧ entries[i]? = some e' ∧ announces e' = true
  check_only : ∀ {c e}, entries[c]? = some e → e.type = typeExecutingCheck →
    ∃ l e', n + c = initIdx (n + l + 1) ∧ entries[l]? = some e' ∧ e'.type = typeExecutingLink
  /-- The last entry ends a complete log. -/
  last : ∀ e ∈ entries.getLast?, validFinal e = true

/-! ## One more log -/

lemma announces_encode (item : Item) :
    announces item.encode = match item with
      | .initiating evt => evt.hasExecMsg
      | _ => false := by
  cases item with
  | initiating evt =>
    have hdec : newInitiatingEventFromEntry (Item.initiating evt).encode = .ok evt :=
      newInitiatingEventFromEntry_encode evt
    rw [announces, hdec]
  | _ => rfl

variable {n : ℕ} {xs ys : List Entry}

variable {db db' : DB} {e : Entry} {store : List Entry} {i j k : ℕ} {α : Type}

lemma getElem?_append_cases {as bs : List α} {a : α} (h : (as ++ bs)[i]? = some a) :
    as[i]? = some a ∨ ∃ j, i = as.length + j ∧ bs[j]? = some a := by
  rw [getElem?_append] at h
  split_ifs at h
  · exact .inl h
  · exact .inr ⟨_, by omega, h⟩

lemma wellFormed_nil (n : ℕ) : WellFormed n [] := by
  constructor <;> simp

lemma validFinal_checkpoint (h : e.type = typeSearchCheckpoint) : validFinal e = false := by
  rw [validFinal, h]
  rfl

/-- The entries of each type stand where a store has them. -/
def Placed (n : ℕ) (entries : List Entry) : Prop :=
  ∀ (i : ℕ) (e : Entry), entries[i]? = some e →
    (e.type = typeSearchCheckpoint ↔ (n + i) % 256 = 0) ∧
      (e.type = typeCanonicalHash ↔ (n + i) % 256 = 1)

lemma Placed.hash_follows (h : Placed n xs) (hlast : ∀ e ∈ xs.getLast?, validFinal e = true)
    (he : xs[i]? = some e) (htype : e.type = typeSearchCheckpoint) :
    ∃ e', xs[i + 1]? = some e' ∧ e'.type = typeCanonicalHash := by
  have hi := (getElem?_eq_some_iff.mp he).1
  have hmod := (h i e he).1.mp htype
  have hnext : i + 1 < xs.length := by
    by_contra hge
    have hlen : xs.length - 1 = i := by omega
    have hfin := hlast e (by rw [getLast?_eq_getElem?, hlen]; exact he)
    rw [validFinal_checkpoint htype] at hfin
    cases hfin
  refine ⟨xs[i + 1], getElem?_eq_getElem hnext, ?_⟩
  exact (h _ _ (getElem?_eq_getElem hnext)).2.mpr (by omega)

lemma WellFormed.append (hx : WellFormed n xs) (hy : WellFormed (n + xs.length) ys) :
    WellFormed n (xs ++ ys) := by
  have hleft : ∀ {i e}, xs[i]? = some e → (xs ++ ys)[i]? = some e := fun h =>
    (getElem?_append_left (getElem?_eq_some_iff.mp h).1).trans h
  have hright : ∀ {i e}, ys[i]? = some e → (xs ++ ys)[xs.length + i]? = some e := by grind
  have hpl : Placed n (xs ++ ys) := by
    intro i e h
    rcases getElem?_append_cases h with h' | ⟨j, rfl, h'⟩
    · exact ⟨hx.checkpoint_iff h', hx.canonicalHash_iff h'⟩
    · rw [← add_assoc]
      exact ⟨hy.checkpoint_iff h', hy.canonicalHash_iff h'⟩
  have hlast : ∀ e ∈ (xs ++ ys).getLast?, validFinal e = true := by
    intro e he
    by_cases hys : ys = []
    · rw [hys, append_nil] at he
      exact hx.last e he
    · rw [getLast?_append, getLast?_eq_some_getLast hys, some_or] at he
      rw [← getLast?_eq_some_getLast] at he
      exact hy.last e he
  refine ⟨fun he => (hpl _ _ he).1, fun he => (hpl _ _ he).2, hpl.hash_follows hlast, ?_, ?_, ?_,
    hlast⟩
  · intro i e h hann
    rcases getElem?_append_cases h with h' | ⟨j, rfl, h'⟩
    · obtain ⟨l, c, e₁, e₂, hl, hc, h₁, ht₁, h₂, ht₂⟩ := hx.message_follows h' hann
      exact ⟨l, c, e₁, e₂, hl, hc, hleft h₁, ht₁, hleft h₂, ht₂⟩
    · obtain ⟨l, c, e₁, e₂, hl, hc, h₁, ht₁, h₂, ht₂⟩ := hy.message_follows h' hann
      simp only [add_assoc] at hl hc ⊢
      exact ⟨xs.length + l, xs.length + c, e₁, e₂, hl, hc, hright h₁, ht₁, hright h₂, ht₂⟩
  · intro l e h htype
    rcases getElem?_append_cases h with h' | ⟨j, rfl, h'⟩
    · obtain ⟨i, e', hi, he', hann⟩ := hx.link_only h' htype
      exact ⟨i, e', hi, hleft he', hann⟩
    · obtain ⟨i, e', hi, he', hann⟩ := hy.link_only h' htype
      simp only [add_assoc] at hi ⊢
      exact ⟨xs.length + i, e', by rw [hi, add_assoc], hright he', hann⟩
  · intro c e h htype
    rcases getElem?_append_cases h with h' | ⟨j, rfl, h'⟩
    · obtain ⟨l, e', hl, he', htype'⟩ := hx.check_only h' htype
      exact ⟨l, e', hl, hleft he', htype'⟩
    · obtain ⟨l, e', hl, he', htype'⟩ := hy.check_only h' htype
      simp only [add_assoc] at hl ⊢
      exact ⟨xs.length + l, e', by rw [hl, add_assoc], hright he', htype'⟩

/-- A store does not end with a search checkpoint, so that its length is not one more than a multiple
of 256. -/
theorem WellFormed.length_mod (h : WellFormed 0 xs) : xs.length % 256 ≠ 1 := by
  intro hmod
  obtain ⟨front, e, rfl⟩ : ∃ front e, xs = front ++ [e] := by
    rcases eq_nil_or_concat xs with rfl | ⟨front, e, rfl⟩
    · exact absurd hmod (by decide)
    · exact ⟨front, e, concat_eq_append ..⟩
  have hget : (front ++ [e])[front.length]? = some e := getElem?_concat_length ..
  have hmod' : (0 + front.length) % 256 = 0 := by grind
  have htype := (h.checkpoint_iff hget).mpr hmod'
  have hfin := h.last e (by rw [getLast?_concat]; rfl)
  rw [validFinal_checkpoint htype] at hfin
  cases hfin

lemma type_of_announces (h : announces e = true) : e.type = typeInitiatingEvent := by
  by_contra hne
  rw [announces, newInitiatingEventFromEntry, if_pos hne] at h
  cases h

lemma initIdx_mod (hk : k % 256 ≠ 1) : 2 ≤ initIdx k % 256 := by
  unfold initIdx
  split <;> omega

/-- The items of a log, by their places: the event is `p`, its message has the link `l` and the check
`c`, and the other ones are search checkpoints with their hashes. -/
structure LogPlaces (n : ℕ) (items : List Item) (hasExecMsg : Bool) (p l c : ℕ) : Prop where
  event_idx : n + p = initIdx n
  link_idx : n + l = initIdx (n + p + 1)
  check_idx : n + c = initIdx (n + l + 1)
  length_eq : items.length = (if hasExecMsg then c else p) + 1
  item : ∀ {i x}, items[i]? = some x →
    (i = p ∧ ∃ evt, x = .initiating evt ∧ evt.hasExecMsg = hasExecMsg) ∨
    (hasExecMsg = true ∧ i = l ∧ ∃ link, x = .link link) ∨
    (hasExecMsg = true ∧ i = c ∧ ∃ hash, x = .check hash) ∨
    ((n + i) % 256 = 0 ∧ ∃ s, x = .checkpoint s) ∨
    ((n + i) % 256 = 1 ∧ ∃ hash, x = .canonicalHash hash)

namespace LogPlaces

variable {items : List Item} {hasExecMsg : Bool} {p l c : ℕ}

section

variable (h : LogPlaces n items hasExecMsg p l c)
include h

lemma mod (hn : n % 256 ≠ 1) :
    2 ≤ (n + p) % 256 ∧ 2 ≤ (n + l) % 256 ∧ 2 ≤ (n + c) % 256 := by
  have hp := initIdx_mod hn
  rw [← h.event_idx] at hp
  have hl := initIdx_mod (k := n + p + 1) (by omega)
  rw [← h.link_idx] at hl
  have hc := initIdx_mod (k := n + l + 1) (by omega)
  rw [← h.check_idx] at hc
  exact ⟨hp, hl, hc⟩

lemma placed (hn : n % 256 ≠ 1) :
    Placed n (items.map Item.encode) := by
  obtain ⟨hp, hl, hc⟩ := h.mod hn
  intro i e he
  rw [getElem?_map, map_eq_some_iff] at he
  obtain ⟨x, hx, rfl⟩ := he
  rcases h.item hx with ⟨rfl, evt, rfl, -⟩ | ⟨-, rfl, link, rfl⟩ | ⟨-, rfl, hash, rfl⟩ |
    ⟨hmod, s, rfl⟩ | ⟨hmod, hash, rfl⟩ <;>
  simp [Item.type, typeSearchCheckpoint, typeCanonicalHash, typeInitiatingEvent, typeExecutingLink,
    typeExecutingCheck] <;> omega

lemma at_places (hn : n % 256 ≠ 1) :
    (∃ evt, items[p]? = some (.initiating evt) ∧ evt.hasExecMsg = hasExecMsg) ∧
      (hasExecMsg = true → (∃ link, items[l]? = some (.link link)) ∧
        ∃ hash, items[c]? = some (.check hash)) := by
  obtain ⟨hp, hl, hc⟩ := h.mod hn
  have hlink := h.link_idx
  have hcheck := h.check_idx
  have hpl : p < l ∧ l < c := by
    unfold initIdx at hlink hcheck
    split at hlink <;> split at hcheck <;> omega
  have hget : ∀ i < items.length, ∃ x, items[i]? = some x := fun i hi => ⟨_, getElem?_eq_getElem hi⟩
  have hlen := h.length_eq
  constructor
  · obtain ⟨x, hx⟩ := hget p (by split at hlen <;> omega)
    rcases h.item hx with ⟨-, evt, rfl, hevt⟩ | ⟨-, hi, -⟩ | ⟨-, hi, -⟩ | ⟨hmod, -⟩ | ⟨hmod, -⟩
    · exact ⟨evt, hx, hevt⟩
    all_goals omega
  · intro htrue
    rw [htrue, if_pos rfl] at hlen
    constructor
    · obtain ⟨x, hx⟩ := hget l (by omega)
      rcases h.item hx with ⟨hi, -⟩ | ⟨-, -, link, rfl⟩ | ⟨-, hi, -⟩ | ⟨hmod, -⟩ | ⟨hmod, -⟩
      · omega
      · exact ⟨link, hx⟩
      all_goals omega
    · obtain ⟨x, hx⟩ := hget c (by omega)
      rcases h.item hx with ⟨hi, -⟩ | ⟨-, hi, -⟩ | ⟨-, -, hash, rfl⟩ | ⟨hmod, -⟩ | ⟨hmod, -⟩
      · omega
      · omega
      · exact ⟨hash, hx⟩
      all_goals omega

lemma wellFormed (hn : n % 256 ≠ 1) :
    WellFormed n (items.map Item.encode) := by
  have hpl := h.placed hn
  obtain ⟨⟨evt, hevt, hflag⟩, hmsg⟩ := h.at_places hn
  have hget : ∀ {i : ℕ} {x : Item}, items[i]? = some x → (items.map Item.encode)[i]? = some x.encode :=
    fun hx => by rw [getElem?_map, hx, map_some]
  have hlast : ∀ e ∈ (items.map Item.encode).getLast?, validFinal e = true := by
    intro e he
    rw [getLast?_eq_getElem?, length_map, h.length_eq, Nat.add_sub_cancel] at he
    cases hasExecMsg with
    | false =>
      rw [if_neg Bool.false_ne_true, hget hevt] at he
      cases he
      rw [validFinal_encode, Item.isFinal, hflag]
      rfl
    | true =>
      obtain ⟨-, hash, hhash⟩ := hmsg rfl
      rw [if_pos rfl, hget hhash] at he
      cases he
      rfl
  refine ⟨fun he => (hpl _ _ he).1, fun he => (hpl _ _ he).2, hpl.hash_follows hlast, ?_, ?_, ?_,
    hlast⟩
  · intro i e he hann
    rw [getElem?_map, map_eq_some_iff] at he
    obtain ⟨x, hx, rfl⟩ := he
    rw [announces_encode] at hann
    rcases h.item hx with ⟨rfl, evt', rfl, hflag'⟩ | ⟨-, -, link, rfl⟩ | ⟨-, -, hash, rfl⟩ |
      ⟨-, s, rfl⟩ | ⟨-, hash, rfl⟩
    · obtain ⟨⟨link, hlink⟩, hash, hhash⟩ := hmsg (hflag'.symm.trans hann)
      exact ⟨l, c, _, _, h.link_idx, h.check_idx, hget hlink, rfl, hget hhash, rfl⟩
    all_goals cases hann
  · intro i e he htype
    rw [getElem?_map, map_eq_some_iff] at he
    obtain ⟨x, hx, rfl⟩ := he
    rcases h.item hx with ⟨-, evt', rfl, -⟩ | ⟨htrue, rfl, link, rfl⟩ | ⟨-, -, hash, rfl⟩ |
      ⟨-, s, rfl⟩ | ⟨-, hash, rfl⟩
    · cases htype
    · refine ⟨p, _, h.link_idx, hget hevt, ?_⟩
      rw [announces_encode]
      exact hflag.trans htrue
    all_goals cases htype
  · intro i e he htype
    rw [getElem?_map, map_eq_some_iff] at he
    obtain ⟨x, hx, rfl⟩ := he
    rcases h.item hx with ⟨-, evt', rfl, -⟩ | ⟨-, -, link, rfl⟩ | ⟨htrue, rfl, hash, rfl⟩ |
      ⟨-, s, rfl⟩ | ⟨-, hash, rfl⟩
    · cases htype
    · cases htype
    · obtain ⟨⟨link, hlink⟩, -⟩ := hmsg htrue
      exact ⟨l, _, h.check_idx, hget hlink, rfl⟩
    all_goals cases htype

end

end LogPlaces

lemma dueItems_places (k : ℕ) (r : LogRecord) :
    k + (dueItems k r).length = initIdx k ∧ ∀ {j x}, (dueItems k r)[j]? = some x →
      ((k + j) % 256 = 0 ∧ ∃ s, x = .checkpoint s) ∨
        ((k + j) % 256 = 1 ∧ ∃ hash, x = .canonicalHash hash) := by
  by_cases hk : k % 256 = 0
  · rw [dueItems, if_pos hk, initIdx, if_pos hk]
    refine ⟨rfl, fun {j x} hx => ?_⟩
    rcases j with _ | _ | j
    · cases hx
      exact .inl ⟨hk, _, rfl⟩
    · cases hx
      exact .inr ⟨by omega, _, rfl⟩
    · cases hx
  · grind [dueItems, initIdx]

lemma getElem?_singleton_cases {a b : α} (h : [a][i]? = some b) : i = 0 ∧ b = a := by
  cases i with
  | zero => exact ⟨rfl, (some.inj h).symm⟩
  | succ i => cases h

lemma logPlaces_logItems (n : ℕ) (pre : LogContext) (r : LogRecord) :
    ∃ p l c, LogPlaces n (logItems n pre r) r.execMsg.isSome p l c := by
  have hdue : ∀ {k j i : ℕ} {x : Item}, (dueItems k r)[j]? = some x → k + j = n + i →
      ((n + i) % 256 = 0 ∧ ∃ s, x = .checkpoint s) ∨
        ((n + i) % 256 = 1 ∧ ∃ hash, x = .canonicalHash hash) :=
    fun hx hi => hi ▸ (dueItems_places _ r).2 hx
  have hp := (dueItems_places n r).1
  have hl := (dueItems_places (initIdx n + 1) r).1
  have hc := (dueItems_places (initIdx n + 1 + (dueItems (initIdx n + 1) r).length + 1) r).1
  generalize hD₁ : dueItems (initIdx n + 1) r = D₁ at hl hc
  generalize hD₂ : dueItems (initIdx n + 1 + D₁.length + 1) r = D₂ at hc
  refine ⟨(dueItems n r).length, (dueItems n r).length + 1 + D₁.length,
    (dueItems n r).length + 1 + D₁.length + 1 + D₂.length, hp, ?_, ?_, ?_, ?_⟩
  · rw [hp]
    omega
  · grind
  · rw [logItems, execItems]
    cases r.execMsg with
    | none => simp
    | some msg =>
      simp only [hD₁, hD₂, length_append, length_singleton, isSome_some, if_true]
      omega
  · intro i x hx
    rw [logItems, append_assoc] at hx
    rcases getElem?_append_cases hx with hx₀ | ⟨j, rfl, hx₀⟩
    · exact .inr (.inr (.inr (hdue hx₀ rfl)))
    rcases getElem?_append_cases hx₀ with hx₁ | ⟨j, rfl, hx₁⟩
    · obtain ⟨rfl, rfl⟩ := getElem?_singleton_cases hx₁
      exact .inl ⟨rfl, _, rfl, rfl⟩
    rw [execItems] at hx₁
    cases hmsg : r.execMsg with
    | none =>
      rw [hmsg] at hx₁
      cases hx₁
    | some msg =>
      simp only [hmsg, hD₁, hD₂, append_assoc, length_singleton] at hx₁ ⊢
      refine .inr ?_
      rcases getElem?_append_cases hx₁ with hx₂ | ⟨j, rfl, hx₂⟩
      · rw [← hD₁] at hx₂
        exact .inr (.inr (hdue hx₂ (by omega)))
      rcases getElem?_append_cases hx₂ with hx₃ | ⟨j, rfl, hx₃⟩
      · obtain ⟨rfl, rfl⟩ := getElem?_singleton_cases hx₃
        exact .inl ⟨rfl, by omega, _, rfl⟩
      rw [length_singleton]
      rcases getElem?_append_cases hx₃ with hx₄ | ⟨j, rfl, hx₄⟩
      · rw [← hD₂] at hx₄
        exact .inr (.inr (hdue hx₄ (by omega)))
      · obtain ⟨rfl, rfl⟩ := getElem?_singleton_cases hx₄
        exact .inr (.inl ⟨rfl, by omega, _, rfl⟩)

lemma WellFormed.addLog {r : LogRecord} (h : WellFormed 0 db.store) (hadd : db.addLog r = .ok db') :
    WellFormed 0 db'.store := by
  obtain ⟨-, rfl⟩ := addLog_eq_ok.mp hadd
  obtain ⟨p, l, c, hplaces⟩ := logPlaces_logItems db.store.length db.lastEntryContext r
  refine h.append ?_
  rw [zero_add]
  exact hplaces.wellFormed h.length_mod

/-! ## Cutting and trimming -/

lemma validFinal_cases (h : validFinal e = true) :
    e.type = typeExecutingCheck ∨ e.type = typeInitiatingEvent ∧ announces e = false := by
  rw [validFinal, Bool.or_eq_true, Bool.and_eq_true, decide_eq_true_eq, decide_eq_true_eq] at h
  refine h.imp_right (And.imp_right fun hevt => ?_)
  rw [announces]
  cases hdec : newInitiatingEventFromEntry e with
  | error err => rfl
  | ok evt =>
    rw [hdec] at hevt
    simpa using hevt

lemma initIdx_between (hk : k = initIdx (i + 1)) (hij : i < j) (hjk : j < k) :
    j % 256 = 0 ∨ j % 256 = 1 := by
  unfold initIdx at hk
  split at hk <;> omega

/-- The entries between the event and the check of a message do not end a log. -/
theorem WellFormed.not_final (h : WellFormed n xs) {l c : ℕ} {e₁ e' : Entry} (he : xs[i]? = some e)
    (hann : announces e = true) (hl : n + l = initIdx (n + i + 1))
    (hc : n + c = initIdx (n + l + 1)) (hlink : xs[l]? = some e₁)
    (htype : e₁.type = typeExecutingLink) (he' : xs[j]? = some e') (hij : i ≤ j) (hjc : j < c) :
    ¬validFinal e' = true := by
  intro hfin
  have hfin := validFinal_cases hfin
  have hmod : ¬((n + j) % 256 = 0 ∨ (n + j) % 256 = 1) := by
    rintro (hm | hm)
    · rw [(h.checkpoint_iff he').mpr hm] at hfin
      exact absurd hfin (by simp [typeSearchCheckpoint, typeExecutingCheck, typeInitiatingEvent])
    · rw [(h.canonicalHash_iff he').mpr hm] at hfin
      exact absurd hfin (by simp [typeCanonicalHash, typeExecutingCheck, typeInitiatingEvent])
  rcases eq_or_lt_of_le hij with rfl | hij
  · obtain rfl := some.inj (he.symm.trans he')
    rw [type_of_announces hann, hann] at hfin
    exact absurd hfin (by simp [typeExecutingCheck, typeInitiatingEvent])
  · rcases lt_trichotomy j l with hjl | rfl | hlj
    · exact hmod (initIdx_between hl (Nat.add_lt_add_left hij n) (Nat.add_lt_add_left hjl n))
    · obtain rfl := some.inj (hlink.symm.trans he')
      rw [htype] at hfin
      exact absurd hfin (by simp [typeExecutingLink, typeExecutingCheck, typeInitiatingEvent])
    · exact hmod (initIdx_between hc (Nat.add_lt_add_left hlj n) (Nat.add_lt_add_left hjc n))

/-- What is left of a store when it is cut behind an entry that ends a log. -/
theorem WellFormed.take (h : WellFormed n xs)
    (hlast : ∀ e ∈ (xs.take k).getLast?, validFinal e = true) : WellFormed n (xs.take k) := by
  have hsub : ∀ {i : ℕ} {e : Entry}, (xs.take k)[i]? = some e → i < k ∧ xs[i]? = some e := by
    intro i e he
    rw [getElem?_take] at he
    split at he
    · exact ⟨‹_›, he⟩
    · cases he
  have hkeep : ∀ {i : ℕ} {e : Entry}, xs[i]? = some e → i < k → (xs.take k)[i]? = some e := by grind
  have hpl : Placed n (xs.take k) :=
    fun i e he => ⟨h.checkpoint_iff (hsub he).2, h.canonicalHash_iff (hsub he).2⟩
  refine ⟨fun he => (hpl _ _ he).1, fun he => (hpl _ _ he).2, hpl.hash_follows hlast, ?_, ?_,
    ?_, hlast⟩
  · intro i e he hann
    obtain ⟨hi, he⟩ := hsub he
    obtain ⟨l, c, e₁, e₂, hl, hc, h₁, ht₁, h₂, ht₂⟩ := h.message_follows he hann
    -- The cut is behind the check, since no entry before it ends a log.
    have hck : c < k := by
      by_contra hge
      have hlt := (getElem?_eq_some_iff.mp h₂).1
      have hlen : (xs.take k).length = k := by
        rw [length_take]
        omega
      obtain ⟨e', he'⟩ : ∃ e', xs[k - 1]? = some e' := ⟨_, getElem?_eq_getElem (by omega)⟩
      refine h.not_final he hann hl hc h₁ ht₁ he' (by omega) (by omega) (hlast e' ?_)
      rw [getLast?_eq_getElem?, hlen]
      exact hkeep he' (by omega)
    have hlc : l < c := by
      unfold initIdx at hc
      split at hc <;> omega
    exact ⟨l, c, e₁, e₂, hl, hc, hkeep h₁ (by omega), ht₁, hkeep h₂ hck, ht₂⟩
  · intro l e he htype
    obtain ⟨hl, he⟩ := hsub he
    obtain ⟨i, e', hi, he', hann⟩ := h.link_only he htype
    refine ⟨i, e', hi, hkeep he' ?_, hann⟩
    unfold initIdx at hi
    split at hi <;> omega
  · intro c e he htype
    obtain ⟨hc, he⟩ := hsub he
    obtain ⟨l, e', hl, he', htype'⟩ := h.check_only he htype
    refine ⟨l, e', hl, hkeep he' ?_, htype'⟩
    unfold initIdx at hl
    split at hl <;> omega

lemma trimLoop_ok {m : ℕ} {i : ℤ} (hm : m ≤ store.length) (h : trimLoop store m = .ok i) :
    ∃ k ≤ m, i = k - 1 ∧ ∀ e ∈ (store.take k).getLast?, validFinal e = true := by
  induction m with
  | zero =>
    cases h
    exact ⟨0, le_refl 0, rfl, by simp⟩
  | succ m ih =>
    rw [trimLoop, EntryStore.read, EntryStore.lastEntryIdx, if_neg (by omega), if_neg (by omega),
      Int.toNat_natCast, getElem?_eq_getElem] at h
    simp only [wrapError_ok, ok_bind] at h
    split at h
    · rename_i hfin
      cases h
      refine ⟨m + 1, le_refl _, by push_cast; omega, ?_⟩
      intro e he
      have hlen : (store.take (m + 1)).length = m + 1 := by
        rw [length_take]
        omega
      rw [getLast?_eq_getElem?, hlen, Nat.add_sub_cancel, getElem?_take,
        if_pos (Nat.lt_succ_self m), getElem?_eq_getElem hm] at he
      cases he
      exact hfin
    · obtain ⟨k, hk, hi, hlast⟩ := ih (by omega) h
      exact ⟨k, by omega, hi, hlast⟩

lemma init_store (h : db.init = .ok db') :
    ∃ k, db'.store = db.store.take k ∧ ∀ e ∈ (db.store.take k).getLast?, validFinal e = true := by
  obtain ⟨db₁, htrim, h⟩ := bind_eq_ok.mp h
  have hstore : db'.store = db₁.store := by
    split at h
    · cases h
      rfl
    · obtain ⟨i, -, h⟩ := bind_eq_ok.mp h
      obtain ⟨i, -, h⟩ := bind_eq_ok.mp h
      cases h
      rfl
  obtain ⟨i, hloop, htrim⟩ := bind_eq_ok.mp (wrapError_eq_ok.mp htrim)
  obtain ⟨k, hk, rfl, hlast⟩ := trimLoop_ok (le_refl _) hloop
  rw [hstore]
  split at htrim
  · cases htrim
    refine ⟨k, ?_, hlast⟩
    change db.store.take ((k : ℤ) - 1 + 1).toNat = db.store.take k
    rw [sub_add_cancel, Int.toNat_natCast]
  · rename_i hge
    cases htrim
    have hk' : k = db.store.length := by grind [lastEntryIdx, EntryStore.lastEntryIdx]
    rw [hk', take_length] at hlast
    exact ⟨db.store.length, (take_length).symm, by rwa [take_length]⟩

lemma WellFormed.init (h : WellFormed 0 store) (hstore : db.store = store.take k)
    (hinit : db.init = .ok db') : WellFormed 0 db'.store := by
  obtain ⟨m, hm, hlast⟩ := init_store hinit
  rw [hstore, take_take] at hm hlast
  rw [hm]
  exact h.take hlast

lemma WellFormed.truncateTo {idx : ℤ} (h : WellFormed 0 db.store)
    (htrunc : db.truncateTo idx = .ok db') : WellFormed 0 db'.store :=
  h.init rfl (wrapError_eq_ok.mp htrunc)

lemma WellFormed.rewind {headBlockNum : UInt64} (h : WellFormed 0 db.store)
    (hrew : db.rewind headBlockNum = .ok db') : WellFormed 0 db'.store := by
  rw [DB.rewind] at hrew
  split at hrew
  · cases hrew
    exact h
  · split at hrew
    · split at hrew
      · exact h.truncateTo hrew
      · cases hrew
    · obtain ⟨i, -, hrew⟩ := bind_eq_ok.mp hrew
      obtain ⟨idx, -, hrew⟩ := bind_eq_ok.mp hrew
      split at hrew
      · cases hrew
        exact h
      · exact h.truncateTo hrew

lemma WellFormed.exec {op : Op} (h : WellFormed 0 db.store) (hexec : exec op db = .ok db') :
    WellFormed 0 db'.store := by
  cases op with
  | addLog r => exact h.addLog hexec
  | rewind headBlockNum => exact h.rewind hexec
  | resume =>
    change db.resume = .ok db' at hexec
    rw [resume] at hexec
    split at hexec
    · split at hexec
      · cases hexec
        exact h
      · cases hexec
    · split at hexec
      · cases hexec
        exact h
      · exact h.rewind (wrapError_eq_ok.mp hexec)
  | reopen =>
    have hstore : (DB.mk db.store ⟨0, 0⟩).store = db.store.take db.store.length :=
      (take_length).symm
    exact h.init hstore (wrapError_eq_ok.mp hexec)

/-- The entry store has its structure after every run. -/
theorem store_wellFormed (ops : List Op) :
    WellFormed 0 (Run.runAll exec ops empty).store :=
  Run.runAll_inv (P := fun db => WellFormed 0 db.store)
    (fun _ _ _ _ h hexec => h.exec hexec) (wellFormed_nil 0)

/-! ## The search for a checkpoint -/

lemma read_eq_ok {idx : ℤ} :
    EntryStore.read store idx = .ok e ↔ 0 ≤ idx ∧ store[idx.toNat]? = some e := by
  rw [EntryStore.read, EntryStore.lastEntryIdx]
  grind

/-- The search checkpoints of a store are the entries at the multiples of 256. -/
theorem WellFormed.readSearchCheckpoint (h : WellFormed 0 db.store) {idx : ℤ} :
    (∃ c, db.readSearchCheckpoint idx = .ok c) ↔
      ∃ k : ℕ, idx = k * searchCheckpointFrequency ∧ k * 256 < db.store.length := by
  simp only [DB.readSearchCheckpoint, bind_eq_ok, wrapError_eq_ok, read_eq_ok,
    newSearchCheckpointFromEntry, searchCheckpointFrequency]
  constructor
  · rintro ⟨c, e, ⟨hidx, he⟩, hc⟩
    have htype : e.type = typeSearchCheckpoint := by
      by_contra hne
      rw [if_pos hne] at hc
      cases hc
    have hmod := (h.checkpoint_iff he).mp htype
    have hlt := (getElem?_eq_some_iff.mp he).1
    exact ⟨idx.toNat / 256, by omega, by omega⟩
  · rintro ⟨k, rfl, hlt⟩
    have he := getElem?_eq_getElem hlt
    refine ⟨_, _, ⟨by omega, ?_⟩, if_neg (not_not.mpr ((h.checkpoint_iff he).mpr (by omega)))⟩
    rw [← he]
    congr 1

end FightNight.Supervisor
