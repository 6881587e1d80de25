import FightNight.Dispute.Walks

/-!
# Resolved claims

When a claim is resolved, its bond is credited to whoever countered it, or to the claimant, and the
claim is not expected to change any more.  But `step` does not check whether the claim that it is made
against is resolved already.  A run is final, and the credits are those of the resolved claims,
exactly when no step is made against a resolved claim.
-/

namespace FightNight.Dispute

open Option Finset Run Function Game
open List hiding getElem?_eq_some_iff
open Preimage (Hash)

variable {env : GameEnv} {s s' : Game} {tx : GameTx} {call : GameCall} {i : ℕ} {c : ClaimData}

/-! ## What is final -/

def Game.counterer (s : Game) (i : ℕ) : Option Address := s.claimData[i]?.map ClaimData.counteredBy

/-- What was resolved in one state is so in a later one, with the same counterer.  Once the block
number of the root claim was challenged, its resolution makes the challenger the counterer. -/
structure FinalFrom (s s' : Game) : Prop where
  resolved : ∀ i, s.resolvedSubgames i = true →
    s'.resolvedSubgames i = true ∧ s'.counterer i = s.counterer i
  challenger : s.l2BlockNumberChallenged = true → s'.l2BlockNumberChallenged = true ∧
    s'.l2BlockNumberChallenger = s.l2BlockNumberChallenger
  root : s.l2BlockNumberChallenged = true → s.resolvedSubgames 0 = false →
    s'.resolvedSubgames 0 = true → s'.counterer 0 = some s.l2BlockNumberChallenger

lemma FinalFrom.refl (s : Game) : FinalFrom s s :=
  ⟨fun _ h => ⟨h, rfl⟩, fun h => ⟨h, rfl⟩, fun _ hopen h => absurd (hopen.symm.trans h) (by decide)⟩

lemma FinalFrom.trans {s'' : Game} (h : FinalFrom s s') (h' : FinalFrom s' s'') :
    FinalFrom s s'' := by
  refine ⟨fun i hi => ?_, fun hch => ?_, fun hch hopen hdone => ?_⟩
  · obtain ⟨hi', heq⟩ := h.resolved i hi
    obtain ⟨hi'', heq'⟩ := h'.resolved i hi'
    exact ⟨hi'', heq'.trans heq⟩
  · obtain ⟨hch', heq⟩ := h.challenger hch
    obtain ⟨hch'', heq'⟩ := h'.challenger hch'
    exact ⟨hch'', heq'.trans heq⟩
  · obtain ⟨hch', heq⟩ := h.challenger hch
    cases hmid : s'.resolvedSubgames 0 with
    | true => exact (h'.resolved 0 hmid).2.trans (h.root hch hopen hmid)
    | false => rw [h'.root hch' hmid hdone, heq]

/-- What a claim, once it is resolved, has brought to an account. -/
def Game.share (s : Game) (a : Address) (i : ℕ) : ℕ :=
  s.claimData[i]?.elim 0 fun c =>
    if s.resolvedSubgames i = true ∧ payee c c.counteredBy = a then c.bond else 0

/-- The bond of every resolved claim was credited to its counterer, or to the claimant if it has
none, and nothing else was credited. -/
def Game.Credited (s : Game) : Prop :=
  ∀ a, s.credit a = ∑ i ∈ range s.claimData.length, s.share a i

/-- A run of calls is final, and the credits are right, between any two of its states. -/
def ResolutionFinal (env : GameEnv) (calls : List (GameTx × GameCall)) (s : Game) : Prop :=
  ∀ first next rest, calls = first ++ next ++ rest →
    FinalFrom (runAll (exec env) first s) (runAll (exec env) (first ++ next) s) ∧
      (runAll (exec env) (first ++ next) s).Credited

/-- The claim that a call is a step against. -/
def GameCall.stepTarget : GameCall → Option ℕ
  | .step i _ _ _ => some i
  | _ => none

/-- A step is not made against a resolved claim. -/
def StepsOpen (_ : List (GameTx × GameCall)) (c : GameTx × GameCall) (s : Game) : Prop :=
  ∀ i ∈ c.2.stepTarget, s.resolvedSubgames i = false

instance (before : List (GameTx × GameCall)) (c : GameTx × GameCall) (s : Game) :
    Decidable (StepsOpen before c s) :=
  inferInstanceAs (Decidable (∀ i ∈ _, _))

/-! ## One call -/

lemma FinalFrom.settle (hc : s.claimData[i]? = some c) (hopen : s.resolvedSubgames i = false)
    (recipient : Address) {a : Address}
    (hroot : i = 0 → s.l2BlockNumberChallenged = true → a = s.l2BlockNumberChallenger) :
    FinalFrom s (s.settle i c recipient a) := by
  have hi : i < s.claimData.length := (getElem?_eq_some_iff.mp hc).1
  refine ⟨fun j hj => ?_, fun h => ⟨h, rfl⟩, fun hch hzero hdone => ?_⟩
  · have hne : j ≠ i := by
      rintro rfl
      exact absurd (hopen.symm.trans hj) (by decide)
    refine ⟨(update_of_ne hne _ _).trans hj, ?_⟩
    rw [counterer, settle_claimData, getElem?_set_ne hne.symm]
    rfl
  · by_cases hi0 : i = 0
    · grind [counterer, settle_claimData, map_some]
    · rw [settle_resolvedSubgames, update_of_ne (symm hi0)] at hdone
      exact absurd (hzero.symm.trans hdone) (by decide)

lemma FinalFrom.of_same (hres : s'.resolvedSubgames = s.resolvedSubgames)
    (hcls : ∀ j, s.resolvedSubgames j = true → s'.claimData[j]? = s.claimData[j]?)
    (hch : s.l2BlockNumberChallenged = true → s'.l2BlockNumberChallenged = true ∧
      s'.l2BlockNumberChallenger = s.l2BlockNumberChallenger) : FinalFrom s s' := by
  refine ⟨fun j hj => ⟨hres ▸ hj, ?_⟩, hch, fun _ hzero hdone => ?_⟩
  · rw [counterer, counterer, hcls j hj]
  · rw [hres, hzero] at hdone
    cases hdone

/-- What is kept of the resolved claims. -/
structure Settled (s : Game) : Prop where
  resolved_lt : ∀ i, s.resolvedSubgames i = true → i < s.claimData.length
  challenger_ne : s.l2BlockNumberChallenged = true → s.l2BlockNumberChallenger ≠ 0
  credited : s.Credited

lemma share_of_open {a : Address} (h : s.resolvedSubgames i = false) : s.share a i = 0 := by
  rw [share]
  cases s.claimData[i]? with
  | none => rfl
  | some c =>
    refine if_neg fun hi => ?_
    rw [h] at hi
    exact absurd hi.1 (by decide)

lemma Settled.of_same (hs : Settled s) (hres : s'.resolvedSubgames = s.resolvedSubgames)
    (hcls : ∀ j, s.resolvedSubgames j = true → s'.claimData[j]? = s.claimData[j]?)
    (hlen : s.claimData.length ≤ s'.claimData.length) (hcred : s'.credit = s.credit)
    (hch : s'.l2BlockNumberChallenged = true → s'.l2BlockNumberChallenger ≠ 0) : Settled s' := by
  refine ⟨fun j hj => ?_, hch, fun a => ?_⟩
  · rw [hres] at hj
    exact lt_of_lt_of_le (hs.resolved_lt j hj) hlen
  · have hshare : ∀ j, s'.share a j = s.share a j := by
      intro j
      cases hj : s.resolvedSubgames j with
      | false => rw [share_of_open hj, share_of_open (by rwa [hres])]
      | true => rw [share, share, hcls j hj, hres]
    rw [hcred, hs.credited]
    simp only [hshare]
    -- What was added to the list is not resolved.
    refine sum_subset (range_subset_range.mpr hlen) fun j _ hj => ?_
    rw [Finset.mem_range] at hj
    refine share_of_open ?_
    by_contra hne
    exact hj (hs.resolved_lt j (by simpa using hne))

lemma Settled.settle (hs : Settled s) (hc : s.claimData[i]? = some c)
    (hopen : s.resolvedSubgames i = false) {recipient a : Address} (hpay : recipient = payee c a) :
    Settled (s.settle i c recipient a) := by
  have hi : i < s.claimData.length := (getElem?_eq_some_iff.mp hc).1
  have hlen : (s.settle i c recipient a).claimData.length = s.claimData.length := length_set
  refine ⟨fun j hj => ?_, hs.challenger_ne, fun b => ?_⟩
  · rw [hlen]
    by_cases hji : j = i
    · rwa [hji]
    · rw [settle_resolvedSubgames, update_of_ne hji] at hj
      exact hs.resolved_lt j hj
  · have hshare : ∀ j, (s.settle i c recipient a).share b j =
        s.share b j + if j = i then (if recipient = b then c.bond else 0) else 0 := by
      intro j
      by_cases hji : j = i
      · subst hji
        rw [share_of_open hopen, if_pos rfl, zero_add, share, settle_claimData,
          settle_resolvedSubgames, getElem?_set_self hi, update_self, hpay]
        exact if_congr (and_iff_right rfl) rfl rfl
      · rw [if_neg hji, add_zero, share, share, settle_claimData,
          settle_resolvedSubgames, getElem?_set_ne (symm hji), update_of_ne hji]
    simp only [hshare]
    rw [hlen, sum_add_distrib, ← hs.credited, sum_ite_eq',
      if_pos (Finset.mem_range.mpr hi), settle_credit, update_apply]
    by_cases hb : b = recipient
    · rw [if_pos hb, if_pos hb.symm, hb]
    · grind

lemma Effect.final (h : Effect env tx s call s') (hs : Settled s)
    (hopen : StepsOpen [] (tx, call) s) : FinalFrom s s' ∧ Settled s' := by
  cases h with
  | move hsup h =>
    have hcls : ∀ j, s.resolvedSubgames j = true → s'.claimData[j]? = s.claimData[j]? := by
      intro j hj
      rw [h.eq, getElem?_append_left (hs.resolved_lt j hj)]
    have hlen : s.claimData.length ≤ s'.claimData.length := by simp [h.eq, length_append]
    have hres : s'.resolvedSubgames = s.resolvedSubgames := by rw [h.eq]
    refine ⟨.of_same hres hcls fun hch => ?_, hs.of_same hres hcls hlen (by rw [h.eq]) ?_⟩
    · rw [h.eq]
      exact ⟨hch, rfl⟩
    · rw [h.eq]
      exact hs.challenger_ne
  | @step i _ _ _ c _ _ _ =>
    have hcls : ∀ j, s.resolvedSubgames j = true →
        (s.claimData.set i { c with counteredBy := tx.sender })[j]? = s.claimData[j]? := by
      intro j hj
      refine getElem?_set_ne ?_
      rintro rfl
      exact absurd ((hopen _ rfl).symm.trans hj) (by decide)
    exact ⟨.of_same rfl hcls fun hch => ⟨hch, rfl⟩,
      hs.of_same rfl hcls (le_of_eq length_set.symm) rfl hs.challenger_ne⟩
  | challengeRootL2Block hfirst =>
    exact ⟨.of_same rfl (fun _ _ => rfl) fun hch => absurd (hfirst.symm.trans hch) (by decide),
      hs.of_same rfl (fun _ _ => rfl) (le_refl _) rfl fun _ => tx.sender_ne_zero⟩
  | leaf hc hi hleaf =>
    exact ⟨.settle hc hi _ fun h0 => absurd h0 hleaf.2, hs.settle hc hi rfl⟩
  | scan _ _ _ _ _ | resolve _ =>
    exact ⟨.of_same rfl (fun _ _ => rfl) fun hch => ⟨hch, rfl⟩,
      hs.of_same rfl (fun _ _ => rfl) (le_refl _) rfl hs.challenger_ne⟩
  | @settle i n c checkpoint hc hi _ _ _ =>
    have hs' : Settled (s.withCheckpoint i checkpoint) :=
      hs.of_same rfl (fun _ _ => rfl) (le_refl _) rfl hs.challenger_ne
    have hpay : s.recipient i c checkpoint = payee c (s.counter i checkpoint) := by
      rw [recipient, counter]
      by_cases hroot : s.RootChallenged i
      · rw [if_pos hroot, if_pos hroot, payee, if_neg (hs.challenger_ne hroot.2)]
      · rw [if_neg hroot, if_neg hroot]
    have hroot : i = 0 → s.l2BlockNumberChallenged = true →
        s.counter i checkpoint = s.l2BlockNumberChallenger := fun h0 hch => if_pos ⟨h0, hch⟩
    have hfin := FinalFrom.settle (s := s.withCheckpoint i checkpoint) hc hi
      (s.recipient i c checkpoint) hroot
    exact ⟨⟨hfin.resolved, hfin.challenger, hfin.root⟩, hs'.settle hc hi hpay⟩

/-! ## Whole runs -/

lemma settled_created {anchor : OutputRoot} (h : created env tx anchor = .ok s) : Settled s := by
  simp only [created, initializeGame, Except.bind_eq_ok, Except.pure_eq_ok] at h
  obtain ⟨-, -, -, -, -, -, -, -, rfl⟩ := h
  refine ⟨fun i hi => (by cases hi), fun h => (by cases h), fun a => ?_⟩
  exact (sum_eq_zero fun i _ => share_of_open rfl).symm

lemma run_final {before calls : List (GameTx × GameCall)} (hs : Settled s)
    (hmeet : Run.SuccessesMeet (exec env) StepsOpen before calls s) :
    FinalFrom s (runAll (exec env) calls s) ∧
      Settled (runAll (exec env) calls s) := by
  have hstep : ∀ (before : List (GameTx × GameCall)) c t t', FinalFrom s t ∧ Settled t →
      StepsOpen before c t → exec env c t = .ok t' → FinalFrom s t' ∧ Settled t' := by
    rintro before ⟨tx, call⟩ t t' ⟨hfin, ht⟩ hopen hexec
    obtain ⟨hfinal', ht'⟩ := (exec_effect hexec).final ht hopen
    exact ⟨hfin.trans hfinal', ht'⟩
  exact runAll_inv_of_successesMeet (Q := fun _ t => FinalFrom s t ∧ Settled t) hstep
    ⟨.refl s, hs⟩ hmeet

lemma stepsOpen_of_final (before : List (GameTx × GameCall)) {c : GameTx × GameCall}
    (hexec : exec env c s = .ok s') (hfin : FinalFrom s s') : StepsOpen before c s := by
  intro i hi
  by_contra hres
  obtain ⟨tx, call⟩ := c
  have hsame := (hfin.resolved i (by simpa using hres)).2
  cases exec_effect hexec with
  | @step j _ _ _ d hd hopen _ =>
    obtain rfl : j = i := some.inj hi
    have hj : j < s.claimData.length := (getElem?_eq_some_iff.mp hd).1
    rw [counterer, counterer, getElem?_set_self hj, hd, map_some,
      map_some, some.injEq, hopen] at hsame
    exact tx.sender_ne_zero hsame
  | _ => cases hi

lemma successesMeet_of_final {before calls : List (GameTx × GameCall)}
    (hfin : ∀ first next rest, calls = first ++ next ++ rest →
      FinalFrom (runAll (exec env) first s) (runAll (exec env) (first ++ next) s)) :
    Run.SuccessesMeet (exec env) StepsOpen before calls s := by
  induction calls generalizing before s with
  | nil => trivial
  | cons c calls ih =>
    have hrest : ∀ first next rest, calls = first ++ next ++ rest →
        FinalFrom (runAll (exec env) first (attempt (exec env) c s))
          (runAll (exec env) (first ++ next) (attempt (exec env) c s)) :=
      fun first next rest h => hfin (c :: first) next rest (by rw [h]; rfl)
    rw [SuccessesMeet]
    cases hexec : exec env c s with
    | ok t =>
      have hfirst := hfin [] [c] calls rfl
      rw [nil_append, runAll_cons, attempt_of_ok _ hexec] at hfirst
      rw [attempt_of_ok _ hexec] at hrest
      exact ⟨stepsOpen_of_final before hexec hfirst, ih hrest⟩
    | error e =>
      have hsame : attempt (exec env) c s = s := by rw [attempt, hexec]
      rw [hsame] at hrest
      exact ih hrest

/-- A run is final, with the right credits, exactly when no step was made against a resolved
claim. -/
theorem resolution_final_iff {anchor : OutputRoot} (hcreated : created env tx anchor = .ok s)
    (calls : List (GameTx × GameCall)) :
    ResolutionFinal env calls s ↔ Run.SuccessesMeet (exec env) StepsOpen [] calls s := by
  constructor
  · intro hfin
    exact successesMeet_of_final fun first next rest h => (hfin first next rest h).1
  · rintro hmeet first next rest rfl
    obtain ⟨hmeet, -⟩ := successesMeet_append.mp hmeet
    obtain ⟨hfirst, hnext⟩ := successesMeet_append.mp hmeet
    obtain ⟨-, hs⟩ := run_final (settled_created hcreated) hfirst
    obtain ⟨hfin, hs'⟩ := run_final hs hnext
    rw [← runAll_append] at hfin hs'
    exact ⟨hfin, hs'.credited⟩

/-- Two attacks down to the greatest depth, whose last claim is resolved and then countered by a
step. -/
def lateStepCalls : List (GameTx × GameCall) :=
  [sampleMove (sampleHash 0 1) 0 (sampleHash 1 4) true,
    sampleMove (sampleHash 1 4) 1 (sampleHash 1 5) true,
    (sampleTx 0 200, .resolveClaim 2 0),
    ({ sampleTx 0 200 with sender := 2, sender_ne_zero := by decide },
      .step 2 true (sampleHash 3 0).1 [])]

/-- The bond stays with the claimant, although the claim is countered in the end. -/
theorem resolved_claim_stepped :
    let env := sampleEnv 1 2 (by decide) (by decide)
    let s := runAll (exec env) (lateStepCalls.take 3) (sampleGame env)
    let s' := runAll (exec env) lateStepCalls (sampleGame env)
    (s.resolvedSubgames 2 = true ∧ s.counterer 2 = some 0 ∧ s.credit 1 = 8 * 10 ^ 16) ∧
      (s'.resolvedSubgames 2 = true ∧ s'.counterer 2 = some 2 ∧ s'.credit 1 = 8 * 10 ^ 16 ∧
        s'.credit 2 = 0) ∧ ¬ResolutionFinal env lateStepCalls (sampleGame env) := by
  intro env s s'
  have hs : s.resolvedSubgames 2 = true ∧ s.counterer 2 = some 0 ∧ s.credit 1 = 8 * 10 ^ 16 := by
    decide
  have hs' : s'.resolvedSubgames 2 = true ∧ s'.counterer 2 = some 2 ∧ s'.credit 1 = 8 * 10 ^ 16 ∧
      s'.credit 2 = 0 := by decide
  refine ⟨hs, hs', fun hfin => ?_⟩
  have hsplit := take_append_drop 3 lateStepCalls
  obtain ⟨hfrom, -⟩ := hfin (lateStepCalls.take 3) (lateStepCalls.drop 3) []
    (by rw [append_nil, hsplit])
  change FinalFrom s s' at hfrom
  have hne : (some 2 : Option Address) ≠ some 0 := by decide
  exact hne (hs'.2.1.symm.trans ((hfrom.resolved 2 hs.1).2.trans hs.2.1))

/-- The same run without the step. -/
theorem resolution_final_iff_sample :
    let env := sampleEnv 1 2 (by decide) (by decide)
    (ResolutionFinal env (lateStepCalls.take 3) (sampleGame env) ↔
      SuccessesMeet (exec env) StepsOpen [] (lateStepCalls.take 3) (sampleGame env)) ∧
      ResolutionFinal env (lateStepCalls.take 3) (sampleGame env) := by
  intro env
  have hcr : created env (sampleTx 0 0) ⟨sampleHash 0 3, 0⟩ = .ok (sampleGame env) := rfl
  have hiff := resolution_final_iff hcr (lateStepCalls.take 3)
  exact ⟨hiff, hiff.mpr (by decide)⟩

end FightNight.Dispute
