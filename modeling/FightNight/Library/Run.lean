import Mathlib.Tactic.Common

/-!
# Runs of a machine whose steps may fail

A machine is a function `exec : Call → σ → Except E σ`.  A call that fails leaves the state as
it was, which is how a transaction that reverts behaves.  `runAll exec calls s` is the state
after a list of calls; what every successful call preserves holds after every run.  When a call
preserves it only in some states, `AllMeet` says that every call of a run is made in such a state.
`total` adds up a weight over the calls that succeeded.
-/

namespace FightNight.Run

open List

variable {σ Call E : Type} (exec : Call → σ → Except E σ)

/-- The state after one call, which is the old state when the call fails. -/
def attempt (c : Call) (s : σ) : σ :=
  match exec c s with
  | .ok s' => s'
  | .error _ => s

/-- The state after a list of calls. -/
def runAll : List Call → σ → σ
  | [], s => s
  | c :: cs, s => runAll cs (attempt exec c s)

@[simp] lemma runAll_nil (s : σ) : runAll exec [] s = s := rfl

@[simp] lemma runAll_cons (c : Call) (cs : List Call) (s : σ) :
    runAll exec (c :: cs) s = runAll exec cs (attempt exec c s) := rfl

lemma runAll_append (cs ds : List Call) (s : σ) :
    runAll exec (cs ++ ds) s = runAll exec ds (runAll exec cs s) := by
  induction cs generalizing s with
  | nil => rfl
  | cons c cs ih => exact ih _

variable {ok : List Call → Call → σ → Prop} {before cs : List Call} {s s' : σ}
  {Q : List Call → σ → Prop} {c : Call}

lemma attempt_of_ok (h : exec c s = .ok s') : attempt exec c s = s' := by
  rw [attempt, h]

variable {exec} {P : σ → Prop}

lemma attempt_inv (hs : P s) (hstep : ∀ s', exec c s = .ok s' → P s') : P (attempt exec c s) := by
  unfold attempt
  split
  · exact hstep _ ‹_›
  · exact hs

/-- The invariant rule: what every successful call of a run preserves holds after the run. -/
theorem runAll_inv (hstep : ∀ c ∈ cs, ∀ s s', P s → exec c s = .ok s' → P s') (hs : P s) :
    P (runAll exec cs s) := by
  induction cs generalizing s with
  | nil => exact hs
  | cons c cs ih =>
    have hc : P (attempt exec c s) := attempt_inv hs fun s' h => hstep c mem_cons_self s s' hs h
    exact ih (fun d hd => hstep d (mem_cons_of_mem _ hd)) hc

variable (exec) in
/-- Every call of a run meets a condition in the state in which it is made. -/
def AllMeet (ok : Call → σ → Prop) : List Call → σ → Prop
  | [], _ => True
  | c :: cs, s => ok c s ∧ AllMeet ok cs (attempt exec c s)

/-- Whether every call of a run meets a decidable condition can be decided by running it. -/
instance AllMeet.decidable {ok : Call → σ → Prop} [∀ c s, Decidable (ok c s)] :
    ∀ (cs : List Call) (s : σ), Decidable (AllMeet exec ok cs s)
  | [], _ => isTrue trivial
  | _ :: cs, _ => @instDecidableAnd _ _ _ (AllMeet.decidable cs _)

/-- The invariant rule for runs whose calls all meet a condition. -/
theorem runAll_inv_of_allMeet {ok : Call → σ → Prop}
    (hstep : ∀ c s s', P s → ok c s → exec c s = .ok s' → P s') (hs : P s)
    (hmeet : AllMeet exec ok cs s) : P (runAll exec cs s) := by
  induction cs generalizing s with
  | nil => exact hs
  | cons c cs ih =>
    obtain ⟨hc, hcs⟩ := hmeet
    have hnext : P (attempt exec c s) := attempt_inv hs fun s' h => hstep c s s' hs hc h
    exact ih hnext hcs

/-! ## The calls that succeeded -/

variable (exec) in
/-- The calls of a run that succeeded, in their order. -/
def successes : List Call → σ → List Call
  | [], _ => []
  | c :: cs, s =>
    match exec c s with
    | .ok s' => c :: successes cs s'
    | .error _ => successes cs s

lemma successes_sublist (cs : List Call) (s : σ) : (successes exec cs s).Sublist cs := by
  induction cs generalizing s with
  | nil => exact Sublist.slnil
  | cons c cs ih =>
    rw [successes]
    split
    · exact (ih _).cons_cons c
    · exact (ih s).cons c

/-- The invariant rule for a property of the calls that succeeded and the state they led to, for a
run that goes on after other calls. -/
theorem runAll_successes_inv
    (hstep : ∀ before c s s', Q before s → exec c s = .ok s' → Q (before ++ [c]) s')
    (cs : List Call) (hs : Q before s) : Q (before ++ successes exec cs s) (runAll exec cs s) := by
  induction cs generalizing s before with
  | nil =>
    rwa [successes, append_nil]
  | cons c cs ih =>
    rw [successes, runAll_cons, attempt]
    split
    · rename_i s' hc
      rw [append_cons]
      exact ih (hstep before c s s' hs hc)
    · exact ih hs

variable (exec) in
/-- Every successful call of a run meets a condition on the successful calls before it and on the
state in which it is made; the run goes on after other calls. -/
def SuccessesMeet (ok : List Call → Call → σ → Prop) : List Call → List Call → σ → Prop
  | _, [], _ => True
  | before, c :: cs, s =>
    match exec c s with
    | .ok s' => ok before c s ∧ SuccessesMeet ok (before ++ [c]) cs s'
    | .error _ => SuccessesMeet ok before cs s

/-- The invariant rule for the calls that succeeded, when all of them meet a condition. -/
theorem runAll_inv_of_successesMeet
    (hstep : ∀ before c s s', Q before s → ok before c s → exec c s = .ok s' → Q (before ++ [c]) s')
    (hs : Q before s) (hmeet : SuccessesMeet exec ok before cs s) :
    Q (before ++ successes exec cs s) (runAll exec cs s) := by
  induction cs generalizing s before with
  | nil =>
    rwa [successes, append_nil]
  | cons c cs ih =>
    rw [SuccessesMeet] at hmeet
    rw [successes, runAll_cons, attempt]
    cases hc : exec c s with
    | ok s' =>
      simp only [hc] at hmeet ⊢
      rw [append_cons]
      exact ih (hstep before c s s' hs hmeet.1 hc) hmeet.2
    | error e =>
      simp only [hc] at hmeet ⊢
      exact ih hs hmeet

variable (exec) in
/-- The sum of a weight over the successful calls of a run, each with the state in which it is
made. -/
def total (weight : Call → σ → ℕ) : List Call → σ → ℕ
  | [], _ => 0
  | c :: cs, s =>
    match exec c s with
    | .ok s' => weight c s + total weight cs s'
    | .error _ => total weight cs s

/-- A balance rule: when every successful call moves a measure of the state by the difference of
two weights, so does the run. -/
theorem total_balance {measure : σ → ℕ} {gain loss : Call → σ → ℕ}
    (hkeep : ∀ c s s', P s → exec c s = .ok s' → P s')
    (hstep : ∀ c s s', P s → exec c s = .ok s' → measure s + gain c s = measure s' + loss c s)
    (cs : List Call) (hs : P s) :
    measure s + total exec gain cs s = measure (runAll exec cs s) + total exec loss cs s := by
  induction cs generalizing s with
  | nil => rfl
  | cons c cs ih =>
    rw [total, total, runAll_cons, attempt]
    cases hc : exec c s with
    | ok s' =>
      have hone := hstep c s s' hs hc
      have hrest := ih (hkeep c s s' hs hc)
      simp only
      omega
    | error e => exact ih hs

lemma total_zero (cs : List Call) (s : σ) : total exec (fun _ _ => 0) cs s = 0 := by
  induction cs generalizing s with
  | nil => rfl
  | cons c cs ih =>
    rw [total]
    split
    · rw [ih]
    · exact ih s

lemma total_eq_zero_iff {weight : Call → σ → ℕ} :
    total exec weight cs s = 0 ↔
      SuccessesMeet exec (fun _ c s => weight c s = 0) before cs s := by
  induction cs generalizing before s with
  | nil => exact iff_of_true rfl trivial
  | cons c cs ih =>
    rw [total, SuccessesMeet]
    cases exec c s with
    | ok s' =>
      rw [Nat.add_eq_zero_iff, ih]
    | error e => exact ih

lemma total_add (first second : Call → σ → ℕ) (cs : List Call) (s : σ) :
    total exec (fun c s => first c s + second c s) cs s =
      total exec first cs s + total exec second cs s := by
  induction cs generalizing s with
  | nil => rfl
  | cons c cs ih =>
    rw [total, total, total]
    cases exec c s with
    | ok s' =>
      simp only [ih]
      omega
    | error e => exact ih s

/-- Whether the successful calls meet a decidable condition can be decided by running them. -/
instance SuccessesMeet.decidable {ok : List Call → Call → σ → Prop}
    [∀ before c s, Decidable (ok before c s)] :
    ∀ (before cs : List Call) (s : σ), Decidable (SuccessesMeet exec ok before cs s)
  | _, [], _ => isTrue trivial
  | before, c :: cs, s =>
    match h : exec c s with
    | .ok s' =>
      have : Decidable (SuccessesMeet exec ok (before ++ [c]) cs s') :=
        SuccessesMeet.decidable (before ++ [c]) cs s'
      decidable_of_iff (ok before c s ∧ SuccessesMeet exec ok (before ++ [c]) cs s')
        (by simp only [SuccessesMeet, h])
    | .error _ =>
      have : Decidable (SuccessesMeet exec ok before cs s) := SuccessesMeet.decidable before cs s
      decidable_of_iff (SuccessesMeet exec ok before cs s) (by simp only [SuccessesMeet, h])

lemma SuccessesMeet.mono {ok' : List Call → Call → σ → Prop}
    (h : SuccessesMeet exec ok before cs s)
    (hok : ∀ before, ∀ c ∈ cs, ∀ s, ok before c s → ok' before c s) :
    SuccessesMeet exec ok' before cs s := by
  induction cs generalizing before s with
  | nil => trivial
  | cons c cs ih =>
    have hrest : ∀ before, ∀ d ∈ cs, ∀ s, ok before d s → ok' before d s :=
      fun before d hd => hok before d (mem_cons_of_mem _ hd)
    rw [SuccessesMeet] at h ⊢
    cases hc : exec c s with
    | ok s' =>
      simp only [hc] at h ⊢
      exact ⟨hok before c mem_cons_self s h.1, ih h.2 hrest⟩
    | error e =>
      simp only [hc] at h ⊢
      exact ih h hrest

lemma successes_append (cs ds : List Call) (s : σ) :
    successes exec (cs ++ ds) s = successes exec cs s ++ successes exec ds (runAll exec cs s) := by
  induction cs generalizing s with
  | nil => rfl
  | cons c cs ih =>
    rw [cons_append, successes, successes, runAll_cons, attempt]
    cases hc : exec c s with
    | ok t => simp only [ih, cons_append]
    | error e => simp only [ih]

lemma successesMeet_append {ds : List Call} :
    SuccessesMeet exec ok before (cs ++ ds) s ↔ SuccessesMeet exec ok before cs s ∧
      SuccessesMeet exec ok (before ++ successes exec cs s) ds (runAll exec cs s) := by
  induction cs generalizing before s with
  | nil => rw [nil_append, successes, append_nil, runAll_nil, SuccessesMeet, true_and]
  | cons c cs ih =>
    rw [cons_append, SuccessesMeet, SuccessesMeet, successes, runAll_cons, attempt]
    cases hc : exec c s with
    | ok t => simp only [ih, and_assoc, ← append_cons]
    | error e => simp only [ih]

lemma successes_concat (hc : exec c (runAll exec cs s) = .ok s') :
    successes exec (cs ++ [c]) s = successes exec cs s ++ [c] ∧ runAll exec (cs ++ [c]) s = s' := by
  rw [successes_append, runAll_append, runAll_cons, attempt, successes, hc]
  exact ⟨rfl, rfl⟩

lemma SuccessesMeet.concat (h : SuccessesMeet exec ok before cs s)
    (hc : exec c (runAll exec cs s) = .ok s')
    (hok : ok (before ++ successes exec cs s) c (runAll exec cs s)) :
    SuccessesMeet exec ok before (cs ++ [c]) s := by
  refine successesMeet_append.mpr ⟨h, ?_⟩
  rw [SuccessesMeet, hc]
  exact ⟨hok, trivial⟩

end FightNight.Run
