import FightNight.Library.Checked

/-!
# Transactions with re-entrant calls

A contract is entered by a call and, while it runs, hands control to other contracts at a few call
sites.  Before answering, the outside may call the contract again, any number of times and to any
depth, and then return a value or fail.

`CallTree` records one transaction with everything the outside does during it: for each call site
the transactions made before answering, and the answer.  Quantifying over call trees is
quantifying over all behaviours of the outside, since a behaviour that depends on the state is one
particular tree in each execution.

`exec` runs a tree against the code of a contract (`body`), `execAll` runs a list of trees, each
of which leaves the state alone when it fails.  A reflexive and transitive relation between states
that the code respects whenever the outside does is respected by every transaction and every run
(`exec_rel`, `execAll_rel`).
-/

namespace FightNight

/-- A transaction: the call that enters the contract, the transactions the outside makes at
each call site, and what it answers there. -/
inductive CallTree (Call Site Ret E : Type) where
  | mk (call : Call) (reenter : Site → List (CallTree Call Site Ret E))
    (reply : Site → Except E Ret)

namespace CallTree

variable {Call Site Ret E σ : Type}

/-- The behaviour of the outside at each call site: the state it leaves and its answer, or the
error it fails with.  A failed external call leaves no trace in the state. -/
abbrev Outside (Site Ret E σ : Type) := Site → σ → Except E (σ × Ret)

variable (body : Call → Outside Site Ret E σ → σ → Except E σ)

mutual

/-- Run one transaction from a state.  At each call site the outside first makes its own
transactions and then answers. -/
def exec : CallTree Call Site Ret E → σ → Except E σ
  | .mk call reenter reply => fun s =>
      body call (fun site s => (reply site).map fun r => (execAll (reenter site) s, r)) s

/-- Run transactions one after the other; a failed one leaves the state unchanged. -/
def execAll : List (CallTree Call Site Ret E) → σ → σ
  | [] => fun s => s
  | t :: ts => fun s => execAll ts (match exec t s with
      | .ok s' => s'
      | .error _ => s)

end

/-- The outside that makes the given transactions and gives the given answers. -/
def outside (reenter : Site → List (CallTree Call Site Ret E)) (reply : Site → Except E Ret) :
    Outside Site Ret E σ :=
  fun site s => (reply site).map fun r => (execAll body (reenter site) s, r)

/-- The state after one transaction: the new state, or the old one when it failed. -/
def after (t : CallTree Call Site Ret E) (s : σ) : σ :=
  match exec body t s with
  | .ok s' => s'
  | .error _ => s

lemma execAll_cons (t : CallTree Call Site Ret E) (ts : List (CallTree Call Site Ret E))
    (s : σ) : execAll body (t :: ts) s = execAll body ts (after body t s) := rfl

lemma execAll_append (ts us : List (CallTree Call Site Ret E)) (s : σ) :
    execAll body (ts ++ us) s = execAll body us (execAll body ts s) := by
  induction ts generalizing s with
  | nil => rfl
  | cons t ts ih => rw [List.cons_append, execAll_cons, execAll_cons, ih]

/-! ## Induction over transactions and runs -/

/-- The behaviour of the outside respects a relation between states. -/
def Respects (R : σ → σ → Prop) (out : Outside Site Ret E σ) : Prop :=
  ∀ site s s' r, out site s = .ok (s', r) → R s s'

section Induction

variable {body}
variable {R : σ → σ → Prop} (hrefl : ∀ s, R s s) (htrans : ∀ a b c, R a b → R b c → R a c)
  (hbody : ∀ call out, Respects R out → ∀ s s', body call out s = .ok s' → R s s')

include hrefl htrans hbody

/-- A relation that the code respects whenever the outside does is respected by every
transaction. -/
theorem exec_rel (t : CallTree Call Site Ret E) :
    ∀ s s', exec body t s = .ok s' → R s s' := by
  induction t using CallTree.rec (motive_2 := fun ts => ∀ s, R s (execAll body ts s)) with
  | mk call reenter reply ih =>
    intro s s' h
    refine hbody call _ ?_ s s' h
    intro site a a' r hout
    obtain ⟨_, _, ha⟩ := Except.map_eq_ok.mp hout
    cases ha
    exact ih site a
  | nil => exact hrefl _
  | cons t ts iht ihts s =>
    rw [execAll_cons]
    refine htrans _ _ _ ?_ (ihts _)
    unfold after
    cases he : exec body t s with
    | error e => exact hrefl s
    | ok s' => exact iht s s' he

lemma after_rel (t : CallTree Call Site Ret E) (s : σ) : R s (after body t s) := by
  unfold after
  cases he : exec body t s with
  | error e => exact hrefl s
  | ok s' => exact exec_rel hrefl htrans hbody t s s' he

/-- A relation that the code respects whenever the outside does is respected by every run. -/
theorem execAll_rel (ts : List (CallTree Call Site Ret E)) (s : σ) :
    R s (execAll body ts s) := by
  induction ts generalizing s with
  | nil => exact hrefl s
  | cons t ts ih =>
    exact htrans _ _ _ (after_rel hrefl htrans hbody t s) (ih _)

end Induction

end CallTree

end FightNight
