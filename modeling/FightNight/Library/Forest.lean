import Mathlib.Data.List.Induction

/-!
# Trees as lists with parent indices

A growing tree is stored as a list: each element has the index of its parent, which stands before
it, and is a root if its index points elsewhere.  `annotate` computes a value for each element
from the element and the value of its parent; `lineage` is the list of an element and its
ancestors, the element first; `children` is the list of the indices of its children.  What is
computed for an element from above does not change when the list grows.
-/

namespace FightNight.Forest

open Option
open List hiding getElem?_eq_some_iff

variable {α β γ : Type} (parent : α → ℕ)

/-! ## Values from the parents -/

/-- A value for each element, computed from the one of its parent. -/
def annotate (f : α → Option β → β) (xs : List α) : List β :=
  xs.foldl (fun done x => done ++ [f x done[parent x]?]) []

variable {parent} {f : α → Option β → β} {xs ys : List α} {x : α} {i : ℕ}

lemma annotate_concat (xs : List α) (x : α) :
    annotate parent f (xs ++ [x]) =
      annotate parent f xs ++ [f x (annotate parent f xs)[parent x]?] := by
  rw [annotate, foldl_append, foldl_cons, foldl_nil, ← annotate]

@[simp] lemma length_annotate (xs : List α) : (annotate parent f xs).length = xs.length := by
  induction xs using reverseRecOn with
  | nil => rfl
  | append_singleton xs x ih => rw [annotate_concat, length_append, ih, length_append]; rfl

/-- What is computed for an element does not depend on what is added later. -/
theorem annotate_append (hi : i < xs.length) (ys : List α) :
    (annotate parent f (xs ++ ys))[i]? = (annotate parent f xs)[i]? := by
  induction ys using reverseRecOn with
  | nil => rw [append_nil]
  | append_singleton ys y ih =>
    rw [← append_assoc, annotate_concat, getElem?_append_left, ih]
    rw [length_annotate, length_append]
    exact Nat.lt_add_right _ hi

lemma getElem?_concat_cases (h : (xs ++ [x])[i]? = some y) :
    xs[i]? = some y ∧ i < xs.length ∨ i = xs.length ∧ y = x := by
  rw [getElem?_append, getElem?_singleton] at h
  split_ifs at h with hlt
  · exact .inl ⟨h, hlt⟩
  · exact .inr ⟨by omega, (Option.some.inj h).symm⟩

lemma annotate_getElem? (hx : xs[i]? = some x) :
    (annotate parent f xs)[i]? =
      some (f x (if parent x < i then (annotate parent f xs)[parent x]? else none)) := by
  induction xs using reverseRecOn with
  | nil => cases hx
  | append_singleton xs y ih =>
    rcases getElem?_concat_cases hx with ⟨hx, hi⟩ | ⟨rfl, rfl⟩
    · rw [annotate_append hi, ih hx]
      congr 2
      split
      · rename_i hlt
        rw [annotate_append (Nat.lt_trans hlt hi)]
      · rfl
    · have hlen : (annotate parent f xs).length = xs.length := length_annotate xs
      rw [annotate_concat, ← hlen, getElem?_concat_length, hlen]
      congr 2
      split
      · grind
      · rename_i hge
        rw [getElem?_eq_none]
        rw [length_annotate]
        exact Nat.le_of_not_lt hge

/-! ## Lines of ancestors -/

variable (parent) in
/-- An element and its ancestors. -/
def lineage (xs : List α) (i : ℕ) : List α :=
  ((annotate parent (fun x up => x :: up.getD []) xs)[i]?).getD []

lemma lineage_eq (hx : xs[i]? = some x) :
    lineage parent xs i = x :: if parent x < i then lineage parent xs (parent x) else [] := by
  rw [lineage, annotate_getElem? hx]
  split <;> rfl

lemma lineage_of_lt (hx : xs[i]? = some x) (h : parent x < i) :
    lineage parent xs i = x :: lineage parent xs (parent x) := by
  rw [lineage_eq hx, if_pos h]

lemma lineage_of_le (hx : xs[i]? = some x) (h : i ≤ parent x) : lineage parent xs i = [x] := by
  rw [lineage_eq hx, if_neg (Nat.not_lt_of_le h)]

lemma lineage_append (hi : i < xs.length) (ys : List α) :
    lineage parent (xs ++ ys) i = lineage parent xs i := by
  rw [lineage, annotate_append hi, ← lineage]

lemma lineage_of_none (h : xs[i]? = none) : lineage parent xs i = [] := by
  rw [lineage, getElem?_eq_none (by rw [length_annotate]; exact getElem?_eq_none_iff.mp h)]
  rfl

variable (parent xs) in
/-- Induction from the parents to their children. -/
theorem induction_up {P : ℕ → Prop} (hnone : ∀ i, xs[i]? = none → P i)
    (hstep : ∀ i x, xs[i]? = some x → (parent x < i → P (parent x)) → P i) (i : ℕ) : P i := by
  induction i using Nat.strongRecOn with
  | ind i ih =>
    cases hx : xs[i]? with
    | none => exact hnone i hx
    | some x => exact hstep i x hx (ih (parent x))

lemma mem_of_mem_lineage (h : x ∈ lineage parent xs i) : x ∈ xs := by
  induction i using induction_up parent xs with
  | hnone i hi =>
    rw [lineage_of_none hi] at h
    cases h
  | hstep i y hy ih =>
    rw [lineage_eq hy] at h
    rcases mem_cons.mp h with rfl | h
    · exact mem_of_getElem? hy
    · split at h
      · exact ih ‹_› h
      · cases h

lemma lineage_map {parent' : γ → ℕ} {g : α → γ} (hg : ∀ x, parent' (g x) = parent x)
    (xs : List α) (i : ℕ) : lineage parent' (xs.map g) i = (lineage parent xs i).map g := by
  induction i using induction_up parent xs with
  | hnone i hi =>
    have hgi : (xs.map g)[i]? = none := by rw [getElem?_map, hi, map_none]
    rw [lineage_of_none hi, lineage_of_none hgi, map_nil]
  | hstep i x hx ih =>
    have hgx : (xs.map g)[i]? = some (g x) := by rw [getElem?_map, hx, map_some]
    rw [lineage_eq hx, lineage_eq hgx, hg]
    congr 1
    split
    · exact ih ‹_›
    · rfl

/-! ## Children -/

variable (parent) in
/-- The children of an element, in the order in which they were added.  The first element is no
child. -/
def children (xs : List α) (i : ℕ) : List ℕ :=
  (range xs.length).filter fun j => j ≠ 0 ∧ xs[j]?.map parent = some i

lemma mem_children {j : ℕ} :
    j ∈ children parent xs i ↔ j ≠ 0 ∧ ∃ x, xs[j]? = some x ∧ parent x = i := by
  simp only [children, mem_filter, mem_range, decide_eq_true_eq, map_eq_some_iff]
  constructor
  · exact fun h => h.2
  · rintro ⟨hj, x, hx, hpar⟩
    exact ⟨(getElem?_eq_some_iff.mp hx).1, hj, x, hx, hpar⟩

lemma children_congr {parent' : γ → ℕ} {zs : List γ} (h : zs.map parent' = xs.map parent) (i : ℕ) :
    children parent' zs i = children parent xs i := by
  have hlen : zs.length = xs.length := by
    have := congrArg length h
    rwa [length_map, length_map] at this
  have hget : ∀ j : ℕ, zs[j]?.map parent' = xs[j]?.map parent := by
    intro j
    rw [← getElem?_map, ← getElem?_map, h]
  simp only [children, hlen, hget]

lemma children_concat (hne : xs ≠ []) (x : α) (i : ℕ) :
    children parent (xs ++ [x]) i =
      children parent xs i ++ if parent x = i then [xs.length] else [] := by
  have hold : ∀ j ∈ range xs.length, (xs ++ [x])[j]? = xs[j]? :=
    fun j hj => getElem?_append_left (mem_range.mp hj)
  have hpos : xs.length ≠ 0 := fun h => hne (length_eq_zero_iff.mp h)
  rw [children, length_append, length_singleton, range_succ, filter_append]
  congr 1
  · refine filter_congr fun j hj => ?_
    rw [hold j hj]
  · simp [filter_cons, hpos]

end FightNight.Forest
