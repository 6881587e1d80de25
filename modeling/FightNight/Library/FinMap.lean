import Mathlib.Data.List.AList

/-!
# Finite maps

A map with finitely many keys, read and written by key, is an association list without repeated keys.
What is added here is the list of its values: how it changes with the map, and that it does not depend
on the order in which the entries were written.
-/

namespace FightNight

/-- A finite map. -/
abbrev FinMap (K V : Type) := AList (fun _ : K => V)

namespace FinMap

variable {K V : Type}

/-- The values of a map. -/
def values (m : FinMap K V) : List V := m.entries.map Sigma.snd

variable [DecidableEq K]

/-- The map in which the keys that meet a condition were visited and removed one by one. -/
def removeAll (gone : K → Bool) (m : FinMap K V) : FinMap K V :=
  m.keys.foldl (fun m k => if gone k then m.erase k else m) m

lemma mem_values {m : FinMap K V} {v : V} : v ∈ m.values ↔ ∃ k, m.lookup k = some v := by
  rw [values, List.mem_map]
  constructor
  · rintro ⟨⟨k, w⟩, hmem, rfl⟩
    exact ⟨k, AList.mem_lookup_iff.mpr hmem⟩
  · rintro ⟨k, hlook⟩
    exact ⟨⟨k, v⟩, AList.mem_lookup_iff.mp hlook, rfl⟩

lemma values_insert {m : FinMap K V} {k : K} (h : k ∉ m) (v : V) :
    values (m.insert k v) = v :: m.values := by
  rw [values, AList.entries_insert_of_notMem h]
  rfl

/-- The values are that of a key and those of the other keys. -/
theorem values_perm {m : FinMap K V} {k : K} {v : V} (h : m.lookup k = some v) :
    m.values.Perm (v :: values (m.erase k)) := by
  have hk : k ∈ m.entries.keys := AList.lookup_isSome.mp (by rw [h]; rfl)
  obtain ⟨w, l₁, l₂, hnot, heq, herase⟩ := List.exists_of_kerase hk
  have hw : m.lookup k = some w := by
    rw [AList.mem_lookup_iff.mpr (show Sigma.mk k w ∈ m.entries by rw [heq]; simp)]
  obtain rfl : w = v := Option.some.inj (hw.symm.trans h)
  have hvals : values (m.erase k) = (l₁ ++ l₂).map Sigma.snd := by
    rw [← herase]
    rfl
  rw [hvals, values, heq, List.map_append, List.map_append]
  exact List.perm_middle

lemma lookup_removeAll (gone : K → Bool) (m : FinMap K V) (k : K) :
    (removeAll gone m).lookup k = if gone k then none else m.lookup k := by
  -- a key that is still to be visited is where it was
  have hfold : ∀ (ks : List K) (m : FinMap K V),
      (ks.foldl (fun m k => if gone k then m.erase k else m) m).lookup k =
        if gone k ∧ k ∈ ks then none else m.lookup k := by
    intro ks
    induction ks with
    | nil => intro m; simp
    | cons k' ks ih =>
      intro m
      rw [List.foldl_cons, ih]
      by_cases hk : k = k'
      · subst hk
        by_cases hgone : gone k <;> simp [hgone]
      · have hsame : (if gone k' then m.erase k' else m).lookup k = m.lookup k := by
          split
          · exact AList.lookup_erase_ne hk
          · rfl
        rw [hsame]
        simp [hk]
  rw [removeAll, hfold]
  by_cases hk : k ∈ m.keys
  · simp [hk]
  · simp [hk, AList.lookup_eq_none.mpr hk]

end FinMap

end FightNight
