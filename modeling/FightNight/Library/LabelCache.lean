import FightNight.Library.Bisection
import FightNight.Library.MerkleTree

/-!
# Cached labels of a hash tree

The nodes of a tree of depth `d` are numbered as in a heap: the root is `1`, the children of `g`
are `2 * g` and `2 * g + 1`.  When the leaves are given by these numbers, the label of `g` is
`label node leaf (d - g.log2) g`.

A cache holds labels of some nodes; `Sound` says that they are the right ones.  When leaves below
a node change, the labels on the path from this node to the root, which `setPath` visits, have to
go; all others may stay (`Sound.change`).
-/

namespace FightNight.MerkleTree

open Function

variable {α : Type} (node : α → α → α)

/-! ## Labels by the number of a node -/

lemma log2_child {g b : ℕ} (hg : g ≠ 0) (hb : b < 2) : (2 * g + b).log2 = g.log2 + 1 :=
  Bisection.log2_of_div (n := 1) (Nat.pos_of_ne_zero hg) (by omega)

lemma label_heap {leaf : ℕ → α} {d g : ℕ} (hg : g ≠ 0) (hlog : g.log2 < d) :
    label node leaf (d - g.log2) g = node (label node leaf (d - (2 * g).log2) (2 * g))
        (label node leaf (d - (2 * g + 1).log2) (2 * g + 1)) := by
  obtain ⟨h, hh⟩ : ∃ h, d - g.log2 = h + 1 := ⟨d - g.log2 - 1, by omega⟩
  have hleft : d - (2 * g).log2 = h := by
    have hlog' : (2 * g).log2 = g.log2 + 1 := log2_child (b := 0) hg (by decide)
    omega
  have hright : d - (2 * g + 1).log2 = h := by
    have hlog' : (2 * g + 1).log2 = g.log2 + 1 := log2_child hg (by decide)
    omega
  rw [hh, hleft, hright, label]

lemma leaf_of_below {d g i : ℕ} (hg : g ≠ 0) (hlog : g.log2 ≤ d)
    (hi : i / 2 ^ (d - g.log2) = g) : 2 ^ d ≤ i ∧ i < 2 ^ (d + 1) := by
  have hne : i ≠ 0 := by
    rintro rfl
    exact hg (hi.symm.trans (Nat.zero_div _))
  rw [← Nat.log2_eq_iff hne, Bisection.log2_of_div (Nat.pos_of_ne_zero hg) hi,
    Nat.add_sub_cancel' hlog]

/-! ## Paths -/

/-- A node is on the path from another node to the root. -/
def OnPath (k g : ℕ) : Prop := g ≠ 0 ∧ ∃ j, k / 2 ^ j = g

lemma onPath_self {k : ℕ} (hk : k ≠ 0) : OnPath k k := ⟨hk, 0, by simp⟩

lemma OnPath.half {k g : ℕ} (h : OnPath k g) (hne : g ≠ k) : OnPath (k / 2) g := by
  obtain ⟨hg, j, hj⟩ := h
  cases j with
  | zero => exact absurd (by simpa using hj.symm) hne
  | succ j => exact ⟨hg, j, by rw [Nat.div_div_eq_div_mul, ← pow_succ', hj]⟩

lemma OnPath.of_half {k g : ℕ} (h : OnPath (k / 2) g) : OnPath k g := by
  obtain ⟨hg, j, hj⟩ := h
  refine ⟨hg, j + 1, ?_⟩
  rw [pow_succ', ← Nat.div_div_eq_div_mul, hj]

/-- Set the entries on the path from a node to the root, at most `n` of them. -/
def setPath {β : Type} (v : β) : ℕ → ℕ → (ℕ → β) → ℕ → β
  | 0, _, f => f
  | n + 1, k, f => if k = 0 then f else setPath v n (k / 2) (update f k v)

variable {β : Type} {v : β} {n k g : ℕ} {f : ℕ → β}

/-- An entry is set when its node is on the path, and otherwise as it was. -/
theorem setPath_cases (v : β) (n k : ℕ) (f : ℕ → β) (g : ℕ) :
    setPath v n k f g = f g ∨ setPath v n k f g = v ∧ OnPath k g := by
  induction n generalizing k f with
  | zero => exact .inl rfl
  | succ n ih =>
    unfold setPath
    split
    · exact .inl rfl
    · rename_i hk
      by_cases hne : g = k
      · subst hne
        rcases ih (g / 2) (update f g v) with h | h
        · exact .inr ⟨by rw [h, update_self], onPath_self hk⟩
        · exact .inr ⟨h.1, h.2.of_half⟩
      · rcases ih (k / 2) (update f k v) with h | h
        · exact .inl (by rw [h, update_of_ne hne])
        · exact .inr ⟨h.1, h.2.of_half⟩

lemma setPath_of_not_onPath (h : ¬ OnPath k g) : setPath v n k f g = f g :=
  (setPath_cases v n k f g).resolve_right fun hset => h hset.2

lemma setPath_of_onPath (hk : k < 2 ^ n) (h : OnPath k g) : setPath v n k f g = v := by
  induction n generalizing k f with
  | zero =>
    obtain ⟨hg, j, hj⟩ := h
    obtain rfl : k = 0 := by simpa using hk
    exact absurd (by rw [← hj, Nat.zero_div]) hg
  | succ n ih =>
    unfold setPath
    rw [if_neg (by rintro rfl; obtain ⟨hg, j, hj⟩ := h; exact hg (by rw [← hj, Nat.zero_div]))]
    by_cases hne : g = k
    · subst hne
      by_cases hhalf : OnPath (g / 2) g
      · exact ih (by rw [pow_succ] at hk; omega) hhalf
      · rw [setPath_of_not_onPath hhalf, update_self]
    · exact ih (by rw [pow_succ] at hk; omega) (h.half hne)

/-! ## Sound caches -/

/-- The labels in a cache are those of the tree of depth `d`, and none of a node below height `e`
is kept. -/
def Sound (leaf : ℕ → α) (d e : ℕ) (cache : ℕ → Option α) : Prop :=
  ∀ g v, cache g = some v → g ≠ 0 ∧ g.log2 + e ≤ d ∧ v = label node leaf (d - g.log2) g

variable {node} {leaf leaf' : ℕ → α} {d e : ℕ} {cache cache' : ℕ → Option α}

lemma Sound.eq (hs : Sound node leaf d e cache) {g : ℕ} {v : α} (h : cache g = some v) :
    v = label node leaf (d - g.log2) g := (hs g v h).2.2

lemma Sound.store (hs : Sound node leaf d e cache) {g : ℕ} (hg : g ≠ 0) (he : g.log2 + e ≤ d) :
    Sound node leaf d e (update cache g (some (label node leaf (d - g.log2) g))) := by
  intro g' v hv
  by_cases hne : g' = g
  · grind
  · rw [update_of_ne hne] at hv
    exact hs g' v hv

/-- When leaves below the node `k` at height `c` change, the labels of the nodes that are not on
its path are still right. -/
theorem Sound.change (hs : Sound node leaf d e cache) {c k : ℕ} (hc : c ≤ e)
    (hleaf : ∀ i, 2 ^ d ≤ i → i < 2 ^ (d + 1) → i / 2 ^ c ≠ k → leaf' i = leaf i)
    (hcache : ∀ g v, cache' g = some v → cache g = some v ∧ ¬ OnPath k g) :
    Sound node leaf' d e cache' := by
  intro g v hv
  obtain ⟨hv, hpath⟩ := hcache g v hv
  obtain ⟨hg, he, rfl⟩ := hs g v hv
  refine ⟨hg, he, ?_⟩
  apply label_congr_below
  intro i hi
  obtain ⟨hlo, hhi⟩ := leaf_of_below hg (by omega) hi
  refine (hleaf i hlo hhi ?_).symm
  -- A leaf below both nodes would put the higher one on the path of the lower one.
  intro hk
  refine hpath ⟨hg, d - g.log2 - c, ?_⟩
  rw [← hk, Nat.div_div_eq_div_mul, ← pow_add, Nat.add_sub_cancel' (by omega), hi]

end FightNight.MerkleTree
