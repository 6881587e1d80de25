import Mathlib.Tactic.Ring

/-!
# Binary hash trees

Trees of a fixed depth over leaves that are numbered from the left, with labels from an arbitrary
type and a function `node` that combines two labels.  `label leaf h k` is the label of the node
with number `k` at height `h`.

A tree is used without storing it by climbing from a leaf to the root along the siblings
(`climb_label`, and its converse `climb_sound`), and by adding leaves from the left while only the
labels of the full subtrees are kept, one for each bit of the number of leaves (`Frontier`,
`frontier_push`, `rootFrom_label`).
-/

namespace FightNight.MerkleTree

open Function

variable {α : Type} (node : α → α → α)

/-- The label of the node with number `k` at a height. -/
def label (leaf : ℕ → α) : ℕ → ℕ → α
  | 0, k => leaf k
  | h + 1, k => node (label leaf h (2 * k)) (label leaf h (2 * k + 1))

/-- The label of a subtree whose leaves are all equal. -/
def zeroLabel (zero : α) : ℕ → α
  | 0 => zero
  | h + 1 => node (zeroLabel zero h) (zeroLabel zero h)

lemma span_succ (h k : ℕ) :
    k * 2 ^ (h + 1) = 2 * k * 2 ^ h ∧ (2 * k + 1) * 2 ^ h = 2 * k * 2 ^ h + 2 ^ h ∧
      (k + 1) * 2 ^ (h + 1) = (2 * k + 1) * 2 ^ h + 2 ^ h ∧
      (2 * k + 1 + 1) * 2 ^ h = (2 * k + 1) * 2 ^ h + 2 ^ h := by
  refine ⟨?_, ?_, ?_, ?_⟩ <;> ring

variable {branch f g leaf siblings : ℕ → α} {d h height index k n : ℕ} {zero : α}

/-- Subtrees with the same leaves have the same label, wherever they stand. -/
theorem label_shift {l : ℕ} (hleaf : ∀ i < 2 ^ h, f (k * 2 ^ h + i) = g (l * 2 ^ h + i)) :
    label node f h k = label node g h l := by
  induction h generalizing k l with
  | zero => simpa [label] using hleaf 0 (by simp)
  | succ h ih =>
    obtain ⟨hk, hk', -, -⟩ := span_succ h k
    obtain ⟨hl, hl', -, -⟩ := span_succ h l
    rw [hk, hl] at hleaf
    have hleft : label node f h (2 * k) = label node g h (2 * l) := by
      apply ih
      intro i hi
      exact hleaf i (by omega)
    have hright : label node f h (2 * k + 1) = label node g h (2 * l + 1) := by
      apply ih
      intro i hi
      rw [hk', hl', add_assoc, add_assoc]
      exact hleaf (2 ^ h + i) (by omega)
    rw [label, label, hleft, hright]

lemma label_congr (hleaf : ∀ i, k * 2 ^ h ≤ i → i < (k + 1) * 2 ^ h → f i = g i) :
    label node f h k = label node g h k := by
  refine label_shift node fun i hi => hleaf _ (Nat.le_add_right _ _) ?_
  rw [add_mul]
  omega

lemma label_congr_below (hleaf : ∀ i, i / 2 ^ h = k → f i = g i) :
    label node f h k = label node g h k := by
  apply label_congr
  intro i hlo hhi
  apply hleaf
  exact Nat.div_eq_of_lt_le hlo hhi

/-- When a pair has the label of its first component, a subtree has that of its first leaf. -/
theorem label_of_fst (hfst : ∀ a b, node a b = a) (leaf : ℕ → α) (h k : ℕ) :
    label node leaf h k = leaf (k * 2 ^ h) := by
  induction h generalizing k with
  | zero => rw [label, pow_zero, mul_one]
  | succ h ih => rw [label, hfst, ih, (span_succ h k).1]

lemma label_eq_zeroLabel (hzero : ∀ i, n ≤ i → leaf i = zero) (hk : n ≤ k * 2 ^ h) :
    label node leaf h k = zeroLabel node zero h := by
  induction h generalizing k with
  | zero => exact hzero k (by simpa using hk)
  | succ h ih =>
    obtain ⟨hlow, hmid, -, -⟩ := span_succ h k
    rw [hlow] at hk
    have hleft : label node leaf h (2 * k) = zeroLabel node zero h := ih hk
    have hright : label node leaf h (2 * k + 1) = zeroLabel node zero h := by
      apply ih
      rw [hmid]
      exact Nat.le_add_right_of_le hk
    rw [label, zeroLabel, hleft, hright]

/-! ## Climbing -/

/-- The number of the sibling of a node. -/
def sibling (k : ℕ) : ℕ := if k % 2 = 1 then k - 1 else k + 1

/-- The label that is reached from the label of a leaf after `h` siblings. -/
def climb (index : ℕ) (siblings : ℕ → α) : ℕ → α → α
  | 0, value => value
  | h + 1, value =>
    if index / 2 ^ h % 2 = 1 then node (siblings h) (climb index siblings h value)
    else node (climb index siblings h value) (siblings h)

/-- The two labels that a climb combines at a height. -/
def climbPair (index : ℕ) (siblings : ℕ → α) (value : α) (h : ℕ) : α × α :=
  if index / 2 ^ h % 2 = 1 then (siblings h, climb node index siblings h value)
  else (climb node index siblings h value, siblings h)

/-- The labels of the two nodes below the node above a leaf. -/
def childPair (leaf : ℕ → α) (index h : ℕ) : α × α :=
  (label node leaf h (2 * (index / 2 ^ (h + 1))), label node leaf h (2 * (index / 2 ^ (h + 1)) + 1))

lemma climb_succ (index : ℕ) (siblings : ℕ → α) (value : α) (h : ℕ) :
    climb node index siblings (h + 1) value =
      uncurry node (climbPair node index siblings value h) := by
  rw [climb, climbPair]
  split <;> rfl

lemma childPair_eq (index h : ℕ) :
    childPair node leaf index h =
      if index / 2 ^ h % 2 = 1 then
        (label node leaf h (sibling (index / 2 ^ h)), label node leaf h (index / 2 ^ h))
      else (label node leaf h (index / 2 ^ h), label node leaf h (sibling (index / 2 ^ h))) := by
  have hhalf : index / 2 ^ (h + 1) = index / 2 ^ h / 2 := by
    rw [pow_succ, Nat.div_div_eq_div_mul]
  rw [childPair, hhalf, sibling]
  by_cases hodd : index / 2 ^ h % 2 = 1
  · have hleft : 2 * (index / 2 ^ h / 2) = index / 2 ^ h - 1 := by omega
    have hright : 2 * (index / 2 ^ h / 2) + 1 = index / 2 ^ h := by omega
    rw [if_pos hodd, if_pos hodd, hright, hleft]
  · have hleft : 2 * (index / 2 ^ h / 2) = index / 2 ^ h := by omega
    rw [if_neg hodd, if_neg hodd, hleft]

/-- Climbing along the siblings of a leaf leads to the labels above it. -/
theorem climb_label (hsib : ∀ h < d, siblings h = label node leaf h (sibling (index / 2 ^ h))) :
    climb node index siblings d (leaf index) = label node leaf d (index / 2 ^ d) := by
  induction d with
  | zero => simp [climb, label]
  | succ d ih =>
    have hlow := ih fun h hh => hsib h (Nat.lt_succ_of_lt hh)
    rw [climb_succ, climbPair, hlow, hsib d (Nat.lt_succ_self d), ← childPair_eq]
    rfl

lemma sibling_ne (k : ℕ) : sibling k ≠ k := by
  unfold sibling
  split <;> omega

/-- Climbing from another value leads to the labels of the tree in which this leaf is replaced. -/
theorem climb_label_update
    (hsib : ∀ h < d, siblings h = label node leaf h (sibling (index / 2 ^ h))) (value : α) :
    climb node index siblings d value = label node (update leaf index value) d (index / 2 ^ d) := by
  have hvalue : update leaf index value index = value := update_self _ _ _
  rw [← climb_label, hvalue]
  intro h hh
  rw [hsib h hh]
  apply label_congr_below
  intro i hi
  refine (update_of_ne ?_ _ _).symm
  rintro rfl
  exact sibling_ne _ hi.symm

lemma foldl_range_climb (index : ℕ) (siblings : ℕ → α) (d : ℕ) (value : α) :
    (List.range d).foldl (fun v h =>
      if index / 2 ^ h % 2 = 1 then node (siblings h) v else node v (siblings h)) value =
      climb node index siblings d value := by
  induction d with
  | zero => rfl
  | succ d ih => rw [List.range_succ, List.foldl_append, List.foldl_cons, List.foldl_nil, ih, climb]

/-- A climb that leads to the root starts at the leaf, when no pair that is combined on the way
has the same label as another pair of the tree. -/
theorem climb_sound {value : α}
    (hbinds : ∀ h < d, uncurry node (climbPair node index siblings value h) =
      uncurry node (childPair node leaf index h) →
      climbPair node index siblings value h = childPair node leaf index h)
    (hroot : climb node index siblings d value = label node leaf d (index / 2 ^ d)) :
    value = leaf index := by
  induction d with
  | zero => simpa [climb, label] using hroot
  | succ d ih =>
    apply ih (fun h hh => hbinds h (Nat.lt_succ_of_lt hh))
    rw [climb_succ] at hroot
    have hpair := hbinds d (Nat.lt_succ_self d) hroot
    rw [climbPair, childPair_eq] at hpair
    by_cases hodd : index / 2 ^ d % 2 = 1
    · grind
    · grind

lemma climbPair_label
    (hsib : ∀ j ≤ h, siblings j = label node leaf j (sibling (index / 2 ^ j))) :
    climbPair node index siblings (leaf index) h = childPair node leaf index h := by
  rw [climbPair, climb_label node fun j hj => hsib j (le_of_lt hj), hsib h (le_refl h),
    childPair_eq]

/-! ## Adding leaves from the left -/

/-- The labels of the full subtrees on the left of `n` leaves: for each bit of `n`, the label of
the subtree that ends where the lower bits of `n` begin. -/
def Frontier (leaf : ℕ → α) (n : ℕ) (branch : ℕ → α) : Prop :=
  ∀ h, n / 2 ^ h % 2 = 1 → branch h = label node leaf h (n / 2 ^ h - 1)

lemma frontier_zero (leaf branch : ℕ → α) : Frontier node leaf 0 branch := by
  intro h hbit
  simp at hbit

lemma Frontier.congr (h : Frontier node f n branch) (hleaf : ∀ i < n, f i = g i) :
    Frontier node g n branch := by
  intro height hbit
  rw [h height hbit]
  apply label_congr
  intro i _ hhi
  apply hleaf
  have hne : n / 2 ^ height ≠ 0 := fun hzero => by rw [hzero] at hbit; cases hbit
  rw [Nat.sub_one_add_one hne] at hhi
  exact lt_of_lt_of_le hhi (Nat.div_mul_le_self _ _)

/-- Add a label to the branch, at a height and with the number of subtrees of that height: an odd
number is stored, an even one is combined with the label that is there. -/
def push (branch : ℕ → α) : ℕ → ℕ → ℕ → α → ℕ → α
  | 0, _, _, _ => branch
  | rounds + 1, height, size, value =>
    if size % 2 = 1 then update branch height value
    else push branch rounds (height + 1) (size / 2) (node (branch height) value)

lemma even_of_dvd {m : ℕ} (hdvd : 2 ^ height ∣ m) (hh : h < height) : m / 2 ^ h % 2 = 0 := by
  have hpow : 2 ^ h * 2 ∣ m := (pow_dvd_pow 2 hh).trans hdvd
  exact Nat.mod_eq_zero_of_dvd (Nat.dvd_div_of_mul_dvd hpow)

lemma div_succ_of_odd (hodd : (n + 1) / 2 ^ height % 2 = 1) (hh : height < h) :
    (n + 1) / 2 ^ h = n / 2 ^ h := by
  apply Nat.succ_div_of_not_dvd
  intro hdvd
  rw [even_of_dvd hdvd hh] at hodd
  cases hodd

lemma Frontier.store (h : Frontier node leaf n branch) (hdvd : 2 ^ height ∣ n + 1)
    (hodd : (n + 1) / 2 ^ height % 2 = 1) :
    Frontier node leaf (n + 1)
      (update branch height (label node leaf height ((n + 1) / 2 ^ height - 1))) := by
  intro i hbit
  rcases lt_trichotomy i height with hlt | rfl | hgt
  · rw [even_of_dvd hdvd hlt] at hbit
    cases hbit
  · rw [update_self]
  · rw [div_succ_of_odd hodd hgt] at hbit ⊢
    rw [update_of_ne (ne_of_gt hgt)]
    exact h i hbit

/-- When the new number of subtrees of a height is even, the label that is kept and the new one are
the two halves of a subtree of the next height. -/
theorem Frontier.combine (h : Frontier node leaf n branch) (hdvd : 2 ^ height ∣ n + 1)
    (heven : (n + 1) / 2 ^ height % 2 = 0) :
    node (branch height) (label node leaf height ((n + 1) / 2 ^ height - 1)) =
      label node leaf (height + 1) ((n + 1) / 2 ^ height / 2 - 1) := by
  have hsucc : (n + 1) / 2 ^ height = n / 2 ^ height + 1 := Nat.succ_div_of_dvd hdvd
  rw [hsucc] at heven ⊢
  have hbr := h height
  -- What remains is about the number of full subtrees before the leaf was added.
  generalize n / 2 ^ height = q at *
  have hbit : q % 2 = 1 := by omega
  have hleft : q - 1 = 2 * ((q + 1) / 2 - 1) := by omega
  have hright : q + 1 - 1 = 2 * ((q + 1) / 2 - 1) + 1 := by omega
  rw [hbr hbit, label, hleft, hright]

/-- The loop of `push`, in the middle: the lower bits of the new number of leaves are zero. -/
theorem frontier_push_loop {leaf : ℕ → α} {n : ℕ} {branch : ℕ → α}
    (h : Frontier node leaf n branch) {rounds height : ℕ} (hdvd : 2 ^ height ∣ n + 1)
    (hrnd : n + 1 < 2 ^ (height + rounds)) :
    Frontier node leaf (n + 1) (push node branch rounds height ((n + 1) / 2 ^ height)
      (label node leaf height ((n + 1) / 2 ^ height - 1))) := by
  induction rounds generalizing height with
  | zero =>
    -- No positive number below `2 ^ height` is divisible by it.
    exact absurd (Nat.le_of_dvd (Nat.succ_pos n) hdvd) (not_le.mpr hrnd)
  | succ rounds ih =>
    rw [push]
    split
    · exact h.store node hdvd ‹_›
    · rename_i hodd
      have heven : (n + 1) / 2 ^ height % 2 = 0 := Nat.mod_two_ne_one.mp hodd
      have hnext : (n + 1) / 2 ^ (height + 1) = (n + 1) / 2 ^ height / 2 := by
        rw [pow_succ, Nat.div_div_eq_div_mul]
      have hdvd' : 2 ^ (height + 1) ∣ n + 1 := by
        rw [← Nat.mul_div_cancel' hdvd]
        exact mul_dvd_mul_left _ (Nat.dvd_of_mod_eq_zero heven)
      have hloop := ih hdvd' (by rwa [add_right_comm])
      rw [hnext] at hloop
      rwa [h.combine node hdvd heven]

/-- Adding a leaf keeps the frontier. -/
theorem frontier_push (h : Frontier node leaf n branch) {rounds : ℕ} (hrnd : n + 1 < 2 ^ rounds) :
    Frontier node leaf (n + 1) (push node branch rounds 0 (n + 1) (leaf n)) := by
  have hloop := @frontier_push_loop _ node leaf n branch h rounds 0 (one_dvd _)
    (by rwa [zero_add])
  simpa [label] using hloop

/-- The label of the root from the labels of the full subtrees, for `n` leaves. -/
def rootFrom (zeros branch : ℕ → α) (n : ℕ) (zero : α) : ℕ → α
  | 0 => zero
  | h + 1 =>
    if n / 2 ^ h % 2 = 1 then node (branch h) (rootFrom zeros branch n zero h)
    else node (rootFrom zeros branch n zero h) (zeros h)

/-- The root from a frontier is the root of the tree that is filled up with empty leaves. -/
theorem rootFrom_label {zeros : ℕ → α} (hfrontier : Frontier node leaf n branch)
    (hleaf : ∀ i, n ≤ i → leaf i = zero) (hzeros : ∀ h, zeros h = zeroLabel node zero h) (d : ℕ) :
    rootFrom node zeros branch n zero d = label node leaf d (n / 2 ^ d) := by
  induction d with
  | zero => simp [rootFrom, label, hleaf]
  | succ d ih =>
    have hhalf : n / 2 ^ (d + 1) = n / 2 ^ d / 2 := by
      rw [pow_succ, Nat.div_div_eq_div_mul]
    rw [rootFrom, ih, label, hhalf]
    split
    · rename_i hodd
      have hleft : n / 2 ^ d - 1 = 2 * (n / 2 ^ d / 2) := by omega
      have hright : n / 2 ^ d = 2 * (n / 2 ^ d / 2) + 1 := by omega
      rw [hfrontier d hodd, hleft, ← hright]
    · have hleft : n / 2 ^ d = 2 * (n / 2 ^ d / 2) := by omega
      have hlt : n < (n / 2 ^ d + 1) * 2 ^ d := by
        rw [mul_comm]
        exact Nat.lt_mul_div_succ n (Nat.two_pow_pos d)
      rw [hzeros, ← hleft, label_eq_zeroLabel node hleaf (le_of_lt hlt)]

end FightNight.MerkleTree
