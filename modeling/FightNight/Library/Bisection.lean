import Mathlib.Data.Nat.Log
import Mathlib.Tactic.Linarith
import Mathlib.Tactic.Ring

/-!
# Bisection in a binary tree

The root of a binary tree is `1`, and the children of `p` are `2 * p` and `2 * p + 1`.  A node
stands for the last leaf below it; `reach D p` numbers this leaf at depth `D`, one too high.

A line of play starts at a node.  An attack on `p` goes to the left child of `p`, a defence of `p`
to the left child of its right neighbour; the start is never defended.  So each move halves the
gap between what is disputed and its neighbours `leftOf` and `rightOf` among the earlier
positions.  A game can be played in two stages, the second one about what is behind a single leaf
of the first.

A node is canonical when no node above it stands for the same leaf; canonical nodes are determined
by the leaf that they stand for.
-/

namespace FightNight.Bisection

open List

/-! ## Depth and reach -/

/-- One more than the number of the last leaf at depth `D` below a node. -/
def reach (D p : ℕ) : ℕ := (p + 1) * 2 ^ (D - p.log2)

/-- The number of leaves at depth `D` below a node. -/
def width (D p : ℕ) : ℕ := 2 ^ (D - p.log2)

lemma width_pos (D p : ℕ) : 0 < width D p := Nat.two_pow_pos _

lemma width_self (p : ℕ) : width p.log2 p = 1 := by rw [width, Nat.sub_self, pow_zero]

lemma reach_self (p : ℕ) : reach p.log2 p = p + 1 := by rw [reach, Nat.sub_self, pow_zero, mul_one]

lemma reach_eq (D p : ℕ) : reach D p = p * width D p + width D p := by
  rw [reach, width, add_mul, one_mul]

variable {D q : ℕ} {m : List ℕ}

lemma two_pow_le_mul_width {p : ℕ} (hp : p ≠ 0) (hD : p.log2 ≤ D) : 2 ^ D ≤ p * width D p := by
  calc 2 ^ D = 2 ^ p.log2 * 2 ^ (D - p.log2) := by rw [← pow_add, Nat.add_sub_cancel' hD]
    _ ≤ p * width D p := Nat.mul_le_mul_right _ (Nat.log2_self_le hp)

lemma two_pow_lt_reach {p : ℕ} (hp : p ≠ 0) (hD : p.log2 ≤ D) : 2 ^ D < reach D p := by
  rw [reach_eq]
  exact lt_of_le_of_lt (two_pow_le_mul_width hp hD) (Nat.lt_add_of_pos_right (width_pos D p))

lemma reach_le_two_pow {p : ℕ} (hD : p.log2 ≤ D) : reach D p ≤ 2 ^ (D + 1) := by
  calc reach D p ≤ 2 ^ (p.log2 + 1) * 2 ^ (D - p.log2) :=
        Nat.mul_le_mul_right _ Nat.lt_log2_self
    _ = 2 ^ (D + 1) := by rw [← pow_add]; congr 1; omega

lemma log2_of_div {p b n : ℕ} (hb : 0 < b) (h : p / 2 ^ n = b) : p.log2 = b.log2 + n := by
  have hle : 2 ^ n ≤ p := Nat.le_of_not_lt fun hlt => hb.ne (Nat.div_eq_of_lt hlt ▸ h)
  have hlog : n ≤ Nat.log 2 p := Nat.le_log_of_pow_le one_lt_two hle
  rw [Nat.log2_eq_log_two, Nat.log2_eq_log_two, ← h, Nat.log_div_base_pow]
  omega

lemma log2_succ_of_even {p : ℕ} (hp : p ≠ 0) (heven : Even p) : (p + 1).log2 = p.log2 := by
  obtain ⟨k, rfl⟩ := heven.two_dvd
  have hk : 0 < k := by omega
  rw [log2_of_div hk (n := 1) (by omega), log2_of_div hk (n := 1) (p := 2 * k) (by omega)]

lemma log2_pred {p : ℕ} (hp : 2 ^ p.log2 < p) : (p - 1).log2 = p.log2 := by
  have hlt : p < 2 ^ (p.log2 + 1) := Nat.lt_log2_self
  rw [Nat.log2_eq_iff (by have := Nat.two_pow_pos p.log2; omega)]
  omega

lemma reach_succ {p : ℕ} (hlog : (p + 1).log2 = p.log2) :
    reach D (p + 1) = reach D p + width D p := by
  rw [reach, reach, width, hlog]
  ring

lemma reach_pred {p : ℕ} (hp : 2 ^ p.log2 < p) : reach D (p - 1) + width D p = reach D p := by
  have hpos : 1 ≤ p := lt_of_le_of_lt (Nat.zero_le _) hp
  rw [reach, reach, width, log2_pred hp, Nat.sub_add_cancel hpos]
  ring

/-! ## Lines of play -/

/-- A line of play that starts at the node `b`, its last position first. -/
inductive Line (b : ℕ) : List ℕ → Prop
  | start : Line b [b]
  | attack {p : ℕ} {l : List ℕ} : Line b (p :: l) → Line b (2 * p :: p :: l)
  | defend {p : ℕ} {l : List ℕ} : Line b (p :: l) → l ≠ [] → Line b (2 * (p + 1) :: p :: l)

variable {b p : ℕ} {l : List ℕ}

lemma Line.even (h : Line b (p :: l)) (hl : l ≠ []) : Even p := by
  cases h with
  | start => exact absurd rfl hl
  | attack _ => exact even_two_mul _
  | defend _ _ => exact even_two_mul _

lemma Line.div_eq (h : Line b (p :: l)) : p / 2 ^ l.length = b := by
  generalize hpl : p :: l = line at h
  induction h generalizing p l with
  | start =>
    cases hpl
    rw [length_nil, pow_zero, Nat.div_one]
  | @attack q m _ ih =>
    cases hpl
    rw [length_cons, pow_succ', Nat.mul_div_mul_left _ _ two_pos, ih rfl]
  | @defend q m hq hm ih =>
    cases hpl
    -- An even number and its successor are in the same block of even size.
    obtain ⟨n, hn⟩ : ∃ n, m.length = n + 1 :=
      Nat.exists_eq_succ_of_ne_zero (fun h0 => hm (length_eq_zero_iff.mp h0))
    obtain ⟨k, rfl⟩ := (hq.even hm).two_dvd
    have hprev := ih rfl
    rw [hn, pow_succ', Nat.mul_div_mul_left _ _ two_pos] at hprev
    have hodd : (2 * k + 1) / 2 = k := by omega
    rw [length_cons, pow_succ', Nat.mul_div_mul_left _ _ two_pos, hn, pow_succ',
      ← Nat.div_div_eq_div_mul, hodd, hprev]

lemma Line.singleton (h : Line b [p]) : p = b := by
  have hdiv := h.div_eq
  rwa [length_nil, pow_zero, Nat.div_one] at hdiv

lemma Line.log2_eq (hb : 0 < b) (h : Line b (p :: l)) : p.log2 = b.log2 + l.length :=
  log2_of_div hb h.div_eq

lemma Line.log2_eq_length (h : Line 1 (p :: l)) : p.log2 = l.length :=
  (h.log2_eq one_pos).trans (zero_add _)

/-- A position halves the width of the one it was moved from. -/
theorem width_succ (hlog : q.log2 = p.log2 + 1) (hD : q.log2 ≤ D) : width D p = 2 * width D q := by
  rw [width, width, ← pow_succ']
  congr 1
  omega

lemma reach_attack (hlog : (2 * p).log2 = p.log2 + 1) (hD : (2 * p).log2 ≤ D) :
    reach D (2 * p) + width D (2 * p) = reach D p := by
  have hw : 2 ^ (D - p.log2) = 2 * 2 ^ (D - (2 * p).log2) := width_succ hlog hD
  rw [reach, reach, width, hw]
  ring

lemma reach_defend (hlog : (2 * (p + 1)).log2 = p.log2 + 1) (hD : (2 * (p + 1)).log2 ≤ D) :
    reach D (2 * (p + 1)) = reach D p + width D (2 * (p + 1)) := by
  have hw : 2 ^ (D - p.log2) = 2 * 2 ^ (D - (2 * (p + 1)).log2) := width_succ hlog hD
  rw [reach, reach, width, hw]
  ring

lemma Line.log2_cons (hb : 0 < b) (h : Line b (q :: p :: l)) (hp : Line b (p :: l)) :
    q.log2 = p.log2 + 1 := by
  rw [h.log2_eq hb, hp.log2_eq hb, length_cons, add_assoc]

/-- The earlier positions are at least a width away from a position. -/
theorem Line.apart (hb : 0 < b) (h : Line b (p :: l)) (hD : p.log2 ≤ D) :
    ∀ q ∈ l, reach D q + width D p ≤ reach D p ∨ reach D p + width D p ≤ reach D q := by
  generalize hpl : p :: l = line at h
  induction h generalizing p l with
  | start =>
    cases hpl
    exact fun q hq => absurd hq not_mem_nil
  | @attack r m hr ih =>
    cases hpl
    have hlog := hr.attack.log2_cons hb hr
    have hreach := reach_attack hlog hD
    have hwidth := width_succ hlog hD
    intro q hq
    rcases mem_cons.mp hq with rfl | hq
    · exact .inr (le_of_eq hreach)
    · have := ih (by omega) rfl q hq
      omega
  | @defend r m hr hm ih =>
    cases hpl
    have hlog := (hr.defend hm).log2_cons hb hr
    have hreach := reach_defend hlog hD
    have hwidth := width_succ hlog hD
    intro q hq
    rcases mem_cons.mp hq with rfl | hq
    · exact .inl (le_of_eq hreach.symm)
    · have := ih (by omega) rfl q hq
      omega

lemma Line.append {q : ℕ} {t : List ℕ} (h : Line q l) (ht : Line b (q :: t)) : Line b (l ++ t) := by
  induction h with
  | start => exact ht
  | attack _ ih => exact ih.attack
  | defend _ hl ih => exact ih.defend (append_ne_nil_of_left_ne_nil hl t)

lemma Line.exists_concat (h : Line b l) : ∃ m, l = m ++ [b] := by
  induction h with
  | start => exact ⟨[], rfl⟩
  | attack _ ih | defend _ _ ih =>
    obtain ⟨m, hm⟩ := ih
    exact ⟨_ :: m, by rw [hm]; rfl⟩

lemma Line.suffix (h : Line b (m ++ p :: l)) : Line b (p :: l) := by
  induction m with
  | nil => exact h
  | cons q m ih =>
    rw [cons_append] at h
    generalize hrest : m ++ p :: l = rest at h
    have hne : rest ≠ [] := by
      rintro rfl
      exact absurd hrest (append_ne_nil_of_right_ne_nil m (cons_ne_nil p l))
    refine ih (hrest ▸ ?_)
    cases h with
    | start => exact absurd rfl hne
    | attack hline => exact hline
    | defend hline _ => exact hline

lemma Line.log2_of_append (h : Line 1 (m ++ p :: l)) : p.log2 = l.length :=
  h.suffix.log2_eq_length

lemma Line.log2_le (h : Line 1 (p :: l)) : ∀ q ∈ p :: l, q.log2 ≤ p.log2 := by
  intro q hq
  obtain ⟨m, t, hmt⟩ := append_of_mem hq
  rw [h.log2_eq_length, (hmt ▸ h : Line 1 (m ++ q :: t)).log2_of_append]
  have hlen := congrArg length hmt
  rw [length_cons, length_append, length_cons] at hlen
  omega

lemma Line.le_log2 (hb : 0 < b) (h : Line b l) : ∀ p ∈ l, b.log2 ≤ p.log2 := by
  have hhead : ∀ {p l}, Line b (p :: l) → b.log2 ≤ p.log2 := by
    intro p l hp
    rw [hp.log2_eq hb]
    exact Nat.le_add_right _ _
  induction h with
  | start => exact fun p hp => (mem_singleton.mp hp) ▸ le_refl _
  | attack hp ih => exact forall_mem_cons.mpr ⟨hhead hp.attack, ih⟩
  | defend hp hl ih => exact forall_mem_cons.mpr ⟨hhead (hp.defend hl), ih⟩

/-- A line from the root in two stages: the first one goes down to depth `S`, and the position after
it is the start of the second one. -/
inductive Staged (S : ℕ) : List ℕ → Prop
  | first {l : List ℕ} : Line 1 l → l.length ≤ S + 1 → Staged S l
  | second {q : ℕ} {l t : List ℕ} : Line 1 (q :: t) → t.length = S + 1 → Line q l → Staged S (l ++ t)

variable {S : ℕ}

lemma Staged.line (h : Staged S l) : Line 1 l := by
  cases h with
  | first h _ => exact h
  | second ht _ h => exact h.append ht

/-- The two stages of a line that is longer than the first one. -/
theorem Staged.split (h : Staged S l) (hlen : S + 1 < l.length) :
    ∃ q m t, l = m ++ t ∧ Line 1 (q :: t) ∧ t.length = S + 1 ∧ Line q m := by
  cases h with
  | first _ hle => exact absurd hlen (not_lt_of_ge hle)
  | second ht ht_len h => exact ⟨_, _, _, rfl, ht, ht_len, h⟩

lemma Staged.move {q : ℕ} (h : Staged S (p :: l))
    (hmove : ∀ b m, Line b (p :: m) → (m = [] → l = [] ∨ l.length = S + 1) → Line b (q :: p :: m)) :
    Staged S (q :: p :: l) := by
  generalize hpl : p :: l = line at h
  cases h with
  | first h hlen =>
    subst hpl
    have hnext := hmove 1 l h .inl
    by_cases hS : (p :: l).length = S + 1
    · exact .second (l := [q]) hnext hS .start
    · exact .first hnext (by rw [length_cons]; omega)
  | @second b m t ht hlen h =>
    obtain ⟨a, m, rfl⟩ : ∃ a m', m = a :: m' := exists_cons_of_ne_nil (by rintro rfl; cases h)
    cases hpl
    exact .second (l := q :: p :: m) ht hlen (hmove b m h (by rintro rfl; exact .inr hlen))

lemma Staged.attack (h : Staged S (p :: l)) : Staged S (2 * p :: p :: l) :=
  h.move fun _ _ hline _ => hline.attack

lemma Staged.defend (h : Staged S (p :: l)) (hl : l ≠ []) (hlS : l.length ≠ S + 1) :
    Staged S (2 * (p + 1) :: p :: l) :=
  h.move fun _ _ hline hnil => hline.defend fun hm => (hnil hm).elim hl hlS

/-! ## The neighbours of a position -/

section Neighbours

variable {α : Type} (pos : α → ℕ)

/-- The neighbour to the left of the last position, among the earlier ones. -/
def leftOf : List α → Option α
  | x :: y :: l => if pos x = 2 * pos y then leftOf (y :: l) else some y
  | _ => none

/-- The neighbour to the right of the last position, among the earlier ones. -/
def rightOf : List α → Option α
  | x :: y :: l => if pos x = 2 * pos y then some y else rightOf (y :: l)
  | _ => none

variable {pos} {x y : α} {xs : List α}

lemma Line.cases_cons (h : Line b (pos x :: pos y :: xs.map pos)) :
    Line b (pos y :: xs.map pos) ∧ (pos x = 2 * pos y ∨ pos x = 2 * (pos y + 1) ∧ xs ≠ []) := by
  generalize hline : pos x :: pos y :: xs.map pos = line at h
  cases h with
  | start => cases hline
  | attack hy =>
    obtain ⟨hx, hrest⟩ := cons.inj hline
    rw [← hrest] at hy
    exact ⟨hy, .inl (hx.trans (by rw [(cons.inj hrest).1]))⟩
  | defend hy hne =>
    obtain ⟨hx, hrest⟩ := cons.inj hline
    obtain ⟨hy', hxs⟩ := cons.inj hrest
    rw [← hrest] at hy
    refine ⟨hy, .inr ⟨hx.trans (by rw [hy']), ?_⟩⟩
    rintro rfl
    exact hne hxs.symm

section

variable (h : Line b (pos x :: xs.map pos))
include h

/-- The neighbour to the right is a width away. -/
theorem Line.rightOf_eq (hb : 0 < b) (hxs : xs ≠ []) {D : ℕ} (hD : (pos x).log2 ≤ D) :
    ∃ r ∈ xs, rightOf pos (x :: xs) = some r ∧
      reach D (pos r) = reach D (pos x) + width D (pos x) := by
  induction xs generalizing x with
  | nil => exact absurd rfl hxs
  | cons y ys ih =>
    obtain ⟨hy, hmove⟩ := h.cases_cons
    have hlog := h.log2_cons hb hy
    rcases hmove with hx | ⟨hx, hys⟩
    · have hreach := reach_attack (hx ▸ hlog) (hx ▸ hD)
      rw [← hx] at hreach
      exact ⟨y, mem_cons_self, if_pos hx, hreach.symm⟩
    · have hreach := reach_defend (hx ▸ hlog) (hx ▸ hD)
      rw [← hx] at hreach
      have hwidth := width_succ hlog hD
      obtain ⟨r, hr, hright, hfar⟩ := ih hy hys (by omega)
      refine ⟨r, mem_cons_of_mem _ hr, (if_neg (by omega)).trans hright, ?_⟩
      omega

/-- The neighbour to the left is a width away.  Without one, the position is the first of its depth
below the start. -/
theorem Line.leftOf_eq (hb : 0 < b) {D : ℕ} (hD : (pos x).log2 ≤ D) :
    (leftOf pos (x :: xs) = none ∧ reach D (pos x) = b * width D b + width D (pos x)) ∨
      ∃ r ∈ xs, leftOf pos (x :: xs) = some r ∧
        reach D (pos r) + width D (pos x) = reach D (pos x) := by
  induction xs generalizing x with
  | nil =>
    left
    refine ⟨rfl, ?_⟩
    rw [h.singleton, reach_eq]
  | cons y ys ih =>
    obtain ⟨hy, hmove⟩ := h.cases_cons
    have hlog := h.log2_cons hb hy
    rcases hmove with hx | ⟨hx, hys⟩
    · have hreach := reach_attack (hx ▸ hlog) (hx ▸ hD)
      rw [← hx] at hreach
      have hwidth := width_succ hlog hD
      rw [leftOf, if_pos hx]
      rcases ih hy (by omega) with ⟨hnone, hfirst⟩ | ⟨r, hr, hleft, hfar⟩
      · exact .inl ⟨hnone, by omega⟩
      · exact .inr ⟨r, mem_cons_of_mem _ hr, hleft, by omega⟩
    · have hreach := reach_defend (hx ▸ hlog) (hx ▸ hD)
      rw [← hx] at hreach
      exact .inr ⟨y, mem_cons_self, if_neg (by omega), hreach.symm⟩

lemma Line.exists_right (hb : 0 < b) (hxs : xs ≠ []) :
    ∃ r ∈ xs, rightOf pos (x :: xs) = some r ∧
      ∀ D, (pos x).log2 ≤ D → reach D (pos r) = reach D (pos x + 1) := by
  obtain ⟨r, hr, hright, -⟩ := h.rightOf_eq hb hxs (le_refl _)
  refine ⟨r, hr, hright, fun D hD => ?_⟩
  obtain ⟨r', -, hright', hreach⟩ := h.rightOf_eq hb hxs hD
  obtain rfl := Option.some.inj (hright.symm.trans hright')
  have hne : pos x ≠ 0 := by
    intro h0
    have hdiv := h.div_eq
    rw [h0, Nat.zero_div] at hdiv
    exact hb.ne hdiv
  have heven : Even (pos x) := h.even (by rwa [Ne, map_eq_nil_iff])
  exact hreach.trans (reach_succ (log2_succ_of_even hne heven)).symm

/-- The neighbour to the left stands for the leaf of the node before, unless the position is the first
of its depth below the start. -/
theorem Line.exists_left (hb : 0 < b) (hfirst : pos x ≠ b * 2 ^ xs.length) :
    ∃ r ∈ xs, leftOf pos (x :: xs) = some r ∧
      ∀ D, (pos x).log2 ≤ D → reach D (pos r) = reach D (pos x - 1) := by
  have hlog := h.log2_eq hb
  have hle : b * 2 ^ xs.length ≤ pos x := by
    rw [← h.div_eq, length_map]
    exact Nat.div_mul_le_self _ _
  rw [length_map] at hlog
  have hlow : 2 ^ (pos x).log2 ≤ b * 2 ^ xs.length := by
    rw [hlog, pow_add]
    exact Nat.mul_le_mul_right _ (Nat.log2_self_le hb.ne')
  have hleft : ∀ D, (pos x).log2 ≤ D → ∃ r ∈ xs, leftOf pos (x :: xs) = some r ∧
      reach D (pos r) = reach D (pos x - 1) := by
    intro D hD
    rcases h.leftOf_eq hb hD with ⟨-, hreach⟩ | ⟨r, hr, hleft, hreach⟩
    · rw [reach_eq, add_right_cancel_iff, width, width] at hreach
      have hsplit : D - b.log2 = xs.length + (D - (pos x).log2) := by omega
      rw [hsplit, pow_add, ← mul_assoc] at hreach
      exact absurd (Nat.eq_of_mul_eq_mul_right (Nat.two_pow_pos _) hreach) hfirst
    · have hpred := reach_pred (D := D) (lt_of_le_of_lt hlow (lt_of_le_of_ne hle hfirst.symm))
      exact ⟨r, hr, hleft, by omega⟩
  obtain ⟨r, hr, hleft₁, -⟩ := hleft _ (le_refl _)
  refine ⟨r, hr, hleft₁, fun D hD => ?_⟩
  obtain ⟨r', -, hleft₂, hreach⟩ := hleft D hD
  obtain rfl := Option.some.inj (hleft₁.symm.trans hleft₂)
  exact hreach

/-- A search up a line finds the position with a given reach. -/
theorem Line.find?_eq (hb : 0 < b) {D : ℕ}
    (hD : (pos x).log2 ≤ D) {test : α → Bool} {r : α} (hr : r ∈ x :: xs)
    (htest : ∀ y ∈ x :: xs, test y = true ↔ reach D (pos y) = reach D (pos r)) :
    (x :: xs).find? test = some r := by
  induction xs generalizing x with
  | nil =>
    obtain rfl := mem_singleton.mp hr
    exact find?_cons_of_pos ((htest r mem_cons_self).mpr rfl)
  | cons y ys ih =>
    rcases mem_cons.mp hr with rfl | hrest
    · exact find?_cons_of_pos ((htest r mem_cons_self).mpr rfl)
    · have hne : ¬test x = true := by
        rw [htest x mem_cons_self]
        have hapart := h.apart hb hD (pos r) (mem_map_of_mem hrest)
        have hpos := width_pos D (pos x)
        omega
      obtain ⟨hy, -⟩ := h.cases_cons
      have hlog := h.log2_cons hb hy
      rw [find?_cons_of_neg hne]
      exact ih hy (by omega) hrest fun z hz => htest z (mem_cons_of_mem _ hz)

end

end Neighbours

/-! ## Canonical nodes -/

/-- A node that is the root or a left child. -/
def Canonical (p : ℕ) : Prop := p = 1 ∨ Even p ∧ p ≠ 0

lemma Canonical.ne_zero {p : ℕ} (h : Canonical p) : p ≠ 0 := by
  rcases h with rfl | ⟨-, hne⟩
  · exact one_ne_zero
  · exact hne

lemma eq_of_reach {p : ℕ} (hlog : p.log2 = q.log2) (h : reach D p = reach D q) : p = q := by
  rw [reach, reach, hlog] at h
  exact Nat.succ.inj (Nat.eq_of_mul_eq_mul_right (Nat.two_pow_pos _) h)

/-- A canonical node is the highest one with its reach. -/
theorem Canonical.log2_le {p : ℕ} (hp : Canonical p) (hD : p.log2 ≤ D) (h : reach D p = reach D q) :
    p.log2 ≤ q.log2 := by
  by_contra hlt
  obtain ⟨k, hk⟩ : ∃ k, D - q.log2 = k + 1 + (D - p.log2) := ⟨p.log2 - q.log2 - 1, by omega⟩
  rw [reach, reach, hk, pow_add, ← mul_assoc] at h
  have hsucc := Nat.eq_of_mul_eq_mul_right (Nat.two_pow_pos _) h
  rw [pow_succ, ← mul_assoc] at hsucc
  rcases hp with rfl | ⟨heven, -⟩
  · exact hlt (Nat.zero_le _)
  · rw [Nat.even_iff] at heven
    omega

/-- Canonical nodes are determined by their reach. -/
theorem Canonical.ext {p : ℕ} (hp : Canonical p) (hq : Canonical q) (hpD : p.log2 ≤ D)
    (hqD : q.log2 ≤ D) (h : reach D p = reach D q) : p = q :=
  eq_of_reach (le_antisymm (hp.log2_le hpD h) (hq.log2_le hqD h.symm)) h

/-- The positions of a line are canonical when its start is. -/
theorem Line.canonical (hb : 0 < b) (hcan : Canonical b) (h : Line b (p :: l)) :
    Canonical p := by
  by_cases hl : l = []
  · subst hl
    rwa [h.singleton]
  · refine .inr ⟨h.even hl, ?_⟩
    rintro rfl
    have hdiv := h.div_eq
    rw [Nat.zero_div] at hdiv
    exact hb.ne hdiv

lemma div_of_succ {r m k : ℕ} (hr : r + 1 = (m + 1) * 2 ^ k) : r / 2 ^ k = m := by
  have hpos := Nat.two_pow_pos k
  apply Nat.div_eq_of_lt_le
  · rw [add_mul] at hr
    omega
  · omega

/-- The node `k` levels above a node whose last `k` moves went right stands for the same leaf. -/
theorem reach_shiftRight {r m k : ℕ} (hm : 0 < m) (hr : r + 1 = (m + 1) * 2 ^ k) (hD : r.log2 ≤ D) :
    reach D m = reach D r := by
  have hlog := log2_of_div hm (div_of_succ hr)
  rw [reach, reach, hr, mul_assoc, ← pow_add]
  congr 2
  omega

/-- The last node below a node at a depth stands for the same leaf. -/
theorem last_below {p : ℕ} (hp : p ≠ 0) {E : ℕ} (hE : p.log2 ≤ E) :
    (reach E p - 1).log2 = E ∧ ∀ D ≥ E, reach D (reach E p - 1) = reach D p := by
  have hpos := Nat.two_pow_pos (E - p.log2)
  have hsucc : reach E p - 1 + 1 = (p + 1) * 2 ^ (E - p.log2) :=
    Nat.sub_add_cancel (Nat.mul_pos (Nat.succ_pos p) hpos)
  have hlog := log2_of_div (pos_of_ne_zero hp) (div_of_succ hsucc)
  rw [Nat.add_sub_cancel' hE] at hlog
  exact ⟨hlog, fun D hD => (reach_shiftRight (pos_of_ne_zero hp) hsucc (hlog.le.trans hD)).symm⟩

end FightNight.Bisection
