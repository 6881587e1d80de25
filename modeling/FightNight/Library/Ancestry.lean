import Mathlib.Order.Nat

/-!
# Blocks and their ancestors

Blocks are stored by a key and name the key of their parent.  `Path a bs h` says that the blocks
`bs` lead from `a`, which is not among them, up to `h`.  The ancestors of a block are linearly
ordered: of two paths to the same block one is a part of the other.  When the blocks are ranked, a
path is as long as the difference of the ranks of its ends.
-/

namespace FightNight

open List

variable {K B : Type} (get : K → Option B) (parent : B → K)

/-- The blocks from `a` (without it) up to `h` (with it), in ascending order. -/
inductive Path : K → List B → K → Prop
  | nil (h : K) : Path h [] h
  | concat {a h : K} {bs : List B} {b : B} (hget : get h = some b) (hpath : Path a bs (parent b)) :
    Path a (bs ++ [b]) h

/-- Every stored block is one above its parent. -/
def Ranked (rank : K → ℕ) : Prop := ∀ h b, get h = some b → rank h = rank (parent b) + 1

namespace Path

variable {get parent} {a a' h : K} {bs bs' : List B} {b : B}

lemma single (hget : get h = some b) : Path get parent (parent b) [b] h :=
  (concat hget (nil _) : Path get parent _ ([] ++ [b]) h)

lemma trans {cs : List B} (hab : Path get parent a bs a') (hbh : Path get parent a' cs h) :
    Path get parent a (bs ++ cs) h := by
  induction hbh with
  | nil => rwa [append_nil]
  | concat hget _ ih =>
    rw [← append_assoc]
    exact concat hget ih

lemma cons (hget : get a' = some b) (hpath : Path get parent a' bs h) :
    Path get parent (parent b) (b :: bs) h :=
  (single hget).trans hpath

/-- Of two paths to the same block one is a part of the other. -/
theorem comparable (hp : Path get parent a bs h) (hp' : Path get parent a' bs' h) :
    (∃ cs, Path get parent a cs a' ∧ bs = cs ++ bs') ∨
      ∃ cs, Path get parent a' cs a ∧ bs' = cs ++ bs := by
  induction hp generalizing bs' with
  | nil => exact .inr ⟨bs', hp', (append_nil _).symm⟩
  | concat hget hpath ih =>
    cases hp' with
    | nil => exact .inl ⟨_, concat hget hpath, (append_nil _).symm⟩
    | concat hget' hpath' =>
      obtain rfl := Option.some.inj (hget.symm.trans hget')
      rcases ih hpath' with ⟨cs, hcs, rfl⟩ | ⟨cs, hcs, rfl⟩
      · exact .inl ⟨cs, hcs, append_assoc _ _ _⟩
      · exact .inr ⟨cs, hcs, append_assoc _ _ _⟩

lemma exists_get (hpath : Path get parent a bs h) (hne : a ≠ h) :
    ∃ b cs, get h = some b ∧ Path get parent a cs (parent b) := by
  cases hpath with
  | nil => exact absurd rfl hne
  | concat hget hpath => exact ⟨_, _, hget, hpath⟩

lemma of_ne (hpath : Path get parent a bs h) (hne : a ≠ h) (hget : get h = some b) :
    ∃ cs, Path get parent a cs (parent b) := by
  obtain ⟨b', cs, hget', hcs⟩ := hpath.exists_get hne
  obtain rfl := Option.some.inj (hget'.symm.trans hget)
  exact ⟨cs, hcs⟩

variable {rank : K → ℕ}

section

variable (hrank : Ranked get parent rank)
include hrank

lemma rank_eq (hpath : Path get parent a bs h) :
    rank h = rank a + bs.length := by
  induction hpath with
  | nil => rfl
  | concat hget _ ih =>
    rw [hrank _ _ hget, ih, length_append, length_singleton, Nat.add_assoc]

lemma eq_of_rank_le (hpath : Path get parent a bs h) (hle : rank h ≤ rank a) : a = h := by
  have hlen := hpath.rank_eq hrank
  cases hpath with
  | nil => rfl
  | concat =>
    rw [length_append, length_singleton] at hlen
    omega

lemma eq_of_rank_eq (hp : Path get parent a bs h)
    (hp' : Path get parent a' bs' h) (heq : rank a = rank a') : a = a' := by
  rcases hp.comparable hp' with ⟨cs, hcs, -⟩ | ⟨cs, hcs, -⟩
  · exact hcs.eq_of_rank_le hrank heq.ge
  · exact (hcs.eq_of_rank_le hrank heq.le).symm

lemma of_rank_le (hp : Path get parent a bs h)
    (hp' : Path get parent a' bs' h) (hle : rank a ≤ rank a') : ∃ cs, Path get parent a cs a' := by
  rcases hp.comparable hp' with ⟨cs, hcs, -⟩ | ⟨cs, hcs, -⟩
  · exact ⟨cs, hcs⟩
  · obtain rfl := hcs.eq_of_rank_le hrank hle
    exact ⟨[], nil _⟩

end

end Path

end FightNight
