import FightNight.Library.Checked

/-!
# Computations that follow each other

Two programs of the same design may fail in different ways.  The second one follows the first one
when it succeeds wherever the first one does, with a related result.  The rules follow the
structure of a program, so that two programs are compared statement by statement.
-/

namespace FightNight

open FightNight.Except

variable {ε φ α β γ δ : Type}

/-- Wherever the first computation succeeds, the second one succeeds with a related result. -/
def Follows (R : α → β → Prop) (x : Except ε α) (y : Except φ β) : Prop :=
  ∀ a, x = .ok a → ∃ b, y = .ok b ∧ R a b

namespace Follows

variable {R : α → β → Prop} {S : γ → δ → Prop} {x x' : Except ε α} {y y' : Except φ β}

lemma pure {a : α} {b : β} (h : R a b) : Follows R (.ok a : Except ε α) (.ok b : Except φ β) := by
  intro c hc
  cases hc
  exact ⟨b, rfl, h⟩

lemma error (e : ε) : Follows R (.error e) y := by
  intro a ha
  cases ha

lemma bind {f : α → Except ε γ} {g : β → Except φ δ} (hx : Follows R x y)
    (hf : ∀ a b, R a b → Follows S (f a) (g b)) : Follows S (x >>= f) (y >>= g) := by
  intro c hc
  obtain ⟨a, ha, hfa⟩ := bind_eq_ok.mp hc
  obtain ⟨b, hb, hab⟩ := hx a ha
  obtain ⟨d, hd, hcd⟩ := hf a b hab c hfa
  exact ⟨d, bind_eq_ok.mpr ⟨b, hb, hd⟩, hcd⟩

lemma ite {c : Prop} [Decidable c] (hthen : c → Follows R x y) (helse : ¬ c → Follows R x' y') :
    Follows R (if c then x else x') (if c then y else y') := by
  by_cases h : c
  · grind
  · grind

lemma revertIf {c c' : Prop} [Decidable c] [Decidable c'] {e : ε} {e' : φ} (h : c' → c) :
    Follows Eq (revertIf c e) (revertIf c' e') := by
  intro u hu
  exact ⟨u, revertIf_eq_ok.mpr (mt h (revertIf_eq_ok.mp hu)), rfl⟩

end Follows

end FightNight
