import Mathlib.Tactic.Common

/-!
# Properties of a log

A property of each entry of a log may depend on the entries before it. It is checked
entry by entry, for a log that is put together from parts as well.
-/

namespace Speedway.Lib

variable {α : Type*} {P : List α → α → Prop} {a b log : List α} {e : α}

/-- Every entry has the property, given the entries before it. -/
def Each (P : List α → α → Prop) (log : List α) : Prop :=
  ∀ before e after, log = before ++ e :: after → P before e

theorem each_nil : Each P [] := by
  intro before e after h
  exact absurd h.symm (List.append_ne_nil_of_right_ne_nil _ (List.cons_ne_nil e after))

theorem each_cons : Each P (e :: log) ↔ P [] e ∧ Each (fun before => P (e :: before)) log := by
  constructor
  · intro h
    refine ⟨h [] e log rfl, ?_⟩
    intro before e' after heq
    exact h (e :: before) e' after (congrArg (e :: ·) heq)
  · rintro ⟨hhead, htail⟩ before e' after heq
    cases before with
    | nil =>
        obtain ⟨rfl, -⟩ := List.cons.inj heq
        exact hhead
    | cons x before =>
        obtain ⟨rfl, hrest⟩ := List.cons.inj heq
        exact htail before e' after hrest

/-- The parts of a log are checked one after the other. -/
theorem each_append :
    Each P (a ++ b) ↔ Each P a ∧ Each (fun before => P (a ++ before)) b := by
  induction a generalizing P with
  | nil => exact ⟨fun h => ⟨each_nil, h⟩, And.right⟩
  | cons x a ih =>
      simp only [List.cons_append, each_cons, ih, and_assoc]

theorem each_concat : Each P (log ++ [e]) ↔ Each P log ∧ P log e := by
  rw [each_append, each_cons, List.append_nil]
  exact and_congr_right fun _ => and_iff_left each_nil

end Speedway.Lib
