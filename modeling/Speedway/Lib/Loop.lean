import Mathlib.Tactic.Common

/-!
# Loops whose body may be left early

A computation ends normally or leaves early; `Ends Q R` says that a normal end
satisfies `Q` and an early one `R`, and stages are put together by `Ends.bind`.
A run takes one step for each input; an invariant of the steps that meet a
condition holds after every run whose steps all meet it.
-/

namespace Speedway.Lib

universe u v

section Ends

variable {ε : Type u} {α β : Type v}

/-- A normal end satisfies `Q`, an early one satisfies `R`. -/
def Ends (Q : α → Prop) (R : ε → Prop) : Except ε α → Prop
  | .ok a => Q a
  | .error e => R e

variable {Q Q' : α → Prop} {P : β → Prop} {R R' : ε → Prop} {x : Except ε α}

/-- The rule of composition: the second stage starts where the first one ends. -/
theorem Ends.bind {f : α → Except ε β} (h : Ends Q R x) (hf : ∀ a, Q a → Ends P R (f a)) :
    Ends P R (x >>= f) := by
  cases x with
  | error e => exact h
  | ok a => exact hf a h

/-- The rule of consequence. -/
theorem Ends.mono (h : Ends Q R x) (hQ : ∀ a, Q a → Q' a) (hR : ∀ e, R e → R' e) :
    Ends Q' R' x := by
  cases x with
  | error e => exact hR e h
  | ok a => exact hQ a h

theorem Ends.imp (h : Ends Q R x) (hQ : ∀ a, Q a → Q' a) : Ends Q' R x := h.mono hQ fun _ he => he

/-- A normal end is the result of the computation. -/
theorem Ends.and_eq (h : Ends Q R x) : Ends (fun a => x = .ok a ∧ Q a) R x := by
  cases x with
  | error e => exact h
  | ok a => exact ⟨rfl, h⟩

theorem Ends.ok (a : α) : Ends (a = ·) R (.ok a) := rfl

/-- A computation that gives a value of `f` ended normally. -/
theorem Ends.result {f : α → β} {b : β} (h : Ends Q R x) (hx : x.toOption.map f = some b) :
    ∃ a, x = .ok a ∧ f a = b ∧ Q a := by
  cases x with
  | error e => exact absurd hx (by simp [Except.toOption])
  | ok a => exact ⟨a, rfl, Option.some.inj hx, h⟩

theorem Ends.map {f : α → β} (h : Ends Q R x) (hf : ∀ a, Q a → P (f a)) : Ends P R (x.map f) := by
  cases x with
  | error e => exact h
  | ok a => exact hf a h

end Ends

section Meets

variable {σ : Type u} {ι : Type v} {step : σ → ι → σ} {C : σ → ι → Prop} {I : σ → Prop}

/-- Every step of the run meets the condition. -/
def Meets (step : σ → ι → σ) (C : σ → ι → Prop) : σ → List ι → Prop
  | _, [] => True
  | s, i :: inputs => C s i ∧ Meets step C (step s i) inputs

/-- The invariant rule for runs. -/
theorem Meets.invariant {s : σ} {inputs : List ι} (h : Meets step C s inputs) (hs : I s)
    (hstep : ∀ s i, I s → C s i → I (step s i)) : I (inputs.foldl step s) := by
  induction inputs generalizing s with
  | nil => exact hs
  | cons i inputs ih => exact ih h.2 (hstep s i hs h.1)

end Meets

end Speedway.Lib
