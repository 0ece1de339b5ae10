import Mathlib.Tactic.Common

/-!
# Loops that may run for ever

A loop gets a budget of rounds and has no result while it is still running when
the budget is used up. It returns if it has the same result with every budget from
some number on. The rounds may contain such loops themselves.
-/

namespace Speedway.Lib

universe u v

variable {σ : Type u} {α β : Type v}

/-- With every budget from some number on the result is `r`. -/
def Returns (run : Nat → Option α) (r : α) : Prop := ∃ N, ∀ n, N ≤ n → run n = some r

namespace Returns

variable {run : Nat → Option α} {r : α}

theorem const (r : α) : Returns (fun _ => some r) r := ⟨0, fun _ _ => rfl⟩

/-- The second computation starts with the result of the first. -/
theorem bind {next : Nat → α → Option β} {s : β} (h : Returns run r)
    (h' : Returns (fun n => next n r) s) : Returns (fun n => (run n).bind (next n)) s := by
  obtain ⟨N, hN⟩ := h
  obtain ⟨M, hM⟩ := h'
  refine ⟨max N M, fun n hn => ?_⟩
  simp only [hN n (by omega), Option.bind_some]
  exact hM n (by omega)

theorem map {f : α → β} (h : Returns run r) : Returns (fun n => (run n).map f) (f r) := by
  obtain ⟨N, hN⟩ := h
  exact ⟨N, fun n hn => by simp only [hN n hn, Option.map_some]⟩

end Returns

/-- How a round of a loop ends. -/
inductive Round (σ : Type u) (β : Type v) where
  | again (s : σ)
  | leave (r : β)

/-- At most `n` rounds. A round gets what is left of the budget for its own loops. -/
def budgetLoop (round : Nat → σ → Option (Round σ β)) : Nat → σ → Option β
  | 0, _ => none
  | n + 1, s =>
      match round n s with
      | none => none
      | some (.leave r) => some r
      | some (.again s') => budgetLoop round n s'

section Loop

variable {round : Nat → σ → Option (Round σ β)} {s s' : σ} {r : β}

theorem budgetLoop_leave (h : Returns (fun n => round n s) (.leave r)) :
    Returns (fun n => budgetLoop round n s) r := by
  obtain ⟨N, hN⟩ := h
  refine ⟨N + 1, fun n hn => ?_⟩
  obtain ⟨n, rfl⟩ := Nat.exists_eq_succ_of_ne_zero (show n ≠ 0 by omega)
  simp only [budgetLoop, hN n (by omega)]

theorem budgetLoop_again (h : Returns (fun n => round n s) (.again s'))
    (h' : Returns (fun n => budgetLoop round n s') r) :
    Returns (fun n => budgetLoop round n s) r := by
  obtain ⟨N, hN⟩ := h
  obtain ⟨M, hM⟩ := h'
  refine ⟨max N M + 1, fun n hn => ?_⟩
  obtain ⟨n, rfl⟩ := Nat.exists_eq_succ_of_ne_zero (show n ≠ 0 by omega)
  simp only [budgetLoop, hN n (by omega)]
  exact hM n (by omega)

/-- What one round has to do for the loop to return a result with `Post`: the round
returns, and either it leaves with such a result, or it goes on from a state that
keeps the invariant, has a smaller measure and no other results. -/
def RoundReturns (round : Nat → σ → Option (Round σ β)) (Inv : σ → Prop) (μ : σ → Nat)
    (Post : σ → β → Prop) (s : σ) : Prop :=
  (∃ r, Returns (fun n => round n s) (.leave r) ∧ Post s r) ∨
    ∃ s', Returns (fun n => round n s) (.again s') ∧ Inv s' ∧ μ s' < μ s ∧
      ∀ r, Post s' r → Post s r

/-- A loop returns if its rounds return and lower a measure. -/
theorem budgetLoop_returns {Inv : σ → Prop} (μ : σ → Nat) {Post : σ → β → Prop}
    (hround : ∀ s, Inv s → RoundReturns round Inv μ Post s) (hs : Inv s) :
    ∃ r, Returns (fun n => budgetLoop round n s) r ∧ Post s r := by
  induction hμ : μ s using Nat.strongRecOn generalizing s with
  | _ m ih =>
      rcases hround s hs with ⟨r, hleave, hpost⟩ | ⟨s', hagain, hs', hlt, hpost⟩
      · exact ⟨r, budgetLoop_leave hleave, hpost⟩
      · obtain ⟨r, hr, hr'⟩ := ih (μ s') (by omega) hs' rfl
        exact ⟨r, budgetLoop_again hagain hr, hpost r hr'⟩

end Loop

end Speedway.Lib
