import Mathlib.Tactic.Common

/-!
# Skipping items, and asking for less and less

A loop that counts down on the items with a property and stops below zero is at
the item after the ones it skipped. A loop that asks for `k`, then for `k - 1` and
so on gets the answer for the largest number that has one.
-/

namespace Speedway.Lib

variable {α : Type*}

section Skip

/-- The item at which the countdown from `k` is below zero. -/
def skip (p : α → Bool) : List α → Int → Option α
  | [], _ => none
  | a :: l, k =>
      let k' := if p a then k - 1 else k
      if k' < 0 then some a else skip p l k'

/-- `k` items with the property are skipped. -/
theorem skip_eq_filter (p : α → Bool) (l : List α) (k : Nat) :
    skip p l k = (l.filter p)[k]? := by
  induction l generalizing k with
  | nil => rfl
  | cons a l ih =>
      simp only [skip]
      cases hp : p a with
      | false =>
          rw [if_neg Bool.false_ne_true, if_neg (by omega), ih,
            List.filter_cons_of_neg (ne_true_of_eq_false hp)]
      | true =>
          rw [if_pos rfl, List.filter_cons_of_pos hp]
          cases k with
          | zero => rfl
          | succ k =>
              have hk : ((k + 1 : Nat) : Int) - 1 = k := by omega
              rw [if_neg (by omega), hk, ih, List.getElem?_cons_succ]

end Skip

section Countdown

/-- The first answer of `n` attempts with `k`, `k - 1` and so on. -/
def firstDown (f : Int → Option α) : Nat → Int → Option α
  | 0, _ => none
  | n + 1, k =>
      match f k with
      | some a => some a
      | none => firstDown f n (k - 1)

variable {f : Int → Option α} {n : Nat} {k lo : Int}

/-- Without an answer every attempt was made in vain. -/
theorem firstDown_eq_none_iff (hn : n = (k - lo + 1).toNat) :
    firstDown f n k = none ↔ ∀ j, lo ≤ j → j ≤ k → f j = none := by
  induction n generalizing k with
  | zero =>
      refine iff_of_true rfl fun j h₁ h₂ => ?_
      omega
  | succ n ih =>
      simp only [firstDown]
      split
      next a ha =>
        refine iff_of_false (Option.some_ne_none a) fun h => ?_
        rw [h k (by omega) (Int.le_refl k)] at ha
        exact Option.some_ne_none a ha.symm
      next hnone =>
        rw [ih (by omega)]
        constructor
        · intro h j h₁ h₂
          rcases Int.lt_or_eq_of_le h₂ with hlt | rfl
          · exact h j h₁ (by omega)
          · exact hnone
        · intro h j h₁ h₂
          exact h j h₁ (by omega)

/-- The answer is that for the largest number that has one. -/
theorem firstDown_eq_some_iff (hn : n = (k - lo + 1).toNat) {a : α} :
    firstDown f n k = some a ↔
      ∃ j, lo ≤ j ∧ j ≤ k ∧ f j = some a ∧ ∀ i, j < i → i ≤ k → f i = none := by
  induction n generalizing k with
  | zero =>
      refine iff_of_false (Option.some_ne_none a).symm ?_
      rintro ⟨j, h₁, h₂, -⟩
      omega
  | succ n ih =>
      simp only [firstDown]
      split
      next b hb =>
        constructor
        · intro h
          refine ⟨k, by omega, Int.le_refl k, hb.trans h, fun i h₁ h₂ => ?_⟩
          omega
        · rintro ⟨j, h₁, h₂, hj, hlater⟩
          rcases Int.lt_or_eq_of_le h₂ with hlt | rfl
          · rw [hlater k hlt (Int.le_refl k)] at hb
            exact absurd hb.symm (Option.some_ne_none b)
          · exact hb.symm.trans hj
      next hnone =>
        rw [ih (by omega)]
        constructor
        · rintro ⟨j, h₁, h₂, hj, hlater⟩
          refine ⟨j, h₁, by omega, hj, fun i hi hik => ?_⟩
          rcases Int.lt_or_eq_of_le hik with hlt | rfl
          · exact hlater i hi (by omega)
          · exact hnone
        · rintro ⟨j, h₁, h₂, hj, hlater⟩
          have hne : j ≠ k := by
            rintro rfl
            rw [hnone] at hj
            exact Option.some_ne_none a hj.symm
          exact ⟨j, h₁, by omega, hj, fun i hi hik => hlater i hi (by omega)⟩

end Countdown

end Speedway.Lib
