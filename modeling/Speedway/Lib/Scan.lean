import Mathlib.Tactic

/-!
# Loops that look at one item after the other

A loop that stops at the first item it rejects has looked at the items up to
that one. A list in which later items take precedence is decided by its last
item with a property.
-/

namespace Speedway.Lib

/-- The items that a loop over the `n` numbers from `k` on looks at. -/
def visited (reject : Nat → Bool) : Nat → Nat → List Nat
  | 0, _ => []
  | n + 1, k => k :: if reject k then [] else visited reject n (k + 1)

/-- An item is looked at when no item before it is rejected. -/
theorem mem_visited {reject : Nat → Bool} {n k i : Nat} :
    i ∈ visited reject n k ↔ k ≤ i ∧ i < k + n ∧ ∀ j, k ≤ j → j < i → reject j = false := by
  induction n generalizing k with
  | zero =>
      simp only [visited, List.not_mem_nil, false_iff]
      rintro ⟨h₁, h₂, -⟩
      omega
  | succ n ih =>
      simp only [visited, List.mem_cons]
      cases hk : reject k with
      | true =>
          simp only [if_true, List.not_mem_nil, or_false]
          constructor
          · rintro rfl
            exact ⟨le_refl _, by omega, fun j h₁ h₂ => by omega⟩
          · rintro ⟨h₁, -, h₃⟩
            by_contra hne
            have := h₃ k (le_refl _) (by omega)
            rw [hk] at this
            exact absurd this (by simp)
      | false =>
          simp only [Bool.false_eq_true, if_false, ih]
          constructor
          · rintro (rfl | ⟨h₁, h₂, h₃⟩)
            · exact ⟨le_refl _, by omega, fun j h₁ h₂ => by omega⟩
            · refine ⟨by omega, by omega, fun j hj₁ hj₂ => ?_⟩
              rcases Nat.eq_or_lt_of_le hj₁ with rfl | hlt
              · exact hk
              · exact h₃ j hlt hj₂
          · rintro ⟨h₁, h₂, h₃⟩
            rcases Nat.eq_or_lt_of_le h₁ with rfl | hlt
            · exact .inl rfl
            · exact .inr ⟨hlt, by omega, fun j hj₁ hj₂ => h₃ j (by omega) hj₂⟩

section Last

variable {α : Type*}

/-- The last item with the property `p`, and the items after it. -/
def lastWith (p : α → Bool) : List α → Option (α × List α)
  | [] => none
  | a :: as =>
      match lastWith p as with
      | some r => some r
      | none => if p a then some (a, as) else none

theorem lastWith_eq_none {p : α → Bool} {as : List α} (h : ∀ a ∈ as, p a = false) :
    lastWith p as = none := by
  induction as with
  | nil => rfl
  | cons a as ih =>
      simp only [List.mem_cons, forall_eq_or_imp] at h
      simp [lastWith, ih h.2, h.1]

/-- Nothing before the last item with the property matters. -/
theorem lastWith_append {p : α → Bool} {pre post : List α} {a : α} (ha : p a = true)
    (hpost : ∀ b ∈ post, p b = false) : lastWith p (pre ++ a :: post) = some (a, post) := by
  induction pre with
  | nil => simp [lastWith, lastWith_eq_none hpost, ha]
  | cons b pre ih => simp [lastWith, ih]

end Last

end Speedway.Lib
