import Mathlib.Algebra.BigOperators.Group.List.Basic
import Mathlib.Algebra.GroupWithZero.Nat
import Mathlib.Algebra.Order.BigOperators.Group.List

/-!
# Filling a buffer

Pieces are copied one after the other, and whether the buffer is full is tested after each
copy. So the last piece may go past the end. Pieces that were cut out of another buffer
without overlap have at most its length together.
-/

namespace Speedway.Lib

variable {α : Type*}

/-- What is copied before the buffer is found to be full. -/
def fillUntil (limit : Nat) : List (List α) → List α → List α
  | [], copied => copied
  | piece :: rest, copied =>
      if limit ≤ (copied ++ piece).length then copied ++ piece
      else fillUntil limit rest (copied ++ piece)

section Fill

variable {limit : Nat} {pieces : List (List α)} {copied : List α}

/-- What is copied has room exactly if all pieces have, or if the buffer is full at the end
of a piece. -/
theorem length_fillUntil_le_iff (h : copied.length < limit) :
    (fillUntil limit pieces copied).length ≤ limit ↔
      copied.length + (pieces.map List.length).sum ≤ limit ∨
        ∃ k, copied.length + ((pieces.take k).map List.length).sum = limit := by
  induction pieces generalizing copied with
  | nil =>
      simp only [fillUntil, List.map_nil, List.sum_nil, Nat.add_zero, List.take_nil]
      constructor
      · exact .inl
      · rintro (hle | ⟨-, heq⟩)
        · exact hle
        · exact Nat.le_of_eq heq
  | cons piece rest ih =>
      rw [fillUntil]
      split
      next hfull =>
        rw [List.length_append] at hfull ⊢
        constructor
        · intro hle
          refine .inr ⟨1, ?_⟩
          simp only [List.take_succ_cons, List.take_zero, List.map_cons, List.map_nil,
            List.sum_cons, List.sum_nil]
          omega
        · rintro (hle | ⟨k, heq⟩)
          · rw [List.map_cons, List.sum_cons] at hle
            omega
          · cases k with
            | zero =>
                rw [List.take_zero, List.map_nil, List.sum_nil] at heq
                omega
            | succ k =>
                rw [List.take_succ_cons, List.map_cons, List.sum_cons] at heq
                omega
      next hmore =>
        rw [ih (Nat.lt_of_not_le hmore), List.length_append, List.map_cons, List.sum_cons,
          Nat.add_assoc]
        apply or_congr Iff.rfl
        constructor
        · rintro ⟨k, heq⟩
          refine ⟨k + 1, ?_⟩
          rw [List.take_succ_cons, List.map_cons, List.sum_cons]
          omega
        · rintro ⟨k, heq⟩
          cases k with
          | zero =>
              rw [List.take_zero, List.map_nil, List.sum_nil] at heq
              omega
          | succ k =>
              refine ⟨k, ?_⟩
              rw [List.take_succ_cons, List.map_cons, List.sum_cons] at heq
              omega

end Fill

/-- Intervals one after the other in a range have at most its length together. -/
theorem sum_intervals_le {lo hi : Nat} (hle : lo ≤ hi) {D : List (Nat × Nat)}
    (hsorted : D.Pairwise fun x y => x.2 ≤ y.1)
    (hin : ∀ x ∈ D, lo ≤ x.1 ∧ x.1 ≤ x.2 ∧ x.2 ≤ hi) :
    (D.map fun x => x.2 - x.1).sum ≤ hi - lo := by
  induction D generalizing lo with
  | nil => exact Nat.zero_le _
  | cons x rest ih =>
      rw [List.pairwise_cons] at hsorted
      obtain ⟨hlo, hx, hhi⟩ := hin x List.mem_cons_self
      have hrest := ih hhi hsorted.2 fun y hy =>
        ⟨hsorted.1 y hy, (hin y (List.mem_cons_of_mem x hy)).2⟩
      rw [List.map_cons, List.sum_cons]
      omega

end Speedway.Lib
