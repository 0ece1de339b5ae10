import Mathlib.Data.List.Basic
import Mathlib.Tactic.Common

/-!
# Sending items one at a time

A sender goes through a list, exchanges one item after the other with a peer
and goes on only when the exchange tells it to. The log holds one record for
each exchange that was begun.
-/

namespace Speedway.Lib

/-- What the sender makes of an exchange. -/
inductive Answer where
  | next
  | fails
  | hangs
  deriving DecidableEq

/-- How a run of the sender ends. -/
inductive Ending where
  | done
  | failed
  | hung
  deriving DecidableEq

/-- The end of a run that stops at an exchange. -/
def Answer.ending : Answer → Ending
  | .next => .done
  | .fails => .failed
  | .hangs => .hung

section Run

variable {α β : Type*} (exchange : Nat → α → β × Answer)

/-- The records and the end of a run over the items, which are numbered from `k` on. -/
def stopWait : Nat → List α → List β × Ending
  | _, [] => ([], .done)
  | k, a :: as =>
      match (exchange k a).2 with
      | .next => ((exchange k a).1 :: (stopWait (k + 1) as).1, (stopWait (k + 1) as).2)
      | .fails => ([(exchange k a).1], .failed)
      | .hangs => ([(exchange k a).1], .hung)

/-- All items before item `j` were exchanged. -/
def Reaches (k : Nat) (as : List α) (j : Nat) : Prop :=
  ∀ i a, i < j → as[i]? = some a → (exchange (k + i) a).2 = .next

variable {exchange} {k : Nat} {a : α} {as : List α} {j : Nat}

theorem reaches_zero : Reaches exchange k as 0 := fun _ _ h => absurd h (Nat.not_lt_zero _)

theorem reaches_cons_succ : Reaches exchange k (a :: as) (j + 1) ↔
    (exchange k a).2 = .next ∧ Reaches exchange (k + 1) as j := by
  constructor
  · intro h
    refine ⟨h 0 a (Nat.succ_pos _) rfl, fun i b hi hb => ?_⟩
    rw [Nat.add_assoc, Nat.add_comm 1]
    exact h (i + 1) b (Nat.succ_lt_succ hi) hb
  · rintro ⟨hfirst, hrest⟩ i b hi hb
    cases i with
    | zero =>
        obtain rfl : a = b := by simpa using hb
        exact hfirst
    | succ i =>
        have := hrest i b (Nat.lt_of_succ_lt_succ hi) (by simpa using hb)
        rwa [Nat.add_assoc, Nat.add_comm 1] at this

/-- The log has a record for each item that is reached, and no other. -/
theorem stopWait_log (b : β) : (stopWait exchange k as).1[j]? = some b ↔
    Reaches exchange k as j ∧ ∃ a, as[j]? = some a ∧ b = (exchange (k + j) a).1 := by
  induction as generalizing k j with
  | nil => simp [stopWait]
  | cons a as ih =>
      cases j with
      | zero =>
          have hfirst : (stopWait exchange k (a :: as)).1[0]? = some (exchange k a).1 := by
            simp only [stopWait]
            split <;> rfl
          rw [hfirst]
          simp [reaches_zero, eq_comm]
      | succ j =>
          rw [reaches_cons_succ]
          simp only [stopWait]
          split
          · next hnext =>
              simp only [List.getElem?_cons_succ, hnext, true_and]
              rw [ih, Nat.add_assoc, Nat.add_comm 1]
          · next hfails => simp [hfails]
          · next hhangs => simp [hhangs]

/-- A run is done exactly when every exchange goes on. -/
theorem stopWait_done : (stopWait exchange k as).2 = .done ↔
    Reaches exchange k as as.length := by
  induction as generalizing k with
  | nil => simp [stopWait, reaches_zero]
  | cons a as ih =>
      rw [List.length_cons, reaches_cons_succ]
      simp only [stopWait]
      split
      · next hnext => simp [hnext, ih]
      · next hfails => simp [hfails]
      · next hhangs => simp [hhangs]

/-- A run stops at the first exchange that does not go on. -/
theorem stopWait_stop (h : Reaches exchange k as j) (hj : as[j]? = some a)
    (hstop : (exchange (k + j) a).2 ≠ .next) :
    (stopWait exchange k as).2 = (exchange (k + j) a).2.ending := by
  induction as generalizing k j with
  | nil => simp at hj
  | cons b as ih =>
      cases j with
      | zero =>
          obtain rfl : b = a := by simpa using hj
          rw [Nat.add_zero] at hstop ⊢
          simp only [stopWait]
          split
          · next hnext => exact absurd hnext hstop
          · next hfails => rw [hfails]; rfl
          · next hhangs => rw [hhangs]; rfl
      | succ j =>
          obtain ⟨hnext, hrest⟩ := reaches_cons_succ.mp h
          simp only [stopWait, hnext]
          rw [show k + (j + 1) = k + 1 + j by omega] at hstop ⊢
          exact ih hrest (by simpa using hj) hstop

/-- The log of a run that reaches every item has one record for each of them. -/
theorem stopWait_map {γ : Type*} {f : β → γ} (item : α → γ)
    (hf : ∀ k a, f (exchange k a).1 = item a)
    (h : ∀ j, j < as.length → Reaches exchange k as j) :
    (stopWait exchange k as).1.map f = as.map item := by
  induction as generalizing k with
  | nil => rfl
  | cons a as ih =>
      simp only [stopWait]
      split
      · rw [List.map_cons, List.map_cons, hf, ih fun j hj =>
          (reaches_cons_succ.mp (h (j + 1) (Nat.succ_lt_succ hj))).2]
      all_goals
        next hstop =>
          cases as with
          | nil => rw [List.map_singleton, List.map_singleton, hf]
          | cons b bs =>
              have hnext := (reaches_cons_succ.mp (h 1 (Nat.succ_lt_succ (Nat.succ_pos _)))).1
              rw [hstop] at hnext
              exact absurd hnext (by decide)

end Run

end Speedway.Lib
