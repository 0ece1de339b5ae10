import Mathlib.Tactic

/-!
# Partial knowledge of a store

A client that sees only the reports of its own requests knows some cells of a
store and not others. Knowledge holds of a store when every value known is the
value of the cell; a request replaces what is known inside its footprint.
-/

namespace Speedway.Lib

/-- What is known of the cells of a store: the value of a cell, or nothing. -/
abbrev Knowledge (ι α : Type*) := ι → Option α

namespace Knowledge

variable {ι α : Type*}

def nothing : Knowledge ι α := fun _ => none

/-- Inside `S` the knowledge becomes `new`. -/
def revise (k : Knowledge ι α) (S : ι → Prop) [DecidablePred S] (new : Knowledge ι α) :
    Knowledge ι α :=
  fun i => if S i then new i else k i

/-- Nothing is known inside `S` any more. -/
def forget (k : Knowledge ι α) (S : ι → Prop) [DecidablePred S] : Knowledge ι α :=
  k.revise S nothing

/-- Every known value is the value of the cell; a cell may have no value. -/
def Holds (k : Knowledge ι α) (cells : ι → Option α) : Prop :=
  ∀ i v, k i = some v → cells i = some v

variable {k new : Knowledge ι α} {cells cells' : ι → Option α} {S : ι → Prop}

theorem nothing_holds : (nothing : Knowledge ι α).Holds cells := by
  intro i v h
  exact absurd h (by simp [nothing])

/-- Knowledge survives when the cells keep their values. -/
theorem Holds.of_kept (h : k.Holds cells) (hkept : ∀ i v, cells i = some v → cells' i = some v) :
    k.Holds cells' :=
  fun i v hk => hkept i v (h i v hk)

/-- A request that is bounded by `S` and makes `new` true inside it. -/
theorem Holds.revise [DecidablePred S] (h : k.Holds cells)
    (hkept : ∀ i v, ¬ S i → cells i = some v → cells' i = some v)
    (hnew : ∀ i v, S i → new i = some v → cells' i = some v) : (k.revise S new).Holds cells' := by
  intro i v hi
  simp only [Knowledge.revise] at hi
  split at hi
  · next hS => exact hnew i v hS hi
  · next hS => exact hkept i v hS (h i v hi)

theorem Holds.forget [DecidablePred S] (h : k.Holds cells)
    (hkept : ∀ i v, ¬ S i → cells i = some v → cells' i = some v) : (k.forget S).Holds cells' := by
  apply h.revise hkept
  intro i v _ hi
  exact absurd hi (by simp [nothing])

end Knowledge

end Speedway.Lib
