import Mathlib.Algebra.Order.Field.Basic
import Mathlib.Tactic.FieldSimp
import Mathlib.Tactic.Linarith
import Mathlib.Tactic.Ring

/-!
# Bisection in two directions

A cell is a pair of intervals that are halved in turn. The bits that say in which half a
point lies can be read back to the cell, which contains the point.
-/

namespace Speedway.Lib.Bisection

variable {K : Type*} [Field K] [LinearOrder K] [IsStrictOrderedRing K]

structure Interval (K : Type*) where
  low : K
  high : K

namespace Interval

def mid (I : Interval K) : K := (I.low + I.high) / 2

/-- The upper or the lower half. -/
def half (I : Interval K) (upper : Bool) : Interval K :=
  if upper then ⟨I.mid, I.high⟩ else ⟨I.low, I.mid⟩

/-- A point lies above the middle. -/
def isUpper (I : Interval K) (x : K) : Bool := decide (I.mid < x)

def Contains (I : Interval K) (x : K) : Prop := I.low ≤ x ∧ x ≤ I.high

def width (I : Interval K) : K := I.high - I.low

variable {I : Interval K} {x : K}

omit [IsStrictOrderedRing K] in
theorem Contains.half (h : I.Contains x) : (I.half (I.isUpper x)).Contains x := by
  obtain ⟨hlow, hhigh⟩ := h
  rw [isUpper]
  by_cases hmid : I.mid < x
  · rw [decide_eq_true hmid]
    exact ⟨hmid.le, hhigh⟩
  · rw [decide_eq_false hmid]
    exact ⟨hlow, not_lt.mp hmid⟩

theorem width_half (I : Interval K) (upper : Bool) : (I.half upper).width = I.width / 2 := by
  cases upper with
  | true =>
      show I.high - (I.low + I.high) / 2 = (I.high - I.low) / 2
      field_simp
      ring
  | false =>
      show (I.low + I.high) / 2 - I.low = (I.high - I.low) / 2
      field_simp
      ring

end Interval

/-- Two intervals, of which `first` is halved first. -/
structure Cell (K : Type*) where
  first : Interval K
  second : Interval K

namespace Cell

/-- One of the intervals is halved. -/
def half (c : Cell K) (isFirst upper : Bool) : Cell K :=
  if isFirst then { c with first := c.first.half upper }
  else { c with second := c.second.half upper }

/-- The bit of a point. -/
def isUpper (c : Cell K) (isFirst : Bool) (x y : K) : Bool :=
  if isFirst then c.first.isUpper x else c.second.isUpper y

def Contains (c : Cell K) (x y : K) : Prop := c.first.Contains x ∧ c.second.Contains y

/-- The cell after some bits. -/
def refine (c : Cell K) : Bool → List Bool → Cell K
  | _, [] => c
  | isFirst, upper :: bits => (c.half isFirst upper).refine (!isFirst) bits

/-- The first `n` bits of a point. -/
def bits (x y : K) : Nat → Bool → Cell K → List Bool
  | 0, _, _ => []
  | n + 1, isFirst, c =>
      c.isUpper isFirst x y :: bits x y n (!isFirst) (c.half isFirst (c.isUpper isFirst x y))

variable {c : Cell K} {x y : K}

omit [IsStrictOrderedRing K] in
theorem Contains.half (h : c.Contains x y) (isFirst : Bool) :
    (c.half isFirst (c.isUpper isFirst x y)).Contains x y := by
  cases isFirst with
  | true => exact ⟨h.1.half, h.2⟩
  | false => exact ⟨h.1, h.2.half⟩

omit [IsStrictOrderedRing K] in
/-- The cell of the bits of a point contains it. -/
theorem Contains.refine (h : c.Contains x y) (n : Nat) (isFirst : Bool) :
    (c.refine isFirst (bits x y n isFirst c)).Contains x y := by
  induction n generalizing isFirst c with
  | zero => exact h
  | succ n ih => exact ih (h.half isFirst) (!isFirst)

omit [IsStrictOrderedRing K] in
@[simp] theorem length_bits (x y : K) (n : Nat) (isFirst : Bool) (c : Cell K) :
    (bits x y n isFirst c).length = n := by
  induction n generalizing isFirst c with
  | zero => rfl
  | succ n ih => rw [bits, List.length_cons, ih]

/-- The direction after some steps. -/
def turn (isFirst : Bool) (n : Nat) : Bool := if n % 2 = 0 then isFirst else !isFirst

theorem turn_succ (isFirst : Bool) (n : Nat) : turn isFirst (n + 1) = !turn isFirst n := by
  rw [turn, turn]
  rcases Nat.mod_two_eq_zero_or_one n with h | h
  · rw [if_neg (by omega), if_pos h]
  · rw [if_pos (by omega), if_neg (by omega), Bool.not_not]

theorem turn_not (isFirst : Bool) (n : Nat) : turn (!isFirst) n = turn isFirst (n + 1) := by
  rw [turn, turn]
  rcases Nat.mod_two_eq_zero_or_one n with h | h
  · rw [if_pos h, if_neg (by omega)]
  · rw [if_neg (by omega), if_pos (by omega), Bool.not_not]

omit [IsStrictOrderedRing K] in
/-- More bits are those of the cell so far. -/
theorem bits_add (x y : K) (n k : Nat) (isFirst : Bool) (c : Cell K) :
    bits x y (n + k) isFirst c =
      bits x y n isFirst c ++
        bits x y k (turn isFirst n) (c.refine isFirst (bits x y n isFirst c)) := by
  induction n generalizing isFirst c with
  | zero =>
      rw [Nat.zero_add]
      rfl
  | succ n ih =>
      rw [Nat.add_right_comm, bits, bits, ih, List.cons_append, turn_not]
      rfl

omit [LinearOrder K] [IsStrictOrderedRing K] in
theorem refine_append (c : Cell K) (isFirst : Bool) (bits more : List Bool) :
    c.refine isFirst (bits ++ more) =
      (c.refine isFirst bits).refine (turn isFirst bits.length) more := by
  induction bits generalizing isFirst c with
  | nil => rfl
  | cons upper bits ih =>
      rw [List.cons_append, refine, ih, refine, List.length_cons, turn_not]

theorem width_first (c : Cell K) (isFirst : Bool) (bits : List Bool) :
    (c.refine isFirst bits).first.width =
      c.first.width / 2 ^ ((bits.length + if isFirst then 1 else 0) / 2) := by
  induction bits generalizing isFirst c with
  | nil => cases isFirst <;> simp [refine]
  | cons upper bits ih =>
      rw [refine, ih, List.length_cons]
      cases isFirst with
      | true =>
          show (c.first.half upper).width / 2 ^ ((bits.length + 0) / 2) =
            c.first.width / 2 ^ ((bits.length + 1 + 1) / 2)
          rw [Interval.width_half, show (bits.length + 1 + 1) / 2 = bits.length / 2 + 1 by omega,
            pow_succ', div_div]
          rfl
      | false => rfl

/-- The cell with the directions exchanged. -/
def swap (c : Cell K) : Cell K := ⟨c.second, c.first⟩

omit [LinearOrder K] [IsStrictOrderedRing K] in
theorem swap_refine (c : Cell K) (isFirst : Bool) (bits : List Bool) :
    (c.refine isFirst bits).swap = c.swap.refine (!isFirst) bits := by
  induction bits generalizing isFirst c with
  | nil => rfl
  | cons upper bits ih =>
      rw [refine, ih, refine]
      cases isFirst <;> rfl

theorem width_second (c : Cell K) (isFirst : Bool) (bits : List Bool) :
    (c.refine isFirst bits).second.width =
      c.second.width / 2 ^ ((bits.length + if isFirst then 0 else 1) / 2) := by
  have h := width_first c.swap (!isFirst) bits
  rw [← swap_refine] at h
  cases isFirst <;> exact h

end Cell

end Speedway.Lib.Bisection
