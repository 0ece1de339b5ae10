import Speedway.Lib.Memory

/-!
# A stream of bytes laid out on pages

A request for `len` bytes that starts at some column of its first page covers
that page and the pages after it. A loop over the pages that counts the bytes
consumed and resets the column to 0 moves exactly the bytes of each page.
-/

namespace Speedway.Lib

/-- `len` bytes from column `col` of page 0 on, on pages of `size` bytes. -/
structure Paging where
  size : Nat
  col : Nat
  len : Nat

namespace Paging

variable (p : Paging)

/-- The bytes on the pages before page `k`. -/
def consumed (k : Nat) : Nat := min p.len (k * p.size - p.col)

/-- The first column of page `k`. -/
def column (k : Nat) : Nat := if k = 0 then p.col else 0

/-- The bytes on page `k`. -/
def chunk (k : Nat) : Nat := min (p.size - p.column k) (p.len - p.consumed k)

/-- The byte in column `i` of page `k` belongs to the stream. -/
def Requested (k i : Nat) : Prop := p.col ≤ k * p.size + i ∧ k * p.size + i - p.col < p.len

instance (k i : Nat) : Decidable (p.Requested k i) := inferInstanceAs (Decidable (_ ∧ _))

/-- Number of pages. -/
def pages : Nat := if p.len = 0 then 0 else (p.col + p.len - 1) / p.size + 1

/-- A page image: the bytes of the stream at their columns, `fill` elsewhere. -/
def Shows (src : Mem) (fill : UInt8) (k : Nat) (page : Mem) : Prop :=
  ∀ i, i < p.size → page i = if p.Requested k i then src (k * p.size + i - p.col) else fill

variable {p}

@[simp] theorem consumed_zero : p.consumed 0 = 0 := by simp [consumed]

@[simp] theorem column_succ (k : Nat) : p.column (k + 1) = 0 := rfl

theorem consumed_le (k : Nat) : p.consumed k ≤ p.len := Nat.min_le_left _ _

theorem consumed_mono {k k' : Nat} (h : k ≤ k') : p.consumed k ≤ p.consumed k' := by
  have hmul := Nat.mul_le_mul_right p.size h
  simp only [consumed]
  omega

/-- A stream that has been consumed stays so. -/
theorem not_consumed_lt {k : Nat} (h : p.len ≤ p.consumed k) (j : Nat) :
    ¬ p.consumed (k + j) < p.len :=
  Nat.not_lt.mpr (h.trans (consumed_mono (Nat.le_add_right k j)))

section Column

variable (hcol : p.col < p.size)

include hcol

theorem consumed_add_chunk (k : Nat) : p.consumed k + p.chunk k = p.consumed (k + 1) := by
  have hmul : (k + 1) * p.size = k * p.size + p.size := Nat.succ_mul _ _
  simp only [chunk, consumed, column]
  cases k with
  | zero =>
      simp only [Nat.zero_mul, if_true]
      omega
  | succ k =>
      have hmul' : (k + 1) * p.size = k * p.size + p.size := Nat.succ_mul _ _
      simp only [Nat.succ_ne_zero, if_false]
      omega

/-- There are bytes left before page `k` exactly when the page has some. -/
theorem consumed_lt_iff {k : Nat} : p.consumed k < p.len ↔ k < p.pages := by
  simp only [consumed, pages]
  split
  · omega
  · have hdiv : k < (p.col + p.len - 1) / p.size + 1 ↔ k * p.size ≤ p.col + p.len - 1 := by
      rw [Nat.lt_succ_iff]
      exact Nat.le_div_iff_mul_le (by omega)
    omega

theorem chunk_pos {k : Nat} (h : p.consumed k < p.len) : 0 < p.chunk k := by
  simp only [chunk, column]
  split <;> omega

theorem column_add_chunk_le (k : Nat) : p.column k + p.chunk k ≤ p.size := by
  simp only [chunk, column]
  split <;> omega

/-- The requested columns of page `k`. -/
theorem requested_iff {k i : Nat} (hi : i < p.size) :
    p.Requested k i ↔ p.column k ≤ i ∧ i < p.column k + p.chunk k := by
  simp only [Requested, chunk, consumed, column]
  cases k with
  | zero =>
      simp only [Nat.zero_mul, if_true]
      omega
  | succ k =>
      have hmul : (k + 1) * p.size = k * p.size + p.size := Nat.succ_mul _ _
      simp only [Nat.succ_ne_zero, if_false]
      omega

/-- The place in the stream of a requested byte. -/
theorem index_eq {k i : Nat} (h : p.Requested k i) :
    k * p.size + i - p.col = p.consumed k + (i - p.column k) := by
  obtain ⟨h₁, h₂⟩ := h
  simp only [consumed, column]
  cases k with
  | zero => simp only [Nat.zero_mul, if_true] at h₁ h₂ ⊢; omega
  | succ k =>
      have hmul : (k + 1) * p.size = k * p.size + p.size := Nat.succ_mul _ _
      simp only [Nat.succ_ne_zero, if_false]
      omega

/-- A page has a requested byte exactly when there are bytes left before it. -/
theorem exists_requested_iff {k : Nat} :
    (∃ i, i < p.size ∧ p.Requested k i) ↔ p.consumed k < p.len := by
  constructor
  · rintro ⟨i, hi, h⟩
    rw [requested_iff hcol hi] at h
    by_contra hle
    have hchunk : p.chunk k = 0 := by
      simp only [chunk]
      omega
    omega
  · intro h
    have hpos := chunk_pos hcol h
    have hle := column_add_chunk_le hcol k
    refine ⟨p.column k, by omega, (requested_iff hcol (by omega)).mpr ?_⟩
    omega

/-- The bytes of a page are moved to their columns with one copy. -/
theorem shows_of_copy {src page : Mem} {fill : UInt8} {k : Nat}
    (hin : ∀ i, p.column k ≤ i → i < p.column k + p.chunk k →
      page i = src (p.consumed k + (i - p.column k)))
    (hout : ∀ i, i < p.size → i < p.column k ∨ p.column k + p.chunk k ≤ i → page i = fill) :
    p.Shows src fill k page := by
  intro i hi
  split
  · next h =>
      rw [index_eq hcol h]
      rw [requested_iff hcol hi] at h
      exact hin i h.1 h.2
  · next h =>
      rw [requested_iff hcol hi] at h
      exact hout i hi (by omega)

/-- A page that is not the last one is filled to its end. -/
theorem column_add_chunk_eq {k : Nat} (h : p.consumed (k + 1) < p.len) :
    p.column k + p.chunk k = p.size := by
  have hadd := consumed_add_chunk hcol k
  simp only [chunk, column] at *
  split at hadd <;> split <;> omega

/-- The number of requested bytes on a page. -/
theorem countP_requested (k : Nat) :
    (List.range p.size).countP (fun i => p.Requested k i) = p.chunk k := by
  have hle := column_add_chunk_le hcol k
  have hcount : ∀ i ∈ List.range p.size, (decide (p.Requested k i) = true ↔
      decide (p.column k ≤ i ∧ i < p.column k + p.chunk k) = true) := by
    intro i hi
    simp only [decide_eq_true_eq]
    exact requested_iff hcol (List.mem_range.mp hi)
  rw [List.countP_congr hcount]
  -- the columns before, on and after the requested ones
  obtain ⟨rest, hrest⟩ := Nat.exists_eq_add_of_le hle
  rw [hrest, List.range_add, List.range_add, List.countP_append, List.countP_append]
  have hbefore : (List.range (p.column k)).countP
      (fun i => decide (p.column k ≤ i ∧ i < p.column k + p.chunk k)) = 0 := by
    rw [List.countP_eq_zero]
    intro i hi
    have := List.mem_range.mp hi
    simp only [decide_eq_true_eq]
    omega
  have hon : ((List.range (p.chunk k)).map (p.column k + ·)).countP
      (fun i => decide (p.column k ≤ i ∧ i < p.column k + p.chunk k)) = p.chunk k := by
    rw [List.countP_eq_length.mpr, List.length_map, List.length_range]
    intro i hi
    obtain ⟨j, hj, rfl⟩ := List.mem_map.mp hi
    have := List.mem_range.mp hj
    simp only [decide_eq_true_eq]
    omega
  have hafter : ((List.range rest).map (p.column k + p.chunk k + ·)).countP
      (fun i => decide (p.column k ≤ i ∧ i < p.column k + p.chunk k)) = 0 := by
    rw [List.countP_eq_zero]
    intro i hi
    obtain ⟨j, -, rfl⟩ := List.mem_map.mp hi
    simp only [decide_eq_true_eq]
    omega
  rw [hbefore, hon, hafter]
  omega

end Column

end Paging

end Speedway.Lib
