import Mathlib.Data.List.Basic
import Speedway.Lib.Skipping
import Speedway.Nmbm.Sample

/-!
# What the block walks find

Both walks skip good blocks, one of them upwards and one downwards, and stop
before the limit, which is at most the last block of the chip. A reservation is
the walk for the largest number of blocks that succeeds.
-/

namespace Speedway.Nmbm

open Speedway.Lib

/-- `BLOCK_ST_GOOD` in the bitmap. -/
def isGood (bs : Bitmap) (ba : Nat) : Bool := getBlockStateRaw bs ba = stGood

/-- The good blocks in `[lo, hi)`, ascending. -/
def goodFrom (bs : Bitmap) (lo hi : Nat) : List Nat :=
  (List.range' lo (hi - lo)).filter (isGood bs)

/-- The good blocks in `(lo, hi]`, descending. -/
def goodDownFrom (bs : Bitmap) (lo hi : Nat) : List Nat :=
  (List.range' (lo + 1) (hi - lo)).reverse.filter (isGood bs)

section Loops

variable (d : LowerDevice) (bs : Bitmap)

theorem walkAscLoop_eq_skip (n ba : Nat) (k : Int) :
    walkAscLoop bs n ba k = skip (isGood bs) (List.range' ba n) k := by
  induction n generalizing ba k with
  | zero => rfl
  | succ n ih =>
      rw [List.range'_succ]
      simp only [walkAscLoop, skip, isGood, decide_eq_true_eq, ih]

theorem walkDescLoop_eq_skip {n ba : Nat} (h : n ≤ ba) (k : Int) :
    walkDescLoop bs n ba k = skip (isGood bs) (List.range' (ba - n + 1) n).reverse k := by
  induction n generalizing ba k with
  | zero => rfl
  | succ n ih =>
      have hlast : ba - (n + 1) + 1 + n = ba := by omega
      have hrest : ba - (n + 1) + 1 = ba - 1 - n + 1 := by omega
      rw [List.range'_1_concat, List.reverse_append, hlast, hrest]
      simp only [walkDescLoop, List.reverse_singleton, List.singleton_append, skip, isGood,
        decide_eq_true_eq]
      rw [ih (by omega)]

theorem tryReserveLoop_eq_firstDown (ba limit n : Nat) (k : Int) :
    tryReserveLoop d bs ba limit n k =
      firstDown (fun j => blockWalk d bs true ba j limit) n k := by
  induction n generalizing k with
  | zero => rfl
  | succ n ih =>
      rw [tryReserveLoop, firstDown]
      cases blockWalk d bs true ba k limit with
      | none => exact ih (k - 1)
      | some nba => rfl

end Loops

section Walks

variable {d : LowerDevice} {bs : Bitmap} {ba : Nat}

theorem walkLimit_eq_min (h : 0 < d.blockCount) (limit : Nat) :
    walkLimit d limit = min limit (d.blockCount - 1) := by
  rw [walkLimit, subU32_of_le h]
  split <;> omega

theorem blockWalkAsc_eq (h : 0 < d.blockCount) (count limit : Nat) :
    blockWalkAsc d bs ba count limit =
      (goodFrom bs ba (min limit (d.blockCount - 1)))[count]? := by
  rw [blockWalkAsc, walkAscLoop_eq_skip, walkLimit_eq_min h, skip_eq_filter]
  rfl

theorem blockWalkDesc_eq (h : 0 < d.blockCount) (count limit : Nat) :
    blockWalkDesc d bs ba count limit =
      (goodDownFrom bs (min limit (d.blockCount - 1)) ba)[count]? := by
  rw [blockWalkDesc, walkLimit_eq_min h, walkDescLoop_eq_skip bs (Nat.sub_le ..), skip_eq_filter,
    goodDownFrom]
  rcases Nat.le_total (min limit (d.blockCount - 1)) ba with hle | hle
  · rw [Nat.sub_sub_self hle]
  · rw [Nat.sub_eq_zero_of_le hle]
    rfl

/-- The walks find the good block after `count` others in their range, and a
reservation is the walk for the largest number between `minCount` and `count` that
succeeds. -/
theorem blockWalk_spec (d : LowerDevice) (bs : Bitmap) (ba count limit : Nat) (minCount : Int)
    (hba : ba < d.blockCount) (hcount : count < 2 ^ 31) :
    blockWalkAsc d bs ba count limit =
        (goodFrom bs ba (min limit (d.blockCount - 1)))[count]? ∧
      blockWalkDesc d bs ba count limit =
        (goodDownFrom bs (min limit (d.blockCount - 1)) ba)[count]? ∧
      (∀ nba, tryReserveBlocks d bs ba count minCount limit = some nba ↔
        ∃ n, minCount ≤ n ∧ n ≤ count ∧ blockWalk d bs true ba n limit = some nba ∧
          ∀ n', n < n' → n' ≤ count → blockWalk d bs true ba n' limit = none) ∧
      (tryReserveBlocks d bs ba count minCount limit = none ↔
        ∀ n, minCount ≤ n → n ≤ count → blockWalk d bs true ba n limit = none) := by
  have hpos : 0 < d.blockCount := Nat.zero_lt_of_lt hba
  refine ⟨blockWalkAsc_eq hpos count limit, blockWalkDesc_eq hpos count limit, ?_, ?_⟩
  · intro nba
    rw [tryReserveBlocks, toInt32_of_lt hcount, tryReserveLoop_eq_firstDown,
      firstDown_eq_some_iff rfl]
  · rw [tryReserveBlocks, toInt32_of_lt hcount, tryReserveLoop_eq_firstDown,
      firstDown_eq_none_iff rfl]

/-- A bitmap in which block 3 is bad and all others are good. -/
def oneBadBlock : Bitmap := setBlockStateRaw (fun _ => 0xffffffff#32) 3 stBad

/-- The walks step over block 3, and only three of the five blocks asked for are there. -/
theorem blockWalk_spec_oneBad :
    5 < (smallGeometry false).blockCount ∧ 5 < 2 ^ 31 ∧
      blockWalkAsc (smallGeometry false).toLowerDevice oneBadBlock 2 1 6 = some 4 ∧
      blockWalkDesc (smallGeometry false).toLowerDevice oneBadBlock 5 2 1 = some 2 ∧
      tryReserveBlocks (smallGeometry false).toLowerDevice oneBadBlock 2 5 0 6 = some 5 := by
  refine ⟨by decide, by decide, ?_, ?_, ?_⟩
  · exact (blockWalk_spec _ oneBadBlock 2 1 6 0 (by decide) (by decide)).1.trans (by decide)
  · exact (blockWalk_spec _ oneBadBlock 5 2 1 0 (by decide) (by decide)).2.1.trans (by decide)
  · refine ((blockWalk_spec _ oneBadBlock 2 5 6 0 (by decide) (by decide)).2.2.1 5).mpr ?_
    refine ⟨2, by decide, by decide, by decide, fun n h₁ h₂ => ?_⟩
    interval_cases n <;> decide

end Walks

end Speedway.Nmbm
