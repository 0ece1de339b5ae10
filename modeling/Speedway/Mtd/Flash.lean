import Mathlib.Data.List.GetD
import Speedway.Lib.Blocks
import Speedway.Lib.Log
import Speedway.Lib.Memory

/-!
# Partitions of a flash

A partition is a number of erase blocks, of which some are bad and some cannot be erased.
Erasing sets all bits of a block and writing only clears bits. What is done to the
partitions is a log; it says what they hold afterwards.
-/

namespace Speedway.Mtd

open Speedway.Lib

/-- A partition. -/
structure Part where
  /-- The number of erase blocks. -/
  size : Nat
  /-- `mtdtype == MTD_NANDFLASH`; only such flash has bad blocks. -/
  nand : Bool
  bad : Nat → Bool
  /-- The blocks that cannot be erased. -/
  fails : Nat → Bool

namespace Part

/-- `mtd_block_is_bad` for a block; no result if the program exits. -/
def blockIsBad (part : Part) (k : Nat) : Option Bool :=
  if part.nand then if k < part.size then some (part.bad k) else none else some false

/-- Whether `mtd_erase_block` erases a block. -/
def erases (part : Part) (k : Nat) : Bool := decide (k < part.size) && !part.fails k

/-- The block is not bad. -/
def isGood (part : Part) (k : Nat) : Bool := !(part.nand && part.bad k)

/-- `read` from the device of a partition; at the end it is cut short. -/
def read (erasesize : Nat) (part : Part) (dev : Mem) (pos len : Nat) : List UInt8 :=
  (dev.shift pos).bytes (min len (part.size * erasesize - pos))

theorem isGood_of_blockIsBad {part : Part} {k : Nat} {bad : Bool}
    (h : part.blockIsBad k = some bad) : part.isGood k = !bad := by
  simp only [blockIsBad] at h
  cases hnand : part.nand with
  | false =>
      rw [hnand, if_neg Bool.false_ne_true, Option.some_inj] at h
      rw [isGood, hnand, ← h]
      rfl
  | true =>
      rw [hnand, if_pos rfl] at h
      split at h
      · rw [isGood, hnand, ← Option.some_inj.mp h]
        rfl
      · exact nomatch h

/-- Only a block of the partition is bad. -/
theorem lt_size_of_blockIsBad {part : Part} {k : Nat} (h : part.blockIsBad k = some true) :
    k < part.size := by
  simp only [blockIsBad] at h
  split at h
  · split at h
    next hk => exact hk
    · exact nomatch h
  · exact nomatch h

theorem lt_size_of_erases {part : Part} {k : Nat} (h : part.erases k = true) : k < part.size := by
  rw [erases, Bool.and_eq_true, decide_eq_true_eq] at h
  exact h.1

end Part

/-- What is done to a partition, given by its place in the list of partitions. -/
inductive FlashOp where
  | erase (part block : Nat) (ok : Bool)
  | write (part pos : Nat) (bytes : List UInt8)
  deriving DecidableEq

/-- The partition of an operation. -/
def FlashOp.part : FlashOp → Nat
  | .erase part _ _ => part
  | .write part _ _ => part

/-- Writing only clears bits. -/
def program (m : Mem) (pos : Nat) (bytes : List UInt8) : Mem :=
  fun i => if pos ≤ i ∧ i < pos + bytes.length then m i &&& bytes.getD (i - pos) 0xff else m i

section Contents

variable {erasesize : Nat} {part k : Nat} {op : FlashOp}

/-- What the partitions hold. -/
abbrev Contents := Nat → Mem

/-- The bytes of a block. -/
def Contents.block (erasesize : Nat) (contents : Contents) (b : Nat × Nat) : List UInt8 :=
  ((contents b.1).shift (b.2 * erasesize)).bytes erasesize

def FlashOp.apply (erasesize : Nat) (contents : Contents) : FlashOp → Contents
  | .erase part block true =>
      Function.update contents part ((contents part).fill (block * erasesize) 0xff erasesize)
  | .erase _ _ false => contents
  | .write part pos bytes => Function.update contents part (program (contents part) pos bytes)

/-- What the partitions hold after a log. -/
def after (erasesize : Nat) (log : List FlashOp) (contents : Contents) : Contents :=
  log.foldl (FlashOp.apply erasesize) contents

theorem after_append (a b : List FlashOp) (contents : Contents) :
    after erasesize (a ++ b) contents = after erasesize b (after erasesize a contents) :=
  List.foldl_append ..

/-- The operation may change a block. -/
def FlashOp.Touches (erasesize : Nat) (b : Nat × Nat) : FlashOp → Prop
  | .erase part block ok => ok = true ∧ (part, block) = b
  | .write part pos bytes =>
      part = b.1 ∧ pos < (b.2 + 1) * erasesize ∧ b.2 * erasesize < pos + bytes.length

@[simp] theorem Contents.length_block (contents : Contents) (b : Nat × Nat) :
    (contents.block erasesize b).length = erasesize :=
  Mem.length_bytes ..

/-- A partition is its blocks one after the other. -/
theorem Contents.bytes_mul (contents : Contents) (idx n : Nat) :
    (contents idx).bytes (n * erasesize) =
      (List.range n).flatMap fun k => contents.block erasesize (idx, k) := by
  induction n with
  | zero =>
      rw [Nat.zero_mul]
      rfl
  | succ n ih =>
      rw [Nat.succ_mul, Mem.bytes_add, ih, List.range_succ, List.flatMap_append,
        List.flatMap_singleton]
      rfl

theorem Contents.eq_of_block_eq {contents contents' : Contents} {b : Nat × Nat} {i : Nat}
    (h : contents.block erasesize b = contents'.block erasesize b) (hi : i < erasesize) :
    contents b.1 (b.2 * erasesize + i) = contents' b.1 (b.2 * erasesize + i) :=
  Mem.bytes_eq_iff.mp h i hi

/-- No byte is the same in all contents. -/
theorem Contents.not_forall_eq (idx pos : Nat) (v : UInt8) :
    ¬ ∀ contents : Contents, contents idx pos = v := by
  intro h
  have hzero := h fun _ _ => 0
  have hone := h fun _ _ => 1
  exact absurd (hzero.trans hone.symm) (by decide)

/-- A block is left alone by operations on others. -/
theorem apply_block {b : Nat × Nat} (contents : Contents) (h : ¬ op.Touches erasesize b) :
    Contents.block erasesize (op.apply erasesize contents) b = contents.block erasesize b := by
  apply Mem.bytes_congr
  intro i hi
  simp only [Mem.shift_apply]
  cases op with
  | erase part block ok =>
      cases ok with
      | false => rfl
      | true =>
          by_cases hpart : b.1 = part
          · have hblock : block ≠ b.2 := fun heq => h ⟨rfl, Prod.ext hpart.symm heq⟩
            have hout : ¬ (block * erasesize ≤ b.2 * erasesize + i ∧
                b.2 * erasesize + i < block * erasesize + erasesize) := by
              rintro ⟨hle, hlt⟩
              apply hblock
              have h₁ : block < b.2 + 1 := by
                apply Nat.lt_of_mul_lt_mul_right (a := erasesize)
                rw [Nat.add_mul, Nat.one_mul]
                omega
              have h₂ : b.2 < block + 1 := by
                apply Nat.lt_of_mul_lt_mul_right (a := erasesize)
                rw [Nat.add_mul, Nat.one_mul]
                omega
              omega
            rw [FlashOp.apply, hpart, Function.update_self, Mem.fill, if_neg hout]
          · rw [FlashOp.apply, Function.update_of_ne hpart]
  | write part pos bytes =>
      by_cases hpart : b.1 = part
      · have hout : ¬ (pos ≤ b.2 * erasesize + i ∧ b.2 * erasesize + i < pos + bytes.length) := by
          rintro ⟨hle, hlt⟩
          refine h ⟨hpart.symm, ?_, by omega⟩
          rw [Nat.add_mul, Nat.one_mul]
          omega
        rw [FlashOp.apply, hpart, Function.update_self, program, if_neg hout]
      · rw [FlashOp.apply, Function.update_of_ne hpart]

theorem after_block {b : Nat × Nat} {log : List FlashOp} (contents : Contents)
    (h : ∀ op ∈ log, ¬ op.Touches erasesize b) :
    (after erasesize log contents).block erasesize b = contents.block erasesize b := by
  induction log generalizing contents with
  | nil => rfl
  | cons op log ih =>
      rw [List.forall_mem_cons] at h
      exact (ih _ h.2).trans (apply_block contents h.1)

theorem ff_and (b : UInt8) : 0xff &&& b = b := by
  apply UInt8.toNat_inj.mp
  rw [UInt8.toNat_and, Nat.and_comm]
  exact (Nat.and_two_pow_sub_one_eq_mod b.toNat 8).trans (Nat.mod_eq_of_lt b.toNat_lt)

/-- A block that is erased and written holds what was written. -/
theorem after_erase_write (contents : Contents) {bytes : List UInt8}
    (hlen : bytes.length = erasesize) :
    (after erasesize [.erase part k true, .write part (k * erasesize) bytes] contents).block
      erasesize (part, k) = bytes := by
  apply List.ext_getElem
  · rw [Contents.length_block, hlen]
  · intro i hi hi'
    have hin : k * erasesize ≤ k * erasesize + i ∧
        k * erasesize + i < k * erasesize + bytes.length := by omega
    rw [Contents.length_block] at hi
    simp only [Contents.block, Mem.bytes, List.getElem_map, List.getElem_range, Mem.shift_apply,
      after, List.foldl_cons, List.foldl_nil, FlashOp.apply, Function.update_self, program]
    rw [if_pos hin, Mem.fill_inside (by omega), ff_and, Nat.add_sub_cancel_left,
      List.getD_eq_getElem _ _ hi']

end Contents

end Speedway.Mtd
