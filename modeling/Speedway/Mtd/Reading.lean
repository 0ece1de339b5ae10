import Mathlib.Data.List.TakeWhile
import Speedway.Mtd.Trace

/-!
# What can be read afterwards

The blocks of the partitions are read in order, without the bad ones; where a block could
not be erased, the reading goes on in the next partition.
-/

namespace Speedway.Mtd

open Speedway.Lib

section PassOps

variable {erasesize p idx c j k : Nat} {image : List UInt8} {part : Part} {op : FlashOp}

theorem mem_passOps :
    op ∈ passOps erasesize p image idx part c j ↔
      ∃ i, i < j ∧ part.isGood i = true ∧ (op = .erase idx (p + i) true ∨
        op = .write idx ((p + i) * erasesize)
          (block erasesize 0xff image (c + part.goodCount i))) := by
  induction j with
  | zero => simp [passOps]
  | succ j ih =>
      rw [passOps, List.mem_append, ih]
      constructor
      · rintro (⟨i, hi, hgood, hop⟩ | hop)
        · exact ⟨i, Nat.lt_succ_of_lt hi, hgood, hop⟩
        · split at hop
          next hgood =>
            refine ⟨j, Nat.lt_succ_self j, hgood, ?_⟩
            simpa using hop
          · exact absurd hop List.not_mem_nil
      · rintro ⟨i, hi, hgood, hop⟩
        rcases Nat.eq_or_lt_of_le (Nat.le_of_lt_succ hi) with rfl | hi
        · refine .inr ?_
          rw [if_pos hgood]
          simpa using hop
        · exact .inl ⟨i, hi, hgood, hop⟩

theorem part_of_mem_passOps (h : op ∈ passOps erasesize p image idx part c j) : op.part = idx := by
  obtain ⟨i, -, -, rfl | rfl⟩ := mem_passOps.mp h <;> rfl

theorem erase_mem_passOps :
    .erase idx k true ∈ passOps erasesize p image idx part c j ↔
      ∃ i, i < j ∧ part.isGood i = true ∧ k = p + i := by
  rw [mem_passOps]
  simp

theorem not_fails_mem_passOps {idx' : Nat} :
    .erase idx' k false ∉ passOps erasesize p image idx part c j := by
  rw [mem_passOps]
  simp

theorem touches_part {b : Nat × Nat} (h : op.Touches erasesize b) : op.part = b.1 := by
  cases op with
  | erase part block ok => exact congrArg Prod.fst h.2
  | write part pos bytes => exact h.1

/-- A write of one block touches no other. -/
theorem touches_block_write {b : Nat × Nat} {bytes : List UInt8} (hlen : bytes.length = erasesize)
    (h : (FlashOp.write idx (k * erasesize) bytes).Touches erasesize b) : b = (idx, k) := by
  obtain ⟨hpart, hlo, hhi⟩ := h
  rw [hlen, ← Nat.succ_mul] at hhi
  have h₁ := Nat.lt_of_mul_lt_mul_right hlo
  have h₂ := Nat.lt_of_mul_lt_mul_right hhi
  exact Prod.ext hpart.symm (by omega)

theorem touches_passOps {b : Nat × Nat} (h : op ∈ passOps erasesize p image idx part c j)
    (htouches : op.Touches erasesize b) :
    ∃ i, i < j ∧ part.isGood i = true ∧ b = (idx, p + i) := by
  obtain ⟨i, hi, hgood, rfl | rfl⟩ := mem_passOps.mp h
  · exact ⟨i, hi, hgood, htouches.2.symm⟩
  · exact ⟨i, hi, hgood, touches_block_write (length_block ..) htouches⟩

/-- A trace only goes on to later partitions. -/
theorem Trace.part_le {parts : List Part} {ops : List FlashOp}
    (h : Trace erasesize p image idx parts c ops) : ∀ op ∈ ops, idx ≤ op.part := by
  induction h with
  | finished => exact fun op hop => Nat.le_of_eq (part_of_mem_passOps hop).symm
  | left _ _ _ _ _ ih =>
      intro op hop
      rcases List.mem_append.mp hop with hop | hop
      · exact Nat.le_of_eq (part_of_mem_passOps hop).symm
      · rcases List.mem_cons.mp hop with rfl | hop
        · exact Nat.le_refl _
        · exact Nat.le_of_succ_le (ih op hop)
  | broken hops =>
      intro op hop
      rcases List.mem_append.mp hop with hop | hop
      · exact Nat.le_of_eq (part_of_mem_passOps hop).symm
      · rcases List.mem_cons.mp hop with rfl | hop
        · exact Nat.le_refl _
        · rcases List.mem_cons.mp hop with rfl | hop
          · exact Nat.le_refl _
          · exact hops op hop

/-- After a pass the blocks that were written hold the image. -/
theorem after_passOps (contents : Contents) {i : Nat} (hi : i < j) (hgood : part.isGood i = true) :
    (after erasesize (passOps erasesize p image idx part c j) contents).block erasesize
      (idx, p + i) = block erasesize 0xff image (c + part.goodCount i) := by
  induction j with
  | zero => exact absurd hi (Nat.not_lt_zero i)
  | succ j ih =>
      rw [passOps, after_append]
      rcases Nat.eq_or_lt_of_le (Nat.le_of_lt_succ hi) with rfl | hi
      · rw [if_pos hgood]
        exact after_erase_write _ (length_block ..)
      · rw [after_block]
        · exact ih hi
        · intro op hop htouches
          split at hop
          next hgoodj =>
            have hother : (idx, p + i) = (idx, p + j) := by
              rcases List.mem_pair.mp hop with rfl | rfl
              · exact htouches.2.symm
              · exact touches_block_write (length_block ..) htouches
            have := congrArg Prod.snd hother
            simp only at this
            omega
          · exact absurd hop List.not_mem_nil

/-- The other blocks of the partition are what they were. -/
theorem after_passOps_other (contents : Contents)
    (hother : ∀ i, i < j → part.isGood i = true → k ≠ p + i) :
    (after erasesize (passOps erasesize p image idx part c j) contents).block erasesize (idx, k) =
      contents.block erasesize (idx, k) := by
  apply after_block
  intro op hop htouches
  obtain ⟨i, hi, hgood, heq⟩ := touches_passOps hop htouches
  exact hother i hi hgood (congrArg Prod.snd heq)

end PassOps

section Reading

variable {erasesize p idx c j : Nat} {image : List UInt8} {part : Part} {rest : List Part}
  {log : List FlashOp}

/-- An erase failed in a partition. -/
def leftIn (log : List FlashOp) (idx : Nat) : Bool :=
  log.any fun op => match op with
    | .erase part _ false => part == idx
    | _ => false

/-- The blocks that are read, in order: from the offset on, without the bad ones, and up to
a block whose erase failed. -/
def readBlocks (p : Nat) (log : List FlashOp) : Nat → List Part → List (Nat × Nat)
  | _, [] => []
  | idx, part :: rest =>
      let upTo := (List.range' p (part.size - p)).takeWhile
        fun k => decide (.erase idx k false ∉ log)
      (upTo.filter part.isGood).map (idx, ·) ++
        if leftIn log idx then readBlocks p log (idx + 1) rest else []

/-- The good blocks before block `j`. -/
def Part.goods (part : Part) (j : Nat) : List Nat := (List.range j).filter part.isGood

theorem Part.goods_succ (part : Part) (j : Nat) :
    part.goods (j + 1) = part.goods j ++ if part.isGood j = true then [j] else [] := by
  rw [goods, List.range_succ, List.filter_append, ← goods]
  split
  next hgood => rw [List.filter_singleton, hgood]; rfl
  next hbad => rw [List.filter_singleton, Bool.eq_false_iff.mpr hbad]; rfl

/-- The good blocks are counted one by one. -/
theorem Part.goods_map_goodCount (part : Part) (j : Nat) :
    (part.goods j).map part.goodCount = List.range (part.goodCount j) := by
  induction j with
  | zero => rfl
  | succ j ih =>
      rw [goods_succ, List.map_append, ih, goodCount_succ]
      split
      · rw [List.range_succ]
        rfl
      · rw [List.map_nil, List.append_nil, Nat.add_zero]

theorem Part.length_goods (part : Part) (j : Nat) : (part.goods j).length = part.goodCount j := by
  have := congrArg List.length (part.goods_map_goodCount j)
  rwa [List.length_map, List.length_range] at this

theorem leftIn_eq_true_iff : leftIn log idx = true ↔ ∃ k, .erase idx k false ∈ log := by
  rw [leftIn, List.any_eq_true]
  constructor
  · rintro ⟨op, hop, hleft⟩
    match op with
    | .erase part k false =>
        rw [beq_iff_eq] at hleft
        exact ⟨k, hleft ▸ hop⟩
    | .erase part k true => exact nomatch hleft
    | .write part pos bytes => exact nomatch hleft
  · rintro ⟨k, hk⟩
    exact ⟨_, hk, beq_self_eq_true idx⟩

/-- A partition that was not left is read up to its end. -/
theorem readBlocks_finished (h : ∀ k, .erase idx k false ∉ log) :
    readBlocks p log idx (part :: rest) =
      ((List.range' p (part.size - p)).filter part.isGood).map (idx, ·) := by
  have hleft : leftIn log idx = false := by
    rw [Bool.eq_false_iff]
    intro htrue
    obtain ⟨k, hk⟩ := leftIn_eq_true_iff.mp htrue
    exact h k hk
  have hall : ∀ k ∈ List.range' p (part.size - p), decide (.erase idx k false ∉ log) = true :=
    fun k _ => decide_eq_true (h k)
  rw [readBlocks, hleft, if_neg Bool.false_ne_true, List.append_nil,
    List.takeWhile_eq_self_iff.mpr hall]

/-- A partition that was left after `f` blocks is read up to there. -/
theorem readBlocks_left {f : Nat} (h : ∀ k, .erase idx k false ∈ log ↔ k = p + f)
    (hroom : f = 0 ∨ p + f ≤ part.size) :
    readBlocks p log idx (part :: rest) =
      ((List.range' p f).filter part.isGood).map (idx, ·) ++
        readBlocks p log (idx + 1) rest := by
  have hleft : leftIn log idx = true := leftIn_eq_true_iff.mpr ⟨p + f, (h _).mpr rfl⟩
  have hupTo : (List.range' p (part.size - p)).takeWhile
      (fun k => decide (.erase idx k false ∉ log)) = List.range' p f := by
    have hbefore : ∀ k ∈ List.range' p f, decide (.erase idx k false ∉ log) = true := by
      intro k hk
      rw [List.mem_range'_1] at hk
      apply decide_eq_true
      rw [h]
      omega
    rw [show part.size - p = f + (part.size - p - f) by omega, ← List.range'_append_1,
      List.takeWhile_append_of_pos hbefore]
    cases part.size - p - f with
    | zero => simp
    | succ m =>
        rw [List.range'_succ, List.takeWhile_cons_of_neg, List.append_nil]
        rw [decide_eq_true_iff, not_not, h]
  rw [readBlocks, hleft, if_pos rfl, hupTo]

end Reading

end Speedway.Mtd
