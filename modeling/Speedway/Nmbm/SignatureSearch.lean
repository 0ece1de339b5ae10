import Mathlib.Data.List.Basic
import Speedway.Nmbm.Sample

/-!
# The search for the signature

`nmbm_find_signature` tests its block number against the limit before it lowers
the number. So the block below the limit is examined when the management area has
no signature, and with a limit of 0 the number wraps and the search goes on.

What is done with a block (the check for a bad block and the page loop) is a
parameter of the loop here: nothing below depends on the contents of the flash.
-/

namespace Speedway.Nmbm

open Speedway.Lib

/-- `block_count` in `nmbm_find_signature`, a `uint32_t`. -/
def searchBlockCount (d : LowerDevice) : Nat := d.size / d.erasesize % 2 ^ 32

/-- `limit` in `nmbm_find_signature`. -/
def searchLimit (d : LowerDevice) : Nat :=
  let blockCount := searchBlockCount d
  let limit := blockCount / mgmtDiv * subU32 mgmtDiv d.maxRatio % 2 ^ 32
  if d.maxReservedBlocks ≠ 0 ∧ d.maxReservedBlocks < subU32 blockCount limit then
    subU32 blockCount d.maxReservedBlocks
  else limit

section Loop

variable {σ α : Type*} (examine : Nat → σ → Option α × σ) (limit : Nat)

/-- The block loop of `nmbm_find_signature` for at most `fuel` rounds; `none` means
that it is still running. -/
def searchDown : Nat → Nat → σ → Option (Option (α × Nat) × σ)
  | 0, _, _ => none
  | fuel + 1, ba, c =>
      if ba < limit then some (none, c)
      else
        let r := examine (subU32 ba 1) c
        match r.1 with
        | some a => some (some (a, subU32 ba 1), r.2)
        | none => searchDown fuel (subU32 ba 1) r.2

/-- The blocks that are examined in at most `fuel` rounds. -/
def searchedBlocks : Nat → Nat → σ → List Nat
  | 0, _, _ => []
  | fuel + 1, ba, c =>
      if ba < limit then []
      else
        let r := examine (subU32 ba 1) c
        subU32 ba 1 :: if r.1.isSome then [] else searchedBlocks fuel (subU32 ba 1) r.2

/-- The `n` blocks from `limit` on are examined, the last one first, up to the first
one with a signature. -/
def searchArea : Nat → σ → Option (α × Nat)
  | 0, _ => none
  | n + 1, c =>
      let r := examine (limit + n) c
      match r.1 with
      | some a => some (a, limit + n)
      | none => searchArea n r.2

/-- The search returns, and examines only blocks of `[limit, count)`. -/
structure SearchInside (count : Nat) (c : σ) : Prop where
  returns : ∃ n, ∀ fuel, n ≤ fuel → (searchDown examine limit fuel count c).isSome = true
  inside : ∀ fuel, ∀ ba ∈ searchedBlocks examine limit fuel count c, limit ≤ ba ∧ ba < count

variable {examine limit}

theorem subU32_succ (a : Nat) : subU32 (a + 1) 1 = a := subU32_of_le (Nat.succ_pos a)

/-- A signature in the area ends the search in the area. -/
theorem searchDown_found {n fuel : Nat} {c : σ} (h : (searchArea examine limit n c).isSome = true)
    (hfuel : n ≤ fuel) : (searchDown examine limit fuel (limit + n) c).isSome = true := by
  induction n generalizing fuel c with
  | zero => exact absurd h Bool.false_ne_true
  | succ n ih =>
      obtain ⟨fuel, rfl⟩ := Nat.exists_eq_succ_of_ne_zero (show fuel ≠ 0 by omega)
      simp only [searchArea] at h
      simp only [searchDown]
      rw [if_neg (by omega), ← Nat.add_assoc, subU32_succ]
      cases hr : (examine (limit + n) c).1 with
      | some a => rfl
      | none =>
          rw [hr] at h
          exact ih h (by omega)

theorem searchedBlocks_found {n fuel : Nat} {c : σ}
    (h : (searchArea examine limit n c).isSome = true) :
    ∀ ba ∈ searchedBlocks examine limit fuel (limit + n) c, limit ≤ ba ∧ ba < limit + n := by
  induction n generalizing fuel c with
  | zero => exact absurd h Bool.false_ne_true
  | succ n ih =>
      cases fuel with
      | zero => exact List.forall_mem_nil _
      | succ fuel =>
          simp only [searchArea] at h
          simp only [searchedBlocks]
          rw [if_neg (by omega), ← Nat.add_assoc, subU32_succ, List.forall_mem_cons]
          refine ⟨by omega, ?_⟩
          cases hr : (examine (limit + n) c).1 with
          | some a => exact List.forall_mem_nil _
          | none =>
              rw [hr] at h
              intro ba hba
              have := ih h ba hba
              omega

/-- Without a signature in the area the block below it is examined, too. -/
theorem searchedBlocks_none {n : Nat} {c : σ} (h : searchArea examine limit n c = none) :
    subU32 limit 1 ∈ searchedBlocks examine limit (n + 1) (limit + n) c := by
  induction n generalizing c with
  | zero =>
      simp only [searchedBlocks, Nat.add_zero]
      rw [if_neg (Nat.lt_irrefl limit)]
      exact List.mem_cons_self
  | succ n ih =>
      simp only [searchArea] at h
      rw [searchedBlocks]
      simp only
      rw [if_neg (by omega), ← Nat.add_assoc, subU32_succ]
      cases hr : (examine (limit + n) c).1 with
      | some a =>
          rw [hr] at h
          exact absurd h (Option.some_ne_none _)
      | none =>
          rw [hr] at h
          exact List.mem_cons_of_mem _ (ih h)

theorem searchInside_iff {n : Nat} (hn : limit + n < 2 ^ 32) (c : σ) :
    SearchInside examine limit (limit + n) c ↔ (searchArea examine limit n c).isSome = true := by
  constructor
  · intro h
    rw [Option.isSome_iff_ne_none]
    intro hnone
    obtain ⟨hlo, hhi⟩ := h.inside (n + 1) _ (searchedBlocks_none hnone)
    rcases Nat.eq_zero_or_pos limit with rfl | hpos
    · -- the number has wrapped
      have hwrap : subU32 0 1 = 2 ^ 32 - 1 := rfl
      omega
    · rw [subU32_of_le hpos] at hlo
      omega
  · intro h
    exact ⟨⟨n, fun fuel hfuel => searchDown_found h hfuel⟩, fun fuel => searchedBlocks_found h⟩

/-- With a limit of 0 the search only ends at a signature. -/
theorem searchDown_zero (hexamine : ∀ ba c, (examine ba c).1 = none) (fuel ba : Nat) (c : σ) :
    searchDown examine 0 fuel ba c = none := by
  induction fuel generalizing ba c with
  | zero => rfl
  | succ fuel ih =>
      rw [searchDown, if_neg (Nat.not_lt_zero ba)]
      simp only [hexamine]
      exact ih _ _

end Loop

section Devices

variable {nld d : LowerDevice}

theorem searchLimit_le (h : checkLowerMembers nld = some d) :
    searchLimit d ≤ searchBlockCount d := by
  have hratio : d.maxRatio ≤ mgmtDiv := (checkLowerMembers_some h).2.2.2.1.le.trans (by decide)
  have hle : searchBlockCount d / mgmtDiv * (mgmtDiv - d.maxRatio) % 2 ^ 32 ≤
      searchBlockCount d :=
    calc
      _ ≤ searchBlockCount d / mgmtDiv * (mgmtDiv - d.maxRatio) := Nat.mod_le ..
      _ ≤ searchBlockCount d / mgmtDiv * mgmtDiv := Nat.mul_le_mul_left _ (Nat.sub_le ..)
      _ ≤ searchBlockCount d := Nat.div_mul_le_self ..
  simp only [searchLimit, subU32_of_le hratio]
  split
  next hreserved =>
    rw [subU32_of_le hle] at hreserved
    rw [subU32_of_le (by omega)]
    exact Nat.sub_le ..
  · exact hle

/-- On every device that passes the test of the members the search returns and stays
in the management area if and only if a block of the area has a signature. -/
theorem findSignature_inside_iff {σ α : Type*} (nld d : LowerDevice)
    (h : checkLowerMembers nld = some d) (examine : Nat → σ → Option α × σ) (c : σ) :
    SearchInside examine (searchLimit d) (searchBlockCount d) c ↔
      (searchArea examine (searchLimit d) (searchBlockCount d - searchLimit d) c).isSome =
        true := by
  have hcount : searchBlockCount d < 2 ^ 32 := Nat.mod_lt _ (by decide)
  have hadd : searchLimit d + (searchBlockCount d - searchLimit d) = searchBlockCount d :=
    Nat.add_sub_cancel' (searchLimit_le h)
  have hiff : SearchInside examine (searchLimit d)
      (searchLimit d + (searchBlockCount d - searchLimit d)) c ↔
        (searchArea examine (searchLimit d) (searchBlockCount d - searchLimit d) c).isSome = true :=
    searchInside_iff (by omega) c
  rwa [hadd] at hiff

variable (g : Geometry) (dev : Device)

/-- What `nmbm_find_signature` does with a block. -/
def examineBlock (ba : Nat) (c : Chip) : Option Signature × Chip :=
  let b := checkBadPhysBlock g dev ba c
  if b.1 then (none, b.2) else findInBlock g dev g.pagesPerBlock (ba * g.pagesPerBlock) b.2

theorem findSignatureLoop_eq_searchDown (limit fuel ba : Nat) (c : Chip) :
    findSignatureLoop g dev limit fuel ba c =
      searchDown (examineBlock g dev) limit fuel ba c := by
  induction fuel generalizing ba c with
  | zero => rfl
  | succ fuel ih =>
      simp only [findSignatureLoop, searchDown, examineBlock]
      split
      · rfl
      · cases (checkBadPhysBlock g dev (subU32 ba 1) c).1 with
        | true => exact ih _ _
        | false =>
            simp only [Bool.false_eq_true, if_false]
            split
            next sig hsig => rw [hsig]
            next hnone =>
              rw [hnone]
              exact ih _ _

theorem searchBlockCount_eq : searchBlockCount g.toLowerDevice = g.blockCount :=
  Nat.mod_eq_of_lt (g.blockCount_lt.trans (by decide))

theorem searchLimit_eq : searchLimit g.toLowerDevice = findSignatureLimit g := by
  have hratio : g.maxRatio ≤ mgmtDiv :=
    (checkLowerMembers_some g.accepted).2.2.2.1.le.trans (by decide)
  have hle : g.blockCount / mgmtDiv * (mgmtDiv - g.maxRatio) ≤ g.blockCount :=
    (Nat.mul_le_mul_left _ (Nat.sub_le ..)).trans (Nat.div_mul_le_self ..)
  have hlt := g.blockCount_lt
  rw [searchLimit, searchBlockCount_eq, subU32_of_le hratio, Nat.mod_eq_of_lt (by omega)]
  rfl

/-- The loop is that of `nmbm_find_signature`. -/
theorem findSignature_eq_searchDown (fuel : Nat) (c : Chip) :
    findSignature g dev fuel c =
      searchDown (examineBlock g dev) (searchLimit g.toLowerDevice) fuel
        (searchBlockCount g.toLowerDevice) c := by
  rw [findSignature, findSignatureLoop_eq_searchDown, searchLimit_eq, searchBlockCount_eq]

end Devices

section Samples

/-- The small chip with eight blocks. -/
def tinyGeometry : Geometry where
  toLowerDevice := { (smallGeometry false).toLowerDevice with size := 2048 }
  accepted := rfl
  pageInBlock := by decide
  tablesFit := by decide
  sizeFits := by decide

/-- A device that reports every block as bad. -/
def allBadDevice : Device := fun _ _ => ⟨1, fun _ => .blank⟩

theorem examineBlock_allBad (ba : Nat) (c : Chip) :
    (examineBlock tinyGeometry allBadDevice ba c).1 = none := rfl

set_option maxRecDepth 100000 in
/-- After creation the search ends at the signature. -/
theorem findSignature_inside_created :
    checkLowerMembers (smallGeometry false).toLowerDevice =
        some (smallGeometry false).toLowerDevice ∧
      SearchInside (examineBlock (smallGeometry false) smallDevice)
        (searchLimit (smallGeometry false).toLowerDevice)
        (searchBlockCount (smallGeometry false).toLowerDevice) smallWorld.chip :=
  ⟨rfl, (findSignature_inside_iff (smallGeometry false).toLowerDevice _ rfl _ _).mpr
    (by decide +kernel)⟩

set_option maxRecDepth 100000 in
/-- On a blank chip with the limit 16 block 15 is examined, and on a chip with eight
blocks, where the limit is 0, the search never returns. -/
theorem signature_search_leaves_area :
    searchLimit (smallGeometry false).toLowerDevice = 16 ∧
      15 ∈ searchedBlocks (examineBlock (smallGeometry false) smallDevice) 16 17 32 blankChip ∧
      searchLimit tinyGeometry.toLowerDevice = 0 ∧
      ∀ fuel, findSignature tinyGeometry allBadDevice fuel blankChip = none := by
  refine ⟨by decide, by decide +kernel, by decide, fun fuel => ?_⟩
  exact (findSignatureLoop_eq_searchDown ..).trans
    (searchDown_zero examineBlock_allBad fuel _ blankChip)

end Samples

end Speedway.Nmbm
