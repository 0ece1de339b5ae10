import Speedway.Nmbm.Operations

/-!
# A small chip for concrete runs

Thirty-two blocks of four 64-byte pages, half of them for management. An info
table fills one block, and whole runs can be evaluated.
-/

namespace Speedway.Nmbm

open Speedway.Lib

/-- The small chip, attached for reading only or not. -/
def smallGeometry (readOnly : Bool) : Geometry where
  maxRatio := 8
  maxReservedBlocks := 0
  create := true
  emptyPageEccOk := false
  readOnly := readOnly
  size := 8192
  erasesize := 256
  writesize := 64
  oobsize := 1
  hasReadPage := true
  hasWritePage := true
  hasPanicWritePage := true
  hasEraseBlock := true
  hasIsBadBlock := true
  hasMarkBadBlock := true
  accepted := by cases readOnly <;> rfl
  pageInBlock := by decide
  tablesFit := by cases readOnly <;> decide
  sizeFits := by decide

/-- A device with factory-bad blocks `bad` on which the calls chosen by `fails`
fail and all other calls succeed. -/
def sampleDevice (bad : List Nat) (fails : Nat → Request → Bool) : Device := fun t r =>
  match fails t r, r with
  | true, _ => ⟨-5, fun _ => .blank⟩
  | false, .isBadBlock b => ⟨if b ∈ bad then 1 else 0, fun _ => .blank⟩
  | false, _ => ⟨0, fun _ => .blank⟩

/-- An erased chip. -/
def blankChip : Chip := ⟨fun _ => .blank, 0, [], fun _ => 0⟩

/-- The world after `nmbm_attach`. -/
def attached (g : Geometry) (dev : Device) (fuel : Nat) (c : Chip) : World :=
  ((attach g dev fuel c).map Prod.snd).getD (initWorld g c)

/-- A run that can be evaluated starts in a reachable world. -/
theorem reachable_attached {g : Geometry} {dev : Device} {fuel : Nat} {c : Chip}
    (h : (attach g dev fuel c).map Prod.fst = some .created) :
    Reachable g dev (attached g dev fuel c) := by
  unfold attached
  cases ha : attach g dev fuel c with
  | none => simp [ha] at h
  | some r =>
      obtain ⟨res, w⟩ := r
      rw [ha] at h
      have hres : res = .created := by simpa using h
      subst hres
      exact .created ha

/-- A world after creation, evaluated once for all that is said about it. -/
theorem exists_reachable {g : Geometry} {dev : Device} {P : World → Prop} (fuel : Nat) (c : Chip)
    (h : (attach g dev fuel c).map Prod.fst = some .created ∧ P (attached g dev fuel c)) :
    ∃ w, Reachable g dev w ∧ P w :=
  ⟨_, reachable_attached h.1, h.2⟩

/-- The small chip with two factory-bad data blocks, on which no call fails. -/
def smallDevice : Device := sampleDevice [0, 1] fun _ _ => false

/-- The world after creation on that chip. -/
def smallWorld : World := attached (smallGeometry false) smallDevice 64 blankChip

set_option maxRecDepth 100000 in
theorem smallWorld_reachable : Reachable (smallGeometry false) smallDevice smallWorld :=
  reachable_attached (by decide +kernel)

end Speedway.Nmbm
