import Speedway.Nmbm.Written

/-!
# The layout of the management area

`Layout` orders the boundaries and places the blocks of the two tables, whose
extents the instance does not record. `TableStep` is what every function that
updates, rescues or rebuilds the tables may do to a world.
-/

namespace Speedway.Nmbm

open Speedway.Lib

/-- The layout invariant of the management area. -/
structure Layout (g : Geometry) (w : World) : Prop where
  mgmt_le : w.ni.mgmtStartBa ≤ w.ni.mappingBlocksBa
  mapping_le : w.ni.mappingBlocksBa ≤ w.ni.mappingBlocksTopBa
  top_lt : w.ni.mappingBlocksTopBa < w.ni.signatureBa
  signature_lt : w.ni.signatureBa < g.blockCount
  mainHead : w.ni.mainTableBa ≠ 0 → w.mainBlocks.head? = some w.ni.mainTableBa
  backupHead : w.ni.backupTableBa ≠ 0 → w.backupBlocks.head? = some w.ni.backupTableBa
  main : ∀ b ∈ w.mainBlocks, w.ni.mgmtStartBa ≤ b ∧ b < w.ni.mappingBlocksBa
  backup : ∀ b ∈ w.backupBlocks, w.ni.backupTableBa ≤ b ∧ b < w.ni.mappingBlocksBa
  noBackup : w.ni.backupTableBa = 0 → w.backupBlocks = []
  order : w.ni.backupTableBa ≠ 0 → w.ni.mgmtStartBa ≤ w.ni.backupTableBa ∧
    w.ni.backupTableBa ≤ w.ni.mappingBlocksBa ∧ ∀ b ∈ w.mainBlocks, b < w.ni.backupTableBa

/-- The members no table function changes. -/
structure Kept (ni ni' : Instance) : Prop where
  blockMapping : ni'.blockMapping = ni.blockMapping
  dataBlockCount : ni'.dataBlockCount = ni.dataBlockCount
  mgmtStartBa : ni'.mgmtStartBa = ni.mgmtStartBa
  mappingBlocksTopBa : ni'.mappingBlocksTopBa = ni.mappingBlocksTopBa
  signatureBa : ni'.signatureBa = ni.signatureBa
  stateTableOff : ni'.infoTable.stateTableOff = ni.infoTable.stateTableOff
  mappingTableOff : ni'.infoTable.mappingTableOff = ni.infoTable.mappingTableOff

/-- The events inside an update of the tables. Maintenance stays below the
remapped blocks, and nothing is mapped or unmapped. -/
def TableEvent (ni : Instance) : Event → Prop
  | .maintain before ops => Kept ni before ∧
      ∀ op ∈ ops, ni.mgmtStartBa ≤ op.block ∧ op.block < ni.mappingBlocksTopBa
  | .markTablesClean _ => True
  | _ => False

/-- What the table functions may do to a world. -/
structure TableStep (g : Geometry) (w w' : World) : Prop where
  chip : Evolves g (fun b => w.ni.mgmtStartBa ≤ b ∧ b < w.ni.mappingBlocksTopBa) w.chip w'.chip
  kept : Kept w.ni w'.ni
  trace : ∃ new, w'.trace = w.trace ++ new ∧ ∀ e ∈ new, TableEvent w.ni e
  protect : w.ni.isProtected = true → w'.ni.isProtected = true
  state : ∀ b, w'.blockStateOf b = w.blockStateOf b ∨
    (w.ni.mgmtStartBa ≤ b ∧ b < w.ni.mappingBlocksTopBa) ∧ w'.blockStateOf b = stBad
  good : w.ni.mappingBlocksTopBa ≤ g.blockCount → goodCount g w' ≤ goodCount g w ∧
    goodCount g w' + w'.ni.blockStateChanged ≤ goodCount g w + w.ni.blockStateChanged

theorem Kept.refl {ni : Instance} : Kept ni ni := ⟨rfl, rfl, rfl, rfl, rfl, rfl, rfl⟩

theorem Kept.trans {a b c : Instance} (h : Kept a b) (h' : Kept b c) : Kept a c where
  blockMapping := h'.blockMapping.trans h.blockMapping
  dataBlockCount := h'.dataBlockCount.trans h.dataBlockCount
  mgmtStartBa := h'.mgmtStartBa.trans h.mgmtStartBa
  mappingBlocksTopBa := h'.mappingBlocksTopBa.trans h.mappingBlocksTopBa
  signatureBa := h'.signatureBa.trans h.signatureBa
  stateTableOff := h'.stateTableOff.trans h.stateTableOff
  mappingTableOff := h'.mappingTableOff.trans h.mappingTableOff

theorem TableEvent.of_kept {ni ni' : Instance} (hk : Kept ni ni') {e : Event}
    (h : TableEvent ni' e) : TableEvent ni e := by
  cases e with
  | maintain before ops =>
      obtain ⟨hbefore, hops⟩ := h
      rw [hk.mgmtStartBa, hk.mappingBlocksTopBa] at hops
      exact ⟨hk.trans hbefore, hops⟩
  | markTablesClean => trivial
  | mapBlock | update | remapFailed | markBad | checkTable => exact h.elim

namespace TableStep

variable {g : Geometry} {w w' w'' : World}

theorem trans (h : TableStep g w w') (h' : TableStep g w' w'') : TableStep g w w'' where
  chip := h.chip.trans (h'.chip.mono fun b hb => by
    rw [h.kept.mgmtStartBa, h.kept.mappingBlocksTopBa] at hb
    exact hb)
  kept := h.kept.trans h'.kept
  trace := by
    obtain ⟨new, hnew, hev⟩ := h.trace
    obtain ⟨new', hnew', hev'⟩ := h'.trace
    refine ⟨new ++ new', by rw [hnew', hnew, List.append_assoc], fun e he => ?_⟩
    rcases List.mem_append.mp he with hm | hm
    · exact hev e hm
    · exact (hev' e hm).of_kept h.kept
  protect hp := h'.protect (h.protect hp)
  state b := by
    have h₂ := h'.state b
    rw [h.kept.mgmtStartBa, h.kept.mappingBlocksTopBa] at h₂
    rcases h₂ with heq | hbad
    · rw [heq]
      exact h.state b
    · exact .inr hbad
  good hle := by
    have h₁ := h.good hle
    have h₂ := h'.good (by rw [h.kept.mappingBlocksTopBa]; exact hle)
    omega

/-- Maintenance of a part of the management area. -/
theorem of_maint {lo hi : Nat} (h : Maint g lo hi w w') (hlo : w.ni.mgmtStartBa ≤ lo)
    (hhi : hi ≤ w.ni.mappingBlocksTopBa) : TableStep g w w' where
  chip := h.chip.mono fun b hb => by omega
  kept := by
    rw [h.ni]
    exact ⟨rfl, rfl, rfl, rfl, rfl, rfl, rfl⟩
  trace := by
    obtain ⟨new, hnew, hev⟩ := h.trace
    refine ⟨new, hnew, fun e he => ?_⟩
    obtain ⟨before, ops, rfl, hbefore, hops⟩ := hev e he
    refine ⟨?_, fun op hop => ?_⟩
    · rw [hbefore]
      exact ⟨rfl, rfl, rfl, rfl, rfl, rfl, rfl⟩
    · have := hops op hop
      omega
  protect hp := by
    rw [h.ni]
    exact hp
  state b := by
    rcases h.state b with heq | ⟨h₁, h₂, -, hbad⟩
    · exact .inl heq
    · exact .inr ⟨by omega, hbad⟩
  good hle := by
    have h₁ := h.good (by omega)
    have h₂ := h.count
    omega

/-- Changes of the boundaries, the caches and the ghost tables alone. -/
theorem of_instance (hchip : w'.chip = w.chip) (hkept : Kept w.ni w'.ni)
    (htrace : w'.trace = w.trace) (hprotect : w.ni.isProtected = true → w'.ni.isProtected = true)
    (hstate : w'.ni.blockState = w.ni.blockState)
    (hcount : w'.ni.blockStateChanged ≤ w.ni.blockStateChanged) : TableStep g w w' where
  chip := .of_eq (by rw [hchip]) (by rw [hchip])
  kept := hkept
  trace := ⟨[], by simp [htrace], by simp⟩
  protect := hprotect
  state b := .inl (by rw [World.blockStateOf, World.blockStateOf, hstate])
  good _ := by
    have hgood : goodCount g w' = goodCount g w := by
      unfold goodCount World.blockStateOf
      rw [hstate]
    omega

theorem refl : TableStep g w w := of_instance rfl .refl rfl id rfl (le_refl _)

theorem markTablesClean : TableStep g w w.markTablesClean where
  chip := .refl
  kept := ⟨rfl, rfl, rfl, rfl, rfl, rfl, rfl⟩
  trace := ⟨[.markTablesClean w.ni], rfl, by simp [TableEvent]⟩
  protect := id
  state _ := .inl rfl
  good _ := ⟨le_refl _, by
    show goodCount g w + 0 ≤ _
    omega⟩

end TableStep

theorem Layout.mainStart {g : Geometry} {w : World} (h : Layout g w)
    (h0 : w.ni.mainTableBa ≠ 0) : w.ni.mgmtStartBa ≤ w.ni.mainTableBa :=
  (h.main _ (List.mem_of_head? (h.mainHead h0))).1

/-- Maintenance moves no boundary and no table. -/
theorem Layout.maint {g : Geometry} {lo hi : Nat} {w w' : World} (h : Layout g w)
    (hm : Maint g lo hi w w') : Layout g w' := by
  have heq := hm.ni
  exact {
    mgmt_le := by rw [heq]; exact h.mgmt_le
    mapping_le := by rw [heq]; exact h.mapping_le
    top_lt := by rw [heq]; exact h.top_lt
    signature_lt := by rw [heq]; exact h.signature_lt
    mainHead := by rw [heq, hm.mainBlocks]; exact h.mainHead
    backupHead := by rw [heq, hm.backupBlocks]; exact h.backupHead
    main := by rw [heq, hm.mainBlocks]; exact h.main
    backup := by rw [heq, hm.backupBlocks]; exact h.backup
    noBackup := by rw [heq, hm.backupBlocks]; exact h.noBackup
    order := by rw [heq, hm.mainBlocks]; exact h.order }

/-- A step of the table functions that keeps the layout. -/
structure Safe (g : Geometry) (w w' : World) : Prop where
  layout : Layout g w'
  step : TableStep g w w'

namespace Safe

variable {g : Geometry} {lo hi : Nat} {w w' w'' : World}

theorem trans (h : Safe g w w') (h' : Safe g w' w'') : Safe g w w'' :=
  ⟨h'.layout, h.step.trans h'.step⟩

theorem of_maint (hl : Layout g w) (h : Maint g lo hi w w') (hlo : w.ni.mgmtStartBa ≤ lo)
    (hhi : hi ≤ w.ni.mappingBlocksTopBa) : Safe g w w' :=
  ⟨hl.maint h, .of_maint h hlo hhi⟩

theorem markTablesClean (hl : Layout g w) : Safe g w w.markTablesClean :=
  ⟨{ hl with }, .markTablesClean⟩

end Safe

section Boundaries

variable {g : Geometry} {lo hi : Nat} {data : Mem} {w : World} {r : RangeResult}

/-- A fresh main table below the backup table. -/
theorem safe_setMainTable (hl : Layout g r.w) (hw : Written g lo hi data g.infoTableSize r)
    (hlo : r.w.ni.mgmtStartBa ≤ lo) (hhi : hi ≤ r.w.ni.mappingBlocksBa)
    (hbackup : r.w.ni.backupTableBa ≠ 0 → hi ≤ r.w.ni.backupTableBa) :
    Safe g r.w (setMainTable r) where
  layout :=
    have h₁ := hw.lo_le
    have h₂ := hw.stop_le
    { hl with
      mainHead := fun _ => hw.head
      main := fun b hb => by
        have := hw.range b hb
        show r.w.ni.mgmtStartBa ≤ b ∧ b < r.w.ni.mappingBlocksBa
        omega
      order := fun h0 => by
        refine ⟨(hl.order h0).1, (hl.order h0).2.1, fun b hb => ?_⟩
        have := hw.range b hb
        have := hbackup h0
        show b < r.w.ni.backupTableBa
        omega }
  step := .of_instance rfl ⟨rfl, rfl, rfl, rfl, rfl, rfl, rfl⟩ rfl id rfl (le_refl _)

/-- A fresh main table as the only one. -/
theorem safe_setOnlyTable (hl : Layout g r.w) (hw : Written g lo hi data g.infoTableSize r)
    (hlo : r.w.ni.mgmtStartBa ≤ lo) (hhi : hi ≤ r.w.ni.mappingBlocksTopBa)
    (hzero : r.w.ni.backupTableBa = 0) :
    Safe g r.w (setMappingBlocksBa r.stop (setMainTable r)) where
  layout :=
    have h₁ := hw.lo_le
    have h₂ := hw.stop_le
    have h₃ := hw.start_lt
    { hl with
      mgmt_le := by
        show r.w.ni.mgmtStartBa ≤ r.stop
        omega
      mapping_le := by
        show r.stop ≤ r.w.ni.mappingBlocksTopBa
        omega
      mainHead := fun _ => hw.head
      main := fun b hb => by
        have := hw.range b hb
        show r.w.ni.mgmtStartBa ≤ b ∧ b < r.stop
        omega
      backup := fun b hb => by
        have hmem : b ∈ r.w.backupBlocks := hb
        rw [hl.noBackup hzero] at hmem
        exact absurd hmem List.not_mem_nil
      backupHead := fun h0 => absurd hzero h0
      order := fun h0 => absurd hzero h0 }
  step := .of_instance rfl ⟨rfl, rfl, rfl, rfl, rfl, rfl, rfl⟩ rfl id rfl (le_refl _)

/-- A fresh backup table above the main table. -/
theorem safe_setBackupTable (hl : Layout g r.w) (hw : Written g lo hi data g.infoTableSize r)
    (hlo : r.w.ni.mgmtStartBa ≤ lo) (hhi : hi ≤ r.w.ni.mappingBlocksTopBa) (hpos : 0 < lo)
    (hmain : ∀ b ∈ r.w.mainBlocks, b < lo) : Safe g r.w (setBackupTable r) where
  layout :=
    have h₁ := hw.lo_le
    have h₂ := hw.stop_le
    have h₃ := hw.start_lt
    { hl with
      mgmt_le := by
        show r.w.ni.mgmtStartBa ≤ r.stop
        omega
      mapping_le := by
        show r.stop ≤ r.w.ni.mappingBlocksTopBa
        omega
      main := fun b hb => by
        have := hmain b hb
        have := hl.main b hb
        show r.w.ni.mgmtStartBa ≤ b ∧ b < r.stop
        omega
      backup := fun b hb => hw.range b hb
      backupHead := fun _ => hw.head
      noBackup := fun h0 => by
        have hstart : r.start = 0 := h0
        omega
      order := fun _ => by
        refine ⟨?_, Nat.le_of_lt h₃, fun b hb => ?_⟩
        · show r.w.ni.mgmtStartBa ≤ r.start
          omega
        · have := hmain b hb
          show b < r.start
          omega }
  step := .of_instance rfl ⟨rfl, rfl, rfl, rfl, rfl, rfl, rfl⟩ rfl id rfl (le_refl _)

/-- Giving up the backup table and its blocks. -/
theorem safe_dropBackup (hl : Layout g w) (h0 : w.ni.backupTableBa ≠ 0) :
    Safe g w (dropBackup (setMappingBlocksBa w.ni.backupTableBa w)) where
  layout :=
    have ⟨h₁, h₂, h₃⟩ := hl.order h0
    { hl with
      mgmt_le := h₁
      mapping_le := by
        have := hl.mapping_le
        show w.ni.backupTableBa ≤ w.ni.mappingBlocksTopBa
        omega
      main := fun b hb => ⟨(hl.main b hb).1, h₃ b hb⟩
      backup := fun _ hb => absurd hb List.not_mem_nil
      backupHead := fun h => absurd rfl h
      noBackup := fun _ => rfl
      order := fun h => absurd rfl h }
  step := .of_instance rfl ⟨rfl, rfl, rfl, rfl, rfl, rfl, rfl⟩ rfl id rfl (le_refl _)

theorem safe_promoteBackup (hl : Layout g w) (h0 : w.ni.backupTableBa ≠ 0) :
    Safe g w (promoteBackup w) where
  layout :=
    have ⟨h₁, _, _⟩ := hl.order h0
    { hl with
      mainHead := fun _ => hl.backupHead h0
      main := fun b hb => by
        have := hl.backup b hb
        show w.ni.mgmtStartBa ≤ b ∧ b < w.ni.mappingBlocksBa
        omega
      backup := fun _ hb => absurd hb List.not_mem_nil
      backupHead := fun h => absurd rfl h
      noBackup := fun _ => rfl
      order := fun h => absurd rfl h }
  step := .of_instance rfl ⟨rfl, rfl, rfl, rfl, rfl, rfl, rfl⟩ rfl id rfl (le_refl _)

end Boundaries

end Speedway.Nmbm
