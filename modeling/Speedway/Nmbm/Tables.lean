import Speedway.Nmbm.Range

/-!
# Writing, updating and rescuing the two info tables

The functions of this module move four boundaries: the start of the main
table, the start of the backup table, `mapping_blocks_ba` (the block after
the last table) and `mapping_blocks_top_ba` (below the remapped blocks).
-/

namespace Speedway.Nmbm

open Speedway.Lib

section Definitions

variable (g : Geometry) (dev : Device)

/-- `nmbm_try_reserve_blocks` as the table functions call it: spare blocks for
a table that ends at `ba`, leaving room for one more table below the top. -/
def reserveForTable (ba : Nat) (w : World) : Option Nat :=
  tryReserveBlocks g.toLowerDevice w.ni.blockState ba g.infoTableSpareBlocks 0
    (subU32 w.ni.mappingBlocksTopBa (g.size2blk g.infoTableSize))

/-- Try to write the table at `writeBa`, then one block lower, and so on: the
`while (write_ba >= low)` loops, with `n = writeBa + 1 - low` rounds. The low
end is the end of a table and hence not block 0. -/
def writeTableDown : Nat → Nat → World → RangeResult
  | 0, writeBa, w => ⟨false, 0, writeBa, [], w⟩
  | n + 1, writeBa, w =>
      let r := writeInfoTable g dev writeBa w.ni.mappingBlocksTopBa w
      if r.ok then r else writeTableDown n (writeBa - 1) r.w

/-- Make a freshly written range the main table. -/
def setMainTable (r : RangeResult) : World :=
  { r.w with ni := { r.w.ni with mainTableBa := r.start }, mainBlocks := r.blocks }

/-- Make a freshly written range the backup table and the last one. -/
def setBackupTable (r : RangeResult) : World :=
  { r.w with
    ni := { r.w.ni with backupTableBa := r.start, mappingBlocksBa := r.stop }
    backupBlocks := r.blocks }

/-- Make an older range the backup table. -/
def setBackupStart (r : RangeResult) (w : World) : World :=
  { w with ni := { w.ni with backupTableBa := r.start }, backupBlocks := r.blocks }

/-- The backup table becomes the only one. -/
def promoteBackup (w : World) : World :=
  { w with
    ni := { w.ni with mainTableBa := w.ni.backupTableBa, backupTableBa := 0 }
    mainBlocks := w.backupBlocks
    backupBlocks := [] }

/-- Forget the backup table. -/
def dropBackup (w : World) : World :=
  { w with ni := { w.ni with backupTableBa := 0 }, backupBlocks := [] }

def setMappingBlocksBa (ba : Nat) (w : World) : World :=
  { w with ni := { w.ni with mappingBlocksBa := ba } }

/-- The boundaries at the start of a rebuild: no table, all blocks below the top. -/
def dropTables (w : World) : World :=
  { w with
    ni := { w.ni with
      mainTableBa := 0
      backupTableBa := 0
      mappingBlocksBa := w.ni.mappingBlocksTopBa }
    mainBlocks := []
    backupBlocks := [] }

/-- The second half of `nmbm_rebuild_info_table`: a backup table, if possible. -/
def rebuildBackupTable (w : World) : World :=
  match reserveForTable g w.ni.mappingBlocksBa w with
  | none => w
  | some next =>
      let b := writeInfoTable g dev next w.ni.mappingBlocksTopBa w
      if !b.ok then b.w else eraseRange g dev w.ni.mappingBlocksBa b.start (setBackupTable b)

/-- `nmbm_rebuild_info_table`. -/
def rebuildInfoTable (w : World) : Bool × World :=
  let w₀ := dropTables w
  let m := writeInfoTable g dev w₀.ni.mgmtStartBa w₀.ni.mappingBlocksTopBa w₀
  if !m.ok then (false, { m.w with ni := { m.w.ni with isProtected := true } })
  else
    let w₁ := (setMappingBlocksBa m.stop (setMainTable m)).markTablesClean
    (true, rebuildBackupTable g dev w₁)

/-- `nmbm_rescue_single_info_table`. -/
def rescueSingleInfoTable (w : World) : Bool × World :=
  let f := writeInfoTable g dev w.ni.mgmtStartBa w.ni.mainTableBa w
  if f.ok then
    let w₁ : World := { f.w with
      ni := { f.w.ni with backupTableBa := f.w.ni.mainTableBa, mainTableBa := f.start }
      mainBlocks := f.blocks
      backupBlocks := f.w.mainBlocks }
    let w₂ := w₁.markTablesClean
    (true, eraseRange g dev f.stop w₂.ni.backupTableBa w₂)
  else
    match reserveForTable g f.w.ni.mappingBlocksBa f.w with
    | none => (false, f.w)
    | some writeBa =>
        let r := writeTableDown g dev (writeBa + 1 - f.w.ni.mappingBlocksBa) writeBa f.w
        if r.ok then
          let w₁ := eraseRange g dev r.w.ni.mappingBlocksBa r.start r.w
          (true, (setBackupTable { r with w := w₁ }).markTablesClean)
        else (false, r.w)

/-- `nmbm_update_single_info_table`. -/
def updateSingleInfoTable (updateMainTable : Bool) (w : World) : Bool × World :=
  if updateMainTable then
    let r := writeInfoTable g dev w.ni.mainTableBa w.ni.backupTableBa w
    if r.ok then (true, (setMainTable r).markTablesClean)
    else rescueSingleInfoTable g dev (promoteBackup r.w)
  else
    let r := writeInfoTable g dev w.ni.backupTableBa w.ni.mappingBlocksTopBa w
    if r.ok then (true, (setBackupTable r).markTablesClean)
    else (false, dropBackup (setMappingBlocksBa r.w.ni.backupTableBa r.w))

/-- The end of `nmbm_rescue_main_info_table`, reached when the new main table
`m` has overwritten the temporary one. -/
def rescueBackupTable (m : RangeResult) (w : World) : Bool × World :=
  let w₀ := setMappingBlocksBa m.stop w
  match reserveForTable g m.stop w₀ with
  | none => (true, dropBackup w₀)
  | some writeBa =>
      let b := writeTableDown g dev (writeBa + 1 - m.stop) writeBa w₀
      if !b.ok then (true, dropBackup b.w)
      else (true, eraseRange g dev m.stop b.start (setBackupTable b))

/-- The second half of `nmbm_rescue_main_info_table`, with a temporary table `t`
above both tables: write the main table over everything below it. -/
def rescueFromTemporary (t : RangeResult) : Bool × World :=
  let w₁ := setMappingBlocksBa t.stop t.w
  let m := writeInfoTable g dev w₁.ni.mgmtStartBa t.start w₁
  if !m.ok then
    -- the temporary table becomes the main table
    (true, (dropBackup (setMainTable { t with w := m.w })).markTablesClean)
  else
    let w₂ := (setMainTable m).markTablesClean
    if m.stop ≤ t.start then (true, setBackupStart t w₂)
    else rescueBackupTable g dev m w₂

/-- `nmbm_rescue_main_info_table`. -/
def rescueMainInfoTable (w : World) : Bool × World :=
  match reserveForTable g w.ni.mappingBlocksBa w with
  | none => (true, promoteBackup w)
  | some writeBa =>
      let t := writeTableDown g dev (writeBa + 1 - w.ni.mappingBlocksBa) writeBa w
      if !t.ok then (true, promoteBackup t.w) else rescueFromTemporary g dev t

/-- The label `write_main_table` of `nmbm_update_info_table_once`. -/
def writeMainTable (limit : Nat) (w : World) : Bool × World :=
  if w.ni.mainTableBa = 0 then rebuildInfoTable g dev w
  else
    let r := writeInfoTable g dev w.ni.mainTableBa limit w
    if !r.ok then
      if r.w.ni.backupTableBa = 0 then rebuildInfoTable g dev r.w
      else rescueMainInfoTable g dev r.w
    else
      let w₁ := setMainTable r
      let w₂ := if w₁.ni.backupTableBa = 0 then setMappingBlocksBa r.stop w₁ else w₁
      (true, w₂.markTablesClean)

/-- `nmbm_update_info_table_once`. -/
def updateInfoTableOnce (force : Bool) (w : World) : Bool × World :=
  let gen := generateInfoTableCache g w
  let w₀ := gen.2
  if !gen.1 && !force then (true, w₀)
  else if w₀.ni.backupTableBa = 0 then writeMainTable g dev w₀.ni.mappingBlocksTopBa w₀
  else
    let r := writeInfoTable g dev w₀.ni.backupTableBa w₀.ni.mappingBlocksTopBa w₀
    if !r.ok then
      let w₁ := dropBackup (setMappingBlocksBa r.w.ni.backupTableBa r.w)
      writeMainTable g dev w₁.ni.mappingBlocksTopBa w₁
    else
      let w₁ := (setBackupTable r).markTablesClean
      writeMainTable g dev w₁.ni.backupTableBa w₁

/-- The number of good blocks of the chip. -/
def goodCount (w : World) : Nat :=
  (List.range g.blockCount).countP fun b => w.blockStateOf b = stGood

/-- The retry loop of `nmbm_update_info_table`. -/
def updateLoop : Nat → World → Bool × World
  | 0, w => (true, w)
  | n + 1, w =>
      if !w.dirty then (true, w)
      else
        let r := updateInfoTableOnce g dev false w
        if !r.1 then (false, r.2) else updateLoop n r.2

/-- The body of `nmbm_update_info_table`. Each pass after the first has turned a
good block bad, which bounds the number of rounds (`updateLoop_clean`). -/
def updateTables (w : World) : Bool × World :=
  if w.ni.isProtected then (true, w) else updateLoop g dev (goodCount g w + 2) w

/-- `nmbm_update_info_table`. -/
def updateInfoTable (w : World) : Bool × World :=
  let r := updateTables g dev w
  (r.1, r.2.log (.update w.snapshot r.1 r.2.snapshot))

end Definitions

end Speedway.Nmbm
