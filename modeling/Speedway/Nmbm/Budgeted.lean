import Speedway.Lib.Budget
import Speedway.Nmbm.Operations

/-!
# The repair loops with a budget

The functions here are those of `Tables`, `Create` and `Operations` that contain
a loop whose rounds are not counted by the source: the `while (write_ba >= low)`
loops, where the unsigned `write_ba` wraps below block 0, the loop of
`nmbm_update_info_table` and the `goto retry` of `nmbm_erase_logic_block`. They
have no result while such a loop is still running. The loops over the blocks of a
range and over the pages of a block count their rounds and are taken from there.
-/

namespace Speedway.Nmbm.Budgeted

open Speedway.Lib

variable (g : Geometry) (dev : Device)

/-- One round of `nmbn_write_verify_data`, from the offset, the position in the
data and the number of bytes left. -/
def writeVerifyRound (data : Mem) (_ : Nat) :
    Nat × Nat × Nat × Chip → Option (Round (Nat × Nat × Nat × Chip) (Bool × Chip))
  | (off, pos, remain, c) =>
      if remain = 0 then some (.leave (true, c))
      else
        let leading := off % g.writesize
        let chunk := min (g.writesize - leading) remain
        let page := (off - leading) / g.writesize
        let cache := (c.pageCache.fill 0 0xff (g.writesize + g.oobsize)).copy leading
          (data.shift pos) chunk
        let wr := writePhysPage g dev page (some cache) none { c with pageCache := cache }
        if !wr.1 then some (.leave (false, wr.2))
        else
          let r := readPhysPage dev page wr.2
          let c' := { r.chip with pageCache := r.chip.pageCache.copy 0 r.page.data g.writesize }
          if r.ret < 0 then some (.leave (false, c'))
          else if (c'.pageCache.shift leading).bytes chunk ≠ (data.shift pos).bytes chunk then
            some (.leave (false, c'))
          else some (.again (off + chunk, pos + chunk, remain - chunk, c'))

/-- `nmbn_write_verify_data`. -/
def writeVerifyData (n addr : Nat) (data : Mem) (size : Nat) (c : Chip) : Option (Bool × Chip) :=
  budgetLoop (writeVerifyRound g dev data) n (addr, 0, size, c)

/-- One round of the `while (write_ba >= low)` loops. -/
def writeTableRound (low _n : Nat) : Nat × World → Option (Round (Nat × World) RangeResult)
  | (writeBa, w) =>
      if writeBa < low then some (.leave ⟨false, 0, writeBa, [], w⟩)
      else
        let r := writeInfoTable g dev writeBa w.ni.mappingBlocksTopBa w
        if r.ok then some (.leave r) else some (.again (subU32 writeBa 1, r.w))

/-- The `while (write_ba >= low)` loops. -/
def writeTableDown (low n writeBa : Nat) (w : World) : Option RangeResult :=
  budgetLoop (writeTableRound g dev low) n (writeBa, w)

/-- The end of `nmbm_rescue_main_info_table`, when the new main table `m` has
overwritten the temporary one. -/
def rescueBackupTable (n : Nat) (m : RangeResult) (w : World) : Option (Bool × World) :=
  let w₀ := setMappingBlocksBa m.stop w
  match reserveForTable g m.stop w₀ with
  | none => some (true, dropBackup w₀)
  | some writeBa =>
      (writeTableDown g dev m.stop n writeBa w₀).map fun b =>
        if !b.ok then (true, dropBackup b.w)
        else (true, eraseRange g dev m.stop b.start (setBackupTable b))

/-- The second half of `nmbm_rescue_main_info_table`, with a temporary table `t`. -/
def rescueFromTemporary (n : Nat) (t : RangeResult) : Option (Bool × World) :=
  let w₁ := setMappingBlocksBa t.stop t.w
  let m := writeInfoTable g dev w₁.ni.mgmtStartBa t.start w₁
  if !m.ok then
    some (true, (dropBackup (setMainTable { t with w := m.w })).markTablesClean)
  else
    let w₂ := (setMainTable m).markTablesClean
    if m.stop ≤ t.start then some (true, setBackupStart t w₂)
    else rescueBackupTable g dev n m w₂

/-- `nmbm_rescue_main_info_table`. -/
def rescueMainInfoTable (n : Nat) (w : World) : Option (Bool × World) :=
  match reserveForTable g w.ni.mappingBlocksBa w with
  | none => some (true, promoteBackup w)
  | some writeBa =>
      (writeTableDown g dev w.ni.mappingBlocksBa n writeBa w).bind fun t =>
        if !t.ok then some (true, promoteBackup t.w) else rescueFromTemporary g dev n t

/-- The label `write_main_table` of `nmbm_update_info_table_once`. -/
def writeMainTable (limit n : Nat) (w : World) : Option (Bool × World) :=
  if w.ni.mainTableBa = 0 then some (rebuildInfoTable g dev w)
  else
    let r := writeInfoTable g dev w.ni.mainTableBa limit w
    if !r.ok then
      if r.w.ni.backupTableBa = 0 then some (rebuildInfoTable g dev r.w)
      else rescueMainInfoTable g dev n r.w
    else
      let w₁ := setMainTable r
      let w₂ := if w₁.ni.backupTableBa = 0 then setMappingBlocksBa r.stop w₁ else w₁
      some (true, w₂.markTablesClean)

/-- `nmbm_update_info_table_once`. -/
def updateInfoTableOnce (n : Nat) (force : Bool) (w : World) : Option (Bool × World) :=
  let gen := generateInfoTableCache g w
  let w₀ := gen.2
  if !gen.1 && !force then some (true, w₀)
  else if w₀.ni.backupTableBa = 0 then writeMainTable g dev w₀.ni.mappingBlocksTopBa n w₀
  else
    let r := writeInfoTable g dev w₀.ni.backupTableBa w₀.ni.mappingBlocksTopBa w₀
    if !r.ok then
      let w₁ := dropBackup (setMappingBlocksBa r.w.ni.backupTableBa r.w)
      writeMainTable g dev w₁.ni.mappingBlocksTopBa n w₁
    else
      let w₁ := (setBackupTable r).markTablesClean
      writeMainTable g dev w₁.ni.backupTableBa n w₁

/-- One round of the loop of `nmbm_update_info_table`. -/
def updateRound (n : Nat) (w : World) : Option (Round World (Bool × World)) :=
  if !w.dirty then some (.leave (true, w))
  else
    (updateInfoTableOnce g dev n false w).map fun r =>
      if !r.1 then .leave (false, r.2) else .again r.2

/-- The body of `nmbm_update_info_table`. -/
def updateTables (n : Nat) (w : World) : Option (Bool × World) :=
  if w.ni.isProtected then some (true, w) else budgetLoop (updateRound g dev) n w

/-- `nmbm_update_info_table`. -/
def updateInfoTable (n : Nat) (w : World) : Option (Bool × World) :=
  (updateTables g dev n w).map fun r => (r.1, r.2.log (.update w.snapshot r.1 r.2.snapshot))

/-- `nmbm_map_block`. -/
def mapBlock (n lb : Nat) (w : World) : Option (Bool × World) :=
  if w.ni.mappingBlocksBa = w.ni.mappingBlocksTopBa then some (false, w)
  else
    match nextSpare g w with
    | none => (updateInfoTable g dev n w).map fun u => (false, closeSpares u.2)
    | some pb => some (true, assignBlock lb pb w)

/-- The part of `nmbm_erase_logic_block` from `remap_logic_block` to `goto retry`. -/
def remapLogicBlock (n lb pb : Nat) (w : World) : Option (Bool × World) :=
  (mapBlock g dev n lb w).bind fun r =>
    let w₁ := if r.1 then r.2 else unmapBlock lb (r.2.log (.remapFailed r.2.ni lb))
    let w₂ := if w₁.blockStateOf pb ≠ stNeedRemap then w₁.setBlockState pb stBad else w₁
    (updateInfoTable g dev n w₂).map fun u => (r.1, u.2)

/-- One round of `nmbm_erase_logic_block`, from the label `retry` on. -/
def eraseRound (lb n : Nat) (w : World) : Option (Round World (Int × World)) :=
  let pb := w.ni.blockMapping lb
  if pb < 0 then some (.leave (-eIo, w))
  else
    let t := tryEraseBlock g dev pb.toNat w
    if t.1 then some (.leave (0, t.2))
    else
      (remapLogicBlock g dev n lb pb.toNat t.2).map fun r =>
        if !r.1 then .leave (-eIo, r.2) else .again r.2

/-- `nmbm_erase_logic_block`. -/
def eraseLogicBlock (n lb : Nat) (w : World) : Option (Int × World) :=
  budgetLoop (eraseRound g dev lb) n w

end Speedway.Nmbm.Budgeted
