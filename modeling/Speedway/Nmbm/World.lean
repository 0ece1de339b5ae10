import Speedway.Nmbm.Chip
import Speedway.Nmbm.Image

/-!
# The NMBM instance and the world it runs in

`Instance` holds the members of `struct nmbm_instance` that change after
`nmbm_init_structure`; the constant ones are functions of the geometry. A
`World` is the instance together with the chip.

Two parts of a world are ghost state that no definition below branches on:
the blocks that hold the main and the backup table, and a trace of the
internal steps the theorems speak about, each with the instance before it.
-/

namespace Speedway.Nmbm

open Speedway.Lib

/-- The variable members of `struct nmbm_instance`. -/
structure Instance where
  signature : Signature
  infoTableCache : Mem
  infoTable : InfoTableHeader
  blockState : Bitmap
  blockStateChanged : Nat
  blockMapping : Nat → Int
  blockMappingChanged : Nat
  isProtected : Bool
  dataBlockCount : Nat
  mgmtStartBa : Nat
  mainTableBa : Nat
  backupTableBa : Nat
  mappingBlocksBa : Nat
  mappingBlocksTopBa : Nat
  signatureBa : Nat

/-- An instance and the flash under it. -/
structure Snapshot where
  ni : Instance
  flash : Flash

/-- Internal steps of a run. -/
inductive Event where
  /-- `nmbm_map_block` assigned the spare block `pb` to `lb`. -/
  | mapBlock (before : Instance) (lb pb : Nat)
  /-- `nmbm_mark_tables_clean`. -/
  | markTablesClean (before : Instance)
  /-- `nmbm_write_info_table` or `nmbm_erase_range`, with its flash operations. -/
  | maintain (before : Instance) (ops : List FlashOp)
  /-- `nmbm_update_info_table`, with its result. -/
  | update (before : Snapshot) (ok : Bool) (after : Snapshot)
  /-- `nmbm_erase_logic_block` dropped the mapping of `lb`, for want of spare blocks. -/
  | remapFailed (before : Instance) (lb : Nat)
  /-- `nmbm_mark_bad_block` dropped the mapping of `lb` to `pb`. -/
  | markBad (before : Instance) (lb pb : Nat)
  /-- `nmbm_check_info_table` on the image in the cache. -/
  | checkTable (before : Instance) (start stop : Nat) (tableLoaded : Bool)

structure World where
  chip : Chip
  ni : Instance
  mainBlocks : List Nat
  backupBlocks : List Nat
  trace : List Event

namespace World

def snapshot (w : World) : Snapshot := ⟨w.ni, w.chip.flash⟩

/-- Append a ghost event. -/
def log (e : Event) (w : World) : World := { w with trace := w.trace ++ [e] }

/-- `nmbm_get_block_state`. -/
def blockStateOf (w : World) (ba : Nat) : BitVec 32 := getBlockStateRaw w.ni.blockState ba

/-- `nmbm_set_block_state`: the counter grows when the state really changes. -/
def setBlockState (ba : Nat) (st : BitVec 32) (w : World) : World :=
  let changed := getBlockStateRaw w.ni.blockState ba ≠ st &&& 3#32
  { w with ni := { w.ni with
      blockState := setBlockStateRaw w.ni.blockState ba st
      blockStateChanged := w.ni.blockStateChanged + if changed then 1 else 0 } }

/-- `nmbm_mark_tables_clean`. -/
def markTablesClean (w : World) : World :=
  { w.log (.markTablesClean w.ni) with
    ni := { w.ni with blockStateChanged := 0, blockMappingChanged := 0 } }

/-- Whether one of the two change counters is set. -/
def dirty (w : World) : Bool := w.ni.blockStateChanged != 0 || w.ni.blockMappingChanged != 0

end World

/-- `nmbm_generate_info_table_cache`. -/
def generateInfoTableCache (g : Geometry) (w : World) : Bool × World :=
  let count :=
    if w.dirty then (w.ni.infoTable.writeCount + 1) % 2 ^ 32 else w.ni.infoTable.writeCount
  let h := { w.ni.infoTable with
    magic := magicInfoTable
    version := nmbmVer
    size := g.infoTableSize
    writeCount := count }
  let cache := infoTableImage g.toLowerDevice h w.ni.blockState w.ni.blockMapping
    w.ni.infoTableCache
  (w.dirty, { w with ni := { w.ni with infoTable := h, infoTableCache := cache } })

end Speedway.Nmbm
