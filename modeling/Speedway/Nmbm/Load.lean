import Speedway.Nmbm.Create

/-!
# Loading existing info tables and attaching to a chip
-/

namespace Speedway.Nmbm

open Speedway.Lib

section Definitions

variable (g : Geometry) (dev : Device)

/-- The mapping loop of `nmbm_check_info_table` over the `n` entries from `ba`
on: `none` rejects the table, else the lowest remapped block found. An
`int32_t` entry meets `uint32_t` bounds, so the comparisons are unsigned. -/
def checkMappingLoop (ni : Instance) (entry : Nat → Nat) (stop : Nat) :
    Nat → Nat → Nat → Option Nat
  | 0, _, lowest => some lowest
  | n + 1, ba, lowest =>
      let e := entry ba
      if (ni.dataBlockCount ≤ e ∧ e < stop) ∨ e = ni.signatureBa then none
      else checkMappingLoop ni entry stop n (ba + 1)
        (if stop ≤ e ∧ e < lowest then e else lowest)

/-- The state loop of `nmbm_check_info_table` over the `n` blocks from `ba` on. -/
def checkStateLoop (bs table : Bitmap) : Nat → Nat → Bool
  | 0, _ => true
  | n + 1, ba =>
      if getBlockStateRaw bs ba ≠ stGood then checkStateLoop bs table n (ba + 1)
      else if getBlockStateRaw table ba ≠ stGood then false
      else checkStateLoop bs table n (ba + 1)

/-- `nmbm_check_info_table` on the table image in the cache. -/
def checkInfoTable (ni : Instance) (start stop : Nat) : Option Nat :=
  let m := ni.infoTableCache
  let entry := fun k => (m.shift (InfoTableHeader.ofMem m).mappingTableOff).word k
  match checkMappingLoop ni entry stop ni.dataBlockCount 0 ni.signatureBa with
  | none => none
  | some lowest =>
      if checkStateLoop ni.blockState (imageState m) (stop - start) start then
        some (subU32 lowest 1)
      else none

/-- The results of `nmbm_try_load_info_table`. -/
structure LoadResult where
  ok : Bool
  stop : Nat
  writeCount : Nat
  topBa : Nat
  w : World

def LoadResult.fail (w : World) : LoadResult := ⟨false, 0, 0, 0, w⟩

/-- The block loop of `nmbm_try_load_info_table`; `none` is the early `return
false`, otherwise the end of the table, its start and the bytes missing. -/
def readTableLoop : Nat → Nat → Nat → Option Nat → World → Option (Nat × Nat × Nat) × World
  | 0, ba, remain, start, w => (some (ba, start.getD 0, remain), w)
  | n + 1, ba, remain, start, w =>
      if remain = 0 then (some (ba, start.getD 0, remain), w)
      else if w.blockStateOf ba ≠ stGood then readTableLoop n (ba + 1) remain start w
      else
        let b := checkBadPhysBlock g dev ba w.chip
        if b.1 then
          readTableLoop n (ba + 1) remain start ({ w with chip := b.2 }.setBlockState ba stBad)
        else
          let chunk := min remain g.erasesize
          let pos := g.infoTableSize - remain
          let r := readData g dev (g.ba2addr ba) chunk w.ni.infoTableCache pos b.2
          let w₁ : World := { w with
            chip := r.chip
            ni := { w.ni with infoTableCache := r.buf } }
          -- a block with an ECC error has no table data: mark it bad in memory
          if r.ret < 0 then
            readTableLoop n (ba + 1) remain start (w₁.setBlockState ba stBad)
          else if 0 < r.ret then (none, w₁)
          else if start.isNone ∧ !checkInfoTableHeader g.toLowerDevice (r.buf.shift pos) then
            (none, w₁)
          else readTableLoop n (ba + 1) (remain - chunk) (some (start.getD ba)) w₁

/-- The copy of a valid table image into the instance. -/
def adoptTable (w : World) : World :=
  let m := w.ni.infoTableCache
  { w with ni := { w.ni with
      infoTable := InfoTableHeader.ofMem m
      blockState := fun k => if k < g.stateTableSize / 4 then imageState m k else w.ni.blockState k
      blockMapping := fun k =>
        if k < g.blockCount then imageMapping m k else w.ni.blockMapping k } }

/-- `nmbm_try_load_info_table`. -/
def tryLoadInfoTable (ba : Nat) (tableLoaded : Bool) (w : World) : LoadResult :=
  let r := readTableLoop g dev (g.size2blk g.infoTableSize) ba g.infoTableSize none w
  match r.1 with
  | none => .fail r.2
  | some (stop, start, remain) =>
      if remain ≠ 0 then .fail r.2
      else if !checkHeader r.2.ni.infoTableCache g.infoTableSize then .fail r.2
      else
        let count := (InfoTableHeader.ofMem r.2.ni.infoTableCache).writeCount
        let w₁ := r.2.log (.checkTable r.2.ni start stop tableLoaded)
        match checkInfoTable w₁.ni start stop with
        | none => ⟨false, stop, count, 0, w₁⟩
        | some top =>
            let w₂ := if !tableLoaded ∨ w₁.ni.infoTable.writeCount < count then adoptTable g w₁
              else w₁
            ⟨true, stop, count, top, w₂⟩

structure SearchResult extends LoadResult where
  start : Nat

/-- The loop of `nmbm_search_info_table` over the `n` candidates from `ba` on. -/
def searchLoop (tableLoaded : Bool) : Nat → Nat → World → SearchResult
  | 0, _, w => ⟨.fail w, 0⟩
  | n + 1, ba, w =>
      let r := tryLoadInfoTable g dev ba tableLoaded w
      if r.ok then ⟨r, ba⟩ else searchLoop tableLoaded n (ba + 1) r.w

/-- `nmbm_search_info_table`. -/
def searchInfoTable (ba limit : Nat) (tableLoaded : Bool) (w : World) : SearchResult :=
  searchLoop g dev tableLoaded (subU32 limit (g.size2blk g.infoTableSize) - ba) ba w

/-- The last loop of `nmbm_load_info_table`: one more than the last mapped
logic block below `n`, or `dflt` when none is mapped. -/
def lastMapped (bm : Nat → Int) (dflt : Nat) : Nat → Nat
  | 0 => dflt
  | i + 1 => if 0 ≤ bm i then i + 1 else lastMapped bm dflt i

/-- The first part of `nmbm_load_info_table`: find the tables and set the
boundaries. The flag tells whether the write counts differ, and whether the
main table is the older one. -/
def findInfoTables (ba limit : Nat) (w : World) : Option (Bool × Bool) × World :=
  let w₀ : World := { w with
    ni := { w.ni with
      mainTableBa := 0
      backupTableBa := 0
      infoTable := { w.ni.infoTable with writeCount := 0 }
      mappingBlocksTopBa := subU32 w.ni.signatureBa 1
      dataBlockCount := w.ni.signature.mgmtStartPb } }
  let m := searchInfoTable g dev ba limit false w₀
  if !m.ok then (none, m.w)
  else
    let w₁ : World := { m.w with
      ni := { m.w.ni with mainTableBa := m.start }
      mainBlocks := List.range' m.start (m.stop - m.start) }
    let b := searchInfoTable g dev m.stop limit true w₁
    let w₂ : World :=
      if b.ok then { b.w with
        ni := { b.w.ni with backupTableBa := b.start, mappingBlocksBa := b.stop }
        backupBlocks := List.range' b.start (b.stop - b.start) }
      else setMappingBlocksBa m.stop b.w
    let top :=
      if w₂.ni.backupTableBa = 0 then m.topBa
      else if b.writeCount ≤ m.writeCount then m.topBa else b.topBa
    let w₃ : World := { w₂ with ni := { w₂.ni with
      mappingBlocksTopBa := top
      dataBlockCount := lastMapped w₂.ni.blockMapping w₂.ni.dataBlockCount
        w₂.ni.signature.mgmtStartPb } }
    (some (m.writeCount ≠ b.writeCount, m.writeCount < b.writeCount),
      (generateInfoTableCache g w₃).2)

/-- `nmbm_load_info_table`. -/
def loadInfoTable (ba limit : Nat) (w : World) : Bool × World :=
  let f := findInfoTables g dev ba limit w
  match f.1 with
  | none => (false, f.2)
  | some (differ, mainOlder) =>
      if g.readOnly then (true, f.2)
      else
        let r :=
          if f.2.ni.backupTableBa = 0 then rescueSingleInfoTable g dev f.2
          else if differ then
            updateSingleInfoTable g dev mainOlder { f.2 with
              ni := { f.2.ni with blockStateChanged := 1, blockMappingChanged := 1 } }
          else (true, f.2)
        if r.2.ni.mappingBlocksBa = r.2.ni.mappingBlocksTopBa ∨ !r.1 then
          (true, { r.2 with ni := { r.2.ni with isProtected := true } })
        else (true, r.2)

/-- `nmbm_load_existing`; the first flag tells whether tables were loaded. -/
def loadExisting (w : World) : Bool × Bool × World :=
  let w₀ := setMgmtStartBa w.ni.signature.mgmtStartPb w
  let l := loadInfoTable g dev w₀.ni.mgmtStartBa w₀.ni.signatureBa w₀
  if l.1 then (true, true, l.2)
  else if !g.create then (false, false, l.2)
  else
    let w₁ := buildMappingTable g (scanBadblocks g dev g.blockCount 0 l.2)
    if g.readOnly then (false, true, w₁)
    else
      let c := createInfoTable g dev w₁
      (false, c.1, c.2)

/-- The page loop of `nmbm_find_signature` over the `n` pages from `p` on. -/
def findInBlock : Nat → Nat → Chip → Option Signature × Chip
  | 0, _, c => (none, c)
  | n + 1, p, c =>
      let r := readData g dev (p * g.writesize) sizeofSignature (fun _ => 0) 0 c
      if r.ret ≠ 0 then findInBlock n (p + 1) r.chip
      else if !checkHeader r.buf sizeofSignature then findInBlock n (p + 1) r.chip
      else if r.buf.word 0 = magicSignature then (some (Signature.ofMem r.buf), r.chip)
      else findInBlock n (p + 1) r.chip

/-- The block loop of `nmbm_find_signature`. With a limit of 0 the unsigned
counter wraps and the source never leaves the loop, so the loop has a step
budget and `none` means that it is still running. -/
def findSignatureLoop (limit : Nat) : Nat → Nat → Chip → Option (Option (Signature × Nat) × Chip)
  | 0, _, _ => none
  | fuel + 1, ba, c =>
      if ba < limit then some (none, c)
      else
        let ba' := subU32 ba 1
        let b := checkBadPhysBlock g dev ba' c
        if b.1 then findSignatureLoop limit fuel ba' b.2
        else
          let f := findInBlock g dev g.pagesPerBlock (ba' * g.pagesPerBlock) b.2
          match f.1 with
          | some sig => some (some (sig, ba'), f.2)
          | none => findSignatureLoop limit fuel ba' f.2

/-- The lowest block but one that `nmbm_find_signature` looks at. -/
def findSignatureLimit : Nat :=
  let limit := g.blockCount / mgmtDiv * (mgmtDiv - g.maxRatio)
  if g.maxReservedBlocks ≠ 0 ∧ g.maxReservedBlocks < subU32 g.blockCount limit then
    subU32 g.blockCount g.maxReservedBlocks
  else limit

/-- `nmbm_find_signature`. -/
def findSignature (fuel : Nat) (c : Chip) : Option (Option (Signature × Nat) × Chip) :=
  findSignatureLoop g dev (findSignatureLimit g) fuel g.blockCount c

/-- The members of an instance in zeroed memory after `nmbm_init_structure`. -/
def initStructure : Instance where
  signature := ⟨0, 0, 0, 0, 0, 0, 0, 0, 0, 0, 0, 0⟩
  infoTableCache := fun _ => 0
  infoTable := ⟨0, 0, 0, 0, 0, g.initStateTableOff, g.initMappingTableOff, 0⟩
  blockState := fun _ => 0xffffffff#32
  blockStateChanged := 0
  blockMapping := fun _ => 0
  blockMappingChanged := 0
  isProtected := false
  dataBlockCount := 0
  mgmtStartBa := 0
  mainTableBa := 0
  backupTableBa := 0
  mappingBlocksBa := 0
  mappingBlocksTopBa := 0
  signatureBa := 0

/-- How `nmbm_attach` returned 0, or its error. -/
inductive AttachResult where
  | created
  | loaded
  | recreated
  | error (code : Int)
  deriving DecidableEq

/-- The world of an instance in zeroed memory. -/
def initWorld (c : Chip) : World := ⟨c, initStructure g, [], [], []⟩

/-- `nmbm_attach` when no signature was found. -/
def attachNew (c : Chip) : AttachResult × World :=
  if !g.create then (.error (-19), initWorld g c)
  else
    let r := createNew g dev (initWorld g c)
    (if r.1 then .created else .error (-19), r.2)

/-- `nmbm_attach` when the signature `sig` was found in block `ba`. -/
def attachExisting (sig : Signature) (ba : Nat) (c : Chip) : AttachResult × World :=
  let w : World := initWorld g c
  let w₁ : World := { w with ni := { w.ni with signature := sig, signatureBa := ba } }
  if sig.version ≠ nmbmVer then (.error (-22), w₁)
  else if sig.nandSizeLow + 2 ^ 32 * sig.nandSizeHigh ≠ g.size ∨
      sig.blockSize ≠ g.erasesize ∨ sig.pageSize ≠ g.writesize ∨
      sig.spareSize ≠ g.oobsize then (.error (-22), w₁)
  else
    let r := loadExisting g dev w₁
    (if !r.2.1 then .error (-19) else if r.1 then .loaded else .recreated, r.2.2)

/-- `nmbm_attach` on an accepted device, with a step budget for the search of
the signature. -/
def attach (fuel : Nat) (c : Chip) : Option (AttachResult × World) :=
  match findSignature g dev fuel c with
  | none => none
  | some (none, c') => some (attachNew g dev c')
  | some (some (sig, ba), c') => some (attachExisting g dev sig ba c')

end Definitions

end Speedway.Nmbm
