import Speedway.Nmbm.Tables

/-!
# Remapping blocks and creating NMBM on a new chip
-/

namespace Speedway.Nmbm

open Speedway.Lib

section Definitions

variable (g : Geometry) (dev : Device)

/-- The spare block `nmbm_map_block` picks: the first good one from
`mapping_blocks_top_ba` down, above the tables. -/
def nextSpare (w : World) : Option Nat :=
  blockWalk g.toLowerDevice w.ni.blockState false w.ni.mappingBlocksTopBa 0 w.ni.mappingBlocksBa

/-- Map `lb` to the spare block `pb`. The boundary moves down by one block,
whichever block was picked. -/
def assignBlock (lb pb : Nat) (w : World) : World :=
  { w.log (.mapBlock w.ni lb pb) with
    ni := { w.ni with
      blockMapping := Function.update w.ni.blockMapping lb (toInt32 pb)
      mappingBlocksTopBa := w.ni.mappingBlocksTopBa - 1
      blockMappingChanged := w.ni.blockMappingChanged + 1 } }

/-- No spare block is left above the tables. -/
def closeSpares (w : World) : World :=
  { w with ni := { w.ni with mappingBlocksTopBa := w.ni.mappingBlocksBa } }

/-- `nmbm_map_block`. -/
def mapBlock (lb : Nat) (w : World) : Bool × World :=
  if w.ni.mappingBlocksBa = w.ni.mappingBlocksTopBa then (false, w)
  else
    match nextSpare g w with
    | none => (false, closeSpares (updateInfoTable g dev w).2)
    | some pb => (true, assignBlock lb pb w)

/-- Count one more data block. -/
def countDataBlock (w : World) : World :=
  { w with ni := { w.ni with dataBlockCount := w.ni.dataBlockCount + 1 } }

/-- The remapping loop of `nmbm_create_info_table`, for the `n` logic blocks
from `lb` on. -/
def remapTail : Nat → Nat → World → World
  | 0, _, w => w
  | n + 1, lb, w =>
      let r := mapBlock g dev lb w
      if !r.1 then r.2 else remapTail n (lb + 1) (countDataBlock r.2)

def setTopBa (ba : Nat) (w : World) : World :=
  { w with ni := { w.ni with mappingBlocksTopBa := ba } }

/-- The end of `nmbm_create_info_table`: remap the logic blocks that found no
good block of their own, and record the result. -/
def remapAndUpdate (w : World) : Bool × World :=
  let lb := w.ni.dataBlockCount
  updateInfoTable g dev (remapTail g dev (w.ni.mgmtStartBa - lb) lb w)

/-- `nmbm_create_info_table`. -/
def createInfoTable (w : World) : Bool × World :=
  match blockWalk g.toLowerDevice w.ni.blockState false w.ni.signatureBa 1 w.ni.mgmtStartBa with
  | none => (false, w)
  | some top =>
      let r := rebuildInfoTable g dev (generateInfoTableCache g (setTopBa top w)).2
      if !r.1 then (false, r.2) else remapAndUpdate g dev r.2

/-- `nmbm_scan_badblocks` over the `n` blocks from `ba` on. -/
def scanBadblocks : Nat → Nat → World → World
  | 0, _, w => w
  | n + 1, ba, w =>
      let b := checkBadPhysBlock g dev ba w.chip
      let w₁ : World := { w with chip := b.2 }
      scanBadblocks n (ba + 1) (if b.1 then w₁.setBlockState ba stBad else w₁)

/-- The first loop of `nmbm_build_mapping_table`: logic blocks from `lb` on get
the blocks from `pb` on that are not bad. -/
def mapGoodBlocks (bs : Bitmap) : Nat → Nat → Nat → (Nat → Int) → Nat × (Nat → Int)
  | 0, _, lb, m => (lb, m)
  | n + 1, pb, lb, m =>
      if getBlockStateRaw bs pb = stBad then mapGoodBlocks bs n (pb + 1) lb m
      else mapGoodBlocks bs n (pb + 1) (lb + 1) (Function.update m lb (toInt32 pb))

/-- `nmbm_build_mapping_table`. -/
def buildMappingTable (w : World) : World :=
  let r := mapGoodBlocks w.ni.blockState w.ni.mgmtStartBa 0 0 w.ni.blockMapping
  { w with ni := { w.ni with
      dataBlockCount := r.1
      blockMapping := fun k => if r.1 ≤ k ∧ k < g.blockCount then -1 else r.2 k } }

/-- The start of the management area that `nmbm_create_new` chooses. -/
def createMgmtStart : Nat :=
  let start := g.blockCount * (mgmtDiv - g.maxRatio) % 2 ^ 32 / mgmtDiv
  if g.maxReservedBlocks ≠ 0 ∧ g.maxReservedBlocks < subU32 g.blockCount start then
    subU32 g.blockCount g.maxReservedBlocks
  else start

/-- The signature of a new chip, before its checksum is set. -/
def newSignature (old : Signature) : Signature :=
  { old with
    magic := magicSignature
    version := nmbmVer
    size := sizeofSignature
    nandSizeLow := g.size % 2 ^ 32
    nandSizeHigh := g.size / 2 ^ 32
    blockSize := g.erasesize
    pageSize := g.writesize
    spareSize := g.oobsize
    mgmtStartPb := createMgmtStart g
    maxTryCount := tryCount }

def setMgmtStartBa (ba : Nat) (w : World) : World :=
  { w with ni := { w.ni with mgmtStartBa := ba } }

/-- The first part of `nmbm_create_new`: choose the management area, scan for
factory-bad blocks and map the good blocks below it. -/
def prepareNew (w : World) : World :=
  buildMappingTable g (scanBadblocks g dev g.blockCount 0 (setMgmtStartBa (createMgmtStart g) w))

/-- The image of the signature of a new chip. -/
def newSignatureImage (w : World) : Mem :=
  updateChecksum (Mem.ofWords (newSignature g w.ni.signature).words)

def setSignature (image : Mem) (w : World) : World :=
  { w with ni := { w.ni with signature := Signature.ofMem image } }

def setSignatureBa (ba : Nat) (w : World) : World :=
  { w with ni := { w.ni with signatureBa := ba } }

/-- The part of `nmbm_create_new` that writes to the chip. -/
def createOnChip (image : Mem) (w : World) : Bool × World :=
  match writeSignature g dev w.ni.mgmtStartBa image w with
  | (none, w') => (false, w')
  | (some ba, w') => createInfoTable g dev (setSignatureBa ba w')

/-- `nmbm_create_new`. -/
def createNew (w : World) : Bool × World :=
  let w₁ := prepareNew g dev w
  let image := newSignatureImage g w₁
  let w₂ := setSignature image w₁
  if g.readOnly then (true, w₂) else createOnChip g dev image w₂

end Definitions

end Speedway.Nmbm
