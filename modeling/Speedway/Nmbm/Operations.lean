import Speedway.Nmbm.Load

/-!
# Operations on logic blocks, and runs of them
-/

namespace Speedway.Nmbm

open Speedway.Lib

/-- `EIO`. -/
def eIo : Int := 5

/-- `EINVAL`. -/
def eInval : Int := 22

/-- `EROFS`. -/
def eRofs : Int := 30

/-- `ENOTSUPP`. -/
def eNotSupp : Int := 524

section Definitions

variable (g : Geometry) (dev : Device)

/-- The part of `nmbm_erase_logic_block` before `remap_logic_block`: erase the
physical block `pb`, or find that the logic block has to be remapped. -/
def tryEraseBlock (pb : Nat) (w : World) : Bool × World :=
  if w.blockStateOf pb = stBad ∨ w.blockStateOf pb = stNeedRemap then (false, w)
  else
    -- insurance to detect unexpected bad block marked by user
    let b := checkBadPhysBlock g dev pb w.chip
    if b.1 then (false, { w with chip := b.2 }.setBlockState pb stBad)
    else
      let e := eraseBlockAndCheck g dev pb b.2
      if e.1 then (true, { w with chip := e.2 })
      else (false, { w with chip := (markPhysBadBlock g dev pb e.2).2 }.setBlockState pb stBad)

/-- Drop the mapping of a logic block. No counter records this. -/
def unmapBlock (lb : Nat) (w : World) : World :=
  { w with ni := { w.ni with blockMapping := Function.update w.ni.blockMapping lb (-1) } }

/-- The part of `nmbm_erase_logic_block` from `remap_logic_block` to `goto
retry`; the flag is the result of `nmbm_map_block`. -/
def remapLogicBlock (lb pb : Nat) (w : World) : Bool × World :=
  let r := mapBlock g dev lb w
  let w₁ := if r.1 then r.2 else unmapBlock lb (r.2.log (.remapFailed r.2.ni lb))
  let w₂ := if w₁.blockStateOf pb ≠ stNeedRemap then w₁.setBlockState pb stBad else w₁
  (r.1, (updateInfoTable g dev w₂).2)

/-- The retry loop of `nmbm_erase_logic_block`. -/
def eraseLogicLoop (lb : Nat) : Nat → World → Int × World
  | 0, w => (-eIo, w)
  | n + 1, w =>
      let pb := w.ni.blockMapping lb
      if pb < 0 then (-eIo, w)
      else
        let t := tryEraseBlock g dev pb.toNat w
        if t.1 then (0, t.2)
        else
          let r := remapLogicBlock g dev lb pb.toNat t.2
          if !r.1 then (-eIo, r.2) else eraseLogicLoop lb n r.2

/-- `nmbm_erase_logic_block`. Every retry has moved `mapping_blocks_top_ba` down
by one, which bounds the number of rounds. -/
def eraseLogicBlock (lb : Nat) (w : World) : Int × World :=
  eraseLogicLoop g dev lb (w.ni.mappingBlocksTopBa + 1) w

/-- The result of an erase: return code, the value stored in `*failed_addr` if
any, and the world. -/
structure EraseResult where
  ret : Int
  failedAddr : Option Nat
  w : World

/-- The loop of `nmbm_erase_block_range` over the `n` logic blocks from `lb` on. -/
def eraseBlocksLoop : Nat → Nat → World → EraseResult
  | 0, _, w => ⟨0, none, w⟩
  | n + 1, lb, w =>
      let r := eraseLogicBlock g dev lb w
      if r.1 ≠ 0 then ⟨r.1, some (g.ba2addr lb), r.2⟩ else eraseBlocksLoop n (lb + 1) r.2

/-- The range test shared by the range operations; `addr + size` is 64-bit. -/
def rangeFits (addr size : Nat) (w : World) : Bool :=
  addr < g.ba2addr w.ni.dataBlockCount && (addr + size) % 2 ^ 64 ≤ g.ba2addr w.ni.dataBlockCount

/-- `nmbm_erase_block_range`. -/
def eraseBlockRange (addr size : Nat) (w : World) : EraseResult :=
  if w.ni.isProtected || g.readOnly then ⟨-eRofs, none, w⟩
  else if !rangeFits g addr size w then ⟨-eInval, none, w⟩
  else if size = 0 then ⟨0, none, w⟩
  else
    let startBa := g.addr2ba addr
    let endBa := g.addr2ba ((addr + size + 2 ^ 64 - 1) % 2 ^ 64)
    eraseBlocksLoop g dev (endBa + 1 - startBa) startBa w

structure PageResult where
  ret : Int
  page : Page
  w : World

/-- `nmbm_read_logic_page`. -/
def readLogicPage (addr : Nat) (w : World) : PageResult :=
  let pb := w.ni.blockMapping (g.addr2ba addr)
  if pb < 0 then ⟨-eIo, .blank, w⟩
  else if w.blockStateOf pb.toNat = stBad then ⟨-eIo, .blank, w⟩
  else
    let r := readPhysPage dev ((g.ba2addr pb.toNat + addr % g.erasesize) / g.writesize) w.chip
    ⟨r.ret, r.page, { w with chip := r.chip }⟩

/-- `nmbm_read_single_page`. -/
def readSinglePage (addr : Nat) (w : World) : PageResult :=
  if w.ni.isProtected then ⟨-eRofs, .blank, w⟩
  else if g.ba2addr w.ni.dataBlockCount ≤ addr then ⟨-eInval, .blank, w⟩
  else readLogicPage g dev addr w

/-- The state of the loop of `nmbm_read_range`. -/
structure ReadRangeResult where
  ret : Int
  remain : Nat
  hasEccErr : Bool
  maxBitflips : Int
  buf : Mem
  w : World

/-- The loop of `nmbm_read_range`. -/
def readRangeLoop : Nat → Nat → Nat → ReadRangeResult → ReadRangeResult
  | 0, _, _, s => s
  | fuel + 1, off, pos, s =>
      if s.remain = 0 then s
      else
        let leading := off % g.writesize
        let chunk := min (g.writesize - leading) s.remain
        let r := readLogicPage g dev (off - leading) s.w
        let whole := chunk = g.writesize
        let cache := r.w.chip.pageCache.copy 0 r.page.data g.writesize
        let w₁ : World := if whole then r.w
          else { r.w with chip := { r.w.chip with pageCache := cache } }
        if r.ret < 0 ∧ r.ret ≠ -eBadMsg then { s with ret := r.ret, w := w₁ }
        else
          readRangeLoop fuel (off + chunk) (pos + chunk)
            { ret := r.ret
              remain := s.remain - chunk
              hasEccErr := s.hasEccErr || r.ret = -eBadMsg
              maxBitflips := max s.maxBitflips r.ret
              buf := if whole then s.buf.copy pos r.page.data g.writesize
                else s.buf.copy pos (cache.shift leading) chunk
              w := w₁ }

/-- `nmbm_read_range`: return code, `*retlen`, the buffer and the world. -/
def readRange (addr size : Nat) (buf : Mem) (w : World) : Int × Nat × Mem × World :=
  if w.ni.isProtected then (-eRofs, 0, buf, w)
  else if !rangeFits g addr size w then (-eInval, 0, buf, w)
  else if size = 0 then (0, 0, buf, w)
  else
    let s := readRangeLoop g dev size addr 0 ⟨0, size, false, 0, buf, w⟩
    let ret := if s.ret < 0 ∧ s.ret ≠ -eBadMsg then s.ret
      else if s.hasEccErr then -eBadMsg else s.maxBitflips
    (ret, size - s.remain, s.buf, s.w)

/-- The body shared by `nmbm_write_logic_page` and its panic variant. A failed
block is only marked; it is remapped when it is erased. -/
def programLogicPage (write : Nat → Chip → Bool × Chip) (addr : Nat) (w : World) : Int × World :=
  let pb := w.ni.blockMapping (g.addr2ba addr)
  if pb < 0 then (-eIo, w)
  else if w.blockStateOf pb.toNat = stBad then (-eIo, w)
  else
    let r := write ((g.ba2addr pb.toNat + addr % g.erasesize) / g.writesize) w.chip
    let w₁ : World := { w with chip := r.2 }
    if r.1 then (0, w₁)
    else (-eIo, (updateInfoTable g dev (w₁.setBlockState pb.toNat stNeedRemap)).2)

/-- `nmbm_write_logic_page`. -/
def writeLogicPage (addr : Nat) (data oob : Option Mem) (w : World) : Int × World :=
  programLogicPage g dev (fun p => writePhysPage g dev p data oob) addr w

/-- `nmbm_panic_write_logic_page`. -/
def panicWriteLogicPage (addr : Nat) (data : Mem) (w : World) : Int × World :=
  if !g.hasPanicWritePage then (-eNotSupp, w)
  else programLogicPage g dev (fun p => panicWritePhysPage g dev p data) addr w

/-- `nmbm_write_single_page`. -/
def writeSinglePage (addr : Nat) (data oob : Option Mem) (w : World) : Int × World :=
  if w.ni.isProtected || g.readOnly then (-eRofs, w)
  else if g.ba2addr w.ni.dataBlockCount ≤ addr then (-eInval, w)
  else writeLogicPage g dev addr data oob w

/-- `nmbm_panic_write_single_page`. -/
def panicWriteSinglePage (addr : Nat) (data : Mem) (w : World) : Int × World :=
  if w.ni.isProtected || g.readOnly then (-eRofs, w)
  else if g.ba2addr w.ni.dataBlockCount ≤ addr then (-eInval, w)
  else panicWriteLogicPage g dev addr data w

/-- One round of `nmbm_write_range`. A chunk shorter than a page is written out
of the page buffer, whose bytes after the chunk are as they were. -/
def writeChunk (data : Mem) (off pos chunk : Nat) (w : World) : Int × World :=
  let leading := off % g.writesize
  if chunk = g.writesize then
    writeLogicPage g dev (off - leading) (some (data.shift pos)) none w
  else
    let cache := (w.chip.pageCache.fill 0 0xff leading).copy leading (data.shift pos) chunk
    writeLogicPage g dev (off - leading) (some cache) none
      { w with chip := { w.chip with pageCache := cache } }

/-- The loop of `nmbm_write_range`: return code, bytes not written, world. -/
def writeRangeLoop (data : Mem) : Nat → Nat → Nat → Nat → World → Int × Nat × World
  | 0, _, _, remain, w => (0, remain, w)
  | fuel + 1, off, pos, remain, w =>
      if remain = 0 then (0, 0, w)
      else
        let chunk := min (g.writesize - off % g.writesize) remain
        let r := writeChunk g dev data off pos chunk w
        if r.1 ≠ 0 then (r.1, remain, r.2)
        else writeRangeLoop data fuel (off + chunk) (pos + chunk) (remain - chunk) r.2

/-- `nmbm_write_range`: return code, `*retlen` and the world. -/
def writeRange (addr size : Nat) (data : Mem) (w : World) : Int × Nat × World :=
  if w.ni.isProtected || g.readOnly then (-eRofs, 0, w)
  else if !rangeFits g addr size w then (-eInval, 0, w)
  else if size = 0 then (0, 0, w)
  else
    let r := writeRangeLoop g dev data size addr 0 size w
    (r.1, size - r.2.1, r.2.2)

/-- `nmbm_check_bad_block`. -/
def checkBadBlock (addr : Nat) (w : World) : Int :=
  if g.ba2addr w.ni.dataBlockCount ≤ addr then -eInval
  else
    let pb := w.ni.blockMapping (g.addr2ba addr)
    if pb < 0 then 1 else if w.blockStateOf pb.toNat = stBad then 1 else 0

/-- `nmbm_mark_bad_block`. -/
def markBadBlock (addr : Nat) (w : World) : Int × World :=
  if w.ni.isProtected || g.readOnly then (-eRofs, w)
  else if g.ba2addr w.ni.dataBlockCount ≤ addr then (-eInval, w)
  else
    let lb := g.addr2ba addr
    let pb := w.ni.blockMapping lb
    if pb < 0 then (0, w)
    else
      let w₁ := unmapBlock lb (w.log (.markBad w.ni lb pb.toNat))
      let w₂ : World := { w₁ with chip := (markPhysBadBlock g dev pb.toNat w₁.chip).2 }
      (0, (updateInfoTable g dev (w₂.setBlockState pb.toNat stBad)).2)

/-- `nmbm_detach`. -/
def detach (w : World) : World :=
  if g.readOnly then w else (updateInfoTable g dev w).2

/-- `nmbm_get_avail_size`. -/
def getAvailSize (w : World) : Nat := g.ba2addr w.ni.dataBlockCount

end Definitions

/-- The calls a client of NMBM can make on an attached instance. -/
inductive Call where
  | eraseBlockRange (addr size : Nat)
  | readSinglePage (addr : Nat)
  | readRange (addr size : Nat) (buf : Mem)
  | writeSinglePage (addr : Nat) (data oob : Option Mem)
  | panicWriteSinglePage (addr : Nat) (data : Mem)
  | writeRange (addr size : Nat) (data : Mem)
  | markBadBlock (addr : Nat)
  | detach

variable (g : Geometry) (dev : Device)

/-- The world after a call. -/
def Call.run (w : World) : Call → World
  | .eraseBlockRange addr size => (Nmbm.eraseBlockRange g dev addr size w).w
  | .readSinglePage addr => (Nmbm.readSinglePage g dev addr w).w
  | .readRange addr size buf => (Nmbm.readRange g dev addr size buf w).2.2.2
  | .writeSinglePage addr data oob => (Nmbm.writeSinglePage g dev addr data oob w).2
  | .panicWriteSinglePage addr data => (Nmbm.panicWriteSinglePage g dev addr data w).2
  | .writeRange addr size data => (Nmbm.writeRange g dev addr size data w).2.2
  | .markBadBlock addr => (Nmbm.markBadBlock g dev addr w).2
  | .detach => Nmbm.detach g dev w

/-- The states reached from `nmbm_attach` on a chip without a signature, on
which it creates NMBM, by any calls. -/
inductive Reachable : World → Prop where
  | created {fuel : Nat} {c : Chip} {w : World} (h : attach g dev fuel c = some (.created, w)) :
      Reachable w
  | call {w : World} (c : Call) (h : Reachable w) : Reachable (c.run g dev w)

end Speedway.Nmbm
