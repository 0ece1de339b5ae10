import Speedway.Lib.Paging
import Speedway.Nmbm.Operations

/-!
# Writing through the MTD layer

`nmbm_mtd_write_oob` has a fast path for requests without spare bytes, which
is `nmbm_write_range`, and a page loop for the others; `nmbm_mtd_panic_write`
has a page loop of its own. Each loop logs its page writes: what was handed
down, whether it reached the lower device, and whether it succeeded.
-/

namespace Speedway.Nmbm

open Speedway.Lib

/-- The modes of `struct mtd_oob_ops`. -/
inductive OobMode where
  | placeOob
  | autoOob
  | raw
  | other (code : Nat)
  deriving DecidableEq

/-- The request part of `struct mtd_oob_ops`. The MTD core clears a length when
its buffer is missing. -/
structure OobOps where
  mode : OobMode
  datbuf : Option Mem
  len : Nat
  oobbuf : Option Mem
  ooblen : Nat
  ooboffs : Nat
  noData : datbuf = none → len = 0
  noOob : oobbuf = none → ooblen = 0

/-- The members of `struct mtd_info` the write functions read beyond the geometry,
set when the driver is probed. -/
structure MtdInfo (g : Geometry) where
  size : Nat
  oobavail : Nat
  oobavail_le : oobavail ≤ g.oobsize

/-- `mtd_oobavail`. -/
def MtdInfo.oobAvail {g : Geometry} (info : MtdInfo g) (mode : OobMode) : Nat :=
  if mode = .autoOob then info.oobavail else g.oobsize

/-- The instance with `nm->page_cache`, the main area followed by the spare area. -/
structure Mtd where
  w : World
  cache : Mem

/-- A page write: the logic address, the buffers, whether the lower device was
called and whether the page was programmed. -/
structure PageTry where
  addr : Nat
  data : Option Mem
  oob : Option Mem
  passed : Bool
  ok : Bool

section Definitions

variable (g : Geometry) (dev : Device)

/-- The page at `addr` has a physical block that can be written. -/
def Writable (w : World) (addr : Nat) : Bool :=
  decide (0 ≤ w.ni.blockMapping (g.addr2ba addr)) &&
    !decide (w.blockStateOf (w.ni.blockMapping (g.addr2ba addr)).toNat = stBad)

/-- The log entry of `nmbm_write_logic_page` that returned `ret`. -/
def logicTry (addr : Nat) (data oob : Option Mem) (w : World) (ret : Int) : PageTry :=
  ⟨addr, data, oob, Writable g w addr && !g.readOnly, ret = 0⟩

/-- The log entry of `nmbm_write_single_page` that returned `ret`. -/
def singleTry (addr : Nat) (data oob : Option Mem) (w : World) (ret : Int) : PageTry :=
  ⟨addr, data, oob, !w.ni.isProtected && !g.readOnly &&
    decide (addr < g.ba2addr w.ni.dataBlockCount) && Writable g w addr, ret = 0⟩

/-- The log entry of `nmbm_panic_write_single_page` that returned `ret`. -/
def panicTry (addr : Nat) (data : Mem) (w : World) (ret : Int) : PageTry :=
  ⟨addr, some data, none, !w.ni.isProtected && !g.readOnly &&
    decide (addr < g.ba2addr w.ni.dataBlockCount) && g.hasPanicWritePage && Writable g w addr,
    ret = 0⟩

/-- The page that one round of `nmbm_write_range` hands down. -/
def chunkPage (data : Mem) (off pos chunk : Nat) (w : World) : Mem :=
  if chunk = g.writesize then data.shift pos
  else (w.chip.pageCache.fill 0 0xff (off % g.writesize)).copy (off % g.writesize)
    (data.shift pos) chunk

/-- The page writes of the loop of `nmbm_write_range`. -/
def writeRangeTries (data : Mem) : Nat → Nat → Nat → Nat → World → List PageTry
  | 0, _, _, _, _ => []
  | fuel + 1, off, pos, remain, w =>
      if remain = 0 then []
      else
        let chunk := min (g.writesize - off % g.writesize) remain
        let r := writeChunk g dev data off pos chunk w
        logicTry g (off - off % g.writesize) (some (chunkPage g data off pos chunk w)) none w r.1 ::
          if r.1 ≠ 0 then []
          else writeRangeTries data fuel (off + chunk) (pos + chunk) (remain - chunk) r.2

/-- The page writes of `nmbm_write_range`. -/
def writeRangePages (addr size : Nat) (data : Mem) (w : World) : List PageTry :=
  if w.ni.isProtected || g.readOnly then []
  else if !rangeFits g addr size w then []
  else if size = 0 then []
  else writeRangeTries g dev data size addr 0 size w

/-- `addr & ~mtd->writesize_mask`. The mask is an `unsigned int`, so its complement
clears the upper half of a 64-bit address too. -/
def pageStart (addr : Nat) : Nat := addr % 2 ^ 32 - addr % 2 ^ 32 % g.writesize

/-- The local variables of `nmbm_mtd_write_data`. -/
structure WriteState where
  addr : Nat
  len : Nat
  ooblen : Nat
  col : Nat
  ooboffs : Nat
  retlen : Nat
  oobretlen : Nat
  cache : Mem
  w : World

/-- Move `chunk` bytes to column `col` of the area of `size` bytes at `base`, with
0xff before and after them. -/
def fillArea (cache : Mem) (base size col : Nat) (src : Mem) (chunk : Nat) : Mem :=
  ((cache.fill base 0xff col).copy (base + col) src chunk).fill (base + col + chunk) 0xff
    (size - col - chunk)

/-- The data part of a round of `nmbm_mtd_write_data`. -/
def moveData (datbuf : Mem) (s : WriteState) : WriteState :=
  if s.len = 0 then s
  else
    let chunk := min (g.writesize - s.col) s.len
    { s with
      cache := fillArea s.cache 0 g.writesize s.col (datbuf.shift s.retlen) chunk
      len := s.len - chunk
      col := 0
      retlen := s.retlen + chunk }

/-- The spare part of a round of `nmbm_mtd_write_data`. -/
def moveOob (maxooblen : Nat) (oobbuf : Mem) (s : WriteState) : WriteState :=
  if s.ooblen = 0 then s
  else
    let chunk := min (maxooblen - s.ooboffs) s.ooblen
    { s with
      cache := fillArea s.cache g.writesize g.oobsize s.ooboffs (oobbuf.shift s.oobretlen) chunk
      ooblen := s.ooblen - chunk
      ooboffs := 0
      oobretlen := s.oobretlen + chunk }

/-- Return code, final variables and page writes. -/
structure WriteResult where
  ret : Int
  state : WriteState
  tries : List PageTry

/-- The page loop of `nmbm_mtd_write_data`. The pointers `datcache` and `oobcache`
are set once, by the lengths of the whole request. -/
def writeDataLoop (ops : OobOps) (maxooblen : Nat) : Nat → WriteState → WriteResult
  | 0, s => ⟨0, s, []⟩
  | fuel + 1, s =>
      if s.len = 0 ∧ s.ooblen = 0 then ⟨0, s, []⟩
      else
        let s₁ := moveOob g maxooblen (ops.oobbuf.getD fun _ => 0)
          (moveData g (ops.datbuf.getD fun _ => 0) s)
        let data := if ops.len ≠ 0 then some s₁.cache else none
        let oob := if ops.ooblen ≠ 0 then some (s₁.cache.shift g.writesize) else none
        let r := writeSinglePage g dev s₁.addr data oob s₁.w
        let t := singleTry g s₁.addr data oob s₁.w r.1
        if r.1 ≠ 0 then ⟨r.1, { s₁ with w := r.2 }, [t]⟩
        else
          let rest := writeDataLoop ops maxooblen fuel
            { s₁ with w := r.2, addr := s₁.addr + g.writesize }
          { rest with tries := t :: rest.tries }

/-- The result of a write call: return code, `retlen`, instance and page writes. -/
structure MtdResult where
  ret : Int
  retlen : Nat
  m : Mtd
  tries : List PageTry

/-- `nmbm_mtd_write_data`. -/
def mtdWriteData (info : MtdInfo g) (toAddr : Nat) (ops : OobOps) (m : Mtd) : MtdResult :=
  let r := writeDataLoop g dev ops (info.oobAvail ops.mode) (ops.len + ops.ooblen)
    { addr := pageStart g toAddr
      len := ops.len
      ooblen := ops.ooblen
      col := toAddr % g.writesize
      ooboffs := ops.ooboffs
      retlen := 0
      oobretlen := 0
      cache := m.cache
      w := m.w }
  ⟨r.ret, r.state.retlen, ⟨r.state.w, r.state.cache⟩, r.tries⟩

/-- The tests that `nmbm_mtd_write_oob` makes; `none` accepts the request. -/
def mtdWriteCheck (info : MtdInfo g) (toAddr : Nat) (ops : OobOps) : Option Int :=
  let maxooblen := info.oobAvail ops.mode
  if ops.oobbuf.isNone ∧ ops.datbuf.isNone then
    if ops.ooblen ≠ 0 ∨ ops.len ≠ 0 then some (-eInval) else some 0
  else
    match ops.mode with
    | .other _ => some (-eNotSupp)
    | _ =>
        if ops.datbuf.isSome ∧ info.size < (toAddr + ops.len) % 2 ^ 64 then some (-eInval)
        else if ops.oobbuf.isNone then none
        else if maxooblen ≤ ops.ooboffs then some (-eInval)
        else if info.size ≤ toAddr ∨ (info.size / g.writesize - toAddr / g.writesize) * maxooblen <
            ops.ooboffs + ops.ooblen then some (-eInval)
        else none

/-- `nmbm_mtd_write_oob`. The MTD core has set `retlen` to 0. -/
def mtdWriteOob (info : MtdInfo g) (toAddr : Nat) (ops : OobOps) (m : Mtd) : MtdResult :=
  match mtdWriteCheck g info toAddr ops with
  | some ret => ⟨ret, 0, m, []⟩
  | none =>
      if ops.oobbuf.isNone then
        -- optimized for writing data only
        let data := ops.datbuf.getD fun _ => 0
        let r := writeRange g dev toAddr ops.len data m.w
        ⟨r.1, r.2.1, { m with w := r.2.2 }, writeRangePages g dev toAddr ops.len data m.w⟩
      else mtdWriteData g dev info toAddr ops m

/-- The page of a round of `nmbm_mtd_panic_write`. -/
def panicPage (cache buf : Mem) (col chunk wrlen : Nat) : Mem :=
  (if chunk < g.writesize then cache.fill 0 0xff g.writesize else cache).copy col
    (buf.shift wrlen) chunk

/-- The page loop of `nmbm_mtd_panic_write`; it is left early after a failure. -/
def panicWriteLoop (buf : Mem) : Nat → Nat → Nat → Nat → Nat → Mtd → MtdResult
  | 0, _, _, _, wrlen, m => ⟨0, wrlen, m, []⟩
  | fuel + 1, len, col, toAddr, wrlen, m =>
      if len = 0 then ⟨0, wrlen, m, []⟩
      else
        let chunk := min (g.writesize - col) len
        let page := panicPage g m.cache buf col chunk wrlen
        let r := panicWriteSinglePage g dev toAddr page m.w
        let t := panicTry g toAddr page m.w r.1
        if r.1 ≠ 0 then ⟨0, wrlen + chunk, ⟨r.2, page⟩, [t]⟩
        else
          let rest := panicWriteLoop buf fuel (len - chunk) 0 (toAddr + g.writesize) (wrlen + chunk)
            ⟨r.2, page⟩
          { rest with tries := t :: rest.tries }

/-- `nmbm_mtd_panic_write`. The return code of the page writes is dropped. -/
def mtdPanicWrite (toAddr len : Nat) (buf : Mem) (m : Mtd) : MtdResult :=
  panicWriteLoop g dev buf len len (toAddr % g.writesize) (pageStart g toAddr) 0 m

end Definitions

theorem pageStart_of_lt {g : Geometry} {addr : Nat} (h : addr < 2 ^ 32) :
    pageStart g addr = addr - addr % g.writesize := by
  rw [pageStart, Nat.mod_eq_of_lt h]

/-- A write request to the MTD layer. -/
inductive MtdWrite where
  | oob (toAddr : Nat) (ops : OobOps)
  | panic (toAddr len : Nat) (buf : Mem)

def MtdWrite.run (g : Geometry) (dev : Device) (info : MtdInfo g) (m : Mtd) :
    MtdWrite → MtdResult
  | .oob toAddr ops => mtdWriteOob g dev info toAddr ops m
  | .panic toAddr len buf => mtdPanicWrite g dev toAddr len buf m

end Speedway.Nmbm
