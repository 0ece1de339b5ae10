import Speedway.Lib.Journal
import Speedway.Nmbm.Geometry

/-!
# The lower NAND chip and the page and block calls made to it

The chip under NMBM is adversarial: a `Device` answers the `t`-th call with
any return code. A call that reports success has its documented effect. A
failed program, erase or bad-block mark leaves arbitrary contents in the
pages it touches, and a failed read delivers arbitrary bytes. Resetting the
chip between two tries has no effect on the contents and is left out.
-/

namespace Speedway.Nmbm

open Speedway.Lib

/-- Main and spare bytes of a page. -/
structure Page where
  data : Mem
  oob : Mem

/-- A page after a successful erase. -/
def Page.blank : Page := ⟨fun _ => 0xff, fun _ => 0xff⟩

/-- Programming keeps the part for which no buffer is given. -/
def Page.program (data oob : Option Mem) (old : Page) : Page :=
  ⟨data.getD old.data, oob.getD old.oob⟩

/-- Page contents by page number. -/
abbrev Flash := Nat → Page

/-- The callbacks of `struct nmbm_lower_device`, by page or block number. -/
inductive Request where
  | readPage (page : Nat)
  | writePage (page : Nat)
  | panicWritePage (page : Nat)
  | eraseBlock (block : Nat)
  | isBadBlock (block : Nat)
  | markBadBlock (block : Nat)
  deriving DecidableEq

/-- A return code, and what a failed call leaves behind or delivers. -/
structure Reply where
  ret : Int
  left : Nat → Page

/-- The answer to the `t`-th call. -/
abbrev Device := Nat → Request → Reply

inductive OpKind where
  | erase
  | program
  | markBad
  deriving DecidableEq

/-- One call that changes the flash, with the pages it rewrote. -/
structure FlashOp where
  kind : OpKind
  block : Nat
  content : Nat → Option Page

/-- Flash operations rewrite pages of their own block only. -/
def flashJournal (g : Geometry) : Journal Nat Page FlashOp Nat where
  apply op f p :=
    if p / g.pagesPerBlock = op.block then (op.content p).getD (f p) else f p
  region p := p / g.pagesPerBlock
  target op := op.block
  frame := by
    intro op f p h
    simp [h]

/-- The chip: contents, number of calls made, the operations so far (oldest
first), and the page buffer `ni->page_cache` the calls work on. -/
structure Chip where
  flash : Flash
  calls : Nat
  ops : List FlashOp
  pageCache : Mem

/-- `EBADMSG`. -/
def eBadMsg : Int := 74

/-- `NMBM_TRY_COUNT`. -/
def tryCount : Nat := 3

section Calls

variable (g : Geometry) (dev : Device)

/-- Carry out an operation and log it. -/
def Chip.perform (op : FlashOp) (c : Chip) : Chip :=
  { c with
    flash := (flashJournal g).apply op c.flash
    calls := c.calls + 1
    ops := c.ops ++ [op] }

structure ReadResult where
  ret : Int
  page : Page
  chip : Chip

/-- `read_page` of the lower device. -/
def readPage (p : Nat) (c : Chip) : ReadResult :=
  let r := dev c.calls (.readPage p)
  ⟨r.ret, if 0 ≤ r.ret then c.flash p else r.left p, { c with calls := c.calls + 1 }⟩

/-- The retry loop of `nmbm_read_phys_page`, with `n` tries after this one. -/
def readTries : Nat → Nat → Chip → ReadResult
  | 0, p, c => readPage dev p c
  | n + 1, p, c =>
      let r := readPage dev p c
      if 0 ≤ r.ret then r else readTries n p r.chip

/-- `nmbm_read_phys_page`. -/
def readPhysPage (p : Nat) (c : Chip) : ReadResult := readTries dev (tryCount - 1) p c

/-- The retry loop shared by the two page writers. -/
def programTries (req : Request) (p : Nat) (write : Page → Page) : Nat → Chip → Bool × Chip
  | 0, c => (false, c)
  | n + 1, c =>
      let r := dev c.calls req
      let page := if r.ret = 0 then write (c.flash p) else r.left p
      let c' := c.perform g
        ⟨.program, p / g.pagesPerBlock, fun q => if q = p then some page else none⟩
      if r.ret = 0 then (true, c') else programTries req p write n c'

/-- `nmbm_write_phys_page`. -/
def writePhysPage (p : Nat) (data oob : Option Mem) (c : Chip) : Bool × Chip :=
  if g.readOnly then (false, c)
  else programTries g dev (.writePage p) p (Page.program data oob) tryCount c

/-- `nmbm_panic_write_phys_page`. -/
def panicWritePhysPage (p : Nat) (data : Mem) (c : Chip) : Bool × Chip :=
  if g.readOnly then (false, c)
  else programTries g dev (.panicWritePage p) p (Page.program (some data) none) tryCount c

/-- The retry loop of `nmbm_erase_phys_block`. -/
def eraseTries (b : Nat) : Nat → Chip → Bool × Chip
  | 0, c => (false, c)
  | n + 1, c =>
      let r := dev c.calls (.eraseBlock b)
      let c' := c.perform g
        ⟨.erase, b, fun q => some (if r.ret = 0 then Page.blank else r.left q)⟩
      if r.ret = 0 then (true, c') else eraseTries b n c'

/-- `nmbm_erase_phys_block`. -/
def erasePhysBlock (b : Nat) (c : Chip) : Bool × Chip :=
  if g.readOnly then (false, c) else eraseTries g dev b tryCount c

/-- `nmbm_check_bad_phys_block`: the callback, or the first spare byte of the
block's first page. An ECC error counts as a successful read there. -/
def checkBadPhysBlock (b : Nat) (c : Chip) : Bool × Chip :=
  if g.hasIsBadBlock then
    ((dev c.calls (.isBadBlock b)).ret ≠ 0, { c with calls := c.calls + 1 })
  else
    let r := readPhysPage dev (b * g.pagesPerBlock) c
    let cache := r.chip.pageCache.copy g.writesize r.page.oob g.oobsize
    let c' := { r.chip with pageCache := cache }
    if r.ret < 0 ∧ r.ret ≠ -eBadMsg then (true, c') else (cache g.writesize ≠ 0xff, c')

/-- Overwrite `n` pages from page `p` on with the page buffer, ignoring errors. -/
def writeZeroPages : Nat → Nat → Chip → Chip
  | 0, _, c => c
  | n + 1, p, c =>
      writeZeroPages n (p + 1)
        (writePhysPage g dev p (some c.pageCache) (some (c.pageCache.shift g.writesize)) c).2

/-- `nmbm_mark_phys_bad_block`. -/
def markPhysBadBlock (b : Nat) (c : Chip) : Int × Chip :=
  if g.readOnly then (0, c)
  else if g.hasMarkBadBlock then
    let r := dev c.calls (.markBadBlock b)
    (r.ret, c.perform g ⟨.markBad, b, fun q => some (r.left q)⟩)
  else
    let cache := c.pageCache.fill 0 0 (g.writesize + g.oobsize)
    (0, writeZeroPages g dev g.pagesPerBlock (b * g.pagesPerBlock) { c with pageCache := cache })

/-- The page loop of `nmbm_erase_block_and_check`. -/
def checkEmptyPages : Nat → Nat → Chip → Bool × Chip
  | 0, _, c => (true, c)
  | n + 1, p, c =>
      let r := readPhysPage dev p c
      let c' := { r.chip with pageCache := r.chip.pageCache.copy 0 r.page.data g.writesize }
      if r.ret = -eBadMsg then (false, c') else checkEmptyPages n (p + 1) c'

/-- `nmbm_erase_block_and_check`. -/
def eraseBlockAndCheck (b : Nat) (c : Chip) : Bool × Chip :=
  let e := erasePhysBlock g dev b c
  if !e.1 then (false, e.2)
  else if !g.emptyPageEccOk then (true, e.2)
  else checkEmptyPages g dev g.pagesPerBlock (b * g.pagesPerBlock) e.2

/-- The page loop of `nmbm_write_repeated_data`. -/
def writeRepeatedPages (data : Mem) (size : Nat) : Nat → Nat → Chip → Bool × Chip
  | 0, _, c => (true, c)
  | n + 1, p, c =>
      let cache := (c.pageCache.copy 0 data size).fill size 0xff
        (g.writesize + g.oobsize - size)
      let wr := writePhysPage g dev p (some cache) none { c with pageCache := cache }
      if !wr.1 then (false, wr.2)
      else
        let r := readPhysPage dev p wr.2
        let c' := { r.chip with pageCache := r.chip.pageCache.copy 0 r.page.data g.writesize }
        if r.ret < 0 then (false, c')
        else if c'.pageCache.bytes size ≠ data.bytes size then (false, c')
        else writeRepeatedPages data size n (p + 1) c'

/-- `nmbm_write_repeated_data`. -/
def writeRepeatedData (b : Nat) (data : Mem) (size : Nat) (c : Chip) : Bool × Chip :=
  if g.writesize < size then (false, c)
  else writeRepeatedPages g dev data size g.pagesPerBlock (b * g.pagesPerBlock) c

structure BufferResult where
  ret : Int
  buf : Mem
  chip : Chip

/-- The loop of `nmbn_read_data`, which fills `buf` from offset `pos` on. Each
round consumes at least one byte, so `fuel` may be the size. -/
def readDataLoop : Nat → Nat → Nat → Nat → Mem → Chip → BufferResult
  | 0, _, _, _, buf, c => ⟨0, buf, c⟩
  | fuel + 1, off, pos, remain, buf, c =>
      if remain = 0 then ⟨0, buf, c⟩
      else
        let leading := off % g.writesize
        let chunk := min (g.writesize - leading) remain
        let r := readPhysPage dev ((off - leading) / g.writesize) c
        if chunk = g.writesize then
          let buf' := buf.copy pos r.page.data g.writesize
          if r.ret < 0 then ⟨r.ret, buf', r.chip⟩
          else readDataLoop fuel (off + chunk) (pos + chunk) (remain - chunk) buf' r.chip
        else
          let cache := r.chip.pageCache.copy 0 r.page.data g.writesize
          let c' := { r.chip with pageCache := cache }
          if r.ret < 0 then ⟨r.ret, buf, c'⟩
          else readDataLoop fuel (off + chunk) (pos + chunk) (remain - chunk)
            (buf.copy pos (cache.shift leading) chunk) c'

/-- `nmbn_read_data` into `buf + pos`. -/
def readData (addr size : Nat) (buf : Mem) (pos : Nat) (c : Chip) : BufferResult :=
  readDataLoop g dev size addr pos size buf c

/-- The loop of `nmbn_write_verify_data`. -/
def writeVerifyLoop (data : Mem) : Nat → Nat → Nat → Nat → Chip → Bool × Chip
  | 0, _, _, _, c => (true, c)
  | fuel + 1, off, pos, remain, c =>
      if remain = 0 then (true, c)
      else
        let leading := off % g.writesize
        let chunk := min (g.writesize - leading) remain
        let page := (off - leading) / g.writesize
        let cache := (c.pageCache.fill 0 0xff (g.writesize + g.oobsize)).copy leading
          (data.shift pos) chunk
        let wr := writePhysPage g dev page (some cache) none { c with pageCache := cache }
        if !wr.1 then (false, wr.2)
        else
          let r := readPhysPage dev page wr.2
          let c' := { r.chip with pageCache := r.chip.pageCache.copy 0 r.page.data g.writesize }
          if r.ret < 0 then (false, c')
          else if (c'.pageCache.shift leading).bytes chunk ≠ (data.shift pos).bytes chunk then
            (false, c')
          else writeVerifyLoop data fuel (off + chunk) (pos + chunk) (remain - chunk) c'

/-- `nmbn_write_verify_data`. -/
def writeVerifyData (addr : Nat) (data : Mem) (size : Nat) (c : Chip) : Bool × Chip :=
  writeVerifyLoop g dev data size addr 0 size c

end Calls

end Speedway.Nmbm
