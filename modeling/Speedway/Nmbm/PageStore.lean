import Speedway.Lib.Knowledge
import Speedway.Nmbm.LogicPages

/-!
# What a client may conclude from the reports of its calls

To its clients NMBM is a store of pages that can be written and blocks that
can be erased. A client sees the calls it makes and what they report, and
concludes from that which bytes the store holds. In runs that always find the
block at the boundary of the spare blocks good, every conclusion is right and
every successful read confirms it, across remapping and the upkeep of the
tables and on a chip that may fail any call.
-/

namespace Speedway.Nmbm

open Speedway.Lib

/-- A byte of the store: a main byte by its linear address, or byte `i` of the
spare area of page `p`. -/
inductive Cell where
  | main (a : Nat)
  | spare (p i : Nat)
  deriving DecidableEq

section Definitions

variable (g : Geometry) (dev : Device)

/-- The logic page of a cell. -/
def Cell.page : Cell → Nat
  | .main a => a / g.writesize
  | .spare p _ => p

/-- The logic block of a cell. -/
def Cell.block (c : Cell) : Nat := c.page g / g.pagesPerBlock

/-- The byte of a cell in its page. -/
def Cell.get (pg : Page) : Cell → UInt8
  | .main a => pg.data (a % g.writesize)
  | .spare _ i => pg.oob i

/-- The cells of a world. -/
def cellOf (w : World) (c : Cell) : Option UInt8 := (pageOf g w (c.page g)).map fun pg => c.get g pg

/-- What a call reports: its return code, `*retlen` and `*failed_addr`. -/
structure Report where
  ret : Int
  retlen : Nat
  failedAddr : Option Nat

def Call.report (w : World) : Call → Report
  | .eraseBlockRange addr size =>
      let r := Nmbm.eraseBlockRange g dev addr size w
      ⟨r.ret, 0, r.failedAddr⟩
  | .readSinglePage addr => ⟨(Nmbm.readSinglePage g dev addr w).ret, 0, none⟩
  | .readRange addr size buf =>
      let r := Nmbm.readRange g dev addr size buf w
      ⟨r.1, r.2.1, none⟩
  | .writeSinglePage addr data oob => ⟨(Nmbm.writeSinglePage g dev addr data oob w).1, 0, none⟩
  | .panicWriteSinglePage addr data => ⟨(Nmbm.panicWriteSinglePage g dev addr data w).1, 0, none⟩
  | .writeRange addr size data =>
      let r := Nmbm.writeRange g dev addr size data w
      ⟨r.1, r.2.1, none⟩
  | .markBadBlock addr => ⟨(Nmbm.markBadBlock g dev addr w).1, 0, none⟩
  | .detach => ⟨0, 0, none⟩

/-- The bytes of a page that was programmed with the given buffers. A try that
failed before the successful one may have spoilt the part without a buffer. -/
def pageCells (data oob : Option Mem) : Knowledge Cell UInt8
  | .main a => data.map fun d => d (a % g.writesize)
  | .spare _ i => oob.map fun o => o i

/-- The `n` bytes of `data` from `addr` on. -/
def rangeCells (addr n : Nat) (data : Mem) : Knowledge Cell UInt8
  | .main a => if addr ≤ a ∧ a < addr + n then some (data (a - addr)) else none
  | .spare _ _ => none

/-- After a page was programmed, or an attempt to program it failed. -/
def concludePage (addr : Nat) (data oob : Option Mem) (ret : Int) (k : Knowledge Cell UInt8) :
    Knowledge Cell UInt8 :=
  if ret = 0 then k.revise (fun c => c.page g = addr / g.writesize) (pageCells g data oob)
  else if ret = -eIo then k.forget fun c => c.page g = addr / g.writesize
  else k

/-- After the blocks of a range were erased, all of them or up to the one reported. -/
def concludeErase (addr size : Nat) (ret : Int) (failedAddr : Option Nat)
    (k : Knowledge Cell UInt8) : Knowledge Cell UInt8 :=
  if ret = 0 then
    if size = 0 then k
    else k.revise (fun c => addr / g.erasesize ≤ c.block g ∧
      c.block g ≤ (addr + size - 1) / g.erasesize) fun _ => some 0xff
  else if ret = -eIo then
    let failed := failedAddr.getD addr / g.erasesize
    (k.revise (fun c => addr / g.erasesize ≤ c.block g ∧ c.block g < failed)
      fun _ => some 0xff).forget fun c => c.block g = failed
  else k

/-- After `n` bytes were written. The other bytes of the pages written, and the
page at which the write stopped, are lost. -/
def concludeRange (addr : Nat) (data : Mem) (ret : Int) (n : Nat) (k : Knowledge Cell UInt8) :
    Knowledge Cell UInt8 :=
  if ret = 0 ∨ ret = -eIo then
    k.revise (fun c => addr / g.writesize ≤ c.page g ∧
      (0 < n ∧ c.page g * g.writesize < addr + n ∨
        ret ≠ 0 ∧ c.page g = (addr + n) / g.writesize)) (rangeCells addr n data)
  else k

/-- What a client concludes from the report of a call. Return codes other than 0
and `-EIO` say that nothing was attempted. -/
def Call.conclude (r : Report) (k : Knowledge Cell UInt8) : Call → Knowledge Cell UInt8
  | .eraseBlockRange addr size => concludeErase g addr size r.ret r.failedAddr k
  | .writeSinglePage addr data oob => concludePage g addr data oob r.ret k
  | .panicWriteSinglePage addr data => concludePage g addr (some data) none r.ret k
  | .writeRange addr _ data => concludeRange g addr data r.ret r.retlen k
  | .markBadBlock addr =>
      if r.ret = 0 then k.forget fun c => c.block g = addr / g.erasesize else k
  | .readSinglePage _ | .readRange _ _ _ | .detach => k

/-- The 64-bit sum of address and size does not wrap around. -/
def Call.NoWrap : Call → Prop
  | .eraseBlockRange addr size | .readRange addr size _ | .writeRange addr size _ =>
      addr + size < 2 ^ 64
  | _ => True

/-- The world after a list of calls. -/
def runCalls : List Call → World → World
  | [], w => w
  | c :: cs, w => runCalls cs (c.run g dev w)

/-- The conclusions from the reports of a list of calls. -/
def conclusions : List Call → World → Knowledge Cell UInt8 → Knowledge Cell UInt8
  | [], _, k => k
  | c :: cs, w, k => conclusions cs (c.run g dev w) (c.conclude g (c.report g dev w) k)

end Definitions

section Ranges

variable {g : Geometry} {dev : Device} {w : World}

/-- Without wrap-around an accepted range lies in the data area. -/
theorem rangeFits_le {addr size : Nat} (hwrap : addr + size < 2 ^ 64)
    (h : ¬ (!rangeFits g addr size w) = true) :
    addr + size ≤ g.ba2addr w.ni.dataBlockCount := by
  rw [Bool.not_eq_true, Bool.not_eq_false', rangeFits, Bool.and_eq_true, decide_eq_true_eq,
    decide_eq_true_eq, Nat.mod_eq_of_lt hwrap] at h
  exact h.2

/-- One round of `nmbm_write_range` programs the page of its offset, with the
chunk in its place. -/
theorem writeChunk_programmed (dev : Device) (data : Mem) {off : Nat} (pos : Nat) {chunk : Nat}
    (hchunk : chunk ≤ g.writesize - off % g.writesize) (hb : Base g w) (hm : MapInv w.ni)
    (hoff : off < g.ba2addr w.ni.dataBlockCount) :
    ∃ page : Mem, (∀ j < chunk, page (off % g.writesize + j) = data (pos + j)) ∧
      PageProgrammed g (off / g.writesize) (some page) none w
        (writeChunk g dev data off pos chunk w) := by
  have hpage := page_of_off g off
  have hlow : off - off % g.writesize < g.ba2addr w.ni.dataBlockCount := by omega
  have hmod := Nat.mod_lt off g.writesize_pos
  simp only [writeChunk]
  split
  · next hwhole =>
      refine ⟨data.shift pos, fun j hj => ?_, ?_⟩
      · rw [show off % g.writesize = 0 by omega, Nat.zero_add, Mem.shift_apply]
      · rw [← hpage]
        exact writeLogicPage_programmed dev _ _ hb hm hlow
  · generalize hcache : (w.chip.pageCache.fill 0 0xff (off % g.writesize)).copy
      (off % g.writesize) (data.shift pos) chunk = cache
    have hb' : Base g { w with chip := { w.chip with pageCache := cache } } :=
      hb.step (show Step g dev w _ from .read rfl rfl)
    refine ⟨cache, fun j hj => ?_, ?_⟩
    · rw [← hcache, Mem.copy_inside hj, Mem.shift_apply]
    · rw [← hpage]
      have h := writeLogicPage_programmed dev (some cache) none hb' hm hlow
      exact ⟨h.ret, h.kept, h.ok, h.mapInv, h.base, h.count⟩

/-- What the loop of `nmbm_write_range` has done when it ends with `rest` bytes not
written. -/
structure RangeWritten (g : Geometry) (data : Mem) (off pos remain : Nat) (w : World)
    (r : Int × Nat × World) : Prop where
  stop : r.1 = 0 ∧ r.2.1 = 0 ∨ r.1 = -eIo ∧ 0 < r.2.1
  rest : r.2.1 ≤ remain
  bytes : ∀ j < remain - r.2.1, ∃ pg, pageOf g r.2.2 ((off + j) / g.writesize) = some pg ∧
    pg.data ((off + j) % g.writesize) = data (pos + j)
  kept : PagesKept g (fun p => off / g.writesize ≤ p ∧
    (0 < remain - r.2.1 ∧ p * g.writesize < off + (remain - r.2.1) ∨
      r.1 ≠ 0 ∧ p = (off + (remain - r.2.1)) / g.writesize)) w r.2.2

theorem writeRangeLoop_written (dev : Device) (data : Mem) {fuel off remain : Nat} (pos : Nat)
    (hfuel : remain ≤ fuel) (hb : Base g w) (hm : MapInv w.ni)
    (hin : off + remain ≤ g.ba2addr w.ni.dataBlockCount) :
    RangeWritten g data off pos remain w (writeRangeLoop g dev data fuel off pos remain w) := by
  induction fuel generalizing off pos remain w with
  | zero =>
      obtain rfl : remain = 0 := by omega
      exact ⟨.inl ⟨rfl, rfl⟩, le_refl _, fun j hj => by simp [writeRangeLoop] at hj, .refl⟩
  | succ fuel ih =>
      simp only [writeRangeLoop]
      split
      · next hzero =>
          subst hzero
          exact ⟨.inl ⟨rfl, rfl⟩, le_refl _, fun j hj => by simp at hj, .refl⟩
      · next hne =>
          have hpos := Nat.sub_pos_of_lt (Nat.mod_lt off g.writesize_pos)
          generalize hchunk : min (g.writesize - off % g.writesize) remain = chunk
          obtain ⟨page, hpage, hone⟩ := writeChunk_programmed dev data pos
            (show chunk ≤ g.writesize - off % g.writesize by omega) hb hm (by omega)
          have hfirst : off / g.writesize * g.writesize ≤ off := Nat.div_mul_le_self _ _
          split
          · next hfail =>
              refine ⟨.inr ⟨hone.ret.resolve_left hfail, Nat.pos_of_ne_zero hne⟩, le_refl _,
                fun j hj => ?_, hone.kept.mono fun p hp => ⟨by omega, .inr ⟨hfail, ?_⟩⟩⟩
              · simp only [Nat.sub_self] at hj
                omega
              · rw [Nat.sub_self, Nat.add_zero]
                exact hp
          · next hok =>
              obtain ⟨old, hold⟩ := hone.ok (not_not.mp hok)
              have hin' : off + chunk + (remain - chunk) ≤
                  g.ba2addr (writeChunk g dev data off pos chunk w).2.ni.dataBlockCount := by
                rw [hone.count]
                omega
              have hrest := ih (pos + chunk) (show remain - chunk ≤ fuel by omega) hone.base
                hone.mapInv hin'
              generalize writeRangeLoop g dev data fuel (off + chunk) (pos + chunk)
                (remain - chunk) (writeChunk g dev data off pos chunk w).2 = r at hrest ⊢
              have hle := hrest.rest
              -- the rest of the loop leaves the first page alone
              have hkeep : pageOf g r.2.2 (off / g.writesize) =
                  some (Page.program (some page) none old) := by
                refine hrest.kept _ _ (fun hS => ?_) hold
                by_cases hlast : remain ≤ g.writesize - off % g.writesize
                · rcases hrest.stop with ⟨h₁, -⟩ | ⟨-, h₁⟩
                  · rcases hS.2 with ⟨h, -⟩ | ⟨h, -⟩
                    · omega
                    · exact h h₁
                  · omega
                · have hnext := next_off g off
                  rw [show g.writesize - off % g.writesize = chunk by omega] at hnext
                  omega
              refine ⟨hrest.stop, by omega, fun j hj => ?_, ?_⟩
              · by_cases hjc : j < chunk
                · have hcol : j < g.writesize - off % g.writesize := by omega
                  rw [(chunk_page g hcol).1, (chunk_page g hcol).2]
                  exact ⟨_, hkeep, hpage j hjc⟩
                · obtain ⟨pg, hpg, hbyte⟩ := hrest.bytes (j - chunk) (by omega)
                  rw [show off + chunk + (j - chunk) = off + j by omega] at hpg hbyte
                  rw [show pos + chunk + (j - chunk) = pos + j by omega] at hbyte
                  exact ⟨pg, hpg, hbyte⟩
              · have hsum : off + chunk + (remain - chunk - r.2.1) = off + (remain - r.2.1) := by
                  omega
                have hstart : off / g.writesize ≤ (off + chunk) / g.writesize :=
                  Nat.div_le_div_right (by omega)
                refine (hone.kept.mono fun p hp => ?_).trans (hrest.kept.mono fun p hp => ?_)
                · subst hp
                  exact ⟨le_refl _, .inl ⟨by omega, by omega⟩⟩
                · rw [hsum] at hp
                  refine ⟨hstart.trans hp.1, hp.2.imp_left fun h => ⟨by omega, h.2⟩⟩

end Ranges

section Conclusions

variable {g : Geometry} {dev : Device} {w w' : World} {k : Knowledge Cell UInt8}

theorem cellOf_eq_some {c : Cell} {pg : Page} (h : pageOf g w (c.page g) = some pg) :
    cellOf g w c = some (c.get g pg) := by
  rw [cellOf, h, Option.map_some]

/-- Cells of kept pages are kept. -/
theorem PagesKept.cells {S : Nat → Prop} (h : PagesKept g S w w') {c : Cell} {v : UInt8}
    (hS : ¬ S (c.page g)) (hc : cellOf g w c = some v) : cellOf g w' c = some v := by
  obtain ⟨pg, hpg, hget⟩ := Option.map_eq_some_iff.mp hc
  rw [cellOf_eq_some (h _ _ hS hpg), hget]

theorem holds_of_pagesKept (hk : k.Holds (cellOf g w)) (h : PagesKept g (fun _ => False) w w') :
    k.Holds (cellOf g w') :=
  hk.of_kept fun _ _ => h.cells id

/-- The conclusion from a page that was programmed, or not. -/
theorem concludePage_holds {addr : Nat} {data oob : Option Mem} {r : Int × World}
    (hk : k.Holds (cellOf g w)) (h : PageProgrammed g (addr / g.writesize) data oob w r) :
    (concludePage g addr data oob r.1 k).Holds (cellOf g r.2) := by
  rcases h.ret with hzero | hio
  · obtain ⟨old, hold⟩ := h.ok hzero
    rw [concludePage, if_pos hzero]
    refine hk.revise (fun c v hc => h.kept.cells hc) fun c v hc hv => ?_
    rw [← hc] at hold
    rw [cellOf_eq_some hold]
    cases c with
    | main a =>
        obtain ⟨d, rfl, rfl⟩ := Option.map_eq_some_iff.mp hv
        rfl
    | spare p i =>
        obtain ⟨o, rfl, rfl⟩ := Option.map_eq_some_iff.mp hv
        rfl
  · rw [concludePage, if_neg (by rw [hio]; decide), if_pos hio]
    exact hk.forget fun c v hc => h.kept.cells hc

theorem writeSinglePage_holds (addr : Nat) (data oob : Option Mem) (hb : Base g w)
    (hm : MapInv w.ni) (hk : k.Holds (cellOf g w)) :
    (concludePage g addr data oob (writeSinglePage g dev addr data oob w).1 k).Holds
      (cellOf g (writeSinglePage g dev addr data oob w).2) := by
  simp only [writeSinglePage]
  split
  · exact hk
  · split
    · exact hk
    · next hlimit =>
        exact concludePage_holds hk (writeLogicPage_programmed dev data oob hb hm (by omega))

theorem panicWriteSinglePage_holds (addr : Nat) (data : Mem) (hb : Base g w) (hm : MapInv w.ni)
    (hk : k.Holds (cellOf g w)) :
    (concludePage g addr (some data) none (panicWriteSinglePage g dev addr data w).1 k).Holds
      (cellOf g (panicWriteSinglePage g dev addr data w).2) := by
  simp only [panicWriteSinglePage, panicWriteLogicPage]
  split
  · exact hk
  · split
    · exact hk
    · next hlimit =>
        split
        · exact hk
        · refine concludePage_holds hk (programLogicPage_programmed
            (panicWritePhysPage_writer g dev data) (fun p c => ?_) hb hm (by omega))
          exact panicWritePhysPage_evolves dev (S := fun b => b = p / g.pagesPerBlock) rfl c

theorem writeRange_holds {addr size : Nat} (data : Mem) (hwrap : addr + size < 2 ^ 64)
    (hb : Base g w) (hm : MapInv w.ni) (hk : k.Holds (cellOf g w)) :
    (concludeRange g addr data (writeRange g dev addr size data w).1
      (writeRange g dev addr size data w).2.1 k).Holds
        (cellOf g (writeRange g dev addr size data w).2.2) := by
  generalize hr : writeRange g dev addr size data w = r
  simp only [writeRange] at hr
  split at hr
  · subst hr
    exact hk
  split at hr
  · subst hr
    exact hk
  next hfits =>
    split at hr
    · subst hr
      rw [concludeRange, if_pos (.inl rfl)]
      refine hk.revise (fun c v _ hc => hc) fun c v hc => ?_
      rcases hc.2 with h | h
      · exact absurd h.1 (lt_irrefl _)
      · exact absurd rfl h.1
    · have h := writeRangeLoop_written dev data 0 (le_refl size) hb hm
        (rangeFits_le hwrap hfits)
      subst hr
      rw [concludeRange, if_pos (h.stop.imp And.left And.left)]
      refine hk.revise (fun c v hc => h.kept.cells hc) fun c v _ hv => ?_
      cases c with
      | spare p i => exact absurd hv (by simp [rangeCells])
      | main a =>
          simp only [rangeCells] at hv
          split at hv
          · next hin =>
              obtain ⟨pg, hpg, hbyte⟩ := h.bytes (a - addr) (by omega)
              rw [show addr + (a - addr) = a by omega] at hpg hbyte
              rw [Nat.zero_add] at hbyte
              rw [cellOf_eq_some (c := .main a) hpg, ← Option.some.inj hv, ← hbyte]
              rfl
          · exact absurd hv (by simp)

theorem Cell.get_blank (c : Cell) : c.get g Page.blank = 0xff := by
  cases c <;> rfl

/-- The conclusion from a loop that erased `m` blocks of the range. -/
theorem concludeErase_holds {addr size m : Nat} {r : EraseResult} (hsize : size ≠ 0)
    (h : BlocksErased g (addr / g.erasesize)
      ((addr + size - 1) / g.erasesize + 1 - addr / g.erasesize) m w r)
    (hk : k.Holds (cellOf g w)) :
    (concludeErase g addr size r.ret r.failedAddr k).Holds (cellOf g r.w) := by
  have hle : addr / g.erasesize ≤ (addr + size - 1) / g.erasesize :=
    Nat.div_le_div_right (by omega)
  have hblank {c : Cell} (h₁ : addr / g.erasesize ≤ c.block g)
      (h₂ : c.block g < addr / g.erasesize + m) : cellOf g r.w c = some 0xff := by
    rw [cellOf_eq_some (h.blank _ h₁ h₂), Cell.get_blank]
  rcases h.stop with ⟨hret, hm⟩ | ⟨hret, hm, hfailed⟩
  · rw [concludeErase, if_pos hret, if_neg hsize]
    refine hk.revise (fun c v hc => h.kept.cells fun hS => hc ?_) fun c v hc hv => ?_
    · rcases hS.2 with hlt | ⟨hne, -⟩
      · exact ⟨hS.1, show c.page g / g.pagesPerBlock ≤ _ by omega⟩
      · exact absurd hret hne
    · rw [← hv]
      exact hblank hc.1 (by omega)
  · have hne : r.ret ≠ 0 := by
      rw [hret]
      decide
    have hdiv : r.failedAddr.getD addr / g.erasesize = addr / g.erasesize + m := by
      rw [hfailed, Option.getD_some]
      exact Nat.mul_div_cancel _ g.erasesize_pos
    intro c v hc
    simp only [concludeErase, if_neg hne, if_pos hret, Knowledge.forget, Knowledge.revise] at hc
    split at hc
    · exact absurd hc (by simp [Knowledge.nothing])
    next hstop =>
      rw [hdiv] at hstop
      split at hc
      · next hin =>
          rw [← hc]
          exact hblank hin.1 (hdiv ▸ hin.2)
      · next hout =>
          rw [hdiv] at hout
          refine h.kept.cells (fun hS => ?_) (hk c v hc)
          rcases hS.2 with hlt | ⟨-, heq⟩
          · exact hout ⟨hS.1, hlt⟩
          · exact hstop heq

theorem eraseBlockRange_holds {addr size : Nat} (hwrap : addr + size < 2 ^ 64) (hb : Base g w)
    (hm : MapInv w.ni) (hk : k.Holds (cellOf g w))
    (hC : ∀ e ∈ (eraseBlockRange g dev addr size w).w.trace.drop w.trace.length, TopGood e) :
    (concludeErase g addr size (eraseBlockRange g dev addr size w).ret
      (eraseBlockRange g dev addr size w).failedAddr k).Holds
        (cellOf g (eraseBlockRange g dev addr size w).w) := by
  generalize hr : eraseBlockRange g dev addr size w = r at hC ⊢
  simp only [eraseBlockRange] at hr
  split at hr
  · subst hr
    exact hk
  split at hr
  · subst hr
    exact hk
  next hrange =>
    split at hr
    · next hzero =>
        subst hr
        simp only [concludeErase, if_pos hzero, if_true]
        exact hk
    · next hsize =>
        have hfit := rangeFits_le hwrap hrange
        have hend : (addr + size + 2 ^ 64 - 1) % 2 ^ 64 = addr + size - 1 := by omega
        have hlast := addr2ba_lt (show addr + size - 1 < g.ba2addr w.ni.dataBlockCount by omega)
        have hle : addr / g.erasesize ≤ (addr + size - 1) / g.erasesize :=
          Nat.div_le_div_right (by omega)
        rw [addr2ba_of_lt hb.count_lt.le (by omega)] at hlast
        rw [hend, addr2ba_of_lt hb.count_lt.le (show addr < _ by omega),
          addr2ba_of_lt hb.count_lt.le (show addr + size - 1 < _ by omega)] at hr
        subst hr
        obtain ⟨m, h⟩ := eraseBlocksLoop_erased hb hm (by omega) hC
        exact concludeErase_holds hsize h hk

/-- Marking a block bad drops its logic block and no other. -/
theorem markBadBlock_kept (dev : Device) (addr : Nat) (hb : Base g w) (hm : MapInv w.ni) :
    (markBadBlock g dev addr w).1 ≠ 0 ∧ (markBadBlock g dev addr w).2 = w ∨
      (markBadBlock g dev addr w).1 = 0 ∧ PagesKept g
        (fun p => p / g.pagesPerBlock = addr / g.erasesize) w (markBadBlock g dev addr w).2 := by
  simp only [markBadBlock]
  split
  · exact .inl ⟨show -eRofs ≠ 0 by decide, rfl⟩
  split
  · exact .inl ⟨show -eInval ≠ 0 by decide, rfl⟩
  next hlimit =>
    have haddr : addr < g.ba2addr w.ni.dataBlockCount := by omega
    have hlt := addr2ba_lt haddr
    rw [addr2ba_of_lt hb.count_lt.le haddr] at hlt ⊢
    split
    · exact .inr ⟨rfl, .refl⟩
    next hneg =>
      have hpb : w.ni.blockMapping (addr / g.erasesize) =
          ((w.ni.blockMapping (addr / g.erasesize)).toNat : Nat) := by omega
      generalize (w.ni.blockMapping (addr / g.erasesize)).toNat = pb at hpb ⊢
      refine .inr ⟨rfl, PagesKept.trans ?_ (updateInfoTable_pagesKept dev { hb.layout with } ?_)⟩
      · refine .of_flash (le_refl _) (fun p hp => Function.update_of_ne hp _ _)
          fun p qb hp hq hqb => ?_
        have hmark := markPhysBadBlock_evolves (g := g) dev (S := fun b => b = pb) rfl w.chip
        apply hmark.frame
        rw [physPage_block]
        rintro rfl
        exact hm.inj _ _ hq hlt hp (by omega) (hqb.trans hpb.symm)
      · have hun := hm.unmap (addr / g.erasesize)
        exact ⟨hun.range, hun.inj⟩

/-- One call: what was concluded before it and what its report adds hold after it. -/
theorem Call.conclude_holds (c : Call) (hwrap : c.NoWrap) (hb : Base g w) (hm : MapInv w.ni)
    (hC : ∀ e ∈ (c.run g dev w).trace.drop w.trace.length, TopGood e)
    (hk : k.Holds (cellOf g w)) :
    (c.conclude g (c.report g dev w) k).Holds (cellOf g (c.run g dev w)) := by
  cases c with
  | eraseBlockRange addr size => exact eraseBlockRange_holds hwrap hb hm hk hC
  | readSinglePage addr =>
      exact holds_of_pagesKept hk (readSinglePage_onlyRead g dev addr w).pagesKept
  | readRange addr size buf =>
      exact holds_of_pagesKept hk (readRange_onlyRead g dev addr size buf w).pagesKept
  | writeSinglePage addr data oob => exact writeSinglePage_holds addr data oob hb hm hk
  | panicWriteSinglePage addr data => exact panicWriteSinglePage_holds addr data hb hm hk
  | writeRange addr size data => exact writeRange_holds data hwrap hb hm hk
  | markBadBlock addr =>
      rcases markBadBlock_kept dev addr hb hm with ⟨hret, hw⟩ | ⟨hret, hkept⟩
      · have hsame : (Call.markBadBlock addr).conclude g
            ((Call.markBadBlock addr).report g dev w) k = k := if_neg hret
        rw [hsame, Call.run, hw]
        exact hk
      · have hforget : (Call.markBadBlock addr).conclude g
            ((Call.markBadBlock addr).report g dev w) k =
              k.forget fun c => c.block g = addr / g.erasesize := if_pos hret
        rw [hforget]
        exact hk.forget fun c v hc => hkept.cells hc
  | detach =>
      simp only [Call.conclude, Call.run, Nmbm.detach]
      split
      · exact hk
      · exact holds_of_pagesKept hk (updateInfoTable_pagesKept dev hb.layout hm)

theorem Reachable.runCalls (h : Reachable g dev w) (calls : List Call) :
    Reachable g dev (runCalls g dev calls w) := by
  induction calls generalizing w with
  | nil => exact h
  | cons c cs ih => exact ih (.call c h)

theorem runCalls_trace (h : Reachable g dev w) (hrw : g.readOnly = false) (calls : List Call)
    {e : Event} (he : e ∈ w.trace) : e ∈ (Nmbm.runCalls g dev calls w).trace := by
  induction calls generalizing w with
  | nil => exact he
  | cons c cs ih =>
      obtain ⟨new, hnew⟩ := (h.base hrw).trace_append (c.run_run dev (h.base hrw))
      apply ih (.call c h)
      rw [hnew]
      exact List.mem_append_left _ he

/-- The conclusions of a whole run hold at its end. -/
theorem conclusions_hold (h : Reachable g dev w) (hrw : g.readOnly = false) (calls : List Call)
    (hwrap : ∀ c ∈ calls, c.NoWrap) (htop : ∀ e ∈ (runCalls g dev calls w).trace, TopGood e)
    (hk : k.Holds (cellOf g w)) :
    (conclusions g dev calls w k).Holds (cellOf g (runCalls g dev calls w)) := by
  induction calls generalizing w k with
  | nil => exact hk
  | cons c cs ih =>
      have hnext : ∀ e ∈ (c.run g dev w).trace, TopGood e :=
        fun e he => htop e (runCalls_trace (.call c h) hrw cs he)
      have hnow : ∀ e ∈ w.trace, TopGood e := fun e he => htop e (runCalls_trace h hrw (c :: cs) he)
      refine ih (.call c h) (fun d hd => hwrap d (List.mem_cons_of_mem _ hd)) htop ?_
      exact c.conclude_holds (hwrap c List.mem_cons_self) (h.base hrw) (guarded_mapping h hnow).1
        (fun e he => hnext e (List.mem_of_mem_drop he)) hk

end Conclusions

section Reads

variable {g : Geometry} {w : World}

/-- A successful read delivers the logic page. -/
theorem readLogicPage_page (dev : Device) {addr : Nat} (hba : g.addr2ba addr = addr / g.erasesize)
    (haddr : addr < g.ba2addr w.ni.dataBlockCount) (hret : 0 ≤ (readLogicPage g dev addr w).ret) :
    pageOf g w (addr / g.writesize) = some (readLogicPage g dev addr w).page := by
  have hlt := addr2ba_lt haddr
  simp only [readLogicPage] at hret ⊢
  rw [hba] at hlt hret ⊢
  split at hret
  · exact absurd hret (show ¬ 0 ≤ -eIo by decide)
  next hneg =>
    split at hret
    · exact absurd hret (show ¬ 0 ≤ -eIo by decide)
    next hbad =>
      rw [if_neg hneg, if_neg hbad]
      rw [(readPhysPage_spec dev _ _).2.2.2 hret, physPage, pageOf, ← g.div_erasesize,
        if_pos ⟨hlt, not_lt.mp hneg⟩]

/-- A single page that was read is the page of the address. -/
theorem readSinglePage_page (dev : Device) {addr : Nat} (hb : Base g w)
    (hret : 0 ≤ (readSinglePage g dev addr w).ret) :
    pageOf g w (addr / g.writesize) = some (readSinglePage g dev addr w).page := by
  simp only [readSinglePage] at hret ⊢
  split at hret
  · exact absurd hret (show ¬ 0 ≤ -eRofs by decide)
  next hprot =>
    split at hret
    · exact absurd hret (show ¬ 0 ≤ -eInval by decide)
    next hin =>
      rw [if_neg hprot, if_neg hin]
      have hlt := not_le.mp hin
      exact readLogicPage_page dev (addr2ba_of_lt hb.count_lt.le hlt) hlt hret

/-- The loop of `nmbm_read_range` fills the buffer with the bytes of the store when
no page was beyond correction. The induction also says that the bytes of earlier
rounds stay and that no earlier round met an uncorrectable page. -/
theorem readRangeLoop_cells (dev : Device) (hb : Base g w) {fuel off pos : Nat}
    {s : ReadRangeResult} (hni : s.w.ni = w.ni) (hflash : s.w.chip.flash = w.chip.flash)
    (hfuel : s.remain ≤ fuel) (hin : off + s.remain ≤ g.ba2addr w.ni.dataBlockCount)
    {s' : ReadRangeResult} (hs' : readRangeLoop g dev fuel off pos s = s')
    (hok : ¬ (s'.ret < 0 ∧ s'.ret ≠ -eBadMsg)) (hecc : s'.hasEccErr = false) :
    s.hasEccErr = false ∧ (∀ i < pos, s'.buf i = s.buf i) ∧
      ∀ j < s.remain, cellOf g w (.main (off + j)) = some (s'.buf (pos + j)) := by
  induction fuel generalizing off pos s with
  | zero =>
      subst hs'
      exact ⟨hecc, fun _ _ => rfl, fun j hj => by omega⟩
  | succ fuel ih =>
      by_cases hzero : s.remain = 0
      · rw [readRangeLoop, if_pos hzero] at hs'
        subst hs'
        exact ⟨hecc, fun _ _ => rfl, fun j hj => by omega⟩
      · rw [readRangeLoop_succ dev _ _ _ hzero] at hs'
        have hmod := Nat.mod_lt off g.writesize_pos
        have hlow := Nat.mod_le off g.writesize
        have hbuf := readRangeNext_buf (g := g) off pos
          (readLogicPage g dev (off - off % g.writesize) s.w) s
        have hread := readLogicPage_onlyRead g dev (off - off % g.writesize) s.w
        have haddr : off - off % g.writesize < g.ba2addr w.ni.dataBlockCount := by omega
        have hdeliver : 0 ≤ (readLogicPage g dev (off - off % g.writesize) s.w).ret →
            pageOf g w (off / g.writesize) =
              some (readLogicPage g dev (off - off % g.writesize) s.w).page := by
          intro hret
          rw [← page_of_off,
            ← readLogicPage_page dev (addr2ba_of_lt hb.count_lt.le haddr) (hni ▸ haddr) hret,
            pageOf, pageOf, hni, hflash]
        generalize readLogicPage g dev (off - off % g.writesize) s.w = r at hs' hbuf hread hdeliver
        generalize hc : min (g.writesize - off % g.writesize) s.remain = chunk at hs' hbuf
        dsimp only at hs'
        split at hs'
        · next hbad =>
            subst hs'
            exact absurd hbad hok
        · next hgood =>
            have hnext : (readRangeNext g off pos r s).remain = s.remain - chunk := by
              rw [← hc]
              rfl
            have hw : (readRangeNext g off pos r s).w.ni = w.ni ∧
                (readRangeNext g off pos r s).w.chip.flash = w.chip.flash := by
              have hrni : r.w.ni = s.w.ni := by rw [hread.rest]
              simp only [readRangeNext]
              split
              · exact ⟨hrni.trans hni, hread.flash.trans hflash⟩
              · exact ⟨hrni.trans hni, hread.flash.trans hflash⟩
            obtain ⟨hclean, hkept, hrest⟩ := ih hw.1 hw.2 (by omega) (by omega) hs'
            have hboth : (s.hasEccErr || decide (r.ret = -eBadMsg)) = false := hclean
            rw [Bool.or_eq_false_iff, decide_eq_false_iff_not] at hboth
            refine ⟨hboth.1, fun i hi => ?_, fun j hj => ?_⟩
            · rw [hkept i (by omega), hbuf, Mem.copy_outside (by omega)]
            · by_cases hj' : j < chunk
              · have hret : 0 ≤ r.ret := not_lt.mp fun hneg => hgood ⟨hneg, hboth.2⟩
                have hin : j < g.writesize - off % g.writesize := by omega
                obtain ⟨hdiv, hcol⟩ := chunk_page g hin
                rw [hkept _ (by omega), hbuf, Mem.copy_inside hj', Mem.shift_apply, cellOf,
                  Cell.page, hdiv, hdeliver hret, Option.map_some, Cell.get, hcol]
              · have h := hrest (j - chunk) (by omega)
                rw [show off + chunk + (j - chunk) = off + j by omega,
                  show pos + chunk + (j - chunk) = pos + j by omega] at h
                exact h

/-- A range that was read holds the bytes of the store. -/
theorem readRange_cells (dev : Device) (hb : Base g w) {addr size : Nat} (buf : Mem)
    (hwrap : addr + size < 2 ^ 64) (hret : 0 ≤ (readRange g dev addr size buf w).1) {j : Nat}
    (hj : j < size) :
    cellOf g w (.main (addr + j)) = some ((readRange g dev addr size buf w).2.2.1 j) := by
  simp only [readRange] at hret ⊢
  split at hret
  · exact absurd hret (show ¬ 0 ≤ -eRofs by decide)
  next hprot =>
    split at hret
    · exact absurd hret (show ¬ 0 ≤ -eInval by decide)
    next hfits =>
      split at hret
      · omega
      next hsize =>
        rw [if_neg hprot, if_neg hfits, if_neg hsize]
        have hin := rangeFits_le hwrap hfits
        have hcells := readRangeLoop_cells dev hb (s := ⟨0, size, false, 0, buf, w⟩) rfl rfl
          (le_refl size) hin (show readRangeLoop g dev size addr 0 _ = _ from rfl)
        generalize readRangeLoop g dev size addr 0 ⟨0, size, false, 0, buf, w⟩ = s' at hret hcells ⊢
        dsimp only at hret
        have hok : ¬ (s'.ret < 0 ∧ s'.ret ≠ -eBadMsg) := by
          intro hbad
          rw [if_pos hbad] at hret
          exact not_le.mpr hbad.1 hret
        rw [if_neg hok] at hret
        have hecc : s'.hasEccErr = false := by
          cases he : s'.hasEccErr with
          | false => rfl
          | true =>
              rw [he] at hret
              exact absurd hret (show ¬ 0 ≤ -eBadMsg by decide)
        have h := (hcells hok hecc).2.2 j hj
        rw [Nat.zero_add] at h
        exact h

end Reads

/-- Whichever calls of the chip fail, a read that succeeds after a run confirms what
the reports of the run's calls allow to conclude, for pages with their spare bytes
and for ranges. -/
theorem reads_confirm_conclusions (g : Geometry) (dev : Device) {w : World}
    (h : Reachable g dev w) (hrw : g.readOnly = false) (calls : List Call)
    (hwrap : ∀ c ∈ calls, c.NoWrap) (htop : ∀ e ∈ (runCalls g dev calls w).trace, TopGood e) :
    let k := conclusions g dev calls w .nothing
    let w' := runCalls g dev calls w
    (∀ addr c b, c.page g = addr / g.writesize → k c = some b →
      0 ≤ (readSinglePage g dev addr w').ret → c.get g (readSinglePage g dev addr w').page = b) ∧
    ∀ addr size buf a b, addr + size < 2 ^ 64 → addr ≤ a → a < addr + size →
      k (.main a) = some b → 0 ≤ (readRange g dev addr size buf w').1 →
      (readRange g dev addr size buf w').2.2.1 (a - addr) = b := by
  have hholds := conclusions_hold h hrw calls hwrap htop Knowledge.nothing_holds
  have hb := (h.runCalls calls).base hrw
  refine ⟨fun addr c b hpage hk hret => ?_, fun addr size buf a b hsum hlow hhigh hk hret => ?_⟩
  · have hcell := hholds c b hk
    rw [cellOf, hpage, readSinglePage_page dev hb hret] at hcell
    exact Option.some.inj hcell
  · have hcell := hholds (.main a) b hk
    have hread := readRange_cells dev hb buf hsum hret (show a - addr < size by omega)
    rw [show addr + (a - addr) = a by omega, hcell] at hread
    exact (Option.some.inj hread).symm

/-- Blocks 0 and 1 are erased, a range is written across a page boundary, and a page
is written with its spare bytes. -/
def sampleCalls : List Call :=
  [.eraseBlockRange 0 512, .writeRange 40 60 fun i => UInt8.ofNat i,
    .writeSinglePage 256 (some fun i => UInt8.ofNat (2 * i)) (some fun _ => 7)]

set_option maxRecDepth 100000 in
theorem reads_confirm_sample :
    (readRange (smallGeometry false) smallDevice 30 300 (fun _ => 0)
      (runCalls (smallGeometry false) smallDevice sampleCalls smallWorld)).2.2.1 (70 - 30) = 30 ∧
    Cell.get (smallGeometry false) (readSinglePage (smallGeometry false) smallDevice 256
      (runCalls (smallGeometry false) smallDevice sampleCalls smallWorld)).page (.spare 4 0) =
        7 := by
  have h : (∀ e ∈ (runCalls (smallGeometry false) smallDevice sampleCalls smallWorld).trace,
        TopGood e) ∧
      (conclusions (smallGeometry false) smallDevice sampleCalls smallWorld .nothing
          (.main 70) = some 30 ∧
        conclusions (smallGeometry false) smallDevice sampleCalls smallWorld .nothing
          (.spare 4 0) = some 7) ∧
      0 ≤ (readSinglePage (smallGeometry false) smallDevice 256
        (runCalls (smallGeometry false) smallDevice sampleCalls smallWorld)).ret ∧
      0 ≤ (readRange (smallGeometry false) smallDevice 30 300 (fun _ => 0)
        (runCalls (smallGeometry false) smallDevice sampleCalls smallWorld)).1 := by
    decide +kernel
  obtain ⟨htop, ⟨hmain, hspare⟩, hpage, hrange⟩ := h
  have hwrap : ∀ c ∈ sampleCalls, c.NoWrap := by
    simp [sampleCalls, Call.NoWrap]
  have hread := reads_confirm_conclusions (smallGeometry false) smallDevice smallWorld_reachable
    rfl sampleCalls hwrap htop
  exact ⟨hread.2 30 300 _ 70 30 (by decide) (by decide) (by decide) hmain hrange,
    hread.1 256 (.spare 4 0) 7 rfl hspare hpage⟩

end Speedway.Nmbm
