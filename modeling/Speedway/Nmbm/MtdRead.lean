import Speedway.Nmbm.Mtd
import Speedway.Nmbm.Sample

/-!
# The two paths of reading through the MTD layer

`nmbm_mtd_read_oob` reads with `nmbm_read_range` when no spare bytes are asked for
and with the page loop of `nmbm_mtd_read_data` otherwise. Both read the pages of the
request in order and stop at the first one that cannot be read; they keep the same
maximum of bitflips and go on after an ECC error. They differ in the first page, since
the page loop cuts the address to 32 bits.
-/

namespace Speedway.Nmbm

open Speedway.Lib

/-- The local variables of `nmbm_mtd_read_data`, with its buffers and `nm->page_cache`. -/
structure ReadState where
  addr : Nat
  len : Nat
  ooblen : Nat
  col : Nat
  ooboffs : Nat
  retlen : Nat
  oobretlen : Nat
  hasEccErr : Bool
  maxBitflips : Int
  datbuf : Mem
  oobbuf : Mem
  cache : Mem
  w : World

/-- The result of a read: return code, `retlen`, the two buffers and the instance. -/
structure MtdReadResult where
  ret : Int
  retlen : Nat
  oobretlen : Nat
  datbuf : Mem
  oobbuf : Mem
  m : Mtd

section Definitions

variable (g : Geometry) (dev : Device)

/-- A page has been read into the parts of the cache that the request uses. -/
def receivePage (ops : OobOps) (r : PageResult) (s : ReadState) : ReadState :=
  let main := if ops.len ≠ 0 then s.cache.copy 0 r.page.data g.writesize else s.cache
  { s with
    cache := if ops.ooblen ≠ 0 then main.copy g.writesize r.page.oob g.oobsize else main
    hasEccErr := s.hasEccErr || r.ret = -eBadMsg
    maxBitflips := max s.maxBitflips r.ret
    w := r.w }

/-- The data part of a round of `nmbm_mtd_read_data`. -/
def takeData (s : ReadState) : ReadState :=
  if s.len = 0 then s
  else
    let chunk := min (g.writesize - s.col) s.len
    { s with
      datbuf := s.datbuf.copy s.retlen (s.cache.shift s.col) chunk
      len := s.len - chunk
      col := 0
      retlen := s.retlen + chunk }

/-- The spare part of a round of `nmbm_mtd_read_data`. -/
def takeOob (maxooblen : Nat) (s : ReadState) : ReadState :=
  if s.ooblen = 0 then s
  else
    let chunk := min (maxooblen - s.ooboffs) s.ooblen
    { s with
      oobbuf := s.oobbuf.copy s.oobretlen (s.cache.shift (g.writesize + s.ooboffs)) chunk
      ooblen := s.ooblen - chunk
      ooboffs := 0
      oobretlen := s.oobretlen + chunk }

/-- What the page loop returns when it is done. -/
def ReadState.result (s : ReadState) : Int := if s.hasEccErr then -eBadMsg else s.maxBitflips

/-- The page loop of `nmbm_mtd_read_data`. What a failed read leaves in the cache is
overwritten before it is used. -/
def readDataPages (ops : OobOps) (maxooblen : Nat) : Nat → ReadState → Int × ReadState
  | 0, s => (s.result, s)
  | fuel + 1, s =>
      if s.len = 0 ∧ s.ooblen = 0 then (s.result, s)
      else
        let r := readSinglePage g dev s.addr s.w
        if r.ret < 0 ∧ r.ret ≠ -eBadMsg then (r.ret, { s with w := r.w })
        else
          let s₁ := takeOob g maxooblen (takeData g (receivePage g ops r s))
          readDataPages ops maxooblen fuel { s₁ with addr := s₁.addr + g.writesize }

/-- `nmbm_mtd_read_data`. -/
def mtdReadData (info : MtdInfo g) (addr : Nat) (ops : OobOps) (m : Mtd) : MtdReadResult :=
  let r := readDataPages g dev ops (info.oobAvail ops.mode) (ops.len + ops.ooblen)
    { addr := pageStart g addr
      len := ops.len
      ooblen := ops.ooblen
      col := addr % g.writesize
      ooboffs := ops.ooboffs
      retlen := 0
      oobretlen := 0
      hasEccErr := false
      maxBitflips := 0
      datbuf := ops.datbuf.getD fun _ => 0
      oobbuf := ops.oobbuf.getD fun _ => 0
      cache := m.cache
      w := m.w }
  ⟨r.1, r.2.retlen, r.2.oobretlen, r.2.datbuf, r.2.oobbuf, ⟨r.2.w, r.2.cache⟩⟩

end Definitions

/-- The world with other contents of `ni->page_cache`. -/
def World.setPageCache (cache : Mem) (w : World) : World :=
  { w with chip := { w.chip with pageCache := cache } }

section Pages

variable {g : Geometry} (dev : Device) {w : World}

theorem readTries_setPageCache (n p : Nat) (c : Chip) (cache : Mem) :
    readTries dev n p { c with pageCache := cache } =
      { readTries dev n p c with
        chip := { (readTries dev n p c).chip with pageCache := cache } } := by
  induction n generalizing c with
  | zero => rfl
  | succ n ih =>
      have hpage : readPage dev p { c with pageCache := cache } =
          { readPage dev p c with
            chip := { (readPage dev p c).chip with pageCache := cache } } := rfl
      by_cases h : 0 ≤ (readPage dev p c).ret
      · simp only [readTries, hpage, if_pos h]
      · simp only [readTries, hpage, if_neg h]
        exact ih _

/-- What a page read delivers does not depend on `ni->page_cache`. -/
theorem readLogicPage_setPageCache (addr : Nat) (cache : Mem) (w : World) :
    readLogicPage g dev addr (w.setPageCache cache) =
      { readLogicPage g dev addr w with
        w := (readLogicPage g dev addr w).w.setPageCache cache } := by
  have hni : (w.setPageCache cache).ni = w.ni := rfl
  have hchip : (w.setPageCache cache).chip = { w.chip with pageCache := cache } := rfl
  have hstate (b : Nat) : (w.setPageCache cache).blockStateOf b = w.blockStateOf b := rfl
  simp only [readLogicPage, hstate, hni, hchip, readPhysPage, readTries_setPageCache]
  by_cases hneg : w.ni.blockMapping (g.addr2ba addr) < 0
  · simp only [if_pos hneg]
  · simp only [if_neg hneg]
    by_cases hbad : w.blockStateOf (w.ni.blockMapping (g.addr2ba addr)).toNat = stBad
    · simp only [if_pos hbad]
    · simp only [if_neg hbad]
      rfl

theorem readSinglePage_inside {addr : Nat} (hprot : w.ni.isProtected = false)
    (haddr : addr < g.ba2addr w.ni.dataBlockCount) :
    readSinglePage g dev addr w = readLogicPage g dev addr w := by
  simp only [readSinglePage, hprot, Bool.false_eq_true, if_false]
  rw [if_neg (Nat.not_le.mpr haddr)]

end Pages

section Along

variable {g : Geometry} (dev : Device) {ops : OobOps}

/-- The variables of the two loops before the same page. -/
structure ReadAlong (g : Geometry) (off pos : Nat) (s : ReadRangeResult) (t : ReadState) :
    Prop where
  addr : s.remain ≠ 0 → t.addr = off - off % g.writesize
  col : s.remain ≠ 0 → t.col = off % g.writesize
  len : t.len = s.remain
  ooblen : t.ooblen = 0
  retlen : t.retlen = pos
  hasEccErr : t.hasEccErr = s.hasEccErr
  maxBitflips : t.maxBitflips = s.maxBitflips
  buf : t.datbuf = s.buf
  world : ∃ cache, s.w = t.w.setPageCache cache
  ret : ¬ (s.ret < 0 ∧ s.ret ≠ -eBadMsg)

/-- The state of `nmbm_read_range` after a page that was read. -/
def readRangeNext (g : Geometry) (off pos : Nat) (r : PageResult) (s : ReadRangeResult) :
    ReadRangeResult :=
  let leading := off % g.writesize
  let chunk := min (g.writesize - leading) s.remain
  let cache := r.w.chip.pageCache.copy 0 r.page.data g.writesize
  { ret := r.ret
    remain := s.remain - chunk
    hasEccErr := s.hasEccErr || r.ret = -eBadMsg
    maxBitflips := max s.maxBitflips r.ret
    buf := if chunk = g.writesize then s.buf.copy pos r.page.data g.writesize
      else s.buf.copy pos (cache.shift leading) chunk
    w := if chunk = g.writesize then r.w
      else { r.w with chip := { r.w.chip with pageCache := cache } } }

/-- One round of `nmbm_read_range`. -/
theorem readRangeLoop_succ (fuel off pos : Nat) {s : ReadRangeResult} (hne : s.remain ≠ 0) :
    readRangeLoop g dev (fuel + 1) off pos s =
      let chunk := min (g.writesize - off % g.writesize) s.remain
      let r := readLogicPage g dev (off - off % g.writesize) s.w
      if r.ret < 0 ∧ r.ret ≠ -eBadMsg then
        { s with ret := r.ret, w := (readRangeNext g off pos r s).w }
      else readRangeLoop g dev fuel (off + chunk) (pos + chunk) (readRangeNext g off pos r s) := by
  rw [readRangeLoop, if_neg hne]
  rfl

/-- The bytes a round of `nmbm_read_range` delivers are those of the page from its
column on. -/
theorem readRangeNext_buf (off pos : Nat) (r : PageResult) (s : ReadRangeResult) :
    (readRangeNext g off pos r s).buf = s.buf.copy pos (r.page.data.shift (off % g.writesize))
      (min (g.writesize - off % g.writesize) s.remain) := by
  have hmod := Nat.mod_lt off g.writesize_pos
  simp only [readRangeNext]
  split
  next hwhole =>
    rw [hwhole, show off % g.writesize = 0 by omega, Mem.shift_zero]
  · apply Mem.copy_congr
    intro i hi
    rw [Mem.shift_apply, Mem.shift_apply, Mem.copy_zero (by omega)]

theorem takes_w (ops : OobOps) (maxooblen : Nat) (r : PageResult) (t : ReadState) :
    (takeOob g maxooblen (takeData g (receivePage g ops r t))).w = r.w := by
  simp only [takeOob, takeData]
  repeat' split
  all_goals rfl

/-- Both loops have read a page and go on. -/
theorem ReadAlong.next (maxooblen : Nat) {off pos : Nat} {s : ReadRangeResult} {t : ReadState}
    (h : ReadAlong g off pos s t) (hne : s.remain ≠ 0) (hlen : ops.len ≠ 0)
    (hoob : ops.ooblen = 0) (r r' : PageResult) (hret : r'.ret = r.ret) (hpage : r'.page = r.page)
    (hw : ∃ cache, r.w = r'.w.setPageCache cache) (hok : ¬ (r.ret < 0 ∧ r.ret ≠ -eBadMsg)) :
    let chunk := min (g.writesize - off % g.writesize) s.remain
    let t' := takeOob g maxooblen (takeData g (receivePage g ops r' t))
    ReadAlong g (off + chunk) (pos + chunk) (readRangeNext g off pos r s)
      { t' with addr := t'.addr + g.writesize } := by
  have hmod := Nat.mod_lt off g.writesize_pos
  have hle := Nat.mod_le off g.writesize
  have htake : takeOob g maxooblen (takeData g (receivePage g ops r' t)) =
      takeData g (receivePage g ops r' t) := by
    have h0 : (takeData g (receivePage g ops r' t)).ooblen = 0 := by
      simp only [takeData]
      split <;> exact h.ooblen
    rw [takeOob, if_pos h0]
  have hdata : takeData g (receivePage g ops r' t) =
      { receivePage g ops r' t with
        datbuf := t.datbuf.copy t.retlen ((receivePage g ops r' t).cache.shift t.col)
          (min (g.writesize - t.col) t.len)
        len := t.len - min (g.writesize - t.col) t.len
        col := 0
        retlen := t.retlen + min (g.writesize - t.col) t.len } := by
    rw [← h.len] at hne
    rw [takeData, if_neg (show ¬ (receivePage g ops r' t).len = 0 from hne)]
    rfl
  have hcache (i : Nat) (hi : i < g.writesize) :
      (receivePage g ops r' t).cache i = r.page.data i := by
    simp only [receivePage, hlen, hoob, ne_eq, not_true, not_false_iff, if_true, if_false, hpage]
    exact Mem.copy_zero hi
  -- if bytes are left, the page was read to its end
  have hstart (hmore : s.remain - min (g.writesize - off % g.writesize) s.remain ≠ 0) :
      off + min (g.writesize - off % g.writesize) s.remain =
        g.writesize * (off / g.writesize + 1) := by
    have hdiv := Nat.div_add_mod off g.writesize
    have hmul := Nat.mul_succ g.writesize (off / g.writesize)
    rw [Nat.succ_eq_add_one] at hmul
    omega
  intro chunk t'
  refine ⟨fun hmore => ?_, fun hmore => ?_, ?_, ?_, ?_, ?_, ?_, ?_, ?_, hok⟩
  · show t'.addr + g.writesize = _
    rw [hstart hmore, Nat.mul_mod_right, Nat.sub_zero, Nat.mul_succ]
    have hdiv := Nat.div_add_mod off g.writesize
    have haddr : t'.addr = t.addr := by
      show (takeOob g maxooblen _).addr = _
      rw [htake, hdata]
      rfl
    rw [haddr, h.addr hne]
    omega
  · rw [hstart hmore, Nat.mul_mod_right]
    show (takeOob g maxooblen _).col = 0
    rw [htake, hdata]
  · show (takeOob g maxooblen _).len = _
    rw [htake, hdata, h.len, h.col hne]
    rfl
  · show (takeOob g maxooblen _).ooblen = 0
    rw [htake, hdata]
    exact h.ooblen
  · show (takeOob g maxooblen _).retlen = _
    rw [htake, hdata, h.len, h.col hne, h.retlen]
  · show (takeOob g maxooblen _).hasEccErr = _
    rw [htake, hdata]
    simp only [receivePage, readRangeNext, h.hasEccErr, hret]
  · show (takeOob g maxooblen _).maxBitflips = _
    rw [htake, hdata]
    simp only [receivePage, readRangeNext, h.maxBitflips, hret]
  · show (takeOob g maxooblen _).datbuf = _
    rw [htake, hdata, readRangeNext_buf, h.buf, h.retlen, h.col hne, h.len]
    apply Mem.copy_congr
    intro i hi
    rw [Mem.shift_apply, Mem.shift_apply, hcache _ (by omega)]
  · obtain ⟨cache, hcache⟩ := hw
    show ∃ cache, _ = (takeOob g maxooblen _).w.setPageCache cache
    rw [htake, hdata]
    simp only [receivePage, readRangeNext]
    split
    · exact ⟨cache, hcache⟩
    · refine ⟨r.w.chip.pageCache.copy 0 r.page.data g.writesize, ?_⟩
      rw [hcache]
      rfl

theorem readLogicPage_ni (addr : Nat) (w : World) : (readLogicPage g dev addr w).w.ni = w.ni := by
  simp only [readLogicPage]
  repeat' split
  all_goals rfl

/-- What the two loops return when nothing is left. -/
theorem ReadAlong.done {off pos size : Nat} {s : ReadRangeResult} {t : ReadState}
    (h : ReadAlong g off pos s t) (hsize : pos + s.remain = size) :
    t.result = (if s.ret < 0 ∧ s.ret ≠ -eBadMsg then s.ret
      else if s.hasEccErr then -eBadMsg else s.maxBitflips) ∧
    t.retlen = size - s.remain ∧ t.datbuf = s.buf := by
  refine ⟨?_, ?_, h.buf⟩
  · rw [if_neg h.ret, ReadState.result, h.hasEccErr, h.maxBitflips]
  · rw [h.retlen]
    omega

/-- Both loops read the same pages and return the same. -/
theorem readDataPages_along (maxooblen : Nat) {fuel off pos size : Nat} {s : ReadRangeResult}
    {t : ReadState} (h : ReadAlong g off pos s t) (hlen : ops.len ≠ 0) (hoob : ops.ooblen = 0)
    (hfuel : s.remain ≤ fuel) (hprot : t.w.ni.isProtected = false)
    (hin : off + s.remain ≤ g.ba2addr t.w.ni.dataBlockCount) (hsize : pos + s.remain = size) :
    let s' := readRangeLoop g dev fuel off pos s
    let t' := readDataPages g dev ops maxooblen fuel t
    t'.1 = (if s'.ret < 0 ∧ s'.ret ≠ -eBadMsg then s'.ret
      else if s'.hasEccErr then -eBadMsg else s'.maxBitflips) ∧
    t'.2.retlen = size - s'.remain ∧ t'.2.datbuf = s'.buf := by
  induction fuel generalizing off pos s t with
  | zero => exact h.done hsize
  | succ fuel ih =>
      by_cases hzero : s.remain = 0
      · simp only [readRangeLoop, readDataPages]
        rw [if_pos hzero, if_pos ⟨h.len.trans hzero, h.ooblen⟩]
        exact h.done hsize
      · obtain ⟨cache, hworld⟩ := h.world
        have hmod := Nat.mod_lt off g.writesize_pos
        have hread : readSinglePage g dev t.addr t.w =
            readLogicPage g dev (off - off % g.writesize) t.w := by
          rw [h.addr hzero]
          exact readSinglePage_inside dev hprot (by omega)
        have hpage : readLogicPage g dev (off - off % g.writesize) s.w =
            { readLogicPage g dev (off - off % g.writesize) t.w with
              w := (readLogicPage g dev (off - off % g.writesize) t.w).w.setPageCache cache } := by
          rw [hworld]
          exact readLogicPage_setPageCache dev _ cache t.w
        have hni := readLogicPage_ni (g := g) dev (off - off % g.writesize) t.w
        rw [readRangeLoop_succ dev fuel off pos hzero]
        simp only [readDataPages]
        rw [if_neg (fun hz => hzero (h.len.symm.trans hz.1)), hread, hpage]
        by_cases herr : (readLogicPage g dev (off - off % g.writesize) t.w).ret < 0 ∧
            (readLogicPage g dev (off - off % g.writesize) t.w).ret ≠ -eBadMsg
        · simp only [if_pos herr]
          refine ⟨trivial, ?_, h.buf⟩
          rw [h.retlen]
          omega
        · simp only [if_neg herr]
          have hnext := h.next maxooblen hzero hlen hoob
            { readLogicPage g dev (off - off % g.writesize) t.w with
              w := (readLogicPage g dev (off - off % g.writesize) t.w).w.setPageCache cache }
            (readLogicPage g dev (off - off % g.writesize) t.w) rfl rfl ⟨cache, rfl⟩ herr
          have hni' : (takeOob g maxooblen (takeData g (receivePage g ops
              (readLogicPage g dev (off - off % g.writesize) t.w) t))).w.ni = t.w.ni := by
            rw [takes_w]
            exact hni
          refine ih hnext ?_ ?_ ?_ ?_
          · show s.remain - min (g.writesize - off % g.writesize) s.remain ≤ fuel
            omega
          · show (takeOob g maxooblen _).w.ni.isProtected = false
            rw [hni']
            exact hprot
          · show _ + (s.remain - min (g.writesize - off % g.writesize) s.remain) ≤
              g.ba2addr (takeOob g maxooblen _).w.ni.dataBlockCount
            rw [hni']
            omega
          · show _ + (s.remain - min (g.writesize - off % g.writesize) s.remain) = size
            omega

end Along

/-- What the caller of a read gets: the return code, `retlen` and the buffer. -/
structure Answer where
  ret : Int
  retlen : Nat
  buf : Mem

/-- Two answers have the same code, the same length and the same bytes up to it. -/
structure Answer.Alike (a b : Answer) : Prop where
  ret : a.ret = b.ret
  retlen : a.retlen = b.retlen
  bytes : ∀ i, i < a.retlen → a.buf i = b.buf i

/-- The answer of `nmbm_read_range`. -/
def rangeAnswer (g : Geometry) (dev : Device) (addr : Nat) (ops : OobOps) (w : World) : Answer :=
  let r := readRange g dev addr ops.len (ops.datbuf.getD fun _ => 0) w
  ⟨r.1, r.2.1, r.2.2.1⟩

/-- The answer of `nmbm_mtd_read_data`. -/
def pagesAnswer (g : Geometry) (dev : Device) (info : MtdInfo g) (addr : Nat) (ops : OobOps)
    (m : Mtd) : Answer :=
  let r := mtdReadData g dev info addr ops m
  ⟨r.ret, r.retlen, r.datbuf⟩

section Results

variable {g : Geometry} {dev : Device} {info : MtdInfo g} {addr : Nat} {ops : OobOps} {m : Mtd}

/-- Below 4 GiB the two paths give the same answer. -/
theorem pagesAnswer_low (hprot : m.w.ni.isProtected = false) (hlen : ops.len ≠ 0)
    (hoob : ops.ooblen = 0) (hin : addr + ops.len ≤ g.ba2addr m.w.ni.dataBlockCount)
    (hlow : addr < 2 ^ 32) :
    pagesAnswer g dev info addr ops m = rangeAnswer g dev addr ops m.w := by
  have hstart : ReadAlong g addr 0 ⟨0, ops.len, false, 0, ops.datbuf.getD fun _ => 0, m.w⟩
      { addr := pageStart g addr
        len := ops.len
        ooblen := ops.ooblen
        col := addr % g.writesize
        ooboffs := ops.ooboffs
        retlen := 0
        oobretlen := 0
        hasEccErr := false
        maxBitflips := 0
        datbuf := ops.datbuf.getD fun _ => 0
        oobbuf := ops.oobbuf.getD fun _ => 0
        cache := m.cache
        w := m.w } :=
    ⟨fun _ => pageStart_of_lt hlow, fun _ => rfl, rfl, hoob, rfl, rfl, rfl, rfl,
      ⟨m.w.chip.pageCache, rfl⟩, by simp⟩
  obtain ⟨hret, hretlen, hbuf⟩ := readDataPages_along dev (info.oobAvail ops.mode) hstart hlen
    hoob (le_refl _) hprot hin (Nat.zero_add _)
  have hfits : rangeFits g addr ops.len m.w = true := by
    simp only [rangeFits, Bool.and_eq_true, decide_eq_true_eq]
    exact ⟨by omega, (Nat.mod_le ..).trans hin⟩
  have hfuel : ops.len + ops.ooblen = ops.len := by omega
  simp only [pagesAnswer, rangeAnswer, mtdReadData, readRange, hprot, hfits, hfuel,
    Bool.not_true, Bool.false_eq_true, if_false]
  rw [if_neg hlen]
  simp only [hret, hretlen, hbuf]

/-- The page path does not see the upper half of the address. -/
theorem mtdReadData_cut (g : Geometry) (dev : Device) (info : MtdInfo g) (addr : Nat)
    (ops : OobOps) (m : Mtd) :
    mtdReadData g dev info addr ops m = mtdReadData g dev info (addr % 2 ^ 32) ops m := by
  have hstart : pageStart g (addr % 2 ^ 32) = pageStart g addr := by
    simp only [pageStart, Nat.mod_mod]
  have hcol : addr % 2 ^ 32 % g.writesize = addr % g.writesize :=
    Nat.mod_mod_of_dvd _ g.writesize_dvd
  simp only [mtdReadData, hstart, hcol]

/-- Below 4 GiB the page path answers like `nmbm_read_range`. From there on it does if
and only if `nmbm_read_range` itself answers alike at the address and at its lower half. -/
theorem read_paths_alike_iff (g : Geometry) (dev : Device) (info : MtdInfo g) (addr : Nat)
    (ops : OobOps) (m : Mtd) (hprot : m.w.ni.isProtected = false) (hlen : ops.len ≠ 0)
    (hoob : ops.ooblen = 0) (hin : addr + ops.len ≤ g.ba2addr m.w.ni.dataBlockCount) :
    (addr < 2 ^ 32 →
      (rangeAnswer g dev addr ops m.w).Alike (pagesAnswer g dev info addr ops m)) ∧
    (2 ^ 32 ≤ addr →
      ((rangeAnswer g dev addr ops m.w).Alike (pagesAnswer g dev info addr ops m) ↔
        (rangeAnswer g dev addr ops m.w).Alike (rangeAnswer g dev (addr % 2 ^ 32) ops m.w))) := by
  constructor
  · intro hlow
    rw [pagesAnswer_low hprot hlen hoob hin hlow]
    exact ⟨rfl, rfl, fun _ _ => rfl⟩
  · intro _
    have hmod := Nat.mod_le addr (2 ^ 32)
    have hpages : pagesAnswer g dev info addr ops m =
        rangeAnswer g dev (addr % 2 ^ 32) ops m.w := by
      rw [pagesAnswer, mtdReadData_cut]
      exact pagesAnswer_low hprot hlen hoob (by omega) (Nat.mod_lt _ (by decide))
    rw [hpages]

/-- A request for `len` data bytes and no spare bytes. -/
def plainRead (len : Nat) : OobOps :=
  ⟨.placeOob, some fun _ => 0, len, some fun _ => 0, 0, 0,
    fun h => absurd h (Option.some_ne_none _), fun _ => rfl⟩

set_option maxRecDepth 100000 in
/-- Ten bytes across the end of the first page of the small chip. -/
theorem read_paths_alike_small :
    smallWorld.ni.isProtected = false ∧
      60 + 10 ≤ (smallGeometry false).ba2addr smallWorld.ni.dataBlockCount ∧
      (rangeAnswer (smallGeometry false) smallDevice 60 (plainRead 10) smallWorld).Alike
        (pagesAnswer (smallGeometry false) smallDevice ⟨4096, 1, by decide⟩ 60 (plainRead 10)
          ⟨smallWorld, fun _ => 0⟩) := by
  have hrun : smallWorld.ni.isProtected = false ∧
      60 + 10 ≤ (smallGeometry false).ba2addr smallWorld.ni.dataBlockCount := by decide +kernel
  exact ⟨hrun.1, hrun.2, (read_paths_alike_iff _ smallDevice _ 60 (plainRead 10)
    ⟨smallWorld, fun _ => 0⟩ hrun.1 (by decide) rfl hrun.2).1 (by decide)⟩

/-- A chip of 8 GiB with pages as large as its blocks, attached for reading only. -/
def largeGeometry : Geometry where
  toLowerDevice := { (smallGeometry true).toLowerDevice with
    maxRatio := 1
    size := 2 ^ 33
    erasesize := 2 ^ 28
    writesize := 2 ^ 28 }
  accepted := rfl
  pageInBlock := by decide
  tablesFit := by decide
  sizeFits := by decide

def largeInfo : MtdInfo largeGeometry := ⟨2 ^ 33, 1, by decide⟩

/-- A device on which the pages of the management area cannot be read. -/
def largeDevice : Device := sampleDevice [] fun _ r =>
  match r with
  | .readPage p => decide (29 ≤ p)
  | _ => false

/-- A chip on which each page is filled with its number. -/
def numberedChip : Chip := ⟨fun p => ⟨fun _ => UInt8.ofNat p, fun _ => 0xff⟩, 0, [], fun _ => 0⟩

set_option maxRecDepth 100000 in
/-- A byte at 4 GiB: `nmbm_read_range` reads page 16, the page path reads page 0. -/
theorem read_paths_differ :
    ∃ w, Reachable largeGeometry largeDevice w ∧ w.ni.isProtected = false ∧
      2 ^ 32 + 1 ≤ largeGeometry.ba2addr w.ni.dataBlockCount ∧
      (rangeAnswer largeGeometry largeDevice (2 ^ 32) (plainRead 1) w).buf 0 = 16 ∧
      (pagesAnswer largeGeometry largeDevice largeInfo (2 ^ 32) (plainRead 1)
        ⟨w, fun _ => 0⟩).buf 0 = 0 ∧
      ¬ (rangeAnswer largeGeometry largeDevice (2 ^ 32) (plainRead 1) w).Alike
        (pagesAnswer largeGeometry largeDevice largeInfo (2 ^ 32) (plainRead 1)
          ⟨w, fun _ => 0⟩) := by
  obtain ⟨w, hw, hprot, hin, hlen, hrange, hpages⟩ : ∃ w,
      Reachable largeGeometry largeDevice w ∧ w.ni.isProtected = false ∧
        2 ^ 32 + 1 ≤ largeGeometry.ba2addr w.ni.dataBlockCount ∧
        (rangeAnswer largeGeometry largeDevice (2 ^ 32) (plainRead 1) w).retlen = 1 ∧
        (rangeAnswer largeGeometry largeDevice (2 ^ 32) (plainRead 1) w).buf 0 = 16 ∧
        (pagesAnswer largeGeometry largeDevice largeInfo (2 ^ 32) (plainRead 1)
          ⟨w, fun _ => 0⟩).buf 0 = 0 :=
    exists_reachable 64 numberedChip (by decide +kernel)
  refine ⟨w, hw, hprot, hin, hrange, hpages, fun h => ?_⟩
  have hbyte := h.bytes 0 (by omega)
  rw [hrange, hpages] at hbyte
  exact absurd hbyte (by decide)

end Results

end Speedway.Nmbm
