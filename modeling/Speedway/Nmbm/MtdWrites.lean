import Speedway.Nmbm.Mtd
import Speedway.Nmbm.Sample

/-!
# What the MTD layer hands down, and what it reports

Each of the three page loops works on the pages of a request in order and
stops at the first page that is not programmed. The bytes on page `k` are
compared with the request, and the reported length with the pages that were
programmed.
-/

namespace Speedway.Nmbm

open Speedway.Lib

section Pages

variable {g : Geometry} {dev : Device} {w : World} {addr : Nat}

theorem programTries_pageCache (req : Request) (p : Nat) (write : Page → Page) (n : Nat)
    (c : Chip) : (programTries g dev req p write n c).2.pageCache = c.pageCache := by
  induction n generalizing c with
  | zero => rfl
  | succ n ih =>
      simp only [programTries]
      split
      · rfl
      · rw [ih]
        rfl

/-- What a page write that returns 0 has done. -/
structure PageWritten (g : Geometry) (w w' : World) (addr : Nat) : Prop where
  writable : Writable g w addr = true
  notReadOnly : g.readOnly = false
  ni : w'.ni = w.ni
  pageCache : w'.chip.pageCache = w.chip.pageCache

theorem writable_eq_true : Writable g w addr = true ↔
    0 ≤ w.ni.blockMapping (g.addr2ba addr) ∧
      w.blockStateOf (w.ni.blockMapping (g.addr2ba addr)).toNat ≠ stBad := by
  simp [Writable]

/-- A page write that returns 0 changes nothing but the chip. -/
theorem programLogicPage_written {write : Nat → Chip → Bool × Chip}
    (hcache : ∀ p c, (write p c).2.pageCache = c.pageCache)
    (hreadOnly : ∀ p c, g.readOnly = true → (write p c).1 = false)
    (h : (programLogicPage g dev write addr w).1 = 0) :
    PageWritten g w (programLogicPage g dev write addr w).2 addr := by
  simp only [programLogicPage] at h ⊢
  split at h
  · exact absurd h (show ¬ -eIo = 0 by decide)
  split at h
  · exact absurd h (show ¬ -eIo = 0 by decide)
  · next hneg hbad =>
      rw [if_neg hneg, if_neg hbad]
      split at h
      · next hok =>
          rw [if_pos hok]
          refine ⟨writable_eq_true.mpr ⟨by omega, hbad⟩, ?_, rfl, hcache _ _⟩
          by_contra hro
          rw [hreadOnly _ _ (by simpa using hro)] at hok
          exact absurd hok Bool.false_ne_true
      · exact absurd h (show ¬ -eIo = 0 by decide)

theorem writeLogicPage_ok {data oob : Option Mem}
    (h : (writeLogicPage g dev addr data oob w).1 = 0) :
    PageWritten g w (writeLogicPage g dev addr data oob w).2 addr := by
  refine programLogicPage_written (fun p c => ?_) (fun p c hro => ?_) h
  · simp only [writePhysPage]
    split
    · rfl
    · exact programTries_pageCache ..
  · simp [writePhysPage, hro]

/-- The page at `addr` is inside the data area and can be written. -/
def Usable (g : Geometry) (w : World) (addr : Nat) : Prop :=
  addr < g.ba2addr w.ni.dataBlockCount ∧ Writable g w addr = true

theorem writeSinglePage_ok {data oob : Option Mem}
    (h : (writeSinglePage g dev addr data oob w).1 = 0) :
    PageWritten g w (writeSinglePage g dev addr data oob w).2 addr ∧ Usable g w addr ∧
      w.ni.isProtected = false := by
  simp only [writeSinglePage] at h ⊢
  split at h
  · exact absurd h (show ¬ -eRofs = 0 by decide)
  · next hguard =>
      rw [if_neg hguard]
      split at h
      · exact absurd h (show ¬ -eInval = 0 by decide)
      · next hlimit =>
          rw [if_neg hlimit]
          have hw := writeLogicPage_ok h
          simp only [Bool.or_eq_true, not_or, Bool.not_eq_true] at hguard
          exact ⟨hw, ⟨by omega, hw.writable⟩, hguard.1⟩

/-- A panic write that returns 0 was handed to the lower device. -/
theorem panicTry_passed_of_ok {data : Mem} {ret : Int}
    (h : (panicWriteSinglePage g dev addr data w).1 = 0) :
    (panicTry g addr data w ret).passed = true := by
  simp only [panicWriteSinglePage, panicWriteLogicPage] at h
  split at h
  · exact absurd h (show ¬ -eRofs = 0 by decide)
  next hguard =>
    split at h
    · exact absurd h (show ¬ -eInval = 0 by decide)
    next hlimit =>
      split at h
      · exact absurd h (show ¬ -eNotSupp = 0 by decide)
      next hpanic =>
        have hw := programLogicPage_written (fun p c => by
          simp only [panicWritePhysPage]
          split
          · rfl
          · exact programTries_pageCache ..) (fun p c hro => by simp [panicWritePhysPage, hro]) h
        simp only [Bool.or_eq_true, not_or, Bool.not_eq_true] at hguard
        simp only [Bool.not_eq_true, Bool.not_eq_false'] at hpanic
        simp [panicTry, hguard.1, hguard.2, hpanic, hw.writable, Nat.not_le.mp hlimit]

/-- A device on which every call succeeds. -/
def goodDevice : Device := fun _ _ => ⟨0, fun _ => .blank⟩

/-- On that device every writable page is programmed. -/
theorem writeLogicPage_good {data oob : Option Mem} (hw : Writable g w addr = true)
    (hro : g.readOnly = false) : (writeLogicPage g goodDevice addr data oob w).1 = 0 := by
  obtain ⟨hpos, hstate⟩ := writable_eq_true.mp hw
  simp only [writeLogicPage, programLogicPage]
  rw [if_neg (by omega), if_neg hstate]
  simp [writePhysPage, hro, tryCount, programTries, goodDevice]

theorem writeSinglePage_good {data oob : Option Mem} (hu : Usable g w addr)
    (hro : g.readOnly = false) (hp : w.ni.isProtected = false) :
    (writeSinglePage g goodDevice addr data oob w).1 = 0 := by
  simp only [writeSinglePage, hro, hp, Bool.or_self, Bool.false_eq_true, if_false]
  rw [if_neg (Nat.not_le.mpr hu.1)]
  exact writeLogicPage_good hu.2 hro

end Pages

section Requests

variable (g : Geometry) (info : MtdInfo g)

/-- The data bytes of a request and where they lie. -/
def MtdWrite.data : MtdWrite → Paging × Mem
  | .oob toAddr ops =>
      (⟨g.writesize, toAddr % g.writesize, ops.len⟩, ops.datbuf.getD fun _ => 0)
  | .panic toAddr len buf => (⟨g.writesize, toAddr % g.writesize, len⟩, buf)

/-- The spare bytes of a request and where they lie in the areas of its pages. -/
def MtdWrite.spare : MtdWrite → Paging × Mem
  | .oob _ ops =>
      (⟨info.oobAvail ops.mode, ops.ooboffs, ops.ooblen⟩, ops.oobbuf.getD fun _ => 0)
  | .panic _ _ _ => (⟨g.oobsize, 0, 0⟩, fun _ => 0)

/-- The address of page `k` of a request. -/
def MtdWrite.pageAddr (k : Nat) : MtdWrite → Nat
  | .oob toAddr _ | .panic toAddr _ _ => toAddr - toAddr % g.writesize + k * g.writesize

/-- The buffer handed down for page `k` of a stream: none if the page has no byte
of the stream, else these bytes with 0xff around them. -/
def Carries (s : Paging × Mem) (k : Nat) : Option Mem → Prop
  | none => ¬ ∃ i, i < s.1.size ∧ s.1.Requested k i
  | some page => (∃ i, i < s.1.size ∧ s.1.Requested k i) ∧ s.1.Shows s.2 0xff k page

/-- A page write as requested. -/
structure ExactPage (req : MtdWrite) (k : Nat) (t : PageTry) : Prop where
  addr : t.addr = req.pageAddr g k
  data : Carries (req.data g) k t.data
  oob : Carries (req.spare g info) k t.oob

end Requests

section Range

variable (g : Geometry)

/-- `ni->page_cache` before page `k` of a request that starts at column `col`: the
first page goes through the cache when it is not written whole. -/
def staleCache (data cache : Mem) (col k : Nat) : Mem :=
  if k = 0 ∨ col = 0 then cache
  else (cache.fill 0 0xff col).copy col data (g.writesize - col)

/-- The variables of `nmbm_write_range` before page `k` of the request `p`. -/
structure RangeAt (p : Paging) (base : Nat) (data : Mem) (w₀ : World) (k off pos remain : Nat)
    (w : World) : Prop where
  pos : pos = p.consumed k
  remain : remain = p.len - p.consumed k
  off : p.consumed k < p.len → off = base + k * g.writesize + p.column k
  ni : w.ni = w₀.ni
  cache : p.consumed k < p.len →
    w.chip.pageCache = staleCache g data w₀.chip.pageCache p.col k

/-- The page that `nmbm_write_range` hands down as page `k`. -/
def rangePage (p : Paging) (data cache : Mem) (k : Nat) : Mem :=
  if p.chunk k = g.writesize then data.shift (p.consumed k)
  else ((staleCache g data cache p.col k).fill 0 0xff (p.column k)).copy (p.column k)
    (data.shift (p.consumed k)) (p.chunk k)

variable {g} {dev : Device} {p : Paging} {base k off pos remain : Nat} {data : Mem} {w₀ w : World}

/-- The offsets that a round computes from `off`. -/
theorem RangeAt.offsets (hp : p.size = g.writesize) (hcol : p.col < p.size)
    (hbase : base % g.writesize = 0) (h : RangeAt g p base data w₀ k off pos remain w)
    (hmore : p.consumed k < p.len) :
    off % g.writesize = p.column k ∧ off - off % g.writesize = base + k * g.writesize ∧
      min (g.writesize - off % g.writesize) remain = p.chunk k := by
  have hmod : off % g.writesize = p.column k := by
    rw [h.off hmore, Nat.add_mod, Nat.add_mod base, hbase, Nat.mul_mod_left]
    have hlt : p.column k < g.writesize := by
      simp only [Paging.column]
      split <;> omega
    simp [Nat.mod_eq_of_lt hlt]
  refine ⟨hmod, ?_, ?_⟩
  · rw [hmod, h.off hmore]
    omega
  · rw [hmod, h.remain, Paging.chunk, hp]

/-- A round that programs its page. -/
theorem RangeAt.next (hp : p.size = g.writesize) (hcol : p.col < p.size)
    (hbase : base % g.writesize = 0) (h : RangeAt g p base data w₀ k off pos remain w)
    (hmore : p.consumed k < p.len)
    (hok : (writeChunk g dev data off pos (p.chunk k) w).1 = 0) :
    RangeAt g p base data w₀ (k + 1) (off + p.chunk k) (pos + p.chunk k) (remain - p.chunk k)
      (writeChunk g dev data off pos (p.chunk k) w).2 := by
  obtain ⟨hmod, -, -⟩ := h.offsets hp hcol hbase hmore
  have hadd := Paging.consumed_add_chunk hcol k
  have hmul : (k + 1) * g.writesize = k * g.writesize + g.writesize := Nat.succ_mul _ _
  refine ⟨by rw [h.pos, hadd], by rw [h.remain]; omega, fun hlt => ?_, ?_, fun hlt => ?_⟩
  · have := Paging.column_add_chunk_eq hcol hlt
    rw [h.off hmore, Paging.column_succ]
    omega
  · simp only [writeChunk] at hok ⊢
    split at hok
    · next hwhole =>
        rw [if_pos hwhole, (writeLogicPage_ok hok).ni]
        exact h.ni
    · next hpart =>
        rw [if_neg hpart, (writeLogicPage_ok hok).ni]
        exact h.ni
  · have hfull := Paging.column_add_chunk_eq hcol hlt
    simp only [writeChunk] at hok ⊢
    split at hok
    · next hwhole =>
        rw [if_pos hwhole, (writeLogicPage_ok hok).pageCache, h.cache hmore]
        simp only [staleCache]
        cases k with
        | zero =>
            have hzero : p.col = 0 := by
              have hcol₀ : p.column 0 = p.col := rfl
              omega
            rw [if_pos (.inl rfl), if_pos (.inr hzero)]
        | succ k => simp
    · next hpart =>
        rw [if_neg hpart, (writeLogicPage_ok hok).pageCache]
        -- a page that is written in part and followed by another one is the first
        cases k with
        | succ k =>
            rw [Paging.column_succ] at hfull
            omega
        | zero =>
            have hcol₀ : p.column 0 = p.col := rfl
            have hpos : pos = 0 := by rw [h.pos, Paging.consumed_zero]
            have hchunk : p.chunk 0 = g.writesize - p.col := by omega
            rw [hmod, hcol₀, h.cache hmore, hpos, hchunk]
            simp only [staleCache, true_or, if_true, Nat.zero_add, Nat.one_ne_zero, false_or]
            rw [if_neg (by omega), Mem.shift_zero]

/-- The log entry of page `k`. -/
structure RangeTry (p : Paging) (base : Nat) (data : Mem) (w₀ : World) (k : Nat) (t : PageTry) :
    Prop where
  more : p.consumed k < p.len
  addr : t.addr = base + k * g.writesize
  data : t.data = some (rangePage g p data w₀.chip.pageCache k)
  oob : t.oob = none
  passed : t.passed = (Writable g w₀ (base + k * g.writesize) && !g.readOnly)

theorem writable_congr {w w' : World} (h : w'.ni = w.ni) (addr : Nat) :
    Writable g w' addr = Writable g w addr := by
  rw [Bool.eq_iff_iff, writable_eq_true, writable_eq_true, World.blockStateOf,
    World.blockStateOf, h]

/-- The log entry of a round. -/
theorem RangeAt.rangeTry (hp : p.size = g.writesize) (hcol : p.col < p.size)
    (hbase : base % g.writesize = 0) (h : RangeAt g p base data w₀ k off pos remain w)
    (hmore : p.consumed k < p.len) (ret : Int) :
    RangeTry (g := g) p base data w₀ k (logicTry g (off - off % g.writesize)
      (some (chunkPage g data off pos (p.chunk k) w)) none w ret) := by
  obtain ⟨hmod, haddr, -⟩ := h.offsets hp hcol hbase hmore
  refine ⟨hmore, haddr, ?_, rfl, ?_⟩
  · simp only [logicTry, chunkPage, rangePage, hmod, h.cache hmore, h.pos]
  · simp only [logicTry, haddr, writable_congr h.ni]

theorem writeChunk_ok_writable (hp : p.size = g.writesize) (hcol : p.col < p.size)
    (hbase : base % g.writesize = 0) (h : RangeAt g p base data w₀ k off pos remain w)
    (hmore : p.consumed k < p.len)
    (hok : (writeChunk g dev data off pos (p.chunk k) w).1 = 0) :
    Writable g w₀ (base + k * g.writesize) = true := by
  obtain ⟨-, haddr, -⟩ := h.offsets hp hcol hbase hmore
  simp only [writeChunk] at hok
  rw [← haddr, ← writable_congr h.ni]
  split at hok
  · exact (writeLogicPage_ok hok).writable
  · exact (writeLogicPage_ok hok).writable

/-- The log of the loop: page after page, each one after pages that were written. -/
theorem writeRangeTries_spec (hp : p.size = g.writesize) (hcol : p.col < p.size)
    (hbase : base % g.writesize = 0) {fuel : Nat}
    (h : RangeAt g p base data w₀ k off pos remain w) {j : Nat} {t : PageTry}
    (ht : (writeRangeTries g dev data fuel off pos remain w)[j]? = some t) :
    RangeTry (g := g) p base data w₀ (k + j) t ∧
      ∀ u, k ≤ u → u < k + j → Writable g w₀ (base + u * g.writesize) = true := by
  induction fuel generalizing k off pos remain w j with
  | zero => simp [writeRangeTries] at ht
  | succ fuel ih =>
      simp only [writeRangeTries] at ht
      split at ht
      · simp at ht
      · next hremain =>
          have hmore : p.consumed k < p.len := by
            have := h.remain
            omega
          rw [(h.offsets hp hcol hbase hmore).2.2] at ht
          cases j with
          | zero =>
              simp only [List.getElem?_cons_zero, Option.some.injEq] at ht
              rw [← ht]
              exact ⟨h.rangeTry hp hcol hbase hmore _, fun u h₁ h₂ => by omega⟩
          | succ j =>
              simp only [List.getElem?_cons_succ] at ht
              split at ht
              · simp at ht
              · next hok =>
                  rw [ne_eq, not_not] at hok
                  obtain ⟨htry, hall⟩ := ih (h.next hp hcol hbase hmore hok) ht
                  rw [show k + (j + 1) = k + 1 + j by omega]
                  refine ⟨htry, fun u h₁ h₂ => ?_⟩
                  rcases Nat.eq_or_lt_of_le h₁ with rfl | hlt
                  · exact writeChunk_ok_writable hp hcol hbase h hmore hok
                  · exact hall u hlt h₂

/-- On a device without failures the loop comes to every page whose predecessors
can be written. -/
theorem writeRangeTries_reach (hp : p.size = g.writesize) (hcol : p.col < p.size)
    (hbase : base % g.writesize = 0) (hro : g.readOnly = false) {fuel : Nat}
    (h : RangeAt g p base data w₀ k off pos remain w) (hfuel : remain ≤ fuel) {j : Nat}
    (hj : p.consumed (k + j) < p.len)
    (hall : ∀ u, k ≤ u → u < k + j → Writable g w₀ (base + u * g.writesize) = true) :
    ∃ t, (writeRangeTries g goodDevice data fuel off pos remain w)[j]? = some t := by
  induction j generalizing k off pos remain w fuel with
  | zero =>
      have hrem := h.remain
      rw [Nat.add_zero] at hj
      cases fuel with
      | zero => omega
      | succ fuel =>
          simp only [writeRangeTries]
          rw [if_neg (by omega)]
          exact ⟨_, rfl⟩
  | succ j ih =>
      have hrem := h.remain
      have hmore : p.consumed k < p.len :=
        Nat.lt_of_le_of_lt (Paging.consumed_mono (by omega)) hj
      have hpos := Paging.chunk_pos hcol hmore
      cases fuel with
      | zero => omega
      | succ fuel =>
          have hok : (writeChunk g goodDevice data off pos (p.chunk k) w).1 = 0 := by
            obtain ⟨-, haddr, -⟩ := h.offsets hp hcol hbase hmore
            have hw : Writable g w (off - off % g.writesize) = true := by
              rw [haddr, writable_congr h.ni]
              exact hall k (le_refl _) (by omega)
            simp only [writeChunk]
            split
            · exact writeLogicPage_good hw hro
            · exact writeLogicPage_good hw hro
          simp only [writeRangeTries]
          rw [if_neg (by omega), (h.offsets hp hcol hbase hmore).2.2, List.getElem?_cons_succ,
            if_neg (by rw [ne_eq, not_not]; exact hok)]
          refine ih (h.next hp hcol hbase hmore hok) (by omega) ?_ fun u h₁ h₂ => ?_
          · rw [show k + 1 + j = k + (j + 1) by omega]
            exact hj
          · exact hall u (by omega) (by omega)

/-- The page handed down shows the request exactly when the bytes after the chunk
are 0xff already. -/
theorem rangePage_shows (hp : p.size = g.writesize) (hcol : p.col < p.size) (cache : Mem) :
    p.Shows data 0xff k (rangePage g p data cache k) ↔
      ∀ i, p.column k + p.chunk k ≤ i → i < g.writesize →
        staleCache g data cache p.col k i = 0xff := by
  have hle := Paging.column_add_chunk_le hcol k
  constructor
  · intro h i h₁ h₂
    have hi : i < p.size := by omega
    have hnot : ¬ p.Requested k i := by
      rw [Paging.requested_iff hcol hi]
      omega
    have hshow := h i hi
    rw [if_neg hnot, rangePage, if_neg (by omega), Mem.copy_outside (by omega)] at hshow
    rw [← hshow, Mem.fill, if_neg (by omega)]
  · intro h
    by_cases hwhole : p.chunk k = g.writesize
    · have hzero : p.column k = 0 := by omega
      refine Paging.shows_of_copy hcol (fun i h₁ h₂ => ?_) fun i hi hout => by omega
      rw [rangePage, if_pos hwhole, hzero]
      rfl
    · refine Paging.shows_of_copy hcol (fun i h₁ h₂ => ?_) fun i hi hout => ?_
      · rw [rangePage, if_neg hwhole, Mem.copy, if_pos ⟨h₁, h₂⟩]
        rfl
      · rw [rangePage, if_neg hwhole, Mem.copy_outside (by omega)]
        by_cases hlt : i < p.column k
        · exact Mem.fill_inside (by omega)
        · rw [Mem.fill, if_neg (by omega)]
          exact h i (by omega) (by omega)

end Range

end Speedway.Nmbm
