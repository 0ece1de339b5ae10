import Speedway.Nmbm.Steps

/-!
# Calls are runs of steps

The range operations walk over logic blocks and stop at the first failure.
Logic blocks past the data blocks are unmapped, so a walk that starts at a
data block never leaves them, even where the 64-bit sum of address and size
wraps around.
-/

namespace Speedway.Nmbm

open Speedway.Lib

/-- The chip has been read, and nothing else happened. -/
structure OnlyRead (w w' : World) : Prop where
  flash : w'.chip.flash = w.chip.flash
  ops : w'.chip.ops = w.chip.ops
  rest : w' = { w with chip := w'.chip }

namespace OnlyRead

variable {w w' w'' : World}

theorem refl : OnlyRead w w := ⟨rfl, rfl, rfl⟩

theorem trans (h : OnlyRead w w') (h' : OnlyRead w' w'') : OnlyRead w w'' :=
  ⟨h'.flash.trans h.flash, h'.ops.trans h.ops, by rw [h'.rest, h.rest]⟩

/-- The page buffer may change too. -/
theorem setPageCache (h : OnlyRead w w') (cache : Mem) :
    OnlyRead w { w' with chip := { w'.chip with pageCache := cache } } :=
  ⟨h.flash, h.ops, by rw [h.rest]⟩

theorem run {g : Geometry} {dev : Device} (h : OnlyRead w w') : Run g dev w w' := by
  rw [h.rest]
  exact .single (.read h.flash h.ops)

end OnlyRead

section Reads

variable (g : Geometry) (dev : Device)

theorem readLogicPage_onlyRead (addr : Nat) (w : World) :
    OnlyRead w (readLogicPage g dev addr w).w := by
  simp only [readLogicPage]
  split
  · exact .refl
  · split
    · exact .refl
    · have h := readPhysPage_spec dev
        ((g.ba2addr (w.ni.blockMapping (g.addr2ba addr)).toNat + addr % g.erasesize) /
          g.writesize) w.chip
      exact ⟨h.2.1, h.1, rfl⟩

theorem readSinglePage_onlyRead (addr : Nat) (w : World) :
    OnlyRead w (readSinglePage g dev addr w).w := by
  simp only [readSinglePage]
  split
  · exact .refl
  · split
    · exact .refl
    · exact readLogicPage_onlyRead g dev addr w

theorem readRangeLoop_onlyRead (fuel off pos : Nat) (s : ReadRangeResult) :
    OnlyRead s.w (readRangeLoop g dev fuel off pos s).w := by
  induction fuel generalizing off pos s with
  | zero => exact .refl
  | succ fuel ih =>
      have hpage := readLogicPage_onlyRead g dev (off - off % g.writesize) s.w
      simp only [readRangeLoop]
      split
      · exact .refl
      · split
        · split
          · exact hpage
          · exact hpage.setPageCache _
        · refine OnlyRead.trans ?_ (ih _ _ _)
          dsimp only
          split
          · exact hpage
          · exact hpage.setPageCache _

theorem readRange_onlyRead (addr size : Nat) (buf : Mem) (w : World) :
    OnlyRead w (readRange g dev addr size buf w).2.2.2 := by
  simp only [readRange]
  split
  · exact .refl
  · split
    · exact .refl
    · split
      · exact .refl
      · exact readRangeLoop_onlyRead g dev size addr 0 ⟨0, size, false, 0, buf, w⟩

end Reads

section Erase

variable {g : Geometry} (dev : Device) {w : World}

theorem tryEraseBlock_run {lb pb : Nat} (hlb : lb < w.ni.dataBlockCount)
    (hpb : w.ni.blockMapping lb = pb) : Run g dev w (tryEraseBlock g dev pb w).2 := by
  have hcheck := checkBadPhysBlock_evolves (g := g) dev (S := fun b => b = pb) pb w.chip
  have herase := hcheck.trans (eraseBlockAndCheck_evolves dev (S := fun b => b = pb) rfl _)
  have hmark := herase.trans (markPhysBadBlock_evolves dev (S := fun b => b = pb) rfl _)
  simp only [tryEraseBlock]
  split
  · exact .refl
  · split
    · exact (Relation.ReflTransGen.single (.touch hlb hpb hcheck)).tail (.setState pb stBad)
    · split
      · exact .single (.touch hlb hpb herase)
      · exact (Relation.ReflTransGen.single (.touch hlb hpb hmark)).tail (.setState pb stBad)

theorem mapBlock_run {lb : Nat} (hlb : lb < w.ni.dataBlockCount) :
    Run g dev w (mapBlock g dev lb w).2 := by
  simp only [mapBlock]
  split
  · exact .refl
  · split
    · exact (Relation.ReflTransGen.single .update).tail .close
    · next pb hpb => exact .single (.assign hlb hpb)

/-- The world in which `nmbm_erase_logic_block` updates the tables. -/
theorem remapState_run {lb : Nat} (pb : Nat) (hlb : lb < w.ni.dataBlockCount) {r : Bool × World}
    (hr : mapBlock g dev lb w = r) :
    let w₁ := if r.1 then r.2 else unmapBlock lb (r.2.log (.remapFailed r.2.ni lb))
    Run g dev w (if w₁.blockStateOf pb ≠ stNeedRemap then w₁.setBlockState pb stBad else w₁) := by
  have hmap := mapBlock_run (g := g) dev hlb
  rw [hr] at hmap
  intro w₁
  have hunmap : Run g dev w w₁ := by
    show Run g dev w (ite _ _ _)
    split
    · exact hmap
    · exact hmap.tail (.remapFailed lb)
  split
  · exact hunmap.tail (.setState pb stBad)
  · exact hunmap

theorem remapLogicBlock_run {lb : Nat} (pb : Nat) (hlb : lb < w.ni.dataBlockCount) :
    Run g dev w (remapLogicBlock g dev lb pb w).2 :=
  (remapState_run dev pb hlb rfl).tail .update

theorem eraseLogicLoop_run {lb : Nat} (n : Nat) (hb : Base g w) (hlb : lb < g.blockCount) :
    Run g dev w (eraseLogicLoop g dev lb n w).2 := by
  induction n generalizing w with
  | zero => exact .refl
  | succ n ih =>
      simp only [eraseLogicLoop]
      split
      · exact .refl
      · next hneg =>
          have hlt := hb.lt_count hlb (not_lt.mp hneg)
          have hpb : w.ni.blockMapping lb = ((w.ni.blockMapping lb).toNat : Nat) := by omega
          have htry := tryEraseBlock_run (g := g) dev hlt hpb
          split
          · exact htry
          · have hremap := htry.trans (remapLogicBlock_run dev (w.ni.blockMapping lb).toNat
              (hlt.trans_le (hb.count_le htry)))
            split
            · exact hremap
            · exact hremap.trans (ih (hb.run hremap))

/-- A logic block that was erased is a data block. -/
theorem eraseLogicBlock_ok {lb : Nat} (hb : Base g w) (hlb : lb < g.blockCount)
    (hok : (eraseLogicBlock g dev lb w).1 = 0) : lb < w.ni.dataBlockCount := by
  apply hb.lt_count hlb
  by_contra hneg
  simp only [eraseLogicBlock, eraseLogicLoop, if_pos (not_le.mp hneg)] at hok
  exact absurd hok (by decide)

theorem eraseBlocksLoop_run {lb : Nat} (n : Nat) (hb : Base g w)
    (hlb : lb ≤ w.ni.dataBlockCount) : Run g dev w (eraseBlocksLoop g dev n lb w).w := by
  induction n generalizing lb w with
  | zero => exact .refl
  | succ n ih =>
      have hlt := lt_of_le_of_lt hlb hb.count_lt
      have hone : Run g dev w (eraseLogicBlock g dev lb w).2 :=
        eraseLogicLoop_run dev _ hb hlt
      simp only [eraseBlocksLoop]
      split
      · exact hone
      · next hok =>
          have hdata := eraseLogicBlock_ok dev hb hlt (not_not.mp hok)
          exact hone.trans (ih (hb.run hone) (Nat.lt_of_lt_of_le hdata (hb.count_le hone)))

/-- The logic block of an address below the data size is a data block. -/
theorem addr2ba_lt {addr : Nat} (h : addr < g.ba2addr w.ni.dataBlockCount) :
    g.addr2ba addr < w.ni.dataBlockCount :=
  lt_of_le_of_lt (Nat.mod_le _ _) ((Nat.div_lt_iff_lt_mul g.erasesize_pos).mpr h)

theorem rangeFits_addr {addr size : Nat} (h : ¬ (!rangeFits g addr size w) = true) :
    addr < g.ba2addr w.ni.dataBlockCount := by
  rw [Bool.not_eq_true, Bool.not_eq_false', rangeFits, Bool.and_eq_true, decide_eq_true_eq] at h
  exact h.1

theorem eraseBlockRange_run (addr size : Nat) (hb : Base g w) :
    Run g dev w (eraseBlockRange g dev addr size w).w := by
  simp only [eraseBlockRange]
  split
  · exact .refl
  · split
    · exact .refl
    · next hfits =>
        split
        · exact .refl
        · exact eraseBlocksLoop_run dev _ hb (le_of_lt (addr2ba_lt (rangeFits_addr hfits)))

end Erase

section Write

variable {g : Geometry} (dev : Device) {w : World}

/-- Programming a logic page touches the block it is mapped to. -/
theorem programLogicPage_run {write : Nat → Chip → Bool × Chip}
    (hwrite : ∀ p c, Evolves g (fun b => b = p / g.pagesPerBlock) c (write p c).2)
    (addr : Nat) (hb : Base g w) (hlb : g.addr2ba addr < g.blockCount) :
    Run g dev w (programLogicPage g dev write addr w).2 := by
  simp only [programLogicPage]
  split
  · exact .refl
  · next hneg =>
      have hlt := hb.lt_count hlb (not_lt.mp hneg)
      have hpb : w.ni.blockMapping (g.addr2ba addr) =
          ((w.ni.blockMapping (g.addr2ba addr)).toNat : Nat) := by omega
      generalize (w.ni.blockMapping (g.addr2ba addr)).toNat = pb at hpb ⊢
      have hblock : (g.ba2addr pb + addr % g.erasesize) / g.writesize / g.pagesPerBlock = pb :=
        byte_block g (Nat.mod_lt _ g.erasesize_pos)
      have htouch := hwrite ((g.ba2addr pb + addr % g.erasesize) / g.writesize) w.chip
      rw [hblock] at htouch
      have hrun : Run g dev w _ := .single (.touch hlt hpb htouch)
      split
      · exact .refl
      · split
        · exact hrun
        · exact (hrun.tail (.setState pb stNeedRemap)).tail .update

/-- A logic page that was programmed lies in a data block. -/
theorem programLogicPage_ok {write : Nat → Chip → Bool × Chip} {addr : Nat} (hb : Base g w)
    (hlb : g.addr2ba addr < g.blockCount) (hok : (programLogicPage g dev write addr w).1 = 0) :
    g.addr2ba addr < w.ni.dataBlockCount := by
  apply hb.lt_count hlb
  by_contra hneg
  simp only [programLogicPage, if_pos (not_le.mp hneg)] at hok
  exact absurd hok (by decide)

theorem writeLogicPage_run (addr : Nat) (data oob : Option Mem) (hb : Base g w)
    (hlb : g.addr2ba addr < g.blockCount) :
    Run g dev w (writeLogicPage g dev addr data oob w).2 :=
  programLogicPage_run dev (fun p c =>
    writePhysPage_evolves dev (S := fun b => b = p / g.pagesPerBlock) rfl c) addr hb hlb

theorem panicWriteLogicPage_run (addr : Nat) (data : Mem) (hb : Base g w)
    (hlb : g.addr2ba addr < g.blockCount) :
    Run g dev w (panicWriteLogicPage g dev addr data w).2 := by
  simp only [panicWriteLogicPage]
  split
  · exact .refl
  · exact programLogicPage_run dev (fun p c =>
      panicWritePhysPage_evolves dev (S := fun b => b = p / g.pagesPerBlock) rfl c) addr hb hlb

/-- The two single page writers share their tests. -/
theorem addr2ba_lt_blockCount (hb : Base g w) {addr : Nat}
    (h : ¬ g.ba2addr w.ni.dataBlockCount ≤ addr) : g.addr2ba addr < g.blockCount :=
  (addr2ba_lt (not_le.mp h)).trans hb.count_lt

theorem writeSinglePage_run (addr : Nat) (data oob : Option Mem) (hb : Base g w) :
    Run g dev w (writeSinglePage g dev addr data oob w).2 := by
  simp only [writeSinglePage]
  split
  · exact .refl
  · split
    · exact .refl
    · next haddr => exact writeLogicPage_run dev addr data oob hb (addr2ba_lt_blockCount hb haddr)

theorem panicWriteSinglePage_run (addr : Nat) (data : Mem) (hb : Base g w) :
    Run g dev w (panicWriteSinglePage g dev addr data w).2 := by
  simp only [panicWriteSinglePage]
  split
  · exact .refl
  · split
    · exact .refl
    · next haddr => exact panicWriteLogicPage_run dev addr data hb (addr2ba_lt_blockCount hb haddr)

/-- The page of an offset lies in the block of the offset. -/
theorem addr2ba_page {off : Nat} (h : off / g.erasesize < 2 ^ 32) :
    g.addr2ba (off - off % g.writesize) = off / g.erasesize := by
  rw [LowerDevice.addr2ba, g.div_erasesize (off - off % g.writesize), page_of_off,
    ← g.div_erasesize, Nat.mod_eq_of_lt h]

theorem writeChunk_run (data : Mem) (off pos chunk : Nat) (hb : Base g w)
    (hlb : g.addr2ba (off - off % g.writesize) < g.blockCount) :
    Run g dev w (writeChunk g dev data off pos chunk w).2 := by
  simp only [writeChunk]
  split
  · exact writeLogicPage_run dev _ _ _ hb hlb
  · have hread (cache : Mem) : Step g dev w
        { w with chip := { w.chip with pageCache := cache } } := .read rfl rfl
    exact .head (hread _) (writeLogicPage_run dev _ _ _ (hb.step (hread _)) hlb)

/-- A chunk that was written lies in a data block. -/
theorem writeChunk_ok {data : Mem} {off pos chunk : Nat} (hb : Base g w)
    (hlb : g.addr2ba (off - off % g.writesize) < g.blockCount)
    (hok : (writeChunk g dev data off pos chunk w).1 = 0) :
    g.addr2ba (off - off % g.writesize) < w.ni.dataBlockCount := by
  simp only [writeChunk, writeLogicPage] at hok
  split at hok
  · exact programLogicPage_ok dev hb hlb hok
  · have hread (cache : Mem) : Step g dev w
        { w with chip := { w.chip with pageCache := cache } } := .read rfl rfl
    have hb' := hb.step (hread ((w.chip.pageCache.fill 0 0xff (off % g.writesize)).copy
      (off % g.writesize) (data.shift pos) chunk))
    have hdata := programLogicPage_ok dev hb' hlb hok
    exact hdata

/-- The offset moves on by at most one block a round, and only over data blocks. -/
theorem writeRangeLoop_run (data : Mem) (fuel off pos remain : Nat) (hb : Base g w)
    (hoff : off / g.erasesize ≤ w.ni.dataBlockCount) :
    Run g dev w (writeRangeLoop g dev data fuel off pos remain w).2.2 := by
  induction fuel generalizing off pos remain w with
  | zero => exact .refl
  | succ fuel ih =>
      have hcount := hb.count_lt
      have hblocks := g.blockCount_lt
      have hlb : g.addr2ba (off - off % g.writesize) = off / g.erasesize :=
        addr2ba_page (by omega)
      have hlt : g.addr2ba (off - off % g.writesize) < g.blockCount := by omega
      simp only [writeRangeLoop]
      split
      · exact .refl
      · have hone := writeChunk_run dev data off pos
          (min (g.writesize - off % g.writesize) remain) hb hlt
        split
        · exact hone
        · next hok =>
            have hdata := writeChunk_ok dev hb hlt (not_not.mp hok)
            refine hone.trans (ih _ _ _ (hb.run hone) ?_)
            have hle := hb.count_le hone
            have hchunk : min (g.writesize - off % g.writesize) remain ≤ g.erasesize := by
              have := g.pageInBlock
              omega
            calc (off + min (g.writesize - off % g.writesize) remain) / g.erasesize
                ≤ (off + g.erasesize) / g.erasesize := Nat.div_le_div_right (by omega)
              _ = off / g.erasesize + 1 := Nat.add_div_right _ g.erasesize_pos
              _ ≤ _ := by omega

theorem writeRange_run (addr size : Nat) (data : Mem) (hb : Base g w) :
    Run g dev w (writeRange g dev addr size data w).2.2 := by
  simp only [writeRange]
  split
  · exact .refl
  · split
    · exact .refl
    · next hfits =>
        split
        · exact .refl
        · exact writeRangeLoop_run dev data _ _ _ _ hb (le_of_lt
            ((Nat.div_lt_iff_lt_mul g.erasesize_pos).mpr (rangeFits_addr hfits)))

theorem markBadBlock_run (addr : Nat) (hb : Base g w) :
    Run g dev w (markBadBlock g dev addr w).2 := by
  simp only [markBadBlock]
  split
  · exact .refl
  · split
    · exact .refl
    · next haddr =>
        split
        · exact .refl
        · next hneg =>
            have hlt := hb.lt_count (addr2ba_lt_blockCount hb haddr) (not_lt.mp hneg)
            have hpb : w.ni.blockMapping (g.addr2ba addr) =
                ((w.ni.blockMapping (g.addr2ba addr)).toNat : Nat) := by omega
            generalize (w.ni.blockMapping (g.addr2ba addr)).toNat = pb at hpb ⊢
            have hmark := markPhysBadBlock_evolves (g := g) dev (S := fun b => b = pb) rfl w.chip
            have hrun : Run g dev w _ := .single (.touch hlt hpb hmark)
            exact (hrun.tail (.markBad (g.addr2ba addr) pb)).tail .update

end Write

/-- Every call is a run of steps. -/
theorem Call.run_run {g : Geometry} (dev : Device) {w : World} (hb : Base g w) (c : Call) :
    Run g dev w (c.run g dev w) := by
  cases c with
  | eraseBlockRange addr size => exact eraseBlockRange_run dev addr size hb
  | readSinglePage addr => exact (readSinglePage_onlyRead g dev addr w).run
  | readRange addr size buf => exact (readRange_onlyRead g dev addr size buf w).run
  | writeSinglePage addr data oob => exact writeSinglePage_run dev addr data oob hb
  | panicWriteSinglePage addr data => exact panicWriteSinglePage_run dev addr data hb
  | writeRange addr size data => exact writeRange_run dev addr size data hb
  | markBadBlock addr => exact markBadBlock_run dev addr hb
  | detach =>
      simp only [Call.run, Nmbm.detach]
      split
      · exact .refl
      · exact .single .update

end Speedway.Nmbm
