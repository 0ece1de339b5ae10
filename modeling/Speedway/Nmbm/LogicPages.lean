import Speedway.Nmbm.EraseContract
import Speedway.Nmbm.MtdRead

/-!
# The contents of logic pages

A logic page has contents while its block is a mapped data block. Each
operation is bounded by the pages it is about: with the mapping invariant,
writing a page leaves every other logic page alone, erasing a block leaves
every other logic block alone, and writing the tables leaves all of them
alone, whatever the chip answers.
-/

namespace Speedway.Nmbm

open Speedway.Lib

/-- The logic page `p`, when its block is a data block that is mapped. -/
def pageOf (g : Geometry) (w : World) (p : Nat) : Option Page :=
  let pb := w.ni.blockMapping (p / g.pagesPerBlock)
  if p / g.pagesPerBlock < w.ni.dataBlockCount ∧ 0 ≤ pb then
    some (w.chip.flash (pb.toNat * g.pagesPerBlock + p % g.pagesPerBlock))
  else none

/-- The pages outside `S` keep their contents. -/
def PagesKept (g : Geometry) (S : Nat → Prop) (w w' : World) : Prop :=
  ∀ p pg, ¬ S p → pageOf g w p = some pg → pageOf g w' p = some pg

section Pages

variable {g : Geometry} {S T : Nat → Prop} {w w' w'' : World} {p : Nat} {pg : Page}

theorem pageOf_eq_some_iff : pageOf g w p = some pg ↔
    ∃ pb : Nat, p / g.pagesPerBlock < w.ni.dataBlockCount ∧
      w.ni.blockMapping (p / g.pagesPerBlock) = pb ∧
      w.chip.flash (pb * g.pagesPerBlock + p % g.pagesPerBlock) = pg := by
  simp only [pageOf]
  constructor
  · intro h
    split at h
    · next hin => exact ⟨_, hin.1, (Int.toNat_of_nonneg hin.2).symm, Option.some.inj h⟩
    · exact absurd h (by simp)
  · rintro ⟨pb, hlt, hmap, hpage⟩
    rw [hmap, if_pos ⟨hlt, by omega⟩, Int.toNat_natCast, hpage]

/-- The physical page of a linear address inside block `pb`. -/
theorem physPage (g : Geometry) (pb addr : Nat) :
    (g.ba2addr pb + addr % g.erasesize) / g.writesize =
      pb * g.pagesPerBlock + addr / g.writesize % g.pagesPerBlock := by
  have hpos := g.writesize_pos
  have hlt := Nat.mod_lt addr hpos
  rw [LowerDevice.ba2addr, g.erasesize_eq, Nat.mod_mul,
    show pb * (g.writesize * g.pagesPerBlock) + (addr % g.writesize + g.writesize *
      (addr / g.writesize % g.pagesPerBlock)) = g.writesize * (pb * g.pagesPerBlock +
        addr / g.writesize % g.pagesPerBlock) + addr % g.writesize by ring,
    Nat.mul_add_div hpos, Nat.div_eq_of_lt hlt, Nat.add_zero]

theorem physPage_block (pb p : Nat) :
    (pb * g.pagesPerBlock + p % g.pagesPerBlock) / g.pagesPerBlock = pb :=
  page_block (Nat.mod_lt p g.pagesPerBlock_pos)

/-- Two logic pages of one block lie on different physical pages. -/
theorem physPage_ne {pb q : Nat} (hblock : q / g.pagesPerBlock = p / g.pagesPerBlock)
    (hne : q ≠ p) :
    pb * g.pagesPerBlock + q % g.pagesPerBlock ≠ pb * g.pagesPerBlock + p % g.pagesPerBlock := by
  intro heq
  apply hne
  rw [← Nat.div_add_mod q g.pagesPerBlock, ← Nat.div_add_mod p g.pagesPerBlock, hblock]
  omega

theorem PagesKept.refl : PagesKept g S w w := fun _ _ _ h => h

theorem PagesKept.trans (h : PagesKept g S w w') (h' : PagesKept g S w' w'') :
    PagesKept g S w w'' :=
  fun p pg hp hw => h' p pg hp (h p pg hp hw)

theorem PagesKept.mono (h : PagesKept g S w w') (hST : ∀ p, S p → T p) : PagesKept g T w w' :=
  fun p pg hp => h p pg fun hS => hp (hST p hS)

/-- Pages are kept where neither the mapping nor the flash changes. -/
theorem PagesKept.of_flash (hcount : w.ni.dataBlockCount ≤ w'.ni.dataBlockCount)
    (hmap : ∀ p, ¬ S p → w'.ni.blockMapping (p / g.pagesPerBlock) =
      w.ni.blockMapping (p / g.pagesPerBlock))
    (hflash : ∀ p, ∀ pb : Nat, ¬ S p → p / g.pagesPerBlock < w.ni.dataBlockCount →
      w.ni.blockMapping (p / g.pagesPerBlock) = pb →
      w'.chip.flash (pb * g.pagesPerBlock + p % g.pagesPerBlock) =
        w.chip.flash (pb * g.pagesPerBlock + p % g.pagesPerBlock)) : PagesKept g S w w' := by
  intro p pg hp h
  obtain ⟨pb, hlt, hpb, hpage⟩ := pageOf_eq_some_iff.mp h
  refine pageOf_eq_some_iff.mpr ⟨pb, hlt.trans_le hcount, (hmap p hp).trans hpb, ?_⟩
  rw [hflash p pb hp hlt hpb, hpage]

/-- Reading changes no logic page. -/
theorem OnlyRead.pagesKept (h : OnlyRead w w') : PagesKept g S w w' := by
  refine .of_flash ?_ ?_ ?_
  · rw [h.rest]
  · intro p _
    rw [h.rest]
  · intro p pb _ _ _
    rw [h.flash]

/-- Writing the tables changes no logic page: mapped blocks lie below the
management area or above the boundary. -/
theorem updateInfoTable_pagesKept (dev : Device) (hl : Layout g w) (hm : MapInv w.ni) :
    PagesKept g S w (updateInfoTable g dev w).2 := by
  have hs : TableStep g w (updateTables g dev w).2 := (updateTables_safe dev hl).step
  refine .of_flash hs.kept.dataBlockCount.ge (fun p _ => congrFun hs.kept.blockMapping _) ?_
  intro p pb _ hlt hpb
  apply hs.chip.frame
  rw [physPage_block]
  have := hm.range _ hlt pb hpb
  omega

theorem updateInfoTable_mapInv (dev : Device) (hl : Layout g w) (hm : MapInv w.ni) :
    MapInv (updateInfoTable g dev w).2.ni :=
  hm.of_kept (updateTables_safe dev hl).step.kept

end Pages

section Program

variable {g : Geometry} {dev : Device} {w : World} {addr : Nat}

theorem programTries_ok {req : Request} {p : Nat} {write : Page → Page} {n : Nat} {c : Chip}
    (h : (programTries g dev req p write n c).1 = true) :
    ∃ old, (programTries g dev req p write n c).2.flash p = write old := by
  induction n generalizing c with
  | zero => exact absurd h Bool.false_ne_true
  | succ n ih =>
      simp only [programTries] at h ⊢
      split at h
      · next hok =>
          refine ⟨c.flash p, ?_⟩
          rw [if_pos hok]
          simp [Chip.perform, flashJournal, hok]
      · next hfail =>
          simp only [if_neg hfail]
          exact ih h

/-- A successful page write has left the buffers it was given. -/
theorem writePhysPage_ok {p : Nat} {data oob : Option Mem} {c : Chip}
    (h : (writePhysPage g dev p data oob c).1 = true) :
    ∃ old, (writePhysPage g dev p data oob c).2.flash p = Page.program data oob old := by
  unfold writePhysPage at h ⊢
  split at h
  · exact absurd h Bool.false_ne_true
  · next hrw =>
      rw [if_neg hrw]
      exact programTries_ok h

theorem panicWritePhysPage_ok {p : Nat} {data : Mem} {c : Chip}
    (h : (panicWritePhysPage g dev p data c).1 = true) :
    ∃ old, (panicWritePhysPage g dev p data c).2.flash p = Page.program (some data) none old := by
  unfold panicWritePhysPage at h ⊢
  split at h
  · exact absurd h Bool.false_ne_true
  · next hrw =>
      rw [if_neg hrw]
      exact programTries_ok h

theorem panicWritePhysPage_frame {p q : Nat} {data : Mem} (hq : q ≠ p) (c : Chip) :
    (panicWritePhysPage g dev p data c).2.flash q = c.flash q := by
  unfold panicWritePhysPage
  split
  · rfl
  · exact programTries_frame dev hq _ c

/-- What a page writer does to the chip: it leaves other pages alone, and a
successful write programs the buffers. -/
structure PageWriter (data oob : Option Mem) (write : Nat → Chip → Bool × Chip) : Prop where
  frame : ∀ p q c, q ≠ p → (write p c).2.flash q = c.flash q
  ok : ∀ p c, (write p c).1 = true → ∃ old, (write p c).2.flash p = Page.program data oob old

theorem writePhysPage_writer (g : Geometry) (dev : Device) (data oob : Option Mem) :
    PageWriter data oob fun p => writePhysPage g dev p data oob :=
  ⟨fun _ _ c hq => writePhysPage_frame dev hq c, fun _ _ h => writePhysPage_ok h⟩

theorem panicWritePhysPage_writer (g : Geometry) (dev : Device) (data : Mem) :
    PageWriter (some data) none fun p => panicWritePhysPage g dev p data :=
  ⟨fun _ _ c hq => panicWritePhysPage_frame hq c, fun _ _ h => panicWritePhysPage_ok h⟩

/-- What programming the logic page `p` does, with the result `r`. -/
structure PageProgrammed (g : Geometry) (p : Nat) (data oob : Option Mem) (w : World)
    (r : Int × World) : Prop where
  ret : r.1 = 0 ∨ r.1 = -eIo
  kept : PagesKept g (fun q => q = p) w r.2
  ok : r.1 = 0 → ∃ old, pageOf g r.2 p = some (Page.program data oob old)
  mapInv : MapInv r.2.ni
  base : Base g r.2
  count : r.2.ni.dataBlockCount = w.ni.dataBlockCount

/-- Replacing the chip by one that differs on the physical page of `addr` alone. -/
theorem pagesKept_setPage (hm : MapInv w.ni) {lb pb : Nat} (hlb : lb < w.ni.dataBlockCount)
    (hpb : w.ni.blockMapping lb = pb) {p : Nat} (hp : p / g.pagesPerBlock = lb) {c : Chip}
    (hc : ∀ q, q ≠ pb * g.pagesPerBlock + p % g.pagesPerBlock → c.flash q = w.chip.flash q) :
    PagesKept g (fun q => q = p) w { w with chip := c } := by
  refine .of_flash (le_refl _) (fun _ _ => rfl) fun q qb hq hlt hqb => hc _ ?_
  by_cases hblock : q / g.pagesPerBlock = lb
  · have : pb = qb := by
      rw [hblock, hpb] at hqb
      omega
    subst this
    exact physPage_ne (hblock.trans hp.symm) hq
  · -- another data block lies on another physical block
    intro heq
    have hdiv := congrArg (· / g.pagesPerBlock) heq
    simp only [physPage_block] at hdiv
    subst hdiv
    exact hm.inj _ lb hlt hlb hblock (by omega) (hqb.trans hpb.symm)

theorem programLogicPage_programmed {data oob : Option Mem} {write : Nat → Chip → Bool × Chip}
    (hwrite : PageWriter data oob write)
    (hevolves : ∀ p c, Evolves g (fun b => b = p / g.pagesPerBlock) c (write p c).2)
    (hb : Base g w) (hm : MapInv w.ni) (haddr : addr < g.ba2addr w.ni.dataBlockCount) :
    PageProgrammed g (addr / g.writesize) data oob w
      (programLogicPage g dev write addr w) := by
  have hlt := addr2ba_lt haddr
  have hblock : addr / g.writesize / g.pagesPerBlock = g.addr2ba addr := by
    rw [addr2ba_of_lt hb.count_lt.le haddr, g.div_erasesize]
  have hrun := programLogicPage_run dev hevolves addr hb (hlt.trans hb.count_lt)
  have hbase := hb.run hrun
  simp only [programLogicPage] at hbase ⊢
  split
  · exact ⟨.inr rfl, .refl, fun h => absurd h (show ¬ -eIo = 0 by decide), hm, hb, rfl⟩
  · next hneg =>
      rw [if_neg hneg] at hbase
      have hpb : w.ni.blockMapping (g.addr2ba addr) =
          ((w.ni.blockMapping (g.addr2ba addr)).toNat : Nat) := by omega
      generalize (w.ni.blockMapping (g.addr2ba addr)).toNat = pb at hpb hbase ⊢
      split
      · exact ⟨.inr rfl, .refl, fun h => absurd h (show ¬ -eIo = 0 by decide), hm, hb, rfl⟩
      · next hbad =>
          rw [if_neg hbad] at hbase
          rw [physPage] at hbase ⊢
          have hkept := pagesKept_setPage hm hlt hpb hblock
            (fun q hq => hwrite.frame _ q w.chip hq)
          split
          · next hok =>
              rw [if_pos hok] at hbase
              obtain ⟨old, hold⟩ := hwrite.ok _ _ hok
              refine ⟨.inl rfl, hkept, fun _ => ⟨old, ?_⟩, hm, hbase, rfl⟩
              refine pageOf_eq_some_iff.mpr ⟨pb, ?_, ?_, hold⟩
              · rw [hblock]
                exact hlt
              · rw [hblock]
                exact hpb
          · next hfail =>
              rw [if_neg hfail] at hbase
              have hl : Layout g (World.setBlockState pb stNeedRemap
                { w with chip := (write (pb * g.pagesPerBlock +
                  addr / g.writesize % g.pagesPerBlock) w.chip).2 }) := { hb.layout with }
              refine ⟨.inr rfl, ?_, fun h => absurd h (show ¬ -eIo = 0 by decide),
                updateInfoTable_mapInv dev hl ⟨hm.range, hm.inj⟩, hbase,
                (updateTables_safe dev hl).step.kept.dataBlockCount⟩
              exact PagesKept.trans hkept (updateInfoTable_pagesKept dev hl ⟨hm.range, hm.inj⟩)

theorem writeLogicPage_programmed (dev : Device) (data oob : Option Mem) (hb : Base g w)
    (hm : MapInv w.ni) (haddr : addr < g.ba2addr w.ni.dataBlockCount) :
    PageProgrammed g (addr / g.writesize) data oob w
      (writeLogicPage g dev addr data oob w) :=
  programLogicPage_programmed (writePhysPage_writer g dev data oob)
    (fun p c => writePhysPage_evolves dev (S := fun b => b = p / g.pagesPerBlock) rfl c) hb hm haddr

end Program

section Erase

variable {g : Geometry} {dev : Device} {w w' : World} {lb : Nat}

theorem eraseTries_ok {b n : Nat} {c : Chip} (h : (eraseTries g dev b n c).1 = true) {q : Nat}
    (hq : q / g.pagesPerBlock = b) : (eraseTries g dev b n c).2.flash q = Page.blank := by
  induction n generalizing c with
  | zero => exact absurd h Bool.false_ne_true
  | succ n ih =>
      simp only [eraseTries] at h ⊢
      split at h
      · next hok =>
          rw [if_pos hok]
          simp [Chip.perform, flashJournal, hq, hok]
      · next hfail =>
          simp only [if_neg hfail]
          exact ih h

theorem checkEmptyPages_flash (n p : Nat) (c : Chip) :
    (checkEmptyPages g dev n p c).2.flash = c.flash := by
  obtain ⟨new, -, hflash, hnone⟩ := checkEmptyPages_evolves (g := g) dev (S := fun _ => False) n p c
  rw [hflash]
  funext q
  exact Journal.replay_frame _ (fun op hop => (hnone op hop).elim) _

/-- A successful erase leaves every page of the block blank. -/
theorem eraseBlockAndCheck_blank {b : Nat} {c : Chip} (h : (eraseBlockAndCheck g dev b c).1 = true)
    {q : Nat} (hq : q / g.pagesPerBlock = b) :
    (eraseBlockAndCheck g dev b c).2.flash q = Page.blank := by
  have herased (he : ¬ (!(erasePhysBlock g dev b c).1) = true) :
      (erasePhysBlock g dev b c).2.flash q = Page.blank := by
    rw [Bool.not_eq_true, Bool.not_eq_false'] at he
    unfold erasePhysBlock at he ⊢
    split at he
    · exact absurd he Bool.false_ne_true
    · next hrw =>
        rw [if_neg hrw]
        exact eraseTries_ok he hq
  simp only [eraseBlockAndCheck] at h ⊢
  split at h
  · exact absurd h Bool.false_ne_true
  · next he =>
      rw [if_neg he]
      split
      · exact herased he
      · rw [checkEmptyPages_flash]
        exact herased he

/-- With the mapping invariant, the erase of `lb` leaves other logic blocks alone. -/
theorem ErasePart.pagesKept (h : ErasePart g lb w w') (hm : MapInv w.ni)
    (hlb : lb < w.ni.dataBlockCount) (hcount : w.ni.dataBlockCount ≤ w'.ni.dataBlockCount) :
    PagesKept g (fun p => p / g.pagesPerBlock = lb) w w' := by
  refine .of_flash hcount (fun p hp => h.mapping _ hp) fun p pb hp hlt hpb => h.chip.frame ?_
  rw [physPage_block]
  exact hm.apart.not_foot hlb hlt hp hpb

/-- The erase of one data block: other blocks are kept, and after success every
page of the block is blank. -/
theorem eraseLogicBlock_pages (dev : Device) (hb : Base g w) (hm : MapInv w.ni)
    (hlb : lb < w.ni.dataBlockCount) :
    PagesKept g (fun p => p / g.pagesPerBlock = lb) w (eraseLogicBlock g dev lb w).2 ∧
      ((eraseLogicBlock g dev lb w).1 = 0 ∧ (∀ p, p / g.pagesPerBlock = lb →
        pageOf g (eraseLogicBlock g dev lb w).2 p = some Page.blank) ∨
        (eraseLogicBlock g dev lb w).1 = -eIo) := by
  have hlt := hlb.trans hb.count_lt
  have hcount := hb.count_le (eraseLogicLoop_run dev (w.ni.mappingBlocksTopBa + 1) hb hlt)
  have hspec := eraseLogicBlock_spec dev hb hlt
  refine ⟨hspec.part.pagesKept hm hlb hcount, ?_⟩
  by_cases hzero : (eraseLogicBlock g dev lb w).1 = 0
  · obtain ⟨pb, c, hpb, -, -, herased, hchip⟩ := hspec.ok hzero
    refine .inl ⟨hzero, fun p hp => pageOf_eq_some_iff.mpr ⟨pb, ?_, ?_, ?_⟩⟩
    · rw [hp]
      exact hlb.trans_le hcount
    · rw [hp]
      exact hpb
    · rw [hchip]
      exact eraseBlockAndCheck_blank herased (physPage_block pb p)
  · exact .inr (hspec.failed hzero).1

/-- The loop of `nmbm_erase_block_range` erases `m` blocks and then stops, at the
end of the range or at a block that it reports. -/
structure BlocksErased (g : Geometry) (lb n m : Nat) (w : World) (r : EraseResult) : Prop where
  stop : r.ret = 0 ∧ m = n ∨ r.ret = -eIo ∧ m < n ∧ r.failedAddr = some (g.ba2addr (lb + m))
  blank : ∀ p, lb ≤ p / g.pagesPerBlock → p / g.pagesPerBlock < lb + m →
    pageOf g r.w p = some Page.blank
  kept : PagesKept g (fun p => lb ≤ p / g.pagesPerBlock ∧ (p / g.pagesPerBlock < lb + m ∨
    r.ret ≠ 0 ∧ p / g.pagesPerBlock = lb + m)) w r.w

theorem eraseBlocksLoop_erased {n : Nat} (hb : Base g w) (hm : MapInv w.ni)
    (hn : lb + n ≤ w.ni.dataBlockCount)
    (hC : ∀ e ∈ (eraseBlocksLoop g dev n lb w).w.trace.drop w.trace.length, TopGood e) :
    ∃ m, BlocksErased g lb n m w (eraseBlocksLoop g dev n lb w) := by
  induction n generalizing lb w with
  | zero => exact ⟨0, .inl ⟨rfl, rfl⟩, fun p h₁ h₂ => by omega, .refl⟩
  | succ n ih =>
      have hlb : lb < w.ni.dataBlockCount := by omega
      obtain ⟨hkept, hret⟩ := eraseLogicBlock_pages dev hb hm hlb
      simp only [eraseBlocksLoop] at hC ⊢
      split at hC
      · next hne =>
          rw [if_pos hne]
          have hio := hret.resolve_left fun h => hne h.1
          refine ⟨0, .inr ⟨hio, by omega, rfl⟩, fun p h₁ h₂ => by omega, hkept.mono fun p hp => ?_⟩
          exact ⟨by omega, .inr ⟨hne, by omega⟩⟩
      · next hzero =>
          rw [if_neg hzero]
          rcases hret with ⟨-, hblank⟩ | hio
          · have hrun : Run g dev w (eraseLogicBlock g dev lb w).2 :=
              eraseLogicLoop_run dev _ hb (hlb.trans hb.count_lt)
            have hb' := hb.run hrun
            have hcount := hb.count_le hrun
            -- the events of the first block and of the rest
            obtain ⟨new, hnew⟩ := hb.trace_append hrun
            obtain ⟨last, hlast⟩ := hb'.trace_append
              (eraseBlocksLoop_run dev n hb' (show lb + 1 ≤ _ by omega))
            rw [hlast, hnew, List.append_assoc, List.drop_left] at hC
            have hm' := hm.run hb hrun fun e he => by
              rw [hnew, List.drop_left] at he
              exact hC e (List.mem_append_left _ he)
            obtain ⟨m, hstop, hrest, hkept'⟩ := ih hb' hm' (show lb + 1 + n ≤ _ by omega)
              fun e he => by
                rw [hlast, List.drop_left] at he
                exact hC e (List.mem_append_right _ he)
            refine ⟨m + 1, ?_, fun p h₁ h₂ => ?_, ?_⟩
            · rcases hstop with ⟨h₁, h₂⟩ | ⟨h₁, h₂, h₃⟩
              · exact .inl ⟨h₁, by omega⟩
              · exact .inr ⟨h₁, by omega, by rw [h₃, Nat.add_assoc, Nat.add_comm 1 m]⟩
            · rcases Nat.eq_or_lt_of_le h₁ with heq | hlt
              · exact hkept' p _ (by omega) (hblank p heq.symm)
              · exact hrest p hlt (by omega)
            · refine (hkept.mono fun p hp => ⟨by omega, .inl (by omega)⟩).trans
                (hkept'.mono fun p hp => ⟨by omega, ?_⟩)
              rcases hp.2 with h | ⟨hne, h⟩
              · exact .inl (by omega)
              · exact .inr ⟨hne, by omega⟩
          · rw [not_not, hio] at hzero
            exact absurd hzero (by decide)

end Erase

end Speedway.Nmbm
