import Speedway.Nmbm.MappingRuns
import Speedway.Nmbm.Protected

/-!
# The contract of `nmbm_erase_block_range`

Erasing a logic block works on the block it is mapped to and, if that has to be
remapped, on the blocks of the management area up to the boundary of the spare
blocks. A call that remaps nothing meets the contract exactly if the blocks it
comes to have known states and share none with the blocks it does not come to. A
call that remaps meets it where the blocks of the range are apart from each other
and from the management area, and each remap takes the block at the boundary.
-/

namespace Speedway.Nmbm

open Speedway.Lib

/-- One of the three states that NMBM defines; two bits leave room for a fourth. -/
def Known (st : BitVec 32) : Prop := st = stGood ∨ st = stBad ∨ st = stNeedRemap

/-- The blocks that the erase of the logic block `lb` may work on. -/
def EraseFoot (w : World) (lb b : Nat) : Prop :=
  w.ni.blockMapping lb = b ∨ w.ni.mgmtStartBa ≤ b ∧ b ≤ w.ni.mappingBlocksTopBa

/-- What a part of the erase of `lb` may do. -/
structure ErasePart (g : Geometry) (lb : Nat) (w w' : World) : Prop where
  chip : Evolves g (EraseFoot w lb) w.chip w'.chip
  state : ∀ b, ¬ EraseFoot w lb b → w'.blockStateOf b = w.blockStateOf b
  known : ∀ b, Known (w.blockStateOf b) → Known (w'.blockStateOf b)
  mapping : ∀ k, k ≠ lb → w'.ni.blockMapping k = w.ni.blockMapping k
  remapped : ∀ b : Nat, w'.ni.blockMapping lb = b → EraseFoot w lb b
  mgmt : w'.ni.mgmtStartBa = w.ni.mgmtStartBa
  top : w'.ni.mappingBlocksTopBa ≤ w.ni.mappingBlocksTopBa

namespace ErasePart

variable {g : Geometry} {dev : Device} {lb : Nat} {w w' w'' : World}

theorem refl : ErasePart g lb w w where
  chip := .refl
  state _ _ := rfl
  known _ := id
  mapping _ _ := rfl
  remapped _ := .inl
  mgmt := rfl
  top := le_refl _

theorem foot (h : ErasePart g lb w w') {b : Nat} (hb : EraseFoot w' lb b) : EraseFoot w lb b := by
  rcases hb with hmap | ⟨hlo, hhi⟩
  · exact h.remapped b hmap
  · exact .inr ⟨h.mgmt ▸ hlo, hhi.trans h.top⟩

theorem trans (h : ErasePart g lb w w') (h' : ErasePart g lb w' w'') : ErasePart g lb w w'' where
  chip := h.chip.trans (h'.chip.mono fun _ => h.foot)
  state b hb := (h'.state b fun hfoot => hb (h.foot hfoot)).trans (h.state b hb)
  known b hb := h'.known b (h.known b hb)
  mapping k hk := (h'.mapping k hk).trans (h.mapping k hk)
  remapped b hb := h.foot (h'.remapped b hb)
  mgmt := h'.mgmt.trans h.mgmt
  top := h'.top.trans h.top

/-- Operations on blocks of the footprint. -/
theorem setChip (h : ErasePart g lb w w') {c : Chip}
    (hc : Evolves g (EraseFoot w lb) w'.chip c) : ErasePart g lb w { w' with chip := c } :=
  { h with chip := h.chip.trans hc }

theorem setState (h : ErasePart g lb w w') {pb : Nat} (hpb : EraseFoot w lb pb) {st : BitVec 32}
    (hst : Known (st &&& 3#32)) : ErasePart g lb w (w'.setBlockState pb st) :=
  { h with
    state := fun b hb => by
      have hne : b ≠ pb := by
        rintro rfl
        exact hb hpb
      rw [blockStateOf_setBlockState, if_neg hne]
      exact h.state b hb
    known := fun b hb => by
      rw [blockStateOf_setBlockState]
      split
      · exact hst
      · exact h.known b hb }

/-- An update of the tables stays below the boundary. -/
theorem update (dev : Device) (h : ErasePart g lb w w') (hl : Layout g w') :
    ErasePart g lb w (updateInfoTable g dev w').2 := by
  have hs := (updateTables_safe dev hl).step
  have hstate (b : Nat) : (updateInfoTable g dev w').2.blockStateOf b = w'.blockStateOf b ∨
      (w'.ni.mgmtStartBa ≤ b ∧ b < w'.ni.mappingBlocksTopBa) ∧
        (updateInfoTable g dev w').2.blockStateOf b = stBad := hs.state b
  have hmap : (updateInfoTable g dev w').2.ni.blockMapping = w'.ni.blockMapping :=
    hs.kept.blockMapping
  have htop := h.top
  exact {
    chip := h.chip.trans (hs.chip.mono fun b hb => .inr (by rw [← h.mgmt]; omega))
    state := fun b hb => by
      rcases hstate b with heq | ⟨hin, -⟩
      · exact heq.trans (h.state b hb)
      · exact absurd (.inr (by rw [← h.mgmt]; omega)) hb
    known := fun b hb => by
      rcases hstate b with heq | ⟨-, hbad⟩
      · rw [heq]
        exact h.known b hb
      · exact .inr (.inl hbad)
    mapping := fun k hk => by
      rw [hmap]
      exact h.mapping k hk
    remapped := fun b hb => by
      rw [hmap] at hb
      exact h.remapped b hb
    mgmt := hs.kept.mgmtStartBa.trans h.mgmt
    top := hs.kept.mappingBlocksTopBa.le.trans htop }

end ErasePart

section Parts

variable {g : Geometry} {dev : Device} {lb pb : Nat} {w : World}

/-- The spare block picked is good. -/
theorem nextSpare_good (h : nextSpare g w = some pb) : w.blockStateOf pb = stGood := by
  simp only [nextSpare, blockWalk, blockWalkDesc, Bool.false_eq_true, if_false] at h
  exact walkDescLoop_good (Int.le_refl 0) h

theorem tryEraseBlock_part (dev : Device) (hpb : w.ni.blockMapping lb = pb) :
    ErasePart g lb w (tryEraseBlock g dev pb w).2 := by
  have hfoot : EraseFoot w lb pb := .inl hpb
  have hcheck := checkBadPhysBlock_evolves (g := g) dev (S := EraseFoot w lb) pb w.chip
  have herase := hcheck.trans (eraseBlockAndCheck_evolves dev hfoot _)
  have hmark := herase.trans (markPhysBadBlock_evolves dev hfoot _)
  have hbad : Known (stBad &&& 3#32) := .inr (.inl rfl)
  simp only [tryEraseBlock]
  split
  · exact .refl
  · split
    · exact (ErasePart.refl.setChip hcheck).setState hfoot hbad
    · split
      · exact ErasePart.refl.setChip herase
      · exact (ErasePart.refl.setChip hmark).setState hfoot hbad

theorem mapBlock_part (dev : Device) (lb : Nat) (hl : Layout g w) :
    ErasePart g lb w (mapBlock g dev lb w).2 := by
  simp only [mapBlock]
  split
  · exact .refl
  · split
    · have hupdate := (ErasePart.refl : ErasePart g lb _ _).update dev hl
      have hl' := (updateTables_safe dev hl).layout
      exact { hupdate with top := le_trans hl'.mapping_le hupdate.top }
    · next pb hpb =>
        have hrange := nextSpare_range hl hpb
        have hmgmt := hl.mgmt_le
        have hblocks := g.blockCount_lt
        have h₁ := hl.top_lt
        have h₂ := hl.signature_lt
        exact { (ErasePart.refl : ErasePart g lb w w) with
          mapping := fun k hk => Function.update_of_ne hk _ _
          remapped := fun b hb => by
            have hval : Function.update w.ni.blockMapping lb (toInt32 pb) lb = b := hb
            rw [Function.update_self, toInt32_of_lt (by omega)] at hval
            exact .inr (by omega)
          top := Nat.sub_le _ _ }

theorem mapBlock_layout (dev : Device) (lb : Nat) (hl : Layout g w) :
    Layout g (mapBlock g dev lb w).2 := by
  simp only [mapBlock]
  split
  · exact hl
  · split
    · have hl' := (updateTables_safe dev hl).layout
      exact { hl'.lowerTop _ (le_refl _) hl'.mapping_le with }
    · next pb hpb => exact assignBlock_layout hl lb hpb

/-- The block that is replaced is marked as bad, unless it waits to be replaced. -/
def markReplaced (pb : Nat) (w : World) : World :=
  if w.blockStateOf pb ≠ stNeedRemap then w.setBlockState pb stBad else w

theorem markReplaced_layout (pb : Nat) (hl : Layout g w) : Layout g (markReplaced pb w) := by
  rw [markReplaced]
  split
  · exact { hl with }
  · exact hl

/-- The end of a remap leaves the mapping alone. -/
theorem updateReplaced_kept (dev : Device) (pb : Nat) (hl : Layout g w) :
    (updateInfoTable g dev (markReplaced pb w)).2.ni.blockMapping = w.ni.blockMapping ∧
      (updateInfoTable g dev (markReplaced pb w)).2.ni.mappingBlocksTopBa =
        w.ni.mappingBlocksTopBa := by
  have hkept : Kept (markReplaced pb w).ni (updateInfoTable g dev (markReplaced pb w)).2.ni :=
    (updateTables_safe dev (markReplaced_layout pb hl)).step.kept
  rw [hkept.blockMapping, hkept.mappingBlocksTopBa, markReplaced]
  split
  · exact ⟨rfl, rfl⟩
  · exact ⟨rfl, rfl⟩

theorem updateReplaced_known (dev : Device) (pb : Nat) (hl : Layout g w) {b : Nat}
    (hb : Known (w.blockStateOf b)) :
    Known ((updateInfoTable g dev (markReplaced pb w)).2.blockStateOf b) := by
  have hpart : ErasePart g 0 (markReplaced pb w) (updateInfoTable g dev (markReplaced pb w)).2 :=
    ErasePart.refl.update dev (markReplaced_layout pb hl)
  refine hpart.known b ?_
  rw [markReplaced]
  split
  · rw [blockStateOf_setBlockState]
    split
    · exact .inr (.inl rfl)
    · exact hb
  · exact hb

theorem ErasePart.updateReplaced (dev : Device) {w' : World} (h : ErasePart g lb w w')
    (hl : Layout g w') (hfoot : EraseFoot w lb pb) :
    ErasePart g lb w (updateInfoTable g dev (markReplaced pb w')).2 := by
  refine ErasePart.update dev ?_ (markReplaced_layout pb hl)
  rw [markReplaced]
  split
  · exact h.setState hfoot (.inr (.inl rfl))
  · exact h

/-- A remap ends with the mark and an update of the tables. -/
theorem remapLogicBlock_eq (dev : Device) (lb pb : Nat) (w : World) :
    remapLogicBlock g dev lb pb w = ((mapBlock g dev lb w).1, (updateInfoTable g dev
      (markReplaced pb (if (mapBlock g dev lb w).1 then (mapBlock g dev lb w).2
        else unmapBlock lb ((mapBlock g dev lb w).2.log
          (.remapFailed (mapBlock g dev lb w).2.ni lb))))).2) := rfl

theorem remapLogicBlock_part (dev : Device) (hl : Layout g w) (hpb : w.ni.blockMapping lb = pb) :
    ErasePart g lb w (remapLogicBlock g dev lb pb w).2 := by
  have hmap := mapBlock_part (g := g) dev lb hl
  have hlmap := mapBlock_layout (g := g) dev lb hl
  -- the mapping after `nmbm_map_block`, dropped when it failed
  have hunmap : ErasePart g lb w (unmapBlock lb ((mapBlock g dev lb w).2.log
      (.remapFailed (mapBlock g dev lb w).2.ni lb))) :=
    { hmap with
      mapping := fun k hk => (Function.update_of_ne hk _ _).trans (hmap.mapping k hk)
      remapped := fun b hb => by
        have hval : Function.update (mapBlock g dev lb w).2.ni.blockMapping lb (-1) lb = b := hb
        rw [Function.update_self] at hval
        omega }
  rw [remapLogicBlock_eq]
  dsimp only
  split
  · exact hmap.updateReplaced dev hlmap (.inl hpb)
  · exact hunmap.updateReplaced dev { hlmap with } (.inl hpb)

/-- A remap that succeeds takes the boundary down by one and maps the logic block
to a block with a known state, the one at the boundary if that is good. -/
theorem remapLogicBlock_ok (hl : Layout g w) (h : (remapLogicBlock g dev lb pb w).1 = true) :
    (remapLogicBlock g dev lb pb w).2.ni.mappingBlocksTopBa + 1 = w.ni.mappingBlocksTopBa ∧
      (∀ b : Nat, (remapLogicBlock g dev lb pb w).2.ni.blockMapping lb = b →
        Known ((remapLogicBlock g dev lb pb w).2.blockStateOf b)) ∧
      ((∀ e ∈ (remapLogicBlock g dev lb pb w).2.trace.drop w.trace.length, TopGood e) →
        (remapLogicBlock g dev lb pb w).2.ni.blockMapping lb = w.ni.mappingBlocksTopBa) := by
  have hmap : (mapBlock g dev lb w).1 = true := h
  obtain ⟨nb, hnb, hmapped⟩ : ∃ nb, nextSpare g w = some nb ∧
      (mapBlock g dev lb w).2 = assignBlock lb nb w := by
    simp only [mapBlock] at hmap ⊢
    split at hmap
    · exact absurd hmap Bool.false_ne_true
    · next hne =>
        rw [if_neg hne]
        split at hmap
        · exact absurd hmap Bool.false_ne_true
        · next nb hnb => exact ⟨nb, hnb, rfl⟩
  have hrange := nextSpare_range hl hnb
  have hblocks := g.blockCount_lt
  have h₁ := hl.top_lt
  have h₂ := hl.signature_lt
  have hl₁ : Layout g (assignBlock lb nb w) := assignBlock_layout hl lb hnb
  have hassigned : (assignBlock lb nb w).ni.blockMapping lb = nb := by
    show Function.update w.ni.blockMapping lb (toInt32 nb) lb = nb
    rw [Function.update_self, toInt32_of_lt (by omega)]
  have hgood : (assignBlock lb nb w).blockStateOf nb = stGood :=
    (nextSpare_good hnb : w.blockStateOf nb = stGood)
  obtain ⟨hmapping, hdown⟩ := updateReplaced_kept dev pb hl₁
  rw [remapLogicBlock_eq, hmap, if_pos rfl, hmapped]
  refine ⟨?_, fun b hb => ?_, fun htop => ?_⟩
  · rw [hdown]
    exact Nat.sub_add_cancel (by omega)
  · rw [hmapping, hassigned] at hb
    obtain rfl : nb = b := by omega
    exact updateReplaced_known dev pb hl₁ (.inl hgood)
  · have htrace : (markReplaced pb (assignBlock lb nb w)).trace =
        w.trace ++ [.mapBlock w.ni lb nb] := by
      rw [markReplaced]
      split <;> rfl
    obtain ⟨new, hnew⟩ := (Step.update : Step g dev _ _).trace_append (markReplaced_layout pb hl₁)
    rw [hnew, htrace, List.append_assoc, List.drop_left] at htop
    rw [hmapping, hassigned, nextSpare_atTop hnb (htop _ List.mem_cons_self)]

/-- A remap that fails drops the mapping. -/
theorem remapLogicBlock_failed (hl : Layout g w)
    (h : (remapLogicBlock g dev lb pb w).1 = false) :
    (remapLogicBlock g dev lb pb w).2.ni.blockMapping lb = -1 := by
  have hmap : (mapBlock g dev lb w).1 = false := h
  have hdropped : Layout g (unmapBlock lb ((mapBlock g dev lb w).2.log
      (.remapFailed (mapBlock g dev lb w).2.ni lb))) := { mapBlock_layout dev lb hl with }
  rw [remapLogicBlock_eq, hmap, if_neg Bool.false_ne_true]
  dsimp only
  rw [(updateReplaced_kept dev pb hdropped).1]
  exact Function.update_self ..

/-- When the block can be erased, the last thing done is a successful erase. -/
theorem tryEraseBlock_ok (h : (tryEraseBlock g dev pb w).1 = true) :
    (Known (w.blockStateOf pb) → w.blockStateOf pb = stGood) ∧
      ∃ c, (∀ S, Evolves g S w.chip c) ∧ (eraseBlockAndCheck g dev pb c).1 = true ∧
        (tryEraseBlock g dev pb w).2 = { w with chip := (eraseBlockAndCheck g dev pb c).2 } := by
  simp only [tryEraseBlock] at h ⊢
  split at h
  · exact absurd h Bool.false_ne_true
  · next hstate =>
      rw [if_neg hstate]
      split at h
      · exact absurd h Bool.false_ne_true
      · next hgood =>
          rw [if_neg hgood]
          split at h
          · next hok =>
              rw [if_pos hok]
              refine ⟨?_, _, fun S => checkBadPhysBlock_evolves dev pb w.chip, hok, rfl⟩
              rintro (hgood | hbad | hremap)
              · exact hgood
              · exact absurd (.inl hbad) hstate
              · exact absurd (.inr hremap) hstate
          · exact absurd h Bool.false_ne_true

end Parts

section Blocks

variable {g : Geometry} {dev : Device} {lb : Nat} {w w' : World}

/-- The logic block `lb` was erased as the last thing, and is mapped to a good block if the
block before had a known state. -/
def ErasedNow (g : Geometry) (dev : Device) (lb : Nat) (w w' : World) : Prop :=
  ∃ (pb : Nat) (c : Chip), w'.ni.blockMapping lb = pb ∧
    ((∀ b : Nat, w.ni.blockMapping lb = b → Known (w.blockStateOf b)) →
      w'.blockStateOf pb = stGood) ∧
    Evolves g (EraseFoot w lb) w.chip c ∧ (eraseBlockAndCheck g dev pb c).1 = true ∧
    w'.chip = (eraseBlockAndCheck g dev pb c).2

/-- The contract of `nmbm_erase_logic_block`. -/
structure BlockErase (g : Geometry) (dev : Device) (lb : Nat) (w : World) (r : Int × World) :
    Prop where
  part : ErasePart g lb w r.2
  ok : r.1 = 0 → ErasedNow g dev lb w r.2
  failed : r.1 ≠ 0 → r.1 = -eIo ∧ r.2.ni.blockMapping lb < 0
  /-- A remap that takes the block at the boundary leaves it above the boundary. -/
  settled : (∀ e ∈ r.2.trace.drop w.trace.length, TopGood e) →
    ∀ pb : Nat, r.2.ni.blockMapping lb = pb →
      w.ni.blockMapping lb = pb ∨ r.2.ni.mappingBlocksTopBa < pb

theorem BlockErase.unmapped (hneg : w.ni.blockMapping lb < 0) :
    BlockErase g dev lb w (-eIo, w) :=
  ⟨.refl, fun h => absurd h (show ¬ -eIo = 0 by decide), fun _ => ⟨rfl, hneg⟩,
    fun _ _ => .inl⟩

theorem BlockErase.erased {pb : Nat} (hpb : w.ni.blockMapping lb = pb)
    (hok : (tryEraseBlock g dev pb w).1 = true) :
    BlockErase g dev lb w (0, (tryEraseBlock g dev pb w).2) := by
  obtain ⟨hgood, c, hc, herased, hres⟩ := tryEraseBlock_ok hok
  refine ⟨tryEraseBlock_part dev hpb, fun _ => ?_, fun h => absurd rfl h, fun _ b hb => .inl ?_⟩
  · rw [hres]
    exact ⟨pb, c, hpb, fun hknown => hgood (hknown pb hpb), hc _, herased, rfl⟩
  · rw [hres] at hb
    exact hb

/-- The retry loop comes to an end: each remap takes a spare block. -/
theorem eraseLogicLoop_spec (hb : Base g w) (hlb : lb < g.blockCount) {fuel : Nat}
    (hfuel : w.ni.mappingBlocksTopBa < fuel) :
    BlockErase g dev lb w (eraseLogicLoop g dev lb fuel w) := by
  induction fuel generalizing w with
  | zero => omega
  | succ fuel ih =>
      simp only [eraseLogicLoop]
      split
      · next hneg => exact .unmapped hneg
      · next hneg =>
          have hlt := hb.lt_count hlb (not_lt.mp hneg)
          have hpb : w.ni.blockMapping lb = ((w.ni.blockMapping lb).toNat : Nat) := by omega
          generalize (w.ni.blockMapping lb).toNat = pb at hpb ⊢
          have htry := tryEraseBlock_part (g := g) dev hpb
          have hrun := tryEraseBlock_run (g := g) dev hlt hpb
          have hlayout := (hb.run hrun).layout
          split
          · next hok => exact .erased hpb hok
          · have hpb' : (tryEraseBlock g dev pb w).2.ni.blockMapping lb = pb := by
              rw [← hpb]
              simp only [tryEraseBlock]
              repeat' split
              all_goals rfl
            have htop : (tryEraseBlock g dev pb w).2.ni.mappingBlocksTopBa ≤
                w.ni.mappingBlocksTopBa := htry.top
            have hpart := htry.trans (remapLogicBlock_part dev hlayout hpb')
            have hremap := remapLogicBlock_run (g := g) dev pb (hlt.trans_le (hb.count_le hrun))
            split
            · next hfail =>
                rw [Bool.not_eq_true'] at hfail
                have hneg' := remapLogicBlock_failed hlayout hfail
                refine ⟨hpart, fun h => absurd h (show ¬ -eIo = 0 by decide),
                  fun _ => ⟨rfl, by rw [hneg']; decide⟩, fun _ b hmap => ?_⟩
                rw [hneg'] at hmap
                omega
            · next hok =>
                rw [Bool.not_eq_true, Bool.not_eq_false'] at hok
                obtain ⟨hdown, hknown, hatTop⟩ := remapLogicBlock_ok hlayout hok
                have hbase := hb.run (hrun.trans hremap)
                have hrest := ih hbase (by omega)
                refine ⟨hpart.trans hrest.part, fun h => ?_, hrest.failed, fun hC b hmap => ?_⟩
                · obtain ⟨nb, c, hmap, hstate, hc, herased, hchip⟩ := hrest.ok h
                  exact ⟨nb, c, hmap, fun _ => hstate hknown,
                    hpart.chip.trans (hc.mono fun _ => hpart.foot), herased, hchip⟩
                · -- the events of the attempt, of the remap and of the later rounds
                  obtain ⟨first, hfirst⟩ := hb.trace_append hrun
                  obtain ⟨second, hsecond⟩ := (hb.run hrun).trace_append hremap
                  obtain ⟨last, hlast⟩ := hbase.trace_append
                    (eraseLogicLoop_run dev fuel hbase hlb)
                  rw [hlast, hsecond, hfirst, List.append_assoc, List.append_assoc,
                    List.drop_left] at hC
                  have hsettled := hrest.settled
                  rw [hlast, List.drop_left] at hsettled
                  rw [hsecond, List.drop_left] at hatTop
                  right
                  rcases hsettled (fun e he => hC e (by simp [he])) b hmap with hkept | habove
                  · rw [hatTop fun e he => hC e (by simp [he])] at hkept
                    have hle := hrest.part.top
                    omega
                  · exact habove

theorem eraseLogicBlock_spec (dev : Device) (hb : Base g w) (hlb : lb < g.blockCount) :
    BlockErase g dev lb w (eraseLogicBlock g dev lb w) :=
  eraseLogicLoop_spec hb hlb (Nat.lt_succ_self _)

/-- The logic block is mapped to a good block that was erased and checked on the
way from `w` to `w'`, with no operation on it since. -/
def ErasedBlock (g : Geometry) (dev : Device) (w w' : World) (lb : Nat) : Prop :=
  ∃ pb : Nat, w'.ni.blockMapping lb = pb ∧ w'.blockStateOf pb = stGood ∧
    ∃ c, Evolves g (fun _ => True) w.chip c ∧ (eraseBlockAndCheck g dev pb c).1 = true ∧
      Evolves g (fun b => b ≠ pb) (eraseBlockAndCheck g dev pb c).2 w'.chip

/-- The logic block was neither erased nor remapped. -/
def UntouchedBlock (g : Geometry) (w w' : World) (lb : Nat) : Prop :=
  w'.ni.blockMapping lb = w.ni.blockMapping lb ∧
    ∀ pb : Nat, w.ni.blockMapping lb = pb → w'.blockStateOf pb = w.blockStateOf pb ∧
      Evolves g (fun b => b ≠ pb) w.chip w'.chip

/-- The blocks of the logic blocks in `T` are different and lie outside the area that an
erase may use. -/
structure Apart (T : Nat → Prop) (ni : Instance) : Prop where
  range : ∀ lb, T lb → ∀ pb : Nat, ni.blockMapping lb = pb →
    pb < ni.mgmtStartBa ∨ ni.mappingBlocksTopBa < pb
  inj : ∀ i j, T i → T j → i ≠ j → 0 ≤ ni.blockMapping i → ni.blockMapping i ≠ ni.blockMapping j

theorem MapInv.apart {ni : Instance} (h : MapInv ni) : Apart (· < ni.dataBlockCount) ni :=
  ⟨fun lb hlb pb hpb => (h.range lb hlb pb hpb).imp_right And.left, h.inj⟩

theorem Apart.mono {T T' : Nat → Prop} {ni : Instance} (h : Apart T ni)
    (hsub : ∀ k, T' k → T k) : Apart T' ni :=
  ⟨fun lb hlb => h.range lb (hsub lb hlb), fun i j hi hj => h.inj i j (hsub i hi) (hsub j hj)⟩

/-- The erase of `lb` spares the block of another logic block. -/
theorem Apart.not_foot {T : Nat → Prop} (h : Apart T w.ni) {k pb : Nat} (hlb : T lb) (hk : T k)
    (hne : k ≠ lb) (hpb : w.ni.blockMapping k = pb) : ¬ EraseFoot w lb pb := by
  rintro (hmap | ⟨hlo, hhi⟩)
  · exact h.inj k lb hk hlb hne (by omega) (hpb.trans hmap.symm)
  · have := h.range k hk pb hpb
    omega

/-- After the erase of `lb` the others are as apart as before. -/
theorem Apart.part {T T' : Nat → Prop} (h : Apart T w.ni) (hpart : ErasePart g lb w w')
    (hrest : ∀ k, T' k → T k ∧ k ≠ lb) : Apart T' w'.ni := by
  have htop := hpart.top
  refine ⟨fun k hk pb hpb => ?_, fun i j hi hj hne hpos => ?_⟩
  · rw [hpart.mapping k (hrest k hk).2] at hpb
    have := h.range k (hrest k hk).1 pb hpb
    rw [hpart.mgmt]
    omega
  · rw [hpart.mapping i (hrest i hi).2] at hpos ⊢
    rw [hpart.mapping j (hrest j hj).2]
    exact h.inj i j (hrest i hi).1 (hrest j hj).1 hne hpos

/-- A block outside the footprint of an erase. -/
theorem ErasePart.spared (h : ErasePart g lb w w') {b : Nat} (hb : ¬ EraseFoot w lb b) :
    w'.blockStateOf b = w.blockStateOf b ∧ Evolves g (fun x => x ≠ b) w.chip w'.chip := by
  refine ⟨h.state b hb, h.chip.mono fun x hx => ?_⟩
  rintro rfl
  exact hb hx

/-- The contract of the loop over the `n` logic blocks from `lb` on. -/
structure RangeErase (g : Geometry) (dev : Device) (lb n : Nat) (w : World) (r : EraseResult) :
    Prop where
  outside : ∀ k, k < lb ∨ lb + n ≤ k → r.w.ni.blockMapping k = w.ni.blockMapping k
  spared : ∀ b : Nat, ¬ (w.ni.mgmtStartBa ≤ b ∧ b ≤ w.ni.mappingBlocksTopBa) →
    (∀ k, lb ≤ k → k < lb + n → w.ni.blockMapping k ≠ b) →
      r.w.blockStateOf b = w.blockStateOf b ∧ Evolves g (fun x => x ≠ b) w.chip r.w.chip
  ok : r.ret = 0 → ∀ k, lb ≤ k → k < lb + n → ErasedBlock g dev w r.w k
  failed : r.ret ≠ 0 → r.ret = -eIo ∧ ∃ k, lb ≤ k ∧ k < lb + n ∧
    r.failedAddr = some (g.ba2addr k) ∧ r.w.ni.blockMapping k < 0 ∧
    (∀ j, lb ≤ j → j < k → ErasedBlock g dev w r.w j) ∧
    ∀ j, k < j → j < lb + n → UntouchedBlock g w r.w j

/-- The loop stops at a block that cannot be erased. -/
theorem RangeErase.stop {n : Nat} {r : Int × World}
    (hm : Apart (fun k => lb ≤ k ∧ k < lb + (n + 1)) w.ni) (h : BlockErase g dev lb w r)
    (hret : r.1 ≠ 0) : RangeErase g dev lb (n + 1) w ⟨r.1, some (g.ba2addr lb), r.2⟩ where
  outside k hk := h.part.mapping k (by omega)
  spared b hb hmap := by
    apply h.part.spared
    rintro (heq | hin)
    · exact hmap lb (le_refl _) (by omega) heq
    · exact hb hin
  ok hzero := absurd hzero hret
  failed _ := by
    obtain ⟨hio, hneg⟩ := h.failed hret
    refine ⟨hio, lb, le_refl _, by omega, rfl, hneg, fun j h₁ h₂ => by omega, fun j h₁ h₂ => ?_⟩
    refine ⟨h.part.mapping j (by omega), fun pb hpb => h.part.spared ?_⟩
    exact hm.not_foot ⟨le_refl _, by omega⟩ ⟨by omega, h₂⟩ (by omega) hpb

/-- One more block before a range. -/
theorem RangeErase.cons {n : Nat} {r : EraseResult}
    (hm : Apart (fun k => lb ≤ k ∧ k < lb + (n + 1)) w.ni) (hpart : ErasePart g lb w w')
    (hfirst : ErasedBlock g dev w r.w lb) (h : RangeErase g dev (lb + 1) n w' r) :
    RangeErase g dev lb (n + 1) w r := by
  have hbefore {k : Nat} (hk : ErasedBlock g dev w' r.w k) : ErasedBlock g dev w r.w k := by
    obtain ⟨pb, hmap, hstate, c, hc, hrest⟩ := hk
    exact ⟨pb, hmap, hstate, c, (hpart.chip.mono fun _ _ => trivial).trans hc, hrest⟩
  exact {
    outside := fun k hk => (h.outside k (by omega)).trans (hpart.mapping k (by omega))
    spared := fun b hb hmap => by
      have hnot : ¬ EraseFoot w lb b := by
        rintro (heq | hin)
        · exact hmap lb (le_refl _) (by omega) heq
        · exact hb hin
      have htop := hpart.top
      obtain ⟨h₁, h₂⟩ := hpart.spared hnot
      obtain ⟨h₃, h₄⟩ := h.spared b (by rw [hpart.mgmt]; omega) fun k hk hk' => by
        rw [hpart.mapping k (by omega)]
        exact hmap k (by omega) (by omega)
      exact ⟨h₃.trans h₁, h₂.trans h₄⟩
    ok := fun hzero k hk hk' => by
      rcases Nat.eq_or_lt_of_le hk with rfl | hlt
      · exact hfirst
      · exact hbefore (h.ok hzero k hlt (by omega))
    failed := fun hret => by
      obtain ⟨hio, k, hk, hk', haddr, hneg, hearlier, hlater⟩ := h.failed hret
      refine ⟨hio, k, by omega, by omega, haddr, hneg, fun j h₁ h₂ => ?_, fun j h₁ h₂ => ?_⟩
      · rcases Nat.eq_or_lt_of_le h₁ with rfl | hlt
        · exact hfirst
        · exact hbefore (hearlier j hlt h₂)
      · obtain ⟨hmap, hblock⟩ := hlater j h₁ (by omega)
        have hsame := hpart.mapping j (by omega)
        refine ⟨hmap.trans hsame, fun pb hpb => ?_⟩
        obtain ⟨h₁', h₂'⟩ := hpart.spared
          (hm.not_foot ⟨le_refl _, by omega⟩ ⟨by omega, by omega⟩ (by omega) hpb)
        obtain ⟨h₃, h₄⟩ := hblock pb (hsame.trans hpb)
        exact ⟨h₃.trans h₁', h₂'.trans h₄⟩ }

end Blocks

section Contract

variable {g : Geometry} {dev : Device} {addr size : Nat} {w : World}

/-- The contract of `nmbm_erase_block_range`. -/
structure EraseContract (g : Geometry) (dev : Device) (addr size : Nat) (w : World)
    (r : EraseResult) : Prop where
  success : r.ret = 0 → ∀ lb, (Call.eraseBlockRange addr size).Targets g lb →
    ErasedBlock g dev w r.w lb
  failure : r.ret = -eIo → ∃ lb, (Call.eraseBlockRange addr size).Targets g lb ∧
    r.failedAddr = some (g.ba2addr lb) ∧ r.w.ni.blockMapping lb < 0 ∧
    (∀ j, (Call.eraseBlockRange addr size).Targets g j → j < lb → ErasedBlock g dev w r.w j) ∧
    ∀ j, (Call.eraseBlockRange addr size).Targets g j → lb < j → UntouchedBlock g w r.w j
  outside : ∀ lb, ¬ (Call.eraseBlockRange addr size).Targets g lb →
    r.w.ni.blockMapping lb = w.ni.blockMapping lb

section Addresses

variable (hcount : w.ni.dataBlockCount ≤ g.blockCount)

include hcount

theorem addr2ba_of_lt {a : Nat} (h : a < g.ba2addr w.ni.dataBlockCount) :
    g.addr2ba a = a / g.erasesize := by
  have hdiv : a / g.erasesize < w.ni.dataBlockCount :=
    (Nat.div_lt_iff_lt_mul g.erasesize_pos).mpr h
  have hblocks := g.blockCount_lt
  exact Nat.mod_eq_of_lt (by omega)

end Addresses

section NoRemap

/-- The loop over the `n` logic blocks from `lb` on comes to no block that has to be
remapped. -/
def NoRemap (g : Geometry) (dev : Device) : Nat → Nat → World → Prop
  | 0, _, _ => True
  | n + 1, lb, w => w.ni.blockMapping lb < 0 ∨
      (tryEraseBlock g dev (w.ni.blockMapping lb).toNat w).1 = true ∧
        NoRemap g dev n (lb + 1) (tryEraseBlock g dev (w.ni.blockMapping lb).toNat w).2

/-- The loop erased the blocks of `m` logic blocks, up to the end of the range or an
unmapped one, and did nothing else. -/
structure PlainErase (g : Geometry) (dev : Device) (lb n m : Nat) (w : World) (r : EraseResult) :
    Prop where
  stop : r.ret = 0 ∧ m = n ∨ r.ret = -eIo ∧ m < n ∧ r.failedAddr = some (g.ba2addr (lb + m)) ∧
    w.ni.blockMapping (lb + m) < 0
  ni : r.w.ni = w.ni
  chip : Evolves g (fun b => ∃ k, lb ≤ k ∧ k < lb + m ∧ w.ni.blockMapping k = b) w.chip r.w.chip
  erased : ∀ k, lb ≤ k → k < lb + m → ∃ pb : Nat, w.ni.blockMapping k = pb ∧
    (Known (w.blockStateOf pb) → w.blockStateOf pb = stGood) ∧
    ∃ c, Evolves g (fun _ => True) w.chip c ∧ (eraseBlockAndCheck g dev pb c).1 = true ∧
      Evolves g (fun b => b ≠ pb) (eraseBlockAndCheck g dev pb c).2 r.w.chip

variable {lb n m : Nat} {r : EraseResult}

theorem PlainErase.cons {pb : Nat} {w' : World} (hpb : w.ni.blockMapping lb = pb)
    (hgood : Known (w.blockStateOf pb) → w.blockStateOf pb = stGood) {c : Chip}
    (hc : ∀ S, Evolves g S w.chip c) (hok : (eraseBlockAndCheck g dev pb c).1 = true)
    (hw' : w' = { w with chip := (eraseBlockAndCheck g dev pb c).2 })
    (h : PlainErase g dev (lb + 1) n m w' r) : PlainErase g dev lb (n + 1) (m + 1) w r := by
  subst hw'
  have hshift : lb + 1 + m = lb + (m + 1) := by omega
  have hchip := h.chip
  have hstop := h.stop
  rw [hshift] at hchip hstop
  have hfirst : Evolves g (fun b => b = pb) w.chip (eraseBlockAndCheck g dev pb c).2 :=
    (hc _).trans (eraseBlockAndCheck_evolves dev (S := fun b => b = pb) rfl c)
  have hbefore {k : Nat} {b : Nat} (hk : ∃ c', Evolves g (fun _ => True)
      (eraseBlockAndCheck g dev pb c).2 c' ∧ (eraseBlockAndCheck g dev b c').1 = true ∧
      Evolves g (fun x => x ≠ b) (eraseBlockAndCheck g dev b c').2 r.w.chip) :
      ∃ c', Evolves g (fun _ => True) w.chip c' ∧ (eraseBlockAndCheck g dev b c').1 = true ∧
        Evolves g (fun x => x ≠ b) (eraseBlockAndCheck g dev b c').2 r.w.chip := by
    obtain ⟨c', h₁, h₂⟩ := hk
    exact ⟨c', (hfirst.mono fun _ _ => trivial).trans h₁, h₂⟩
  refine ⟨hstop.imp (fun h => ⟨h.1, by omega⟩) fun h => ⟨h.1, by omega, h.2.2⟩, h.ni, ?_, ?_⟩
  · refine (hfirst.mono ?_).trans (hchip.mono ?_)
    · rintro b rfl
      exact ⟨lb, le_refl _, by omega, hpb⟩
    · rintro b ⟨k, h₁, h₂, hk⟩
      exact ⟨k, by omega, h₂, hk⟩
  · intro k h₁ h₂
    rcases Nat.eq_or_lt_of_le h₁ with rfl | hlt
    · refine ⟨pb, hpb, hgood, ?_⟩
      -- the last erase of the block counts, if it is shared
      by_cases hshared : ∃ k, lb + 1 ≤ k ∧ k < lb + (m + 1) ∧ w.ni.blockMapping k = pb
      · obtain ⟨k, hk₁, hk₂, hk⟩ := hshared
        obtain ⟨b, hb, -, hrest⟩ := h.erased k hk₁ (by omega)
        obtain rfl : b = pb := by
          have hb' : w.ni.blockMapping k = b := hb
          omega
        exact hbefore (k := k) hrest
      · refine ⟨c, hc _, hok, hchip.mono ?_⟩
        rintro b hb rfl
        exact hshared hb
    · obtain ⟨b, hb, hstate, hrest⟩ := h.erased k hlt (by omega)
      exact ⟨b, hb, hstate, hbefore (k := k) hrest⟩

theorem NoRemap.erase (h : NoRemap g dev n lb w) :
    ∃ m, PlainErase g dev lb n m w (eraseBlocksLoop g dev n lb w) := by
  induction n generalizing lb w with
  | zero => exact ⟨0, .inl ⟨rfl, rfl⟩, rfl, .refl, fun k h₁ h₂ => by omega⟩
  | succ n ih =>
      simp only [eraseBlocksLoop, eraseLogicBlock, eraseLogicLoop]
      by_cases hneg : w.ni.blockMapping lb < 0
      · simp only [if_pos hneg]
        rw [if_pos (show -eIo ≠ 0 by decide)]
        exact ⟨0, .inr ⟨rfl, by omega, rfl, hneg⟩, rfl, .refl, fun k h₁ h₂ => by omega⟩
      · obtain ⟨hok, hrest⟩ := h.resolve_left hneg
        obtain ⟨hgood, c, hc, herased, hres⟩ := tryEraseBlock_ok hok
        obtain ⟨m, hm⟩ := ih hrest
        simp only [if_neg hneg, hok, if_true]
        rw [if_neg (by decide)]
        exact ⟨m + 1, hm.cons (by omega) hgood hc herased hres⟩

/-- The logic blocks up to the end of the range or the first unmapped one. -/
def Reached (g : Geometry) (addr size : Nat) (w : World) (lb : Nat) : Prop :=
  (Call.eraseBlockRange addr size).Targets g lb ∧
    ∀ k, (Call.eraseBlockRange addr size).Targets g k → k ≤ lb → 0 ≤ w.ni.blockMapping k

/-- The blocks that are reached have known states, and a block that is not reached shares
none with them. -/
structure EraseAllowed (g : Geometry) (addr size : Nat) (w : World) : Prop where
  known : ∀ lb, Reached g addr size w lb → ∀ pb : Nat, w.ni.blockMapping lb = pb →
    Known (w.blockStateOf pb)
  apart : ∀ lb j, Reached g addr size w lb → (Call.eraseBlockRange addr size).Targets g j →
    ¬ Reached g addr size w j → w.ni.blockMapping lb ≠ w.ni.blockMapping j

/-- A successful erase of a block is logged. -/
theorem eraseBlockAndCheck_op {pb : Nat} {c : Chip}
    (h : (eraseBlockAndCheck g dev pb c).1 = true) :
    ∃ op new, op.block = pb ∧ (eraseBlockAndCheck g dev pb c).2.ops = c.ops ++ op :: new := by
  have htries (n : Nat) : ∃ op new, op.block = pb ∧
      (eraseTries g dev pb (n + 1) c).2.ops = c.ops ++ op :: new := by
    have hrest (op : FlashOp) : ∃ new,
        (eraseTries g dev pb n (c.perform g op)).2.ops = c.ops ++ op :: new := by
      obtain ⟨new, hnew, -⟩ := eraseTries_evolves (g := g) (b := pb) (S := fun _ => True) dev
        trivial n (c.perform g op)
      exact ⟨new, hnew.trans (List.append_assoc ..)⟩
    simp only [eraseTries]
    split
    · exact ⟨_, [], rfl, rfl⟩
    · refine ⟨_, (hrest _).imp fun new hnew => ⟨?_, hnew⟩⟩
      rfl
  have herase : (erasePhysBlock g dev pb c).1 = true → ∃ op new, op.block = pb ∧
      (erasePhysBlock g dev pb c).2.ops = c.ops ++ op :: new := by
    intro he
    simp only [erasePhysBlock] at he ⊢
    split at he
    · exact absurd he Bool.false_ne_true
    · next hrw =>
        rw [if_neg hrw]
        exact htries 2
  simp only [eraseBlockAndCheck] at h ⊢
  split at h
  · exact absurd h Bool.false_ne_true
  · next he =>
      rw [if_neg he]
      obtain ⟨op, new, hblock, hops⟩ := herase (by simpa using he)
      split
      · exact ⟨op, new, hblock, hops⟩
      · obtain ⟨last, hlast, -⟩ := checkEmptyPages_evolves (g := g) (S := fun _ => True) dev
          g.pagesPerBlock (pb * g.pagesPerBlock) (erasePhysBlock g dev pb c).2
        refine ⟨op, new ++ last, hblock, ?_⟩
        rw [hlast, hops, List.append_assoc]
        rfl

/-- A block that was erased in between was operated on. -/
theorem not_evolves_of_erased {pb : Nat} {c c' c'' : Chip} {S T : Nat → Prop}
    (hc : Evolves g S c c') (hok : (eraseBlockAndCheck g dev pb c').1 = true)
    (hc' : Evolves g T (eraseBlockAndCheck g dev pb c').2 c'') :
    ¬ Evolves g (fun b => b ≠ pb) c c'' := by
  intro hspared
  obtain ⟨op, new, hblock, hops⟩ := eraseBlockAndCheck_op hok
  obtain ⟨first, hfirst, -⟩ := hc
  obtain ⟨last, hlast, -⟩ := hc'
  refine hspared.ops_drop.2 op ?_ hblock
  rw [hlast, hops, hfirst, List.append_assoc, List.append_assoc, List.drop_left]
  exact List.mem_append_right _ (List.mem_append_left _ List.mem_cons_self)

theorem PlainErase.blockStateOf (h : PlainErase g dev lb n m w r) (b : Nat) :
    r.w.blockStateOf b = w.blockStateOf b := by
  rw [World.blockStateOf, h.ni]
  rfl

section Plain

variable (h : PlainErase g dev lb n m w r)
  (htargets : ∀ k, (Call.eraseBlockRange addr size).Targets g k ↔ lb ≤ k ∧ k < lb + n)

include h htargets

theorem PlainErase.reached_iff (k : Nat) :
    Reached g addr size w k ↔ lb ≤ k ∧ k < lb + m := by
  constructor
  · rintro ⟨hk, hmapped⟩
    have hin := (htargets k).mp hk
    rcases h.stop with ⟨-, rfl⟩ | ⟨-, hlt, -, hneg⟩
    · exact hin
    · refine ⟨hin.1, ?_⟩
      by_contra hge
      have := hmapped (lb + m) ((htargets _).mpr ⟨by omega, by omega⟩) (by omega)
      omega
  · rintro ⟨h₁, h₂⟩
    have hle : m ≤ n := h.stop.elim (fun hs => hs.2.le) fun hs => hs.2.1.le
    refine ⟨(htargets k).mpr ⟨h₁, by omega⟩, fun j hj hle => ?_⟩
    obtain ⟨pb, hpb, -⟩ := h.erased j ((htargets j).mp hj).1 (by omega)
    omega

/-- What the contract asks of the blocks that were reached. -/
theorem PlainErase.allowed (hc : EraseContract g dev addr size w r) :
    EraseAllowed g addr size w := by
  have hreached := h.reached_iff htargets
  -- the contract and the loop name the same block
  have hstop {k : Nat} (h₁ : r.failedAddr = some (g.ba2addr (lb + m)))
      (h₂ : r.failedAddr = some (g.ba2addr k)) : k = lb + m := by
    have heq : k * g.erasesize = (lb + m) * g.erasesize := Option.some.inj (h₂.symm.trans h₁)
    exact Nat.eq_of_mul_eq_mul_right g.erasesize_pos heq
  refine ⟨fun k hk pb hpb => ?_, fun k j hk hj hnot heq => ?_⟩
  · have hblock : ErasedBlock g dev w r.w k := by
      rcases h.stop with ⟨hzero, -⟩ | ⟨hio, -, haddr, -⟩
      · exact hc.success hzero k hk.1
      · obtain ⟨stop, -, haddr', -, hearlier, -⟩ := hc.failure hio
        have := hstop haddr haddr'
        have := (hreached k).mp hk
        exact hearlier k hk.1 (by omega)
    obtain ⟨b, hmap, hgood, -⟩ := hblock
    rw [h.ni] at hmap
    obtain rfl : b = pb := by omega
    exact .inl (h.blockStateOf b ▸ hgood)
  · have hk' := (hreached k).mp hk
    have hpos := hk.2 k hk.1 (le_refl _)
    have hj' := (htargets j).mp hj
    rcases h.stop with ⟨-, rfl⟩ | ⟨hio, -, haddr, hneg⟩
    · exact hnot ((hreached j).mpr hj')
    · obtain ⟨stop, -, haddr', -, -, hlater⟩ := hc.failure hio
      have hat := hstop haddr haddr'
      have hout : ¬ (lb ≤ j ∧ j < lb + m) := fun hin => hnot ((hreached j).mpr hin)
      have hne : j ≠ lb + m := by
        rintro rfl
        omega
      obtain ⟨pb, hpb, -, c, hc₁, hok, hc₂⟩ := h.erased k hk'.1 hk'.2
      exact not_evolves_of_erased hc₁ hok hc₂
        ((hlater j hj (by omega)).2 pb (heq.symm.trans hpb)).2

end Plain

end NoRemap

end Contract

end Speedway.Nmbm
