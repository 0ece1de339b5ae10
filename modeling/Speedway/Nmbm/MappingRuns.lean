import Speedway.Nmbm.Reach

/-!
# Mapped blocks over whole runs

`nmbm_map_block` takes the first good block from `mapping_blocks_top_ba` down
but moves that boundary down by one block only. In runs where the block at
the boundary is good each time, the boundary stays below every remapped
block: the mapping is injective, and table maintenance, which stays below the
boundary, never touches a mapped block.
-/

namespace Speedway.Nmbm

open Speedway.Lib

/-- When `nmbm_map_block` assigns a block, the block at the boundary is good. -/
def TopGood : Event → Prop
  | .mapBlock before _ _ =>
      getBlockStateRaw before.blockState before.mappingBlocksTopBa = stGood
  | _ => True

instance : DecidablePred TopGood := fun e =>
  match e with
  | .mapBlock _ _ _ => inferInstanceAs (Decidable (_ = _))
  | .markTablesClean _ | .maintain _ _ | .update _ _ _ | .remapFailed _ _ | .markBad _ _ _
  | .checkTable _ _ _ _ => inferInstanceAs (Decidable True)

/-- Mapped blocks lie below the management area or between the boundary and the
signature, and no two data blocks share one. -/
structure MapInv (ni : Instance) : Prop where
  range : ∀ lb, lb < ni.dataBlockCount → ∀ pb : Nat, ni.blockMapping lb = pb →
    pb < ni.mgmtStartBa ∨ ni.mappingBlocksTopBa < pb ∧ pb < ni.signatureBa
  inj : ∀ i j, i < ni.dataBlockCount → j < ni.dataBlockCount → i ≠ j →
    0 ≤ ni.blockMapping i → ni.blockMapping i ≠ ni.blockMapping j

/-- A maintenance step that leaves mapped blocks alone. -/
def SparesData : Event → Prop
  | .maintain before ops => ∀ op ∈ ops,
      (before.mgmtStartBa ≤ op.block ∧ op.block < before.mappingBlocksTopBa) ∧
      ∀ lb, lb < before.dataBlockCount → before.blockMapping lb ≠ op.block
  | _ => True

namespace MapInv

variable {g : Geometry} {ni ni' : Instance}

theorem of_fresh (h : FreshMapping g ni) : MapInv ni where
  range lb hlb pb hpb := by
    have := h.below lb hlb
    omega
  inj i j hi hj hne _ := by
    rcases Nat.lt_or_gt_of_ne hne with hlt | hgt
    · exact ne_of_lt (h.mono i j hlt hj)
    · exact ne_of_gt (h.mono j i hgt hi)

theorem of_kept (h : MapInv ni) (hk : Kept ni ni') : MapInv ni' where
  range := by
    rw [hk.dataBlockCount, hk.blockMapping, hk.mgmtStartBa, hk.mappingBlocksTopBa, hk.signatureBa]
    exact h.range
  inj := by
    rw [hk.dataBlockCount, hk.blockMapping]
    exact h.inj

/-- The boundary may move down. -/
theorem lowerTop (h : MapInv ni) {top : Nat} (hle : top ≤ ni.mappingBlocksTopBa) :
    MapInv { ni with mappingBlocksTopBa := top } where
  range lb hlb pb hpb := by
    have := h.range lb hlb pb hpb
    show pb < ni.mgmtStartBa ∨ top < pb ∧ pb < ni.signatureBa
    omega
  inj := h.inj

theorem unmap (h : MapInv ni) (lb : Nat) :
    MapInv { ni with blockMapping := Function.update ni.blockMapping lb (-1) } where
  range k hk pb hpb := by
    have hpb' : Function.update ni.blockMapping lb (-1) k = pb := hpb
    by_cases hkl : k = lb
    · rw [hkl, Function.update_self] at hpb'
      omega
    · rw [Function.update_of_ne hkl] at hpb'
      exact h.range k hk pb hpb'
  inj i j hi hj hne hpos := by
    have hpos' : 0 ≤ Function.update ni.blockMapping lb (-1) i := hpos
    show Function.update ni.blockMapping lb (-1) i ≠ Function.update ni.blockMapping lb (-1) j
    by_cases hil : i = lb
    · rw [hil, Function.update_self] at hpos'
      omega
    · rw [Function.update_of_ne hil] at hpos' ⊢
      by_cases hjl : j = lb
      · rw [hjl, Function.update_self]
        omega
      · rw [Function.update_of_ne hjl]
        exact h.inj i j hi hj hne hpos'

/-- Assigning the block at the boundary to `lb`, the boundary moving below it.
With `n` data blocks afterwards, `lb` is an old data block or the new one. -/
theorem assign (h : MapInv ni) {lb n top changed : Nat} (htop : top = ni.mappingBlocksTopBa)
    (hpos : 0 < top) (hmgmt : ni.mgmtStartBa ≤ top) (hsig : top < ni.signatureBa)
    (hlt : top < 2 ^ 31) (hn : ∀ k, k < n → k ≠ lb → k < ni.dataBlockCount) :
    MapInv { ni with
      blockMapping := Function.update ni.blockMapping lb (toInt32 top)
      mappingBlocksTopBa := ni.mappingBlocksTopBa - 1
      blockMappingChanged := changed
      dataBlockCount := n } := by
  have hval : toInt32 top = (top : Int) := toInt32_of_lt hlt
  -- no other data block is mapped to the boundary
  have hother (k : Nat) (hk : k < n) (hkl : k ≠ lb) : ni.blockMapping k ≠ (top : Int) := by
    intro heq
    have := h.range k (hn k hk hkl) top heq
    omega
  refine ⟨fun k hk pb hpb => ?_, fun i j hi hj hne hpos' => ?_⟩
  · have hpb' : Function.update ni.blockMapping lb (toInt32 top) k = pb := hpb
    show pb < ni.mgmtStartBa ∨ ni.mappingBlocksTopBa - 1 < pb ∧ pb < ni.signatureBa
    by_cases hkl : k = lb
    · rw [hkl, Function.update_self, hval] at hpb'
      omega
    · rw [Function.update_of_ne hkl] at hpb'
      have := h.range k (hn k hk hkl) pb hpb'
      omega
  · have hpos'' : 0 ≤ Function.update ni.blockMapping lb (toInt32 top) i := hpos'
    show Function.update ni.blockMapping lb (toInt32 top) i ≠
      Function.update ni.blockMapping lb (toInt32 top) j
    by_cases hil : i = lb
    · have hjl : j ≠ lb := fun hjl => hne (hil.trans hjl.symm)
      rw [hil, Function.update_self, Function.update_of_ne hjl, hval]
      exact Ne.symm (hother j hj hjl)
    · rw [Function.update_of_ne hil] at hpos'' ⊢
      by_cases hjl : j = lb
      · rw [hjl, Function.update_self, hval]
        exact hother i hi hil
      · rw [Function.update_of_ne hjl]
        exact h.inj i j (hn i hi hil) (hn j hj hjl) hne hpos''

end MapInv

section Runs

variable {g : Geometry} {dev : Device} {w w' : World}

/-- The mapping invariant is kept by every step whose assignments take the block
at the boundary. -/
theorem MapInv.step (hb : Base g w) (hs : Step g dev w w')
    (hC : ∀ e ∈ w'.trace.drop w.trace.length, TopGood e) (h : MapInv w.ni) : MapInv w'.ni := by
  have hl := hb.layout
  have hblocks := g.blockCount_lt
  have h₁ := hl.mgmt_le
  have h₂ := hl.top_lt
  have h₃ := hl.signature_lt
  cases hs with
  | read | touch => exact h
  | setState => exact ⟨h.range, h.inj⟩
  | update => exact h.of_kept (updateTables_safe dev hl).step.kept
  | @assign lb pb hlb hpb =>
      have hgood : TopGood (.mapBlock w.ni lb pb) :=
        hC _ (by simp [assignBlock, World.log])
      have hrange := nextSpare_range hl hpb
      have htop := nextSpare_atTop hpb hgood
      exact h.assign htop (by omega) (by omega) (by omega) (by omega) fun k hk _ => hk
  | @assignNew pb hlt hpb =>
      have hgood : TopGood (.mapBlock w.ni w.ni.dataBlockCount pb) :=
        hC _ (by simp [countDataBlock, assignBlock, World.log])
      have hrange := nextSpare_range hl hpb
      have htop := nextSpare_atTop hpb hgood
      exact h.assign htop (by omega) (by omega) (by omega) (by omega) fun k hk hne => by
        have hk' : k < w.ni.dataBlockCount + 1 := hk
        omega
  | close => exact h.lowerTop hl.mapping_le
  | remapFailed lb => exact h.unmap lb
  | markBad lb pb =>
      have := h.unmap lb
      exact ⟨this.range, this.inj⟩

/-- The mapping invariant along a run, of which only the own events matter. -/
theorem MapInv.run (hb : Base g w) (hr : Run g dev w w')
    (hC : ∀ e ∈ w'.trace.drop w.trace.length, TopGood e) (h : MapInv w.ni) : MapInv w'.ni := by
  induction hr with
  | refl => exact h
  | @tail v v' hr hs ih =>
      obtain ⟨new, hnew⟩ := hb.trace_append hr
      obtain ⟨last, hlast⟩ := hs.trace_append (hb.run hr).layout
      rw [hlast, hnew, List.append_assoc, List.drop_left] at hC
      refine (ih fun e he => ?_).step (hb.run hr) hs fun e he => ?_
      · rw [hnew, List.drop_left] at he
        exact hC e (List.mem_append_left _ he)
      · rw [hlast, List.drop_left] at he
        exact hC e (List.mem_append_right _ he)

/-- A table step from a world with the mapping invariant spares mapped blocks. -/
theorem TableEvent.sparesData {ni : Instance} (h : MapInv ni) {e : Event} (he : TableEvent ni e) :
    SparesData e := by
  cases e with
  | maintain before ops =>
      obtain ⟨hk, hops⟩ := he
      have hb := h.of_kept hk
      intro op hop
      have hin := hops op hop
      rw [← hk.mgmtStartBa, ← hk.mappingBlocksTopBa] at hin
      refine ⟨hin, fun lb hlb heq => ?_⟩
      have := hb.range lb hlb op.block heq
      omega
  | mapBlock | markTablesClean | update | remapFailed | markBad | checkTable => trivial

/-- The mapping that the first rebuild of the tables starts from. -/
theorem Prepared.mapInv (h : Prepared g w) : MapInv (dropTables w).ni :=
  have hm := MapInv.of_fresh h.mapping
  ⟨hm.range, hm.inj⟩

/-- Both invariants together along a run. -/
theorem guarded_mapping (h : Reachable g dev w) :
    Guarded World.trace TopGood (fun w => MapInv w.ni ∧ ∀ e ∈ w.trace, SparesData e) w := by
  rcases h.cases with ⟨-, hm, htrace⟩ | ⟨-, w₁, hp, -, hrun⟩
  · intro _
    exact ⟨.of_fresh hm, by simp [htrace]⟩
  · have hs := rebuildInfoTable_safe' dev hp.layout
    have hstart : Guarded World.trace TopGood
        (fun w => MapInv w.ni ∧ ∀ e ∈ w.trace, SparesData e) (rebuildInfoTable g dev w₁).2 := by
      intro _
      refine ⟨hp.mapInv.of_kept hs.step.kept, fun e he => ?_⟩
      obtain ⟨new, hnew, hev⟩ := hs.step.trace
      have hnil : (dropTables w₁).trace = [] := hp.trace
      rw [hnew, hnil, List.nil_append] at he
      exact (hev e he).sparesData hp.mapInv
    refine hstart.run (hp.base dev) hrun (fun _ _ => Base.step)
      (fun _ _ hb hs _ he => hs.mem_trace hb.layout he) fun w w' hb hs hC hI => ⟨?_, ?_⟩
    · exact hI.1.step hb hs fun e he => hC e (List.mem_of_mem_drop he)
    · intro e he
      cases hs with
      | read | touch | setState | close => exact hI.2 e he
      | assign | assignNew | remapFailed | markBad =>
          rcases List.mem_append.mp he with hm | hm
          · exact hI.2 e hm
          · rw [List.mem_singleton.mp hm]
            trivial
      | update =>
          obtain ⟨new, hnew, hev⟩ := (updateTables_safe dev hb.layout).step.trace
          rcases List.mem_append.mp he with hbody | hlast
          · rw [hnew] at hbody
            rcases List.mem_append.mp hbody with hm | hm
            · exact hI.2 e hm
            · exact (hev e hm).sparesData hI.1
          · rw [List.mem_singleton.mp hlast]
            trivial

/-- In runs that always find the block at the boundary good, no two data blocks
are mapped to the same block. -/
theorem mapping_injective (h : Reachable g dev w) (htop : ∀ e ∈ w.trace, TopGood e)
    {lb₁ lb₂ : Nat} (h₁ : lb₁ < w.ni.dataBlockCount) (h₂ : lb₂ < w.ni.dataBlockCount)
    (hne : lb₁ ≠ lb₂) (hpos : 0 ≤ w.ni.blockMapping lb₁) :
    w.ni.blockMapping lb₁ ≠ w.ni.blockMapping lb₂ :=
  (guarded_mapping h htop).1.inj lb₁ lb₂ h₁ h₂ hne hpos

/-- The operations of a maintenance step. -/
def maintainOps : Event → List FlashOp
  | .maintain _ ops => ops
  | _ => []

set_option maxRecDepth 100000 in
/-- The small chip is evaluated once. -/
theorem smallWorld_mapped :
    (∀ e ∈ smallWorld.trace, TopGood e) ∧
      (∃ e ∈ smallWorld.trace, (maintainOps e).length ≠ 0) ∧
      14 < smallWorld.ni.dataBlockCount ∧ 15 < smallWorld.ni.dataBlockCount ∧
      0 ≤ smallWorld.ni.blockMapping 14 := by
  decide +kernel

theorem mapping_injective_small :
    smallWorld.ni.blockMapping 14 ≠ smallWorld.ni.blockMapping 15 := by
  obtain ⟨htop, -, h₁, h₂, hpos⟩ := smallWorld_mapped
  exact mapping_injective smallWorld_reachable htop h₁ h₂ (by decide) hpos

set_option maxRecDepth 100000 in
/-- Three factory-bad data blocks and a bad spare block: the walk over block 29
takes block 28 and leaves the boundary at 28, where it is taken again. -/
theorem mapping_not_injective :
    ∃ w, Reachable (smallGeometry false) (sampleDevice [0, 1, 2, 29] fun _ _ => false) w ∧
      14 < w.ni.dataBlockCount ∧ 15 < w.ni.dataBlockCount ∧ 0 ≤ w.ni.blockMapping 14 ∧
      w.ni.blockMapping 14 = w.ni.blockMapping 15 :=
  exists_reachable 64 blankChip (by decide +kernel)

/-- In runs that always find the block at the boundary good, every flash
operation of `nmbm_write_info_table` and `nmbm_erase_range` stays inside the
management area below the boundary and off the mapped blocks, so that these
operations leave every page of every mapped block as it was. -/
theorem maintenance_spares_data (h : Reachable g dev w) (htop : ∀ e ∈ w.trace, TopGood e)
    {before : Instance} {ops : List FlashOp} (he : .maintain before ops ∈ w.trace) :
    (∀ op ∈ ops, before.mgmtStartBa ≤ op.block ∧ op.block < before.mappingBlocksTopBa ∧
      ∀ lb, lb < before.dataBlockCount → before.blockMapping lb ≠ op.block) ∧
    ∀ (f : Flash) (lb pb p : Nat), lb < before.dataBlockCount → before.blockMapping lb = pb →
      p / g.pagesPerBlock = pb → (flashJournal g).replay ops f p = f p := by
  have hspares : SparesData (.maintain before ops) := (guarded_mapping h htop).2 _ he
  refine ⟨fun op hop => ⟨(hspares op hop).1.1, (hspares op hop).1.2, (hspares op hop).2⟩, ?_⟩
  intro f lb pb p hlb hpb hp
  apply Journal.replay_frame
  intro op hop heq
  have hblock : op.block = p / g.pagesPerBlock := heq
  apply (hspares op hop).2 lb hlb
  rw [hblock, hp]
  exact hpb

theorem maintenance_spares_data_small :
    ∃ before ops, .maintain before ops ∈ smallWorld.trace ∧ ops ≠ [] ∧
      ∀ op ∈ ops, before.mgmtStartBa ≤ op.block ∧ op.block < before.mappingBlocksTopBa ∧
        ∀ lb, lb < before.dataBlockCount → before.blockMapping lb ≠ op.block := by
  obtain ⟨htop, ⟨e, he, hops⟩, -⟩ := smallWorld_mapped
  cases e with
  | maintain before ops =>
      exact ⟨before, ops, he, List.ne_nil_of_length_pos (Nat.pos_of_ne_zero hops),
        (maintenance_spares_data smallWorld_reachable htop he).1⟩
  | mapBlock | markTablesClean | update | remapFailed | markBad | checkTable =>
      exact absurd rfl hops

/-- A maintenance step with an operation on the block of the data block `lb`. -/
def hitsData (lb : Nat) : Event → Bool
  | .maintain before ops => decide (lb < before.dataBlockCount) &&
      ops.any fun op => decide (before.blockMapping lb = op.block)
  | _ => false

/-- The erases of blocks 19 to 21 fail once the tables have been written. -/
def wornDevice : Device :=
  sampleDevice [0, 1, 23, 24, 25, 26, 27, 28, 29] fun t r =>
    match r with
    | .eraseBlock b => decide (120 ≤ t) && (b == 19 || b == 20 || b == 21)
    | _ => false

set_option maxRecDepth 100000 in
/-- The walk over the bad spare blocks gives block 22 to logic block 15 while the
boundary stays at 28, and the next write of the backup table erases it. -/
theorem maintenance_erases_data :
    ∃ w, Reachable (smallGeometry false) wornDevice w ∧
      ∃ before ops, .maintain before ops ∈ w.trace ∧
        15 < before.dataBlockCount ∧ ∃ op ∈ ops, before.blockMapping 15 = op.block := by
  obtain ⟨w, hw, e, he, hit⟩ : ∃ w, Reachable (smallGeometry false) wornDevice w ∧
      ∃ e ∈ w.trace, hitsData 15 e = true :=
    exists_reachable 64 blankChip (by decide +kernel)
  refine ⟨w, hw, ?_⟩
  cases e with
  | maintain before ops =>
      rw [hitsData, Bool.and_eq_true, decide_eq_true_eq, List.any_eq_true] at hit
      obtain ⟨hlt, op, hop, heq⟩ := hit
      exact ⟨before, ops, he, hlt, op, hop, of_decide_eq_true heq⟩
  | mapBlock | markTablesClean | update | remapFailed | markBad | checkTable =>
      exact absurd hit Bool.false_ne_true

end Runs

end Speedway.Nmbm
