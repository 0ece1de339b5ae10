import Speedway.Nmbm.Created
import Speedway.Nmbm.Sample

/-!
# Reachable worlds

A reachable world either belongs to a read-only device, where creation leaves
the fresh mapping and nothing ever changes it, or it is the end of a run of
steps that starts at the first rebuild of the tables.
-/

namespace Speedway.Nmbm

open Speedway.Lib

variable {g : Geometry} {dev : Device} {w : World}

/-- On a read-only device every call only reads. -/
theorem Call.run_readOnly (hro : g.readOnly = true) (c : Call) : OnlyRead w (c.run g dev w) := by
  cases c with
  | readSinglePage addr => exact readSinglePage_onlyRead g dev addr w
  | readRange addr size buf => exact readRange_onlyRead g dev addr size buf w
  | eraseBlockRange addr size =>
      simp only [Call.run, Nmbm.eraseBlockRange, hro, Bool.or_true, if_true]
      exact .refl
  | writeSinglePage addr data oob =>
      simp only [Call.run, Nmbm.writeSinglePage, hro, Bool.or_true, if_true]
      exact .refl
  | panicWriteSinglePage addr data =>
      simp only [Call.run, Nmbm.panicWriteSinglePage, hro, Bool.or_true, if_true]
      exact .refl
  | writeRange addr size data =>
      simp only [Call.run, Nmbm.writeRange, hro, Bool.or_true, if_true]
      exact .refl
  | markBadBlock addr =>
      simp only [Call.run, Nmbm.markBadBlock, hro, Bool.or_true, if_true]
      exact .refl
  | detach =>
      simp only [Call.run, Nmbm.detach, hro, if_true]
      exact .refl

/-- The two kinds of reachable worlds. -/
theorem Reachable.cases (h : Reachable g dev w) :
    g.readOnly = true ∧ FreshMapping g w.ni ∧ w.trace = [] ∨
      g.readOnly = false ∧ ∃ w₁, Prepared g w₁ ∧ (rebuildInfoTable g dev w₁).1 = true ∧
        Run g dev (rebuildInfoTable g dev w₁).2 w := by
  induction h with
  | created h => exact attach_created dev h
  | call c _ ih =>
      rcases ih with ⟨hro, hm, htrace⟩ | ⟨hrw, w₁, hp, hok, hrun⟩
      · refine .inl ⟨hro, ?_, ?_⟩
        · rw [(Call.run_readOnly hro c).rest]
          exact hm
        · rw [(Call.run_readOnly hro c).rest]
          exact htrace
      · exact .inr ⟨hrw, w₁, hp, hok, hrun.trans (c.run_run dev ((hp.base dev).run hrun))⟩

/-- The unconditional invariant of a device that can be written. -/
theorem Reachable.base (h : Reachable g dev w) (hrw : g.readOnly = false) : Base g w := by
  rcases h.cases with ⟨hro, -⟩ | ⟨-, w₁, hp, -, hrun⟩
  · rw [hrw] at hro
    exact absurd hro Bool.false_ne_true
  · exact (hp.base dev).run hrun

/-- The management area of every reachable world of a device that is not
read-only: the boundaries are in order, both tables lie below
`mapping_blocks_ba`, and the backup table lies after the main table. -/
theorem reachable_layout (h : Reachable g dev w) (hrw : g.readOnly = false) :
    (w.ni.mgmtStartBa ≤ w.ni.mappingBlocksBa ∧
      w.ni.mappingBlocksBa ≤ w.ni.mappingBlocksTopBa ∧
      w.ni.mappingBlocksTopBa < w.ni.signatureBa) ∧
    (w.ni.mainTableBa ≠ 0 → w.mainBlocks.head? = some w.ni.mainTableBa ∧
      ∀ b ∈ w.mainBlocks, w.ni.mgmtStartBa ≤ b ∧ b < w.ni.mappingBlocksBa) ∧
    (w.ni.mainTableBa ≠ 0 → w.ni.backupTableBa ≠ 0 →
      w.backupBlocks.head? = some w.ni.backupTableBa ∧
      (∀ b ∈ w.backupBlocks, w.ni.mgmtStartBa ≤ b ∧ b < w.ni.mappingBlocksBa) ∧
      ∀ a ∈ w.mainBlocks, ∀ b ∈ w.backupBlocks, a < b) := by
  have hl := (h.base hrw).layout
  refine ⟨⟨hl.mgmt_le, hl.mapping_le, hl.top_lt⟩, fun h0 => ⟨hl.mainHead h0, hl.main⟩,
    fun _ h0 => ⟨hl.backupHead h0, fun b hb => ?_, fun a ha b hb => ?_⟩⟩
  · have := (hl.order h0).1
    have := hl.backup b hb
    omega
  · have := (hl.order h0).2.2 a ha
    have := hl.backup b hb
    omega

theorem reachable_layout_small :
    smallWorld.ni.mgmtStartBa ≤ smallWorld.ni.mappingBlocksBa ∧
      smallWorld.ni.mappingBlocksBa ≤ smallWorld.ni.mappingBlocksTopBa ∧
      smallWorld.ni.mappingBlocksTopBa < smallWorld.ni.signatureBa :=
  (reachable_layout smallWorld_reachable rfl).1

set_option maxRecDepth 100000 in
/-- On a read-only device creation returns before it chooses any boundary but
the start of the management area. -/
theorem readOnly_layout_fails :
    ∃ w, Reachable (smallGeometry true) (sampleDevice [] fun _ _ => false) w ∧
      ¬ w.ni.mgmtStartBa ≤ w.ni.mappingBlocksBa :=
  exists_reachable 64 blankChip (by decide +kernel)

end Speedway.Nmbm
