import Speedway.Lib.Trace
import Speedway.Nmbm.Operations
import Speedway.Nmbm.UpdateLayout

/-!
# The steps that calls are made of

Every call on an attached instance is a run of few kinds of steps. An
invariant over all runs is then proved by one case for each kind, and never
looks at the calls again.
-/

namespace Speedway.Nmbm

open Speedway.Lib

/-- The steps of an instance that is not read-only. -/
inductive Step (g : Geometry) (dev : Device) : World → World → Prop where
  /-- Reads change no page. -/
  | read {w : World} {c : Chip} (hflash : c.flash = w.chip.flash) (hops : c.ops = w.chip.ops) :
      Step g dev w { w with chip := c }
  /-- Operations on the block of a data block. -/
  | touch {w : World} {c : Chip} {lb pb : Nat} (hlb : lb < w.ni.dataBlockCount)
      (hpb : w.ni.blockMapping lb = pb) (h : Evolves g (fun b => b = pb) w.chip c) :
      Step g dev w { w with chip := c }
  | setState {w : World} (pb : Nat) (st : BitVec 32) : Step g dev w (w.setBlockState pb st)
  | update {w : World} : Step g dev w (updateInfoTable g dev w).2
  | assign {w : World} {lb pb : Nat} (hlb : lb < w.ni.dataBlockCount)
      (hpb : nextSpare g w = some pb) : Step g dev w (assignBlock lb pb w)
  | assignNew {w : World} {pb : Nat} (hlt : w.ni.dataBlockCount < w.ni.mgmtStartBa)
      (hpb : nextSpare g w = some pb) :
      Step g dev w (countDataBlock (assignBlock w.ni.dataBlockCount pb w))
  | close {w : World} : Step g dev w (closeSpares w)
  | remapFailed {w : World} (lb : Nat) :
      Step g dev w (unmapBlock lb (w.log (.remapFailed w.ni lb)))
  | markBad {w : World} (lb pb : Nat) :
      Step g dev w ((unmapBlock lb (w.log (.markBad w.ni lb pb))).setBlockState pb stBad)

/-- Runs of steps. -/
abbrev Run (g : Geometry) (dev : Device) : World → World → Prop :=
  Relation.ReflTransGen (Step g dev)

/-- What holds of every reachable world without any condition. -/
structure Base (g : Geometry) (w : World) : Prop where
  layout : Layout g w
  fits : w.ni.infoTable.Fits g.toLowerDevice
  int32 : ∀ k, -2 ^ 31 ≤ w.ni.blockMapping k ∧ w.ni.blockMapping k < 2 ^ 31
  count : w.ni.dataBlockCount ≤ w.ni.mgmtStartBa
  unmapped : ∀ lb, w.ni.dataBlockCount ≤ lb → lb < g.blockCount → w.ni.blockMapping lb = -1

/-- The spare block picked lies above the tables and not above the boundary. -/
theorem nextSpare_range {g : Geometry} {w : World} (hl : Layout g w) {pb : Nat}
    (h : nextSpare g w = some pb) :
    w.ni.mappingBlocksBa < pb ∧ pb ≤ w.ni.mappingBlocksTopBa := by
  have h₁ := hl.mapping_le
  have h₂ := hl.top_lt
  have h₃ := hl.signature_lt
  have hlimit : walkLimit g.toLowerDevice w.ni.mappingBlocksBa = w.ni.mappingBlocksBa :=
    if_neg (by omega)
  simp only [nextSpare, blockWalk, blockWalkDesc, hlimit, Bool.false_eq_true, if_false] at h
  have := walkDescLoop_range (by omega) h
  omega

/-- When the block at the boundary is good it is the one picked. -/
theorem nextSpare_atTop {g : Geometry} {w : World} {pb : Nat} (h : nextSpare g w = some pb)
    (hgood : getBlockStateRaw w.ni.blockState w.ni.mappingBlocksTopBa = stGood) :
    pb = w.ni.mappingBlocksTopBa := by
  simp only [nextSpare, blockWalk, blockWalkDesc, Bool.false_eq_true, if_false] at h
  generalize w.ni.mappingBlocksTopBa - walkLimit g.toLowerDevice w.ni.mappingBlocksBa = n at h
  cases n with
  | zero => simp [walkDescLoop] at h
  | succ n =>
      simp only [walkDescLoop, hgood, if_true] at h
      rw [if_pos (by decide)] at h
      exact (Option.some.inj h).symm

/-- Every step extends the trace. -/
theorem Step.trace_append {g : Geometry} {dev : Device} {w w' : World} (hl : Layout g w)
    (h : Step g dev w w') : ∃ new, w'.trace = w.trace ++ new := by
  cases h with
  | update =>
      obtain ⟨new, hnew, -⟩ := (updateTables_safe dev hl).step.trace
      refine ⟨new ++ [.update w.snapshot (updateTables g dev w).1
        (updateTables g dev w).2.snapshot], ?_⟩
      rw [← List.append_assoc, ← hnew]
      rfl
  | read | touch | setState | close => exact ⟨[], (List.append_nil _).symm⟩
  | assign | assignNew | remapFailed | markBad => exact ⟨_, rfl⟩

theorem Step.mem_trace {g : Geometry} {dev : Device} {w w' : World} (hl : Layout g w)
    (h : Step g dev w w') {e : Event} (he : e ∈ w.trace) : e ∈ w'.trace := by
  obtain ⟨new, hnew⟩ := h.trace_append hl
  rw [hnew]
  exact List.mem_append_left _ he

section Invariant

variable {g : Geometry} {dev : Device} {w w' : World}

/-- Moving the boundary of the spare blocks down to `top`. -/
theorem Layout.lowerTop (hl : Layout g w) (top : Nat) (hlo : w.ni.mappingBlocksBa ≤ top)
    (hhi : top ≤ w.ni.mappingBlocksTopBa) :
    Layout g { w with ni := { w.ni with mappingBlocksTopBa := top } } :=
  { hl with
    mapping_le := hlo
    top_lt := lt_of_le_of_lt hhi hl.top_lt }

theorem assignBlock_layout (hl : Layout g w) (lb : Nat) {pb : Nat} (hpb : nextSpare g w = some pb) :
    Layout g (assignBlock lb pb w) := by
  have hrange := nextSpare_range hl hpb
  have h := hl.lowerTop (w.ni.mappingBlocksTopBa - 1) (by omega) (by omega)
  exact { h with }

theorem update_int32 {m : Nat → Int} (h : ∀ k, -2 ^ 31 ≤ m k ∧ m k < 2 ^ 31) {lb : Nat} {v : Int}
    (hv : -2 ^ 31 ≤ v ∧ v < 2 ^ 31) (k : Nat) :
    -2 ^ 31 ≤ Function.update m lb v k ∧ Function.update m lb v k < 2 ^ 31 := by
  by_cases hk : k = lb
  · rw [hk, Function.update_self]
    exact hv
  · rw [Function.update_of_ne hk]
    exact h k

/-- The unconditional invariant is kept by every step. -/
theorem Base.step (hb : Base g w) (h : Step g dev w w') : Base g w' := by
  have hl := hb.layout
  cases h with
  | read | touch | setState => exact { hb with layout := { hl with } }
  | update =>
      have hs := updateTables_safe dev hl
      have hk : Kept w.ni (updateInfoTable g dev w).2.ni := hs.step.kept
      exact {
        layout := { hs.layout with }
        fits := by
          refine ⟨?_, ?_, ?_⟩ <;> simp only [hk.stateTableOff, hk.mappingTableOff]
          · exact hb.fits.state
          · exact hb.fits.mapping
          · exact hb.fits.stop
        int32 := by rw [hk.blockMapping]; exact hb.int32
        count := by rw [hk.dataBlockCount, hk.mgmtStartBa]; exact hb.count
        unmapped := by rw [hk.dataBlockCount, hk.blockMapping]; exact hb.unmapped }
  | assign hlb hpb =>
      exact { hb with
        layout := assignBlock_layout hl _ hpb
        int32 := update_int32 hb.int32 (toInt32_range _)
        unmapped := fun k hk hlt => by
          have hk' : w.ni.dataBlockCount ≤ k := hk
          show Function.update _ _ _ k = _
          rw [Function.update_of_ne (by omega)]
          exact hb.unmapped k hk' hlt }
  | assignNew hlt hpb =>
      exact { hb with
        layout := { assignBlock_layout hl w.ni.dataBlockCount hpb with }
        int32 := update_int32 hb.int32 (toInt32_range _)
        count := hlt
        unmapped := fun k hk hlt' => by
          have hk' : w.ni.dataBlockCount + 1 ≤ k := hk
          show Function.update _ _ _ k = _
          rw [Function.update_of_ne (by omega)]
          exact hb.unmapped k (by omega) hlt' }
  | close => exact { hb with layout := hl.lowerTop _ (le_refl _) hl.mapping_le }
  | remapFailed lb | markBad lb _ =>
      exact { hb with
        layout := { hl with }
        int32 := update_int32 hb.int32 (by decide)
        unmapped := fun k hk hlt => by
          show Function.update _ _ _ k = _
          by_cases hkl : k = lb
          · rw [hkl, Function.update_self]
          · rw [Function.update_of_ne hkl]
            exact hb.unmapped k hk hlt }

theorem Base.run (hb : Base g w) (h : Run g dev w w') : Base g w' :=
  invariant_run hb h fun _ _ => Base.step

theorem Base.trace_append (hb : Base g w) (h : Run g dev w w') :
    ∃ new, w'.trace = w.trace ++ new := by
  induction h with
  | refl => exact ⟨[], (List.append_nil _).symm⟩
  | tail h' hs ih =>
      obtain ⟨new, hnew⟩ := ih
      obtain ⟨last, hlast⟩ := hs.trace_append (hb.run h').layout
      exact ⟨new ++ last, by rw [hlast, hnew, List.append_assoc]⟩

/-- Data blocks are never given up. -/
theorem Base.count_le (hb : Base g w) (h : Run g dev w w') :
    w.ni.dataBlockCount ≤ w'.ni.dataBlockCount := by
  induction h with
  | refl => exact le_refl _
  | tail h' hs ih =>
      have hb' := hb.run h'
      apply ih.trans
      cases hs with
      | update => exact le_of_eq (updateTables_safe dev hb'.layout).step.kept.dataBlockCount.symm
      | assignNew => exact Nat.le_succ _
      | read | touch | setState | assign | close | remapFailed | markBad => exact le_refl _

/-- Only data blocks are mapped. -/
theorem Base.lt_count (hb : Base g w) {lb : Nat} (hlb : lb < g.blockCount)
    (h : 0 ≤ w.ni.blockMapping lb) : lb < w.ni.dataBlockCount := by
  by_contra hge
  have := hb.unmapped lb (by omega) hlb
  omega

theorem Base.count_lt (hb : Base g w) : w.ni.dataBlockCount < g.blockCount := by
  have h₁ := hb.count
  have h₂ := hb.layout.mgmt_le
  have h₃ := hb.layout.mapping_le
  have h₄ := hb.layout.top_lt
  have h₅ := hb.layout.signature_lt
  omega

end Invariant

end Speedway.Nmbm
