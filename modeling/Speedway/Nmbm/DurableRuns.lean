import Speedway.Nmbm.Durable
import Speedway.Nmbm.MappingRuns

/-!
# Durability of the info tables over whole runs

An update that returns true leaves the block states and the mapping of the
instance in a table on flash, in runs that keep track of every change: no
block state changes between the generation of a table image and the next
`nmbm_mark_tables_clean`, and whenever a mapping is dropped some change
counter is set.
-/

namespace Speedway.Nmbm

open Speedway.Lib

/-- The state table of the cached image is that of the instance. -/
def CacheFresh (g : Geometry) (ni : Instance) : Prop :=
  ∀ k, k < g.stateTableSize / 4 → imageState ni.infoTableCache k = ni.blockState k

instance (g : Geometry) (ni : Instance) : Decidable (CacheFresh g ni) :=
  inferInstanceAs (Decidable (∀ k, k < g.stateTableSize / 4 → _))

/-- One of the change counters is set. -/
def Counted (ni : Instance) : Prop := ni.blockStateChanged ≠ 0 ∨ ni.blockMappingChanged ≠ 0

instance (ni : Instance) : Decidable (Counted ni) := inferInstanceAs (Decidable (_ ∨ _))

/-- The steps after which the counters still tell whether flash is up to date. -/
def KeepsTrack (g : Geometry) : Event → Prop
  | .mapBlock before lb pb => TopGood (.mapBlock before lb pb)
  | .markTablesClean before => CacheFresh g before
  | .remapFailed before _ => Counted before
  | .markBad before _ pb => Counted before ∨ getBlockStateRaw before.blockState pb ≠ stBad
  | _ => True

instance (g : Geometry) : DecidablePred (KeepsTrack g) := fun e =>
  match e with
  | .mapBlock before lb pb => inferInstanceAs (Decidable (TopGood (.mapBlock before lb pb)))
  | .markTablesClean before => inferInstanceAs (Decidable (CacheFresh g before))
  | .remapFailed before _ => inferInstanceAs (Decidable (Counted before))
  | .markBad _ _ _ => inferInstanceAs (Decidable (_ ∨ _))
  | .maintain _ _ | .update _ _ _ | .checkTable _ _ _ _ => inferInstanceAs (Decidable True)

theorem KeepsTrack.topGood {g : Geometry} {e : Event} (h : KeepsTrack g e) : TopGood e := by
  cases e with
  | mapBlock => exact h
  | markTablesClean | maintain | update | remapFailed | markBad | checkTable => trivial

/-- The main table on flash records the instance. -/
def Durable (g : Geometry) (w : World) : Prop :=
  TableOn g w.chip.flash w.mainBlocks w.ni.blockState w.ni.blockMapping

/-- An update that returns true and does not protect the instance ends with a
table on flash that records the instance. -/
def UpdateDurable (g : Geometry) : Event → Prop
  | .update before ok after => before.ni.isProtected = false → ok = true →
      after.ni.isProtected = false →
      ∃ blocks, TableOn g after.flash blocks after.ni.blockState after.ni.blockMapping
  | _ => True

/-- The invariant of runs that keep track of every change. -/
structure DurableInv (g : Geometry) (w : World) : Prop where
  mapInv : MapInv w.ni
  tables : w.dirty = false → w.ni.isProtected = false → Durable g w
  updates : ∀ e ∈ w.trace, UpdateDurable g e

section Runs

variable {g : Geometry} {dev : Device} {w w' : World} {n : Nat}

theorem World.dirty_eq_false :
    w.dirty = false ↔ w.ni.blockStateChanged = 0 ∧ w.ni.blockMappingChanged = 0 := by
  simp [World.dirty]

theorem not_counted (h : w.dirty = false) : ¬ Counted w.ni := by
  rw [World.dirty_eq_false] at h
  unfold Counted
  omega

/-- There is no update inside an update. -/
theorem TableEvent.updateDurable {ni : Instance} {e : Event} (h : TableEvent ni e) :
    UpdateDurable g e := by
  cases e with
  | update => exact h.elim
  | mapBlock | markTablesClean | maintain | remapFailed | markBad | checkTable => trivial

/-- A stored image records the instance when its states have not changed since
the image was generated. -/
theorem Stored.durable {w₀ : World}
    (h : Stored g (generateInfoTableCache g w₀).2.ni.infoTableCache n w)
    (hfits : w₀.ni.infoTable.Fits g.toLowerDevice) (hint : Int32Mapping g w₀.ni.blockMapping)
    (hmap : w.ni.blockMapping = w₀.ni.blockMapping) (htrack : ∀ e ∈ w.trace, KeepsTrack g e)
    (hclean : w.dirty = false) : Durable g w := by
  have htable := h.main.tableOn fun m => records_generated (m := m) hfits hint
  have hcached := records_generated hfits hint (fun i _ => rfl)
  obtain ⟨before, hmem, hcache, hstate⟩ := h.since
  have hfresh : CacheFresh g before := htrack _ hmem
  exact {
    htable with
    records := {
      htable.records with
      state := fun k hk => by
        rw [htable.records.state k hk, ← hcached.state k hk, ← hcache, hfresh k (by omega),
          hstate (World.dirty_eq_false.mp hclean).1]
      mapping := by
        rw [hmap]
        exact htable.records.mapping } }

/-- Setting the state of a block keeps the table up to date or is counted. -/
theorem Durable.setState (h : w.dirty = false → w.ni.isProtected = false → Durable g w) (pb : Nat)
    (st : BitVec 32) (hd : (w.setBlockState pb st).dirty = false)
    (hp : (w.setBlockState pb st).ni.isProtected = false) : Durable g (w.setBlockState pb st) := by
  by_cases hget : getBlockStateRaw w.ni.blockState pb = st &&& 3#32
  · have heq : (w.setBlockState pb st).ni.blockState = w.ni.blockState :=
      setBlockStateRaw_of_get hget
    have hd' : w.dirty = false := by
      simpa [World.dirty, World.setBlockState, hget] using hd
    have := h hd' hp
    unfold Durable at this ⊢
    rw [heq]
    exact this
  · simp [World.dirty, World.setBlockState, hget] at hd

/-- An update that does not protect the instance leaves the tables up to date. -/
theorem updateTables_durable (hb : Base g w)
    (h : w.dirty = false → w.ni.isProtected = false → Durable g w)
    (htrack : ∀ e ∈ (updateTables g dev w).2.trace, KeepsTrack g e)
    (hp : (updateTables g dev w).2.ni.isProtected = false) :
    Durable g (updateTables g dev w).2 := by
  simp only [updateTables] at htrack hp ⊢
  split at hp
  · next hprot =>
      rw [hprot] at hp
      exact absurd hp (by simp)
  · next hprot =>
      rw [if_neg hprot] at htrack ⊢
      rw [Bool.not_eq_true] at hprot
      cases hd : w.dirty with
      | false =>
          rw [updateLoop_of_clean dev hd]
          exact h hd hprot
      | true =>
          have hok : (updateLoop g dev (goodCount g w + 2) w).1 = true := by
            by_contra hfail
            rw [updateLoop_protected dev (by simpa using hfail)] at hp
            exact absurd hp (by simp)
          obtain ⟨hclean, w₀, hk, hk', hstored⟩ :=
            updateLoop_clean dev hb.layout (by omega) hd hok
          refine hstored.durable ⟨?_, ?_, ?_⟩ (fun k _ => ?_) hk'.blockMapping htrack hclean
          · rw [hk.stateTableOff]
            exact hb.fits.state
          · rw [hk.stateTableOff, hk.mappingTableOff]
            exact hb.fits.mapping
          · rw [hk.mappingTableOff]
            exact hb.fits.stop
          · rw [hk.blockMapping]
            exact hb.int32 k

/-- The main table lies off the mapped blocks. -/
theorem Durable.touch (hl : Layout g w) (hm : MapInv w.ni) {c : Chip} {lb pb : Nat}
    (hlb : lb < w.ni.dataBlockCount) (hpb : w.ni.blockMapping lb = pb)
    (h : Evolves g (fun b => b = pb) w.chip c) (hd : Durable g w) :
    Durable g { w with chip := c } := by
  refine TableOn.congr hd fun p hp => h.frame fun heq => ?_
  have h₁ := hl.main _ hp
  have h₂ := hl.mapping_le
  have h₃ := hm.range lb hlb pb hpb
  omega

/-- The invariant is kept by every step that keeps track. -/
theorem DurableInv.step (hb : Base g w) (hs : Step g dev w w')
    (htrack : ∀ e ∈ w'.trace, KeepsTrack g e) (h : DurableInv g w) : DurableInv g w' := by
  have hmap : MapInv w'.ni :=
    h.mapInv.step hb hs fun e he => (htrack e (List.mem_of_mem_drop he)).topGood
  -- an event other than an update adds nothing
  have hlog (e : Event) (he : UpdateDurable g e) (e' : Event) (he' : e' ∈ w.trace ++ [e]) :
      UpdateDurable g e' := by
    rcases List.mem_append.mp he' with hm | hm
    · exact h.updates e' hm
    · rw [List.mem_singleton.mp hm]
      exact he
  cases hs with
  | read hflash =>
      refine ⟨hmap, fun hd hp => ?_, h.updates⟩
      have := h.tables hd hp
      unfold Durable at this ⊢
      rw [hflash]
      exact this
  | touch hlb hpb hev =>
      exact ⟨hmap, fun hd hp => (h.tables hd hp).touch hb.layout h.mapInv hlb hpb hev, h.updates⟩
  | setState pb st => exact ⟨hmap, Durable.setState h.tables pb st, h.updates⟩
  | update =>
      have hbody : (updateTables g dev w).2.ni.isProtected = false →
          Durable g (updateTables g dev w).2 :=
        updateTables_durable hb h.tables fun e he => htrack e (List.mem_append_left _ he)
      refine ⟨hmap, fun _ hp => hbody hp, fun e he => ?_⟩
      rcases List.mem_append.mp he with hm | hm
      · obtain ⟨new, hnew, hev⟩ := (updateTables_safe dev hb.layout).step.trace
        rw [hnew] at hm
        rcases List.mem_append.mp hm with hold | hadd
        · exact h.updates e hold
        · exact (hev e hadd).updateDurable
      · rw [List.mem_singleton.mp hm]
        exact fun _ _ hp => ⟨_, hbody hp⟩
  | assign | assignNew =>
      refine ⟨hmap, fun hd => ?_, hlog _ trivial⟩
      rw [World.dirty_eq_false] at hd
      exact absurd hd.2 (Nat.succ_ne_zero _)
  | close => exact ⟨hmap, h.tables, h.updates⟩
  | remapFailed lb =>
      have hcount : Counted w.ni := htrack _ (List.mem_append_right _ List.mem_cons_self)
      exact ⟨hmap, fun hd => absurd hcount (not_counted hd), hlog _ trivial⟩
  | markBad lb pb =>
      have hcount : Counted w.ni ∨ getBlockStateRaw w.ni.blockState pb ≠ stBad :=
        htrack _ (List.mem_append_right _ List.mem_cons_self)
      refine ⟨hmap, fun hd => ?_, hlog _ trivial⟩
      have hbad : stBad &&& 3#32 = stBad := by decide
      rw [World.dirty_eq_false] at hd
      simp only [World.setBlockState, unmapBlock, World.log, hbad, Nat.add_eq_zero_iff,
        ite_eq_right_iff] at hd
      rcases hcount with hc | hne
      · exact absurd hc (by unfold Counted; omega)
      · exact absurd (hd.1.2 hne) (by decide)

/-- In runs that keep track of every change, each update that returns true and
leaves the instance unprotected ends with a table on flash that holds exactly
the block states and the mapping of the instance. -/
theorem update_durable (h : Reachable g dev w) (htrack : ∀ e ∈ w.trace, KeepsTrack g e)
    {before after : Snapshot} (he : .update before true after ∈ w.trace)
    (hbefore : before.ni.isProtected = false) (hafter : after.ni.isProtected = false) :
    ∃ blocks, TableOn g after.flash blocks after.ni.blockState after.ni.blockMapping := by
  rcases h.cases with ⟨-, -, htrace⟩ | ⟨-, w₁, hp, hok, hrun⟩
  · rw [htrace] at he
    exact absurd he List.not_mem_nil
  · have hstart : Guarded World.trace (KeepsTrack g) (DurableInv g)
        (rebuildInfoTable g dev w₁).2 := by
      intro htrack
      have hs := rebuildInfoTable_safe' dev hp.layout
      refine ⟨hp.mapInv.of_kept hs.step.kept, fun hd _ => ?_, fun e he => ?_⟩
      · obtain ⟨w₀, rfl⟩ := hp.cached
        have hstored := rebuildInfoTable_stored dev hp.layout rfl (le_refl _) hok
        exact hstored.durable ⟨hp.fits.state, hp.fits.mapping, hp.fits.stop⟩
          (fun k _ => hp.mapping.int32 k) hs.step.kept.blockMapping htrack hd
      · obtain ⟨new, hnew, hev⟩ := hs.step.trace
        have hnil : (dropTables w₁).trace = [] := hp.trace
        rw [hnew, hnil, List.nil_append] at he
        exact (hev e he).updateDurable
    have hinv := hstart.run (hp.base dev) hrun (fun _ _ => Base.step)
      (fun _ _ hb hs _ he => hs.mem_trace hb.layout he)
      (fun _ _ hb hs htrack hI => hI.step hb hs htrack) htrack
    exact hinv.updates _ he hbefore rfl hafter

/-- A successful update that leaves the instance unprotected. -/
def goodUpdate : Event → Bool
  | .update before ok after => !before.ni.isProtected && ok && !after.ni.isProtected
  | _ => false

set_option maxRecDepth 100000 in
theorem update_durable_small :
    ∃ before after, .update before true after ∈ smallWorld.trace ∧
      ∃ blocks, TableOn (smallGeometry false) after.flash blocks after.ni.blockState
        after.ni.blockMapping := by
  have h : (∀ e ∈ smallWorld.trace, KeepsTrack (smallGeometry false) e) ∧
      ∃ e ∈ smallWorld.trace, goodUpdate e = true := by
    decide +kernel
  obtain ⟨htrack, e, he, hgood⟩ := h
  cases e with
  | update before ok after =>
      simp only [goodUpdate, Bool.and_eq_true, Bool.not_eq_true'] at hgood
      obtain ⟨⟨hbefore, rfl⟩, hafter⟩ := hgood
      exact ⟨before, after, he, update_durable smallWorld_reachable htrack he hbefore hafter⟩
  | mapBlock | markTablesClean | maintain | remapFailed | markBad | checkTable =>
      exact absurd hgood Bool.false_ne_true

/-- Block 19, the first one of the backup table, can no longer be erased once the
tables have been written. -/
def lossyDevice : Device :=
  sampleDevice [0, 1] fun t r =>
    match r with
    | .eraseBlock b => decide (144 ≤ t) && b == 19
    | _ => false

/-- A successful update after which block 19 is bad and every table of the small
chip has another state word for it. -/
def losesState : Event → Bool
  | .update before ok after => goodUpdate (.update before ok after) &&
      getBlockStateRaw after.ni.blockState 19 == stBad &&
      (List.range 32).all fun b =>
        !checkInfoTableHeader (smallGeometry false).toLowerDevice
          (tableAt (smallGeometry false) after.flash [b]) ||
        imageState (tableAt (smallGeometry false) after.flash [b]) 1 != after.ni.blockState 1
  | _ => false

set_option maxRecDepth 100000 in
/-- The update after the remapping of two data blocks finds block 19 bad while it
writes the backup table, and `nmbm_mark_tables_clean` drops the change. -/
theorem update_loses_bad_block :
    ∃ w, Reachable (smallGeometry false) lossyDevice w ∧
      ∃ before after, .update before true after ∈ w.trace ∧
        before.ni.isProtected = false ∧ after.ni.isProtected = false ∧
        getBlockStateRaw after.ni.blockState 19 = stBad ∧
        ¬ ∃ blocks, TableOn (smallGeometry false) after.flash blocks after.ni.blockState
          after.ni.blockMapping := by
  obtain ⟨w, hw, e, he, hloses⟩ : ∃ w, Reachable (smallGeometry false) lossyDevice w ∧
      ∃ e ∈ w.trace, losesState e = true :=
    exists_reachable 64 blankChip (by decide +kernel)
  refine ⟨w, hw, ?_⟩
  cases e with
  | update before ok after =>
      simp only [losesState, goodUpdate, Bool.and_eq_true, Bool.not_eq_true', beq_iff_eq] at hloses
      obtain ⟨⟨⟨⟨hbefore, rfl⟩, hafter⟩, hbad⟩, hall⟩ := hloses
      refine ⟨before, after, he, hbefore, hafter, hbad, ?_⟩
      rintro ⟨blocks, htable⟩
      obtain ⟨b, rfl⟩ := List.length_eq_one_iff.mp htable.length
      have hb : b < 32 := htable.range b (List.mem_singleton.mpr rfl)
      have hone := List.all_eq_true.mp hall b (List.mem_range.mpr hb)
      rw [htable.records.table, htable.records.state 1 (by decide)] at hone
      simp at hone
  | mapBlock | markTablesClean | maintain | remapFailed | markBad | checkTable =>
      exact absurd hloses Bool.false_ne_true

end Runs

end Speedway.Nmbm
