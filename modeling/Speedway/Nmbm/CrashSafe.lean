import Speedway.Nmbm.Reach
import Speedway.Nmbm.Records

/-!
# A power cut during an update of the info tables

`nmbm_update_info_table_once` rewrites the backup table, then the main table,
and rescues the main table by way of a temporary one. Each of these writes
works on blocks below or above one table that is complete: the old main
table, then the new backup table, then the temporary table. A cut after any
flash operation therefore leaves a complete table.
-/

namespace Speedway.Nmbm

open Speedway.Lib

/-- Some blocks of the chip hold a complete info table with one of two mappings. -/
def HasTable (g : Geometry) (prev cur : Nat → Int) (f : Flash) : Prop :=
  ∃ blocks bs bm, TableOn g f blocks bs bm ∧ (bm = prev ∨ bm = cur)

/-- The chip `c'` follows from `c` by operations, and `P` holds before, between
and after them. -/
def EvolvesUnder (g : Geometry) (P : Flash → Prop) (c c' : Chip) : Prop :=
  ∃ new, c'.ops = c.ops ++ new ∧ c'.flash = (flashJournal g).replay new c.flash ∧
    (flashJournal g).Always P new c.flash

namespace EvolvesUnder

variable {g : Geometry} {P : Flash → Prop} {c c' c'' : Chip}

theorem refl (h : P c.flash) : EvolvesUnder g P c c :=
  ⟨[], by simp, rfl, fun pre hpre => by rw [List.prefix_nil.mp hpre]; exact h⟩

theorem trans (h : EvolvesUnder g P c c') (h' : EvolvesUnder g P c' c'') :
    EvolvesUnder g P c c'' := by
  obtain ⟨new, hops, hflash, hP⟩ := h
  obtain ⟨new', hops', hflash', hP'⟩ := h'
  rw [hflash] at hP' hflash'
  exact ⟨new ++ new', by rw [hops', hops, List.append_assoc],
    by rw [hflash', Journal.replay_append], hP.append hP'⟩

end EvolvesUnder

section Update

variable {g : Geometry} (dev : Device) {w w' : World} {bs : Bitmap} {bm prev cur : Nat → Int}
  {blocks : List Nat}

/-- While blocks in `[lo, hi)` are maintained, a table outside survives each operation. -/
theorem Maint.evolvesUnder {lo hi : Nat} (hm : Maint g lo hi w w')
    (ht : TableOn g w.chip.flash blocks bs bm) (hb : ∀ b ∈ blocks, b < lo ∨ hi ≤ b)
    (hbm : bm = prev ∨ bm = cur) : EvolvesUnder g (HasTable g prev cur) w.chip w'.chip := by
  obtain ⟨new, hops, hflash, hS⟩ := hm.chip
  refine ⟨new, hops, hflash, Journal.Always.mono (fun f hf => ⟨blocks, bs, bm, hf, hbm⟩)
    (Journal.always_of_frame (S := fun b => b ∈ blocks) ?_ ?_ ht)⟩
  · intro f f' hf h
    exact h.congr hf
  · intro op hop hmem
    have h₁ := hS op hop
    have h₂ := hb _ hmem
    have hblock : (flashJournal g).target op = op.block := rfl
    omega

/-- The main table is written below the temporary one. -/
theorem rescueFromTemporary_evolvesUnder {t : RangeResult} {lo hi : Nat} {data : Mem}
    (hw : Written g lo hi data g.infoTableSize t)
    (ht : TableOn g t.w.chip.flash t.blocks bs cur) :
    EvolvesUnder g (HasTable g prev cur) t.w.chip (rescueFromTemporary g dev t).2.chip := by
  have hm := writeInfoTable_maint (g := g) dev (setMappingBlocksBa t.stop t.w).ni.mgmtStartBa
    t.start (setMappingBlocksBa t.stop t.w)
  have hev : EvolvesUnder g (HasTable g prev cur) t.w.chip _ :=
    hm.evolvesUnder ht (fun b hb => .inr (hw.range b hb).1) (.inr rfl)
  simp only [rescueFromTemporary]
  split
  · exact hev
  · next hok =>
      rw [Bool.not_eq_true, Bool.not_eq_false'] at hok
      rw [if_pos (writeInfoTable_written dev hok).stop_le]
      exact hev

/-- The temporary table is written above the backup table. -/
theorem rescueMainInfoTable_evolvesUnder (htop : w.ni.mappingBlocksTopBa ≤ g.blockCount)
    (hdata : ∀ m : Mem, (∀ i, i < g.infoTableSize → m i = w.ni.infoTableCache i) →
      Records g m bs cur)
    (ht : HoldsImage g w.chip.flash w.backupBlocks w.ni.infoTableCache)
    (hb : ∀ b ∈ w.backupBlocks, b < w.ni.mappingBlocksBa) :
    EvolvesUnder g (HasTable g prev cur) w.chip (rescueMainInfoTable g dev w).2.chip := by
  simp only [rescueMainInfoTable]
  split
  · exact .refl ⟨_, _, _, ht.tableOn hdata, .inr rfl⟩
  · next writeBa hreserve =>
      have hge := reserveForTable_ge hreserve
      have hm := writeReserved_maint (g := g) dev (w := w) hge
      have hev : EvolvesUnder g (HasTable g prev cur) w.chip _ :=
        hm.evolvesUnder (ht.tableOn hdata) (fun b hmem => .inl (hb b hmem)) (.inr rfl)
      split
      · exact hev
      · next hok =>
          rw [Bool.not_eq_true, Bool.not_eq_false'] at hok
          have hw := writeReserved_written dev hge hok
          exact hev.trans
            (rescueFromTemporary_evolvesUnder dev hw ((hw.holdsImage htop).tableOn hdata))

/-- The main table is written below the backup table. -/
theorem writeMainTable_evolvesUnder (hmain : w.ni.mainTableBa ≠ 0)
    (hbackup : w.ni.backupTableBa ≠ 0) (htop : w.ni.mappingBlocksTopBa ≤ g.blockCount)
    (hdata : ∀ m : Mem, (∀ i, i < g.infoTableSize → m i = w.ni.infoTableCache i) →
      Records g m bs cur)
    (ht : HoldsImage g w.chip.flash w.backupBlocks w.ni.infoTableCache)
    (hb : ∀ b ∈ w.backupBlocks, w.ni.backupTableBa ≤ b ∧ b < w.ni.mappingBlocksBa) :
    EvolvesUnder g (HasTable g prev cur) w.chip
      (writeMainTable g dev w.ni.backupTableBa w).2.chip := by
  have hm := writeInfoTable_maint (g := g) dev w.ni.mainTableBa w.ni.backupTableBa w
  have hout (b : Nat) (hmem : b ∈ w.backupBlocks) :
      b < w.ni.mainTableBa ∨ w.ni.backupTableBa ≤ b := .inr (hb b hmem).1
  have hev : EvolvesUnder g (HasTable g prev cur) w.chip _ := 
    hm.evolvesUnder (ht.tableOn hdata) hout (.inr rfl)
  simp only [writeMainTable, if_neg hmain]
  split
  · rw [if_neg (by rw [hm.backupTableBa]; exact hbackup)]
    rw [← hm.infoTableCache] at hdata
    refine hev.trans (rescueMainInfoTable_evolvesUnder dev ?_ hdata ?_ ?_)
    · rw [hm.mappingBlocksTopBa]
      exact htop
    · rw [hm.backupBlocks, hm.infoTableCache]
      exact ht.maint hm hout
    · rw [hm.backupBlocks, hm.mappingBlocksBa]
      exact fun b hmem => (hb b hmem).2
  · split <;> exact hev

/-- An update of the tables is crash safe. The blocks `blocks` below the backup
table hold a valid table, the one of the previous update, and the rewrite of
the backup table at the start of the update succeeds. Then after every
prefix `pre` of the erase and program operations of the update, the chip
holds a complete table with the previous mapping or the current one. -/
theorem updateInfoTableOnce_crashSafe (force : Bool) (hmain : w.ni.mainTableBa ≠ 0)
    (hbackup : w.ni.backupTableBa ≠ 0) (htop : w.ni.mappingBlocksTopBa ≤ g.blockCount)
    (hfits : w.ni.infoTable.Fits g.toLowerDevice) (hint : Int32Mapping g w.ni.blockMapping)
    (hvalid : TableOn g w.chip.flash blocks bs prev)
    (hblocks : ∀ b ∈ blocks, b < w.ni.backupTableBa)
    (hok : (writeInfoTable g dev w.ni.backupTableBa w.ni.mappingBlocksTopBa
      (generateInfoTableCache g w).2).ok = true) :
    ∃ ops, (updateInfoTableOnce g dev force w).2.chip.ops = w.chip.ops ++ ops ∧
      (updateInfoTableOnce g dev force w).2.chip.flash =
        (flashJournal g).replay ops w.chip.flash ∧
      ∀ pre, pre <+: ops → ∃ blocks bs bm,
        TableOn g ((flashJournal g).replay pre w.chip.flash) blocks bs bm ∧
          (bm = prev ∨ bm = w.ni.blockMapping) := by
  have hdata := fun m : Mem => records_generated (m := m) hfits hint
  have hw := writeInfoTable_written dev hok
  have hm := writeInfoTable_maint (g := g) dev w.ni.backupTableBa w.ni.mappingBlocksTopBa
    (generateInfoTableCache g w).2
  have hfirst : EvolvesUnder g (HasTable g prev w.ni.blockMapping) w.chip _ :=
    hm.evolvesUnder (w := (generateInfoTableCache g w).2) hvalid
      (fun b hmem => .inl (hblocks b hmem)) (.inl rfl)
  show EvolvesUnder g (HasTable g prev w.ni.blockMapping) w.chip _
  simp only [updateInfoTableOnce]
  split
  · exact .refl ⟨blocks, bs, prev, hvalid, .inl rfl⟩
  · rw [if_neg (show (generateInfoTableCache g w).2.ni.backupTableBa ≠ 0 from hbackup),
      if_neg (show ¬ (!(writeInfoTable g dev (generateInfoTableCache g w).2.ni.backupTableBa
        (generateInfoTableCache g w).2.ni.mappingBlocksTopBa
        (generateInfoTableCache g w).2).ok) = true by
          rw [Bool.not_eq_true, Bool.not_eq_false']
          exact hok)]
    have hcache := hm.infoTableCache
    rw [← hcache] at hdata
    refine hfirst.trans (writeMainTable_evolvesUnder dev
      (w := (setBackupTable (writeInfoTable g dev w.ni.backupTableBa w.ni.mappingBlocksTopBa
        (generateInfoTableCache g w).2)).markTablesClean) ?_ ?_ ?_ hdata ?_ hw.range)
    · show (writeInfoTable g dev _ _ _).w.ni.mainTableBa ≠ 0
      rw [hm.mainTableBa]
      exact hmain
    · have := hw.lo_le
      show (writeInfoTable g dev _ _ _).start ≠ 0
      omega
    · show (writeInfoTable g dev _ _ _).w.ni.mappingBlocksTopBa ≤ g.blockCount
      rw [hm.mappingBlocksTopBa]
      exact htop
    · show HoldsImage g _ _ (writeInfoTable g dev _ _ _).w.ni.infoTableCache
      rw [hcache]
      exact hw.holdsImage htop

end Update

set_option maxRecDepth 100000 in
/-- A forced update of the small chip: its main table is valid, and no call fails. -/
theorem updateInfoTableOnce_crashSafe_small :
    ∃ ops, (updateInfoTableOnce (smallGeometry false) smallDevice true smallWorld).2.chip.ops =
        smallWorld.chip.ops ++ ops ∧
      ∀ pre, pre <+: ops → ∃ blocks bs bm, TableOn (smallGeometry false)
        ((flashJournal (smallGeometry false)).replay pre smallWorld.chip.flash) blocks bs bm ∧
          (bm = imageMapping (tableAt (smallGeometry false) smallWorld.chip.flash
            smallWorld.mainBlocks) ∨ bm = smallWorld.ni.blockMapping) := by
  have hbase := smallWorld_reachable.base rfl
  have h : (smallWorld.ni.mainTableBa ≠ 0 ∧ smallWorld.ni.backupTableBa ≠ 0) ∧
      (smallWorld.mainBlocks.Pairwise (· < ·) ∧ smallWorld.mainBlocks.length = 1) ∧
      (checkHeader (tableAt (smallGeometry false) smallWorld.chip.flash smallWorld.mainBlocks) 256 =
        true ∧
      checkInfoTableHeader (smallGeometry false).toLowerDevice
        (tableAt (smallGeometry false) smallWorld.chip.flash smallWorld.mainBlocks) = true) ∧
      (writeInfoTable (smallGeometry false) smallDevice smallWorld.ni.backupTableBa
        smallWorld.ni.mappingBlocksTopBa
        (generateInfoTableCache (smallGeometry false) smallWorld).2).ok = true := by
    decide +kernel
  obtain ⟨⟨hmain, hbackup⟩, ⟨hsorted, hlength⟩, ⟨hheader, htable⟩, hok⟩ := h
  have horder := (hbase.layout.order hbackup).2
  have hvalid : TableOn (smallGeometry false) smallWorld.chip.flash smallWorld.mainBlocks
      (imageState (tableAt (smallGeometry false) smallWorld.chip.flash smallWorld.mainBlocks))
      (imageMapping (tableAt (smallGeometry false) smallWorld.chip.flash smallWorld.mainBlocks)) :=
    ⟨hsorted, hlength, fun b hb => by
      have h₁ := hbase.layout.main b hb
      have h₂ := hbase.layout.mapping_le
      have h₃ := hbase.layout.top_lt
      have h₄ := hbase.layout.signature_lt
      omega, hheader, htable, fun _ _ => rfl, fun _ _ => rfl⟩
  obtain ⟨ops, hops, -, hpre⟩ := updateInfoTableOnce_crashSafe smallDevice true hmain hbackup
    (le_of_lt (hbase.layout.top_lt.trans hbase.layout.signature_lt)) hbase.fits
    (fun k _ => hbase.int32 k) hvalid horder.2 hok
  exact ⟨ops, hops, hpre⟩

end Speedway.Nmbm
