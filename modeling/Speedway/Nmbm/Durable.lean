import Speedway.Nmbm.Records
import Speedway.Nmbm.UpdateLayout

/-!
# What a successful update has stored

Every path on which `nmbm_update_info_table_once` returns true ends with the
generated table image in the blocks of the main table, and has passed
`nmbm_mark_tables_clean`. That call clears the change counters, so a state
that changed before it, while the table was written, is lost to the retry
loop of `nmbm_update_info_table`. When no state changes there, the loop ends
with a table that records the instance.
-/

namespace Speedway.Nmbm

open Speedway.Lib

/-- The tables have been marked clean with `cache` as the table image, and every
later change of a block state is counted; `n` bounds the good blocks then. -/
structure Cleaned (g : Geometry) (cache : Mem) (n : Nat) (w : World) : Prop where
  cache_eq : w.ni.infoTableCache = cache
  since : ∃ before, .markTablesClean before ∈ w.trace ∧ before.infoTableCache = cache ∧
    (w.ni.blockStateChanged = 0 → w.ni.blockState = before.blockState)
  mapping : w.ni.blockMappingChanged = 0
  good : goodCount g w + w.ni.blockStateChanged ≤ n

/-- Besides, the blocks of the main table hold the image. -/
structure Stored (g : Geometry) (cache : Mem) (n : Nat) (w : World) : Prop
    extends Cleaned g cache n w where
  main : HoldsImage g w.chip.flash w.mainBlocks cache

section Cleaned

variable {g : Geometry} {cache : Mem} {n lo hi : Nat} {w w' : World}

/-- Marking the tables clean. -/
theorem Cleaned.of_clean (hcache : w.ni.infoTableCache = cache) (hn : goodCount g w ≤ n) :
    Cleaned g cache n w.markTablesClean where
  cache_eq := hcache
  since := ⟨w.ni, List.mem_append_right _ (by simp), hcache, fun _ => rfl⟩
  mapping := rfl
  good := hn

theorem Cleaned.maint (h : Cleaned g cache n w) (hm : Maint g lo hi w w')
    (hhi : hi ≤ g.blockCount) : Cleaned g cache n w' where
  cache_eq := hm.infoTableCache.trans h.cache_eq
  since := by
    obtain ⟨before, hmem, hcache, hstate⟩ := h.since
    obtain ⟨new, hnew, -⟩ := hm.trace
    refine ⟨before, by rw [hnew]; exact List.mem_append_left _ hmem, hcache, fun h0 => ?_⟩
    have hcount := hm.count
    rw [hm.same (by omega)]
    exact hstate (by omega)
  mapping := by
    rw [hm.ni]
    exact h.mapping
  good := by
    have h₁ := h.good
    have h₂ := hm.good hhi
    omega

theorem Stored.maint (h : Stored g cache n w) (hm : Maint g lo hi w w') (hhi : hi ≤ g.blockCount)
    (hb : ∀ b ∈ w.mainBlocks, b < lo ∨ hi ≤ b) : Stored g cache n w' where
  toCleaned := h.toCleaned.maint hm hhi
  main := by
    rw [hm.mainBlocks]
    exact h.main.maint hm hb

theorem Layout.top_le (hl : Layout g w) : w.ni.mappingBlocksTopBa ≤ g.blockCount :=
  le_of_lt (hl.top_lt.trans hl.signature_lt)

end Cleaned

section Update

variable {g : Geometry} (dev : Device) {cache : Mem} {n : Nat} {w : World}

theorem rebuildBackupTable_stored (hl : Layout g w) (h : Stored g cache n w) :
    Stored g cache n (rebuildBackupTable g dev w) := by
  have htop := hl.top_le
  have hmain (lo hi : Nat) (hlo : w.ni.mappingBlocksBa ≤ lo) (b : Nat) (hb : b ∈ w.mainBlocks) :
      b < lo ∨ hi ≤ b := .inl (lt_of_lt_of_le (hl.main b hb).2 hlo)
  simp only [rebuildBackupTable]
  split
  · exact h
  · next next hnext =>
      have hge := reserveForTable_ge hnext
      have hm := writeInfoTable_maint (g := g) dev next w.ni.mappingBlocksTopBa w
      have h₁ := h.maint hm htop (hmain _ _ hge)
      split
      · exact h₁
      · next hok =>
          rw [Bool.not_eq_true, Bool.not_eq_false'] at hok
          have hw := writeInfoTable_written dev hok
          have h₂ : Stored g cache n (setBackupTable
            (writeInfoTable g dev next w.ni.mappingBlocksTopBa w)) := { h₁ with }
          refine h₂.maint (eraseRange_maint dev _ _ _) ?_ ?_
          · have := hw.start_lt
            have := hw.stop_le
            omega
          · show ∀ b ∈ (writeInfoTable g dev next w.ni.mappingBlocksTopBa w).w.mainBlocks, _
            rw [hm.mainBlocks]
            exact hmain _ _ (le_refl _)

theorem rebuildInfoTable_stored (hl : Layout g (dropTables w))
    (hcache : w.ni.infoTableCache = cache) (hn : goodCount g w ≤ n)
    (hok : (rebuildInfoTable g dev w).1 = true) :
    Stored g cache n (rebuildInfoTable g dev w).2 := by
  have hm := writeInfoTable_maint (g := g) dev (dropTables w).ni.mgmtStartBa
    (dropTables w).ni.mappingBlocksTopBa (dropTables w)
  have h₁ := Safe.of_maint hl hm (le_refl _) (le_refl _)
  simp only [rebuildInfoTable] at hok ⊢
  split at hok
  · exact absurd hok Bool.false_ne_true
  · next hm' =>
      rw [if_neg hm']
      rw [Bool.not_eq_true, Bool.not_eq_false'] at hm'
      have hw := writeInfoTable_written dev hm'
      have hset := safe_setOnlyTable h₁.layout hw
        (by rw [hm.mgmtStartBa]) (by rw [hm.mappingBlocksTopBa]) (by rw [hm.backupTableBa]; rfl)
      refine rebuildBackupTable_stored dev (Safe.markTablesClean hset.layout).layout ?_
      have hgood : goodCount g (writeInfoTable g dev (dropTables w).ni.mgmtStartBa
          (dropTables w).ni.mappingBlocksTopBa (dropTables w)).w ≤ n :=
        (h₁.step.good hl.top_le).1.trans hn
      exact {
        Cleaned.of_clean (w := setMappingBlocksBa _ (setMainTable _))
          (hm.infoTableCache.trans hcache) hgood with
        main := by
          rw [← hcache]
          exact hw.holdsImage hl.top_le }

/-- The rescue of the main table from a temporary one. -/
theorem rescueFromTemporary_stored {t : RangeResult} {lo hi : Nat}
    (hw : Written g lo hi cache g.infoTableSize t) (hhi : hi ≤ g.blockCount)
    (h : Cleaned g cache n t.w) : Stored g cache n (rescueFromTemporary g dev t).2 := by
  have hm := writeInfoTable_maint (g := g) dev (setMappingBlocksBa t.stop t.w).ni.mgmtStartBa
    t.start (setMappingBlocksBa t.stop t.w)
  have h₁ : Cleaned g cache n (setMappingBlocksBa t.stop t.w) := { h with }
  have hstart : t.start ≤ g.blockCount := by
    have := hw.start_lt
    have := hw.stop_le
    omega
  have h₂ := h₁.maint hm hstart
  have hgood := Nat.le_of_add_right_le h₂.good
  simp only [rescueFromTemporary]
  split
  · exact {
      Cleaned.of_clean (w := dropBackup (setMainTable { t with w := _ })) h₂.cache_eq hgood with
      main := (hw.of_maint hm rfl rfl (.inr (le_refl _))).holdsImage hhi }
  · next hok =>
      rw [Bool.not_eq_true, Bool.not_eq_false'] at hok
      have hwm := writeInfoTable_written dev hok
      rw [if_pos hwm.stop_le]
      exact {
        Cleaned.of_clean (w := setMainTable _) h₂.cache_eq hgood with
        main := by
          rw [← h₁.cache_eq]
          exact hwm.holdsImage hstart }

theorem rescueMainInfoTable_stored (hl : Layout g w) (h : Cleaned g cache n w)
    (hbackup : HoldsImage g w.chip.flash w.backupBlocks cache) :
    Stored g cache n (rescueMainInfoTable g dev w).2 := by
  simp only [rescueMainInfoTable]
  split
  · exact { h with main := hbackup }
  · next writeBa hreserve =>
      have hge := reserveForTable_ge hreserve
      have hm := writeReserved_maint (g := g) dev (w := w) hge
      have h₁ := h.maint hm hl.top_le
      split
      · exact { h₁ with
          main := by
            have hmain := hbackup.maint hm fun b hb => .inl (hl.backup b hb).2
            rw [← hm.backupBlocks] at hmain
            exact hmain }
      · next hok =>
          rw [Bool.not_eq_true, Bool.not_eq_false'] at hok
          have hw := writeReserved_written dev hge hok
          rw [h.cache_eq] at hw
          exact rescueFromTemporary_stored dev hw hl.top_le h₁

/-- A rewrite of the main table that returns true. When there is a backup table
it has just been rewritten from the same image. -/
theorem writeMainTable_stored {limit : Nat} (hl : Layout g w)
    (hlimit : w.ni.backupTableBa = 0 ∧ limit = w.ni.mappingBlocksTopBa ∨
      w.ni.backupTableBa ≠ 0 ∧ limit = w.ni.backupTableBa)
    (hcache : w.ni.infoTableCache = cache) (hn : goodCount g w ≤ n)
    (hbackup : w.ni.backupTableBa ≠ 0 → Cleaned g cache n w ∧
      HoldsImage g w.chip.flash w.backupBlocks cache)
    (hok : (writeMainTable g dev limit w).1 = true) :
    Stored g cache n (writeMainTable g dev limit w).2 := by
  have htop : limit ≤ w.ni.mappingBlocksTopBa := by
    rcases hlimit with ⟨-, rfl⟩ | ⟨h0, rfl⟩
    · exact le_refl _
    · exact (hl.order h0).2.1.trans hl.mapping_le
  have hm := writeInfoTable_maint (g := g) dev w.ni.mainTableBa limit w
  simp only [writeMainTable] at hok ⊢
  split at hok
  · next h0 =>
      rw [if_pos h0]
      exact rebuildInfoTable_stored dev (dropTables_safe hl).layout hcache hn hok
  · next h0 =>
      rw [if_neg h0]
      have h₁ := Safe.of_maint hl hm (hl.mainStart h0) htop
      have hgood := (h₁.step.good hl.top_le).1.trans hn
      have hcache₁ := hm.infoTableCache.trans hcache
      split at hok
      · next hfail =>
          rw [if_pos hfail]
          split at hok
          · next hzero =>
              rw [if_pos hzero]
              exact rebuildInfoTable_stored dev (dropTables_safe h₁.layout).layout hcache₁ hgood hok
          · next hzero =>
              rw [if_neg hzero]
              have h0' : w.ni.backupTableBa ≠ 0 := by
                rw [hm.backupTableBa] at hzero
                exact hzero
              have hlim : limit = w.ni.backupTableBa :=
                hlimit.elim (fun h => absurd h.1 h0') (·.2)
              obtain ⟨hclean, hholds⟩ := hbackup h0'
              refine rescueMainInfoTable_stored dev h₁.layout
                (hclean.maint hm (htop.trans hl.top_le)) ?_
              rw [hm.backupBlocks]
              exact hholds.maint hm fun b hb => .inr (by
                rw [hlim]
                exact (hl.backup b hb).1)
      · next hdone =>
          rw [if_neg hdone]
          rw [Bool.not_eq_true, Bool.not_eq_false'] at hdone
          have hw := writeInfoTable_written dev hdone
          have hmain := hw.holdsImage (htop.trans hl.top_le)
          rw [hcache] at hmain
          split
          · exact { Cleaned.of_clean (w := setMappingBlocksBa _ (setMainTable _)) hcache₁ hgood with
              main := hmain }
          · exact { Cleaned.of_clean (w := setMainTable _) hcache₁ hgood with main := hmain }

/-- A pass that writes and returns true has stored the image it generated. -/
theorem updateInfoTableOnce_stored (hl : Layout g w) (hdirty : w.dirty = true)
    (hok : (updateInfoTableOnce g dev false w).1 = true) :
    Stored g (generateInfoTableCache g w).2.ni.infoTableCache (goodCount g w)
      (updateInfoTableOnce g dev false w).2 := by
  have h₀ := generateInfoTableCache_safe hl
  have hgen : (generateInfoTableCache g w).1 = true := hdirty
  have hgood : goodCount g (generateInfoTableCache g w).2 ≤ goodCount g w := le_refl _
  simp only [updateInfoTableOnce, hgen, Bool.not_true, Bool.false_and, Bool.false_eq_true,
    if_false] at hok ⊢
  have hm := writeInfoTable_maint (g := g) dev (generateInfoTableCache g w).2.ni.backupTableBa
    (generateInfoTableCache g w).2.ni.mappingBlocksTopBa (generateInfoTableCache g w).2
  split at hok
  · next hzero =>
      rw [if_pos hzero]
      exact writeMainTable_stored dev h₀.layout (.inl ⟨hzero, rfl⟩) rfl hgood
        (fun h => absurd hzero h) hok
  · next hzero =>
      rw [if_neg hzero]
      have h₁ := Safe.of_maint h₀.layout hm (h₀.layout.order hzero).1 (le_refl _)
      have hgood₁ := (h₁.step.good h₀.layout.top_le).1.trans hgood
      split at hok
      · next hfail =>
          rw [if_pos hfail]
          have h₂ := h₁.trans (safe_dropBackup h₁.layout (by rw [hm.backupTableBa]; exact hzero))
          exact writeMainTable_stored dev h₂.layout (.inl ⟨rfl, rfl⟩) hm.infoTableCache hgood₁
            (fun h => absurd rfl h) hok
      · next hdone =>
          rw [if_neg hdone]
          rw [Bool.not_eq_true, Bool.not_eq_false'] at hdone
          have hw := writeInfoTable_written dev hdone
          have h₂ := rewriteBackup_safe dev h₀.layout hzero hdone
          refine writeMainTable_stored dev h₂.layout (.inr ⟨?_, rfl⟩) hm.infoTableCache hgood₁
            (fun _ => ⟨Cleaned.of_clean (w := setBackupTable _) hm.infoTableCache hgood₁,
              hw.holdsImage h₀.layout.top_le⟩) hok
          have := hw.lo_le
          show (writeInfoTable g dev _ _ _).start ≠ 0
          omega

end Update

section Loop

variable {g : Geometry} (dev : Device) {w : World} {n : Nat}

theorem updateLoop_of_clean (h : w.dirty = false) : updateLoop g dev n w = (true, w) := by
  cases n with
  | zero => rfl
  | succ n => simp [updateLoop, h]

/-- A retry loop with more rounds than good blocks ends clean, and its last pass
has stored the image it generated. -/
theorem updateLoop_clean (hl : Layout g w) (hn : goodCount g w < n) (hdirty : w.dirty = true)
    (hok : (updateLoop g dev n w).1 = true) :
    (updateLoop g dev n w).2.dirty = false ∧
      ∃ w₀, Kept w.ni w₀.ni ∧ Kept w₀.ni (updateLoop g dev n w).2.ni ∧
        Stored g (generateInfoTableCache g w₀).2.ni.infoTableCache (goodCount g w₀)
          (updateLoop g dev n w).2 := by
  induction n generalizing w with
  | zero => omega
  | succ n ih =>
      simp only [updateLoop, hdirty, Bool.not_true, Bool.false_eq_true, if_false] at hok ⊢
      split at hok
      · exact absurd hok Bool.false_ne_true
      · next hr =>
          rw [if_neg hr]
          rw [Bool.not_eq_true, Bool.not_eq_false'] at hr
          have hstored := updateInfoTableOnce_stored dev hl hdirty hr
          have hs := updateInfoTableOnce_safe dev false hl
          cases hd : (updateInfoTableOnce g dev false w).2.dirty with
          | false =>
              rw [updateLoop_of_clean dev hd]
              exact ⟨hd, w, .refl, hs.step.kept, hstored⟩
          | true =>
              -- a change since the last cleaning is a good block turned bad
              have hcount : (updateInfoTableOnce g dev false w).2.ni.blockStateChanged ≠ 0 := by
                simpa [World.dirty, hstored.mapping] using hd
              have hgood := hstored.good
              obtain ⟨hclean, w₀, hk, hk', hlast⟩ := ih hs.layout (by omega) hd hok
              exact ⟨hclean, w₀, hs.step.kept.trans hk, hk', hlast⟩

theorem rebuildInfoTable_protected (h : (rebuildInfoTable g dev w).1 = false) :
    (rebuildInfoTable g dev w).2.ni.isProtected = true := by
  simp only [rebuildInfoTable] at h ⊢
  split_ifs at h ⊢
  rfl

theorem rescueMainInfoTable_true : (rescueMainInfoTable g dev w).1 = true := by
  simp only [rescueMainInfoTable, rescueFromTemporary, rescueBackupTable]
  repeat' split
  all_goals rfl

theorem writeMainTable_protected {limit : Nat} (h : (writeMainTable g dev limit w).1 = false) :
    (writeMainTable g dev limit w).2.ni.isProtected = true := by
  simp only [writeMainTable] at h ⊢
  split at h
  · next h0 =>
      rw [if_pos h0]
      exact rebuildInfoTable_protected dev h
  · next h0 =>
      rw [if_neg h0]
      split at h
      · next hfail =>
          rw [if_pos hfail]
          split at h
          · next hzero =>
              rw [if_pos hzero]
              exact rebuildInfoTable_protected dev h
          · rw [rescueMainInfoTable_true] at h
            exact absurd h Bool.true_eq_false.mp
      · exact absurd h (by simp)

theorem updateInfoTableOnce_protected {force : Bool}
    (h : (updateInfoTableOnce g dev force w).1 = false) :
    (updateInfoTableOnce g dev force w).2.ni.isProtected = true := by
  simp only [updateInfoTableOnce] at h ⊢
  split at h
  · exact absurd h (by simp)
  · next hgo =>
      rw [if_neg hgo]
      split at h
      · next hzero =>
          rw [if_pos hzero]
          exact writeMainTable_protected dev h
      · next hzero =>
          rw [if_neg hzero]
          split at h
          · next hfail =>
              rw [if_pos hfail]
              exact writeMainTable_protected dev h
          · next hfail =>
              rw [if_neg hfail]
              exact writeMainTable_protected dev h

/-- An update fails only by protecting the instance. -/
theorem updateLoop_protected (h : (updateLoop g dev n w).1 = false) :
    (updateLoop g dev n w).2.ni.isProtected = true := by
  induction n generalizing w with
  | zero => exact absurd h (by simp [updateLoop])
  | succ n ih =>
      simp only [updateLoop] at h ⊢
      split at h
      · exact absurd h (by simp)
      · next hd =>
          rw [if_neg hd]
          split at h
          · next hr =>
              rw [if_pos hr]
              exact updateInfoTableOnce_protected dev (by simpa using hr)
          · next hr =>
              rw [if_neg hr]
              exact ih h

end Loop

end Speedway.Nmbm
