import Speedway.Nmbm.Layout

/-!
# Updates of the info tables keep the layout

One lemma for each of `nmbm_rebuild_info_table`, `nmbm_rescue_main_info_table`,
`nmbm_update_info_table_once` and `nmbm_update_info_table`: from a world with
a proper layout, the function makes a table step to another such world.
-/

namespace Speedway.Nmbm

open Speedway.Lib

variable {g : Geometry} (dev : Device) {w : World}

theorem reserveForTable_ge {ba nba : Nat} (h : reserveForTable g ba w = some nba) : ba ≤ nba :=
  (tryReserveBlocks_range h).1

/-- Writing a table at or above `ba`, from a reserved start downwards. -/
theorem writeReserved_maint {ba writeBa : Nat} (h : ba ≤ writeBa) :
    Maint g ba w.ni.mappingBlocksTopBa w
      (writeTableDown g dev (writeBa + 1 - ba) writeBa w).w := by
  have hm := writeTableDown_maint (g := g) dev (writeBa + 1 - ba) writeBa w (by omega)
  rwa [show writeBa + 1 - (writeBa + 1 - ba) = ba by omega] at hm

theorem writeReserved_written {ba writeBa : Nat} (h : ba ≤ writeBa)
    (hok : (writeTableDown g dev (writeBa + 1 - ba) writeBa w).ok = true) :
    Written g ba w.ni.mappingBlocksTopBa w.ni.infoTableCache g.infoTableSize
      (writeTableDown g dev (writeBa + 1 - ba) writeBa w) := by
  have hw := writeTableDown_written (g := g) dev (show writeBa + 1 - ba ≤ writeBa + 1 by omega) hok
  rwa [show writeBa + 1 - (writeBa + 1 - ba) = ba by omega] at hw

/-- The boundaries a rebuild starts from. -/
theorem dropTables_safe (hl : Layout g w) : Safe g w (dropTables w) where
  layout :=
    { hl with
      mgmt_le := hl.mgmt_le.trans hl.mapping_le
      mapping_le := le_refl _
      mainHead := fun h => absurd rfl h
      backupHead := fun h => absurd rfl h
      main := fun _ hb => absurd hb List.not_mem_nil
      backup := fun _ hb => absurd hb List.not_mem_nil
      noBackup := fun _ => rfl
      order := fun h => absurd rfl h }
  step := .of_instance rfl ⟨rfl, rfl, rfl, rfl, rfl, rfl, rfl⟩ rfl id rfl (le_refl _)

theorem rebuildBackupTable_safe (hl : Layout g w) (hpos : 0 < w.ni.mappingBlocksBa) :
    Safe g w (rebuildBackupTable g dev w) := by
  have hmgmt := hl.mgmt_le
  simp only [rebuildBackupTable]
  split
  · exact ⟨hl, .refl⟩
  · next next hnext =>
      have hge := reserveForTable_ge hnext
      have hm := writeInfoTable_maint (g := g) dev next w.ni.mappingBlocksTopBa w
      have h₁ := Safe.of_maint hl hm (hmgmt.trans hge) (le_refl _)
      split
      · exact h₁
      · next hok =>
          rw [Bool.not_eq_true, Bool.not_eq_false'] at hok
          have hw := writeInfoTable_written dev hok
          have h₂ := safe_setBackupTable h₁.layout hw (by rw [hm.mgmtStartBa]; omega)
            (by rw [hm.mappingBlocksTopBa]) (by omega) (by
              rw [hm.mainBlocks]
              intro b hb
              have := hl.main b hb
              omega)
          have he := eraseRange_maint (g := g) dev w.ni.mappingBlocksBa
            (writeInfoTable g dev next w.ni.mappingBlocksTopBa w).start
            (setBackupTable (writeInfoTable g dev next w.ni.mappingBlocksTopBa w))
          refine h₁.trans (h₂.trans (Safe.of_maint h₂.layout he ?_ ?_))
          · rw [h₂.step.kept.mgmtStartBa, hm.mgmtStartBa]
            exact hmgmt
          · rw [h₂.step.kept.mappingBlocksTopBa, hm.mappingBlocksTopBa]
            have := hw.start_lt
            have := hw.stop_le
            omega

/-- A rebuild needs no more than the boundaries it resets to. -/
theorem rebuildInfoTable_safe' (h₀ : Layout g (dropTables w)) :
    Safe g (dropTables w) (rebuildInfoTable g dev w).2 := by
  have hm := writeInfoTable_maint (g := g) dev (dropTables w).ni.mgmtStartBa
    (dropTables w).ni.mappingBlocksTopBa (dropTables w)
  have h₁ := Safe.of_maint h₀ hm (le_refl _) (le_refl _)
  simp only [rebuildInfoTable]
  split
  · refine h₁.trans ⟨{ h₁.layout with }, ?_⟩
    exact .of_instance rfl ⟨rfl, rfl, rfl, rfl, rfl, rfl, rfl⟩ rfl (fun _ => rfl) rfl (le_refl _)
  · next hok =>
      rw [Bool.not_eq_true, Bool.not_eq_false'] at hok
      have hw := writeInfoTable_written dev hok
      have hset := safe_setOnlyTable h₁.layout hw
        (by rw [hm.mgmtStartBa]) (by rw [hm.mappingBlocksTopBa]) (by rw [hm.backupTableBa]; rfl)
      have h₂ := hset.trans (.markTablesClean hset.layout)
      exact h₁.trans (h₂.trans (rebuildBackupTable_safe dev h₂.layout
        (Nat.zero_lt_of_lt hw.start_lt)))

theorem rebuildInfoTable_safe (hl : Layout g w) : Safe g w (rebuildInfoTable g dev w).2 :=
  (dropTables_safe hl).trans (rebuildInfoTable_safe' dev (dropTables_safe hl).layout)

/-- Giving more blocks to the tables. -/
theorem safe_raiseMapping {ba : Nat} (hl : Layout g w) (hlo : w.ni.mappingBlocksBa ≤ ba)
    (hhi : ba ≤ w.ni.mappingBlocksTopBa) : Safe g w (setMappingBlocksBa ba w) where
  layout :=
    { hl with
      mgmt_le := hl.mgmt_le.trans hlo
      mapping_le := hhi
      main := fun b hb => ⟨(hl.main b hb).1, lt_of_lt_of_le (hl.main b hb).2 hlo⟩
      backup := fun b hb => ⟨(hl.backup b hb).1, lt_of_lt_of_le (hl.backup b hb).2 hlo⟩
      order := fun h => ⟨(hl.order h).1, (hl.order h).2.1.trans hlo, (hl.order h).2.2⟩ }
  step := .of_instance rfl ⟨rfl, rfl, rfl, rfl, rfl, rfl, rfl⟩ rfl id rfl (le_refl _)

/-- A temporary table above the others becomes the only one. -/
theorem safe_adoptTemporary {t : RangeResult} {lo hi : Nat} {data : Mem}
    (hw : Written g lo hi data g.infoTableSize t) (hl : Layout g t.w)
    (hlo : t.w.ni.mgmtStartBa ≤ lo) (hstop : t.stop = t.w.ni.mappingBlocksBa) :
    Safe g t.w (dropBackup (setMainTable t)) where
  layout :=
    have h₁ := hw.lo_le
    { hl with
      mainHead := fun _ => hw.head
      backupHead := fun h => absurd rfl h
      main := fun b hb => by
        have := hw.range b hb
        show t.w.ni.mgmtStartBa ≤ b ∧ b < t.w.ni.mappingBlocksBa
        omega
      backup := fun _ hb => absurd hb List.not_mem_nil
      noBackup := fun _ => rfl
      order := fun h => absurd rfl h }
  step := .of_instance rfl ⟨rfl, rfl, rfl, rfl, rfl, rfl, rfl⟩ rfl id rfl (le_refl _)

/-- A new main table below the temporary one, which becomes the backup table. -/
theorem safe_setBothTables {m t : RangeResult} {lo hi lo' hi' : Nat} {data data' : Mem}
    (hl : Layout g m.w) (hm : Written g lo hi data g.infoTableSize m)
    (ht : Written g lo' hi' data' g.infoTableSize t) (hlo : m.w.ni.mgmtStartBa ≤ lo)
    (hhi : hi ≤ t.start) (hstop : t.stop = m.w.ni.mappingBlocksBa) :
    Safe g m.w (setBackupStart t (setMainTable m).markTablesClean) where
  layout :=
    have h₁ := hm.lo_le
    have h₂ := hm.start_lt
    have h₃ := hm.stop_le
    have h₄ := ht.start_lt
    { hl with
      mainHead := fun _ => hm.head
      backupHead := fun _ => ht.head
      main := fun b hb => by
        have := hm.range b hb
        show m.w.ni.mgmtStartBa ≤ b ∧ b < m.w.ni.mappingBlocksBa
        omega
      backup := fun b hb => by
        have := ht.range b hb
        show t.start ≤ b ∧ b < m.w.ni.mappingBlocksBa
        omega
      noBackup := fun h0 => by
        have hstart : t.start = 0 := h0
        omega
      order := fun _ => by
        refine ⟨?_, ?_, fun b hb => ?_⟩
        · show m.w.ni.mgmtStartBa ≤ t.start
          omega
        · show t.start ≤ m.w.ni.mappingBlocksBa
          omega
        · have := hm.range b hb
          show b < t.start
          omega }
  step :=
    have hset : TableStep g m.w (setMainTable m) :=
      .of_instance rfl ⟨rfl, rfl, rfl, rfl, rfl, rfl, rfl⟩ rfl id rfl (le_refl _)
    hset.trans (TableStep.markTablesClean.trans
      (.of_instance rfl ⟨rfl, rfl, rfl, rfl, rfl, rfl, rfl⟩ rfl id rfl (le_refl _)))

/-- The new main table ends below the temporary one, so the last branch of the
function is never taken. -/
theorem rescueFromTemporary_safe {t : RangeResult} {lo hi : Nat} {data : Mem}
    (hl : Layout g t.w) (hw : Written g lo hi data g.infoTableSize t)
    (hlo : t.w.ni.mappingBlocksBa ≤ lo) (hhi : hi ≤ t.w.ni.mappingBlocksTopBa) :
    Safe g t.w (rescueFromTemporary g dev t).2 := by
  have h₁ := hw.lo_le
  have h₂ := hw.start_lt
  have h₃ := hw.stop_le
  have hmgmt := hl.mgmt_le
  have hraise : Safe g t.w (setMappingBlocksBa t.stop t.w) :=
    safe_raiseMapping hl (by omega) (by omega)
  have hm := writeInfoTable_maint (g := g) dev (setMappingBlocksBa t.stop t.w).ni.mgmtStartBa
    t.start (setMappingBlocksBa t.stop t.w)
  have hs := hraise.trans (.of_maint hraise.layout hm (le_refl _) (by
    show t.start ≤ t.w.ni.mappingBlocksTopBa
    omega))
  simp only [rescueFromTemporary]
  split
  · have hw' := hw.of_maint hm rfl rfl (.inr (le_refl _))
    have hset := safe_adoptTemporary hw' hs.layout
      (by rw [hm.mgmtStartBa]; exact hmgmt.trans hlo) hm.mappingBlocksBa.symm
    exact hs.trans (hset.trans (.markTablesClean hset.layout))
  · next hok =>
      rw [Bool.not_eq_true, Bool.not_eq_false'] at hok
      have hwm := writeInfoTable_written dev hok
      rw [if_pos hwm.stop_le]
      exact hs.trans (safe_setBothTables hs.layout hwm hw (by rw [hm.mgmtStartBa]) (le_refl _)
        hm.mappingBlocksBa.symm)

theorem rescueMainInfoTable_safe (hl : Layout g w) (h0 : w.ni.backupTableBa ≠ 0) :
    Safe g w (rescueMainInfoTable g dev w).2 := by
  simp only [rescueMainInfoTable]
  split
  · exact safe_promoteBackup hl h0
  · next writeBa hreserve =>
      have hge := reserveForTable_ge hreserve
      have hm := writeReserved_maint (g := g) dev (w := w) hge
      have h₁ := Safe.of_maint hl hm hl.mgmt_le (le_refl _)
      split
      · exact h₁.trans (safe_promoteBackup h₁.layout (by rw [hm.backupTableBa]; exact h0))
      · next hok =>
          rw [Bool.not_eq_true, Bool.not_eq_false'] at hok
          have hw := writeReserved_written dev hge hok
          exact h₁.trans (rescueFromTemporary_safe dev h₁.layout hw (by rw [hm.mappingBlocksBa])
            (by rw [hm.mappingBlocksTopBa]))

/-- Rewriting the main table, below the backup table when there is one. -/
theorem writeMainTable_safe {limit : Nat} (hl : Layout g w)
    (hlimit : w.ni.backupTableBa = 0 ∧ limit = w.ni.mappingBlocksTopBa ∨
      w.ni.backupTableBa ≠ 0 ∧ limit = w.ni.backupTableBa) :
    Safe g w (writeMainTable g dev limit w).2 := by
  have htop : limit ≤ w.ni.mappingBlocksTopBa := by
    rcases hlimit with ⟨-, rfl⟩ | ⟨h0, rfl⟩
    · exact le_refl _
    · exact (hl.order h0).2.1.trans hl.mapping_le
  simp only [writeMainTable]
  split
  · exact rebuildInfoTable_safe dev hl
  · next hmain =>
      have hm := writeInfoTable_maint (g := g) dev w.ni.mainTableBa limit w
      have h₁ := Safe.of_maint hl hm (hl.mainStart hmain) htop
      split
      · split
        · exact h₁.trans (rebuildInfoTable_safe dev h₁.layout)
        · next h0 => exact h₁.trans (rescueMainInfoTable_safe dev h₁.layout h0)
      · next hok =>
          rw [Bool.not_eq_true, Bool.not_eq_false'] at hok
          have hw := writeInfoTable_written dev hok
          have hstart := hl.mainStart hmain
          have hzero :
              (setMainTable (writeInfoTable g dev w.ni.mainTableBa limit w)).ni.backupTableBa =
                w.ni.backupTableBa := hm.backupTableBa
          rcases hlimit with ⟨h0, rfl⟩ | ⟨h0, rfl⟩
          · rw [if_pos (by rw [hzero, h0])]
            have hset := safe_setOnlyTable h₁.layout hw (by rw [hm.mgmtStartBa]; exact hstart)
              (by rw [hm.mappingBlocksTopBa]) (by rw [hm.backupTableBa, h0])
            exact h₁.trans (hset.trans (.markTablesClean hset.layout))
          · rw [if_neg (by rw [hzero]; exact h0)]
            have hset := safe_setMainTable h₁.layout hw (by rw [hm.mgmtStartBa]; exact hstart)
              (by rw [hm.mappingBlocksBa]; exact (hl.order h0).2.1)
              (fun _ => by rw [hm.backupTableBa])
            exact h₁.trans (hset.trans (.markTablesClean hset.layout))

theorem generateInfoTableCache_safe (hl : Layout g w) :
    Safe g w (generateInfoTableCache g w).2 :=
  ⟨{ hl with }, .of_instance rfl ⟨rfl, rfl, rfl, rfl, rfl, rfl, rfl⟩ rfl id rfl (le_refl _)⟩

/-- The rewrite of the backup table that starts an update, when it succeeds. -/
theorem rewriteBackup_safe (hl : Layout g w) (h0 : w.ni.backupTableBa ≠ 0)
    (hok : (writeInfoTable g dev w.ni.backupTableBa w.ni.mappingBlocksTopBa w).ok = true) :
    Safe g w (setBackupTable (writeInfoTable g dev w.ni.backupTableBa
      w.ni.mappingBlocksTopBa w)).markTablesClean := by
  have hm := writeInfoTable_maint (g := g) dev w.ni.backupTableBa w.ni.mappingBlocksTopBa w
  obtain ⟨hmgmt, -, hmain⟩ := hl.order h0
  have h₁ := Safe.of_maint hl hm hmgmt (le_refl _)
  have hset := safe_setBackupTable h₁.layout (writeInfoTable_written dev hok)
    (by rw [hm.mgmtStartBa]; exact hmgmt) (by rw [hm.mappingBlocksTopBa])
    (Nat.pos_of_ne_zero h0) (by rw [hm.mainBlocks]; exact hmain)
  exact h₁.trans (hset.trans (.markTablesClean hset.layout))

theorem updateInfoTableOnce_safe (force : Bool) (hl : Layout g w) :
    Safe g w (updateInfoTableOnce g dev force w).2 := by
  have h₀ := generateInfoTableCache_safe hl
  simp only [updateInfoTableOnce]
  split
  · exact h₀
  · split
    · next hzero => exact h₀.trans (writeMainTable_safe dev h₀.layout (.inl ⟨hzero, rfl⟩))
    · next hzero =>
        have hm := writeInfoTable_maint (g := g) dev (generateInfoTableCache g w).2.ni.backupTableBa
          (generateInfoTableCache g w).2.ni.mappingBlocksTopBa (generateInfoTableCache g w).2
        split
        · have h₁ := Safe.of_maint h₀.layout hm (h₀.layout.order hzero).1 (le_refl _)
          have h₂ := h₁.trans (safe_dropBackup h₁.layout (by rw [hm.backupTableBa]; exact hzero))
          exact h₀.trans (h₂.trans (writeMainTable_safe dev h₂.layout (.inl ⟨rfl, rfl⟩)))
        · next hok =>
            rw [Bool.not_eq_true, Bool.not_eq_false'] at hok
            have hw := writeInfoTable_written dev hok
            have h₁ := rewriteBackup_safe dev h₀.layout hzero hok
            refine h₀.trans (h₁.trans (writeMainTable_safe dev h₁.layout (.inr ⟨?_, rfl⟩)))
            have := hw.lo_le
            show (writeInfoTable g dev _ _ _).start ≠ 0
            omega

theorem updateLoop_safe (n : Nat) (hl : Layout g w) : Safe g w (updateLoop g dev n w).2 := by
  induction n generalizing w with
  | zero => exact ⟨hl, .refl⟩
  | succ n ih =>
      have h₁ := updateInfoTableOnce_safe dev false hl
      simp only [updateLoop]
      split
      · exact ⟨hl, .refl⟩
      · split
        · exact h₁
        · exact h₁.trans (ih h₁.layout)

/-- `nmbm_update_info_table` keeps the layout. -/
theorem updateTables_safe (hl : Layout g w) : Safe g w (updateTables g dev w).2 := by
  simp only [updateTables]
  split
  · exact ⟨hl, .refl⟩
  · exact updateLoop_safe dev _ hl

end Speedway.Nmbm
