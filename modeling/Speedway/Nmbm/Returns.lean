import Speedway.Nmbm.Budgeted
import Speedway.Nmbm.Calls
import Speedway.Nmbm.Durable

/-!
# The repair loops return

`nmbm_update_info_table_once` returns from every state: the low ends of the
`while (write_ba >= low)` loops are the ends of tables and hence not block 0. A
pass that leaves the tables dirty has turned a good block below
`mapping_blocks_top_ba` bad, and a retry of `nmbm_erase_logic_block` has moved
`mapping_blocks_top_ba` down.
-/

namespace Speedway.Nmbm

open Speedway.Lib

variable {g : Geometry} (dev : Device) {w : World}

section Once

/-- A round of `nmbn_write_verify_data` writes at least one byte. -/
theorem writeVerifyRound_returns (data : Mem) (s : Nat × Nat × Nat × Chip) :
    RoundReturns (Budgeted.writeVerifyRound g dev data) (fun _ => True) (fun s => s.2.2.1)
      (fun s r => ∀ fuel, s.2.2.1 ≤ fuel →
        writeVerifyLoop g dev data fuel s.1 s.2.1 s.2.2.1 s.2.2.2 = r) s := by
  obtain ⟨off, pos, remain, c⟩ := s
  simp only [RoundReturns, Budgeted.writeVerifyRound]
  by_cases h0 : remain = 0
  · subst h0
    simp only [if_true]
    refine .inl ⟨_, .const _, fun fuel _ => ?_⟩
    cases fuel <;> simp [writeVerifyLoop]
  · have hpos : 0 < g.writesize - off % g.writesize :=
      Nat.sub_pos_of_lt (Nat.mod_lt _ g.writesize_pos)
    have hlt : remain - min (g.writesize - off % g.writesize) remain < remain := by omega
    have hloop (r : Bool × Chip) (h : ∀ fuel, remain ≤ fuel + 1 →
        writeVerifyLoop g dev data (fuel + 1) off pos remain c = r) (fuel : Nat)
        (hfuel : remain ≤ fuel) : writeVerifyLoop g dev data fuel off pos remain c = r := by
      obtain ⟨fuel, rfl⟩ := Nat.exists_eq_succ_of_ne_zero (show fuel ≠ 0 by omega)
      exact h fuel hfuel
    simp only [if_neg h0]
    split
    next hwr =>
      refine .inl ⟨_, .const _, hloop _ fun fuel _ => ?_⟩
      simp only [writeVerifyLoop, if_neg h0, if_pos hwr]
    next hwr =>
      split
      next hret =>
        refine .inl ⟨_, .const _, hloop _ fun fuel _ => ?_⟩
        simp only [writeVerifyLoop, if_neg h0, if_neg hwr, if_pos hret]
      next hret =>
        split
        next hcmp =>
          refine .inl ⟨_, .const _, hloop _ fun fuel _ => ?_⟩
          simp only [writeVerifyLoop, if_neg h0, if_neg hwr, if_neg hret, if_pos hcmp]
        next hcmp =>
          refine .inr ⟨_, .const _, trivial, hlt, fun r hr => hloop _ fun fuel hfuel => ?_⟩
          simp only [writeVerifyLoop, if_neg h0, if_neg hwr, if_neg hret, if_neg hcmp]
          exact hr fuel (Nat.le_of_lt_succ (hlt.trans_le hfuel))

theorem writeVerifyData_returns (addr : Nat) (data : Mem) (size : Nat) (c : Chip) :
    Returns (fun n => Budgeted.writeVerifyData g dev n addr data size c)
      (writeVerifyData g dev addr data size c) := by
  obtain ⟨r, hr, hpost⟩ := budgetLoop_returns _
    (fun s _ => writeVerifyRound_returns (g := g) dev data s) (s := (addr, 0, size, c)) trivial
  rw [← hpost size (le_refl _)] at hr
  exact hr

/-- A round of the `while (write_ba >= low)` loops goes one block down. -/
theorem writeTableRound_returns {low : Nat} (hlow : 0 < low) (s : Nat × World) :
    RoundReturns (Budgeted.writeTableRound g dev low) (fun _ => True) (fun s => s.1 + 1 - low)
      (fun s r => writeTableDown g dev (s.1 + 1 - low) s.1 s.2 = r) s := by
  obtain ⟨writeBa, w⟩ := s
  simp only [RoundReturns, Budgeted.writeTableRound]
  by_cases hlt : writeBa < low
  · rw [if_pos hlt, show writeBa + 1 - low = 0 by omega]
    exact .inl ⟨_, .const _, rfl⟩
  · have hnext : subU32 writeBa 1 + 1 - low = writeBa - low := by
      rw [subU32_of_le (by omega)]
      omega
    rw [if_neg hlt, show writeBa + 1 - low = writeBa - low + 1 by omega]
    simp only [writeTableDown]
    split
    next hok => exact .inl ⟨_, .const _, rfl⟩
    next hok =>
      refine .inr ⟨_, .const _, trivial, by omega, fun r hr => ?_⟩
      rw [hnext, subU32_of_le (by omega)] at hr
      exact hr

theorem writeTableDown_returns {low : Nat} (hlow : 0 < low) (writeBa : Nat) (w : World) :
    Returns (fun n => Budgeted.writeTableDown g dev low n writeBa w)
      (writeTableDown g dev (writeBa + 1 - low) writeBa w) := by
  obtain ⟨r, hr, hpost⟩ := budgetLoop_returns _
    (fun s _ => writeTableRound_returns (g := g) dev hlow s) (s := (writeBa, w)) trivial
  rw [← hpost] at hr
  exact hr

theorem rescueBackupTable_returns {m : RangeResult} (hstop : 0 < m.stop) (w : World) :
    Returns (fun n => Budgeted.rescueBackupTable g dev n m w) (rescueBackupTable g dev m w) := by
  simp only [Budgeted.rescueBackupTable, rescueBackupTable]
  cases reserveForTable g m.stop (setMappingBlocksBa m.stop w) with
  | none => exact .const _
  | some writeBa => exact (writeTableDown_returns dev hstop writeBa _).map

theorem rescueFromTemporary_returns (t : RangeResult) :
    Returns (fun n => Budgeted.rescueFromTemporary g dev n t) (rescueFromTemporary g dev t) := by
  simp only [Budgeted.rescueFromTemporary, rescueFromTemporary]
  split
  · exact .const _
  next hok =>
    rw [Bool.not_eq_true, Bool.not_eq_false'] at hok
    split
    · exact .const _
    · exact rescueBackupTable_returns dev
        (Nat.zero_lt_of_lt (writeInfoTable_written dev hok).start_lt) _

theorem rescueMainInfoTable_returns (hba : 0 < w.ni.mappingBlocksBa) :
    Returns (fun n => Budgeted.rescueMainInfoTable g dev n w) (rescueMainInfoTable g dev w) := by
  simp only [Budgeted.rescueMainInfoTable, rescueMainInfoTable]
  cases reserveForTable g w.ni.mappingBlocksBa w with
  | none => exact .const _
  | some writeBa =>
      apply (writeTableDown_returns dev hba writeBa w).bind
      simp only
      split
      · exact .const _
      · exact rescueFromTemporary_returns dev _

theorem writeMainTable_returns (limit : Nat)
    (h : w.ni.backupTableBa ≠ 0 → 0 < w.ni.mappingBlocksBa) :
    Returns (fun n => Budgeted.writeMainTable g dev limit n w) (writeMainTable g dev limit w) := by
  have hm := writeInfoTable_maint (g := g) dev w.ni.mainTableBa limit w
  simp only [Budgeted.writeMainTable, writeMainTable]
  split
  · exact .const _
  · split
    · split
      · exact .const _
      next h0 =>
        apply rescueMainInfoTable_returns
        rw [hm.backupTableBa] at h0
        rw [hm.mappingBlocksBa]
        exact h h0
    · exact .const _

/-- `nmbm_update_info_table_once` returns from every state. -/
theorem updateInfoTableOnce_returns (force : Bool) (w : World) :
    Returns (fun n => Budgeted.updateInfoTableOnce g dev n force w)
      (updateInfoTableOnce g dev force w) := by
  simp only [Budgeted.updateInfoTableOnce, updateInfoTableOnce]
  split
  · exact .const _
  · split
    next h0 => exact writeMainTable_returns dev _ fun h => absurd h0 h
    · split
      · exact writeMainTable_returns dev _ fun h => absurd rfl h
      next hok =>
        rw [Bool.not_eq_true, Bool.not_eq_false'] at hok
        exact writeMainTable_returns dev _ fun _ =>
          Nat.zero_lt_of_lt (writeInfoTable_written dev hok).start_lt

end Once

/-- The number of good blocks below `k`. -/
def goodBelow (k : Nat) (w : World) : Nat :=
  (List.range k).countP fun b => w.blockStateOf b = stGood

/-- Each counted change of a block state has turned a good block below `k` bad. -/
def Worn (k : Nat) (w w' : World) : Prop :=
  goodBelow k w' + w'.ni.blockStateChanged = goodBelow k w + w.ni.blockStateChanged

section Worn

variable {k lo hi : Nat} {w' : World}

theorem Worn.refl : Worn k w w := rfl

theorem Worn.trans {w'' : World} (h : Worn k w w') (h' : Worn k w' w'') : Worn k w w'' :=
  Eq.trans h' h

theorem worn_setBad {ba : Nat} (hk : ba < k) (hgood : w.blockStateOf ba = stGood) :
    Worn k w (w.setBlockState ba stBad) := by
  have hcount := blockStateChanged_setBad hgood
  have hless := countP_good_setBad hk hgood
  simp only [Worn, goodBelow]
  omega

theorem useBlock_worn {work : Chip → Bool × Chip} {ba : Nat} (hk : ba < k) (w : World) :
    Worn k w (useBlock g dev work ba w).2 := by
  simp only [useBlock]
  split
  · exact .refl
  next hgood =>
    rw [not_not] at hgood
    have hbad (c : Chip) : Worn k w ({ w with chip := c }.setBlockState ba stBad) :=
      worn_setBad (w := { w with chip := c }) hk hgood
    split
    · exact hbad _
    · generalize (if (eraseBlockAndCheck g dev ba _).1 = true then _ else _) = v
      split
      · exact .refl
      · exact hbad _

theorem eraseRangeLoop_worn {n ba : Nat} (hk : ba + n ≤ k) (w : World) :
    Worn k w (eraseRangeLoop g dev n ba w) := by
  induction n generalizing ba w with
  | zero => exact .refl
  | succ n ih => exact (useBlock_worn dev (by omega) w).trans (ih (by omega) _)

theorem eraseRange_worn (lo : Nat) (hk : hi ≤ k) (w : World) :
    Worn k w (eraseRange g dev lo hi w) := by
  by_cases h : lo ≤ hi
  · exact eraseRangeLoop_worn dev (show lo + (hi - lo) ≤ k by omega) w
  · simp only [eraseRange, show hi - lo = 0 by omega]
    exact .refl

theorem writeMgmtLoop_worn {data : Mem} {size n ba : Nat} (hk : ba + n ≤ k)
    (remain start : Nat) (blocks : List Nat) (w : World) :
    Worn k w (writeMgmtLoop g dev data size n ba remain start blocks w).w := by
  induction n generalizing ba remain start blocks w with
  | zero => exact .refl
  | succ n ih =>
      simp only [writeMgmtLoop]
      split
      · exact .refl
      · split
        · exact (useBlock_worn dev (by omega) w).trans (ih (by omega) _ _ _ _)
        · exact (useBlock_worn dev (by omega) w).trans (ih (by omega) _ _ _ _)

theorem writeInfoTable_worn (lo : Nat) (hk : hi ≤ k) (w : World) :
    Worn k w (writeInfoTable g dev lo hi w).w := by
  by_cases h : lo ≤ hi
  · exact writeMgmtLoop_worn dev (show lo + (hi - lo) ≤ k by omega) _ _ _ w
  · simp only [writeInfoTable, writeMgmtRange, show hi - lo = 0 by omega]
    exact .refl

theorem writeTableDown_worn (n writeBa : Nat) (hk : w.ni.mappingBlocksTopBa ≤ k) :
    Worn k w (writeTableDown g dev n writeBa w).w := by
  induction n generalizing writeBa w with
  | zero => exact .refl
  | succ n ih =>
      have hm := writeInfoTable_maint (g := g) dev writeBa w.ni.mappingBlocksTopBa w
      have hone := writeInfoTable_worn (g := g) dev writeBa hk w
      simp only [writeTableDown]
      split
      · exact hone
      · exact hone.trans (ih (writeBa - 1) (by rw [hm.mappingBlocksTopBa]; exact hk))

end Worn

/-- The tables have been marked clean, and every later change has turned a good
block below the boundary `k` bad; `n` bounds the good blocks then. -/
structure Tidy (k n : Nat) (w : World) : Prop where
  top : w.ni.mappingBlocksTopBa = k
  mapping : w.ni.blockMappingChanged = 0
  good : goodBelow k w + w.ni.blockStateChanged ≤ n

/-- A pass keeps the boundary, and one that returns true has tidied up. -/
structure Pass (k n : Nat) (r : Bool × World) : Prop where
  top : r.2.ni.mappingBlocksTopBa = k
  tidy : r.1 = true → Tidy k n r.2

section Pass

variable {k n lo hi : Nat} {w' : World}

theorem Tidy.of_clean (htop : w.ni.mappingBlocksTopBa = k) (hn : goodBelow k w ≤ n) :
    Tidy k n w.markTablesClean :=
  ⟨htop, rfl, hn⟩

theorem Tidy.maint (h : Tidy k n w) (hm : Maint g lo hi w w') (hw : Worn k w w') :
    Tidy k n w' where
  top := hm.mappingBlocksTopBa.trans h.top
  mapping := by
    rw [hm.ni]
    exact h.mapping
  good := hw.trans_le h.good

theorem Tidy.pass (h : Tidy k n w) : Pass k n (true, w) := ⟨h.top, fun _ => h⟩

/-- Good blocks only get fewer. -/
theorem goodBelow_le (hm : Maint g lo hi w w') (hw : Worn k w w') :
    goodBelow k w' ≤ goodBelow k w := by
  have hcount := hm.count
  simp only [Worn] at hw
  omega

theorem rebuildBackupTable_tidy (h : Tidy k n w) : Tidy k n (rebuildBackupTable g dev w) := by
  have htop := h.top.le
  simp only [rebuildBackupTable]
  split
  · exact h
  next next _ =>
    have hm := writeInfoTable_maint (g := g) dev next w.ni.mappingBlocksTopBa w
    have h₁ := h.maint hm (writeInfoTable_worn dev next htop w)
    split
    · exact h₁
    next hok =>
      rw [Bool.not_eq_true, Bool.not_eq_false'] at hok
      have hw := writeInfoTable_written dev hok
      have h₂ : Tidy k n (setBackupTable (writeInfoTable g dev next w.ni.mappingBlocksTopBa w)) :=
        { h₁ with }
      refine h₂.maint (eraseRange_maint dev _ _ _) (eraseRange_worn dev _ ?_ _)
      have := hw.start_lt
      have := hw.stop_le
      omega

theorem rebuildInfoTable_pass (htop : w.ni.mappingBlocksTopBa = k) (hn : goodBelow k w ≤ n) :
    Pass k n (rebuildInfoTable g dev w) := by
  have hm := writeInfoTable_maint (g := g) dev (dropTables w).ni.mgmtStartBa
    (dropTables w).ni.mappingBlocksTopBa (dropTables w)
  have hgood := goodBelow_le hm (writeInfoTable_worn dev _ htop.le _)
  have htop' := hm.mappingBlocksTopBa.trans htop
  simp only [rebuildInfoTable]
  split
  · exact ⟨htop', fun h => absurd h Bool.false_ne_true⟩
  · exact (rebuildBackupTable_tidy dev
      (Tidy.of_clean (w := setMappingBlocksBa _ (setMainTable _)) htop' (hgood.trans hn))).pass

theorem rescueFromTemporary_tidy {t : RangeResult} {data : Mem}
    (hw : Written g lo k data g.infoTableSize t) (h : Tidy k n t.w) :
    Tidy k n (rescueFromTemporary g dev t).2 := by
  have hm := writeInfoTable_maint (g := g) dev (setMappingBlocksBa t.stop t.w).ni.mgmtStartBa
    t.start (setMappingBlocksBa t.stop t.w)
  have hstart : t.start ≤ k := by
    have := hw.start_lt
    have := hw.stop_le
    omega
  have h₁ : Tidy k n (setMappingBlocksBa t.stop t.w) := { h with }
  have h₂ := h₁.maint hm (writeInfoTable_worn dev _ hstart _)
  have hgood := Nat.le_of_add_right_le h₂.good
  simp only [rescueFromTemporary]
  split
  · exact .of_clean h₂.top hgood
  next hok =>
    rw [Bool.not_eq_true, Bool.not_eq_false'] at hok
    rw [if_pos (writeInfoTable_written dev hok).stop_le]
    exact { Tidy.of_clean (w := setMainTable _) h₂.top hgood with }

theorem rescueMainInfoTable_tidy (h : Tidy k n w) : Tidy k n (rescueMainInfoTable g dev w).2 := by
  simp only [rescueMainInfoTable]
  split
  · exact { h with }
  next writeBa hreserve =>
    have hge := reserveForTable_ge hreserve
    have h₁ := h.maint (writeReserved_maint (g := g) dev hge)
      (writeTableDown_worn dev _ writeBa h.top.le)
    split
    · exact { h₁ with }
    next hok =>
      rw [Bool.not_eq_true, Bool.not_eq_false'] at hok
      have hw := writeReserved_written dev hge hok
      rw [h.top] at hw
      exact rescueFromTemporary_tidy dev hw h₁

theorem rescueMainInfoTable_pass (h : Tidy k n w) : Pass k n (rescueMainInfoTable g dev w) :=
  have h' := rescueMainInfoTable_tidy dev h
  ⟨h'.top, fun _ => h'⟩

/-- A rewrite of the main table. When there is a backup table it has been rewritten
before. -/
theorem writeMainTable_pass {limit : Nat} (htop : w.ni.mappingBlocksTopBa = k)
    (hlimit : limit ≤ k) (hn : goodBelow k w ≤ n)
    (hbackup : w.ni.backupTableBa ≠ 0 → Tidy k n w) :
    Pass k n (writeMainTable g dev limit w) := by
  have hm := writeInfoTable_maint (g := g) dev w.ni.mainTableBa limit w
  have hw := writeInfoTable_worn (g := g) dev w.ni.mainTableBa hlimit w
  have htop' := hm.mappingBlocksTopBa.trans htop
  have hgood := (goodBelow_le hm hw).trans hn
  simp only [writeMainTable]
  split
  · exact rebuildInfoTable_pass dev htop hn
  · split
    · split
      · exact rebuildInfoTable_pass dev htop' hgood
      next h0 =>
        rw [hm.backupTableBa] at h0
        exact rescueMainInfoTable_pass dev ((hbackup h0).maint hm hw)
    · split
      · exact (Tidy.of_clean (w := setMappingBlocksBa _ (setMainTable _)) htop' hgood).pass
      · exact (Tidy.of_clean (w := setMainTable _) htop' hgood).pass

/-- A pass over dirty tables. -/
theorem updateInfoTableOnce_pass (hdirty : w.dirty = true) :
    Pass w.ni.mappingBlocksTopBa (goodBelow w.ni.mappingBlocksTopBa w)
      (updateInfoTableOnce g dev false w) := by
  have hgen : (generateInfoTableCache g w).1 = true := hdirty
  have hm := writeInfoTable_maint (g := g) dev (generateInfoTableCache g w).2.ni.backupTableBa
    (generateInfoTableCache g w).2.ni.mappingBlocksTopBa (generateInfoTableCache g w).2
  have hgood := goodBelow_le hm (writeInfoTable_worn dev _ (le_refl _) _)
  simp only [updateInfoTableOnce, hgen, Bool.not_true, Bool.false_and, Bool.false_eq_true,
    if_false]
  split
  next h0 => exact writeMainTable_pass dev rfl (le_refl _) (le_refl _) fun h => absurd h0 h
  · split
    · refine writeMainTable_pass dev hm.mappingBlocksTopBa ?_ hgood fun h => absurd rfl h
      exact hm.mappingBlocksTopBa.le
    next hok =>
      rw [Bool.not_eq_true, Bool.not_eq_false'] at hok
      have hw := writeInfoTable_written dev hok
      refine writeMainTable_pass dev hm.mappingBlocksTopBa ?_ hgood fun _ =>
        Tidy.of_clean (w := setBackupTable _) hm.mappingBlocksTopBa hgood
      have := hw.start_lt
      have := hw.stop_le
      show (writeInfoTable g dev _ _ _).start ≤ (generateInfoTableCache g w).2.ni.mappingBlocksTopBa
      omega

end Pass

section Loops

/-- Nothing is left to do when the tables are clean; otherwise the good blocks below
the boundary bound the passes. -/
def passesLeft (w : World) : Nat :=
  if w.dirty then goodBelow w.ni.mappingBlocksTopBa w + 1 else 0

/-- The second part says that from a proper layout the loop that counts its rounds
has the same result, whatever number of rounds above that of the good blocks it gets. -/
theorem updateRound_returns (w : World) :
    RoundReturns (Budgeted.updateRound g dev) (fun _ => True) passesLeft
      (fun w r => r.2.ni.mappingBlocksTopBa = w.ni.mappingBlocksTopBa ∧
        (Layout g w → ∀ n, goodCount g w < n → updateLoop g dev n w = r)) w := by
  simp only [RoundReturns, Budgeted.updateRound]
  cases hd : w.dirty with
  | false =>
      simp only [Bool.not_false, if_true]
      exact .inl ⟨_, .const _, rfl, fun _ _ _ => updateLoop_of_clean dev hd⟩
  | true =>
      have hp := updateInfoTableOnce_pass (g := g) dev hd
      have hone := (updateInfoTableOnce_returns (g := g) dev false w).map
        (f := fun r => if !r.1 then Round.leave (false, r.2) else Round.again r.2)
      have hloop (n : Nat) (hn : goodCount g w < n) : ∃ m, n = m + 1 ∧ updateLoop g dev n w =
          if !(updateInfoTableOnce g dev false w).1 then
            (false, (updateInfoTableOnce g dev false w).2)
          else updateLoop g dev m (updateInfoTableOnce g dev false w).2 := by
        obtain ⟨m, rfl⟩ := Nat.exists_eq_succ_of_ne_zero (show n ≠ 0 by omega)
        exact ⟨m, rfl, by
          simp only [updateLoop, hd, Bool.not_true, Bool.false_eq_true, if_false]⟩
      simp only [Bool.not_true, Bool.false_eq_true, if_false]
      cases hr : (updateInfoTableOnce g dev false w).1 with
      | false =>
          simp only [hr, Bool.not_false, if_true] at hone hloop
          refine .inl ⟨_, hone, hp.top, fun _ n hn => ?_⟩
          obtain ⟨_, -, heq⟩ := hloop n hn
          exact heq
      | true =>
          simp only [hr, Bool.not_true, Bool.false_eq_true, if_false] at hone hloop
          have htidy := hp.tidy hr
          -- a change since the last cleaning is a good block turned bad
          have hcount (h : (updateInfoTableOnce g dev false w).2.dirty = true) :
              (updateInfoTableOnce g dev false w).2.ni.blockStateChanged ≠ 0 := by
            simpa [World.dirty, htidy.mapping] using h
          refine .inr ⟨_, hone, trivial, ?_, fun r h => ⟨h.1.trans hp.top, fun hl n hn => ?_⟩⟩
          · simp only [passesLeft, hd, if_true, htidy.top]
            split
            next hdirty =>
              have := hcount hdirty
              have := htidy.good
              omega
            · omega
          · obtain ⟨m, rfl, heq⟩ := hloop n hn
            have hl' := (updateInfoTableOnce_safe dev false hl).layout
            rw [heq]
            cases hd' : (updateInfoTableOnce g dev false w).2.dirty with
            | false =>
                rw [← h.2 hl' _ (Nat.lt_succ_self _), updateLoop_of_clean dev hd',
                  updateLoop_of_clean dev hd']
            | true =>
                have hgood := (updateInfoTableOnce_stored dev hl hd hr).good
                have := hcount hd'
                exact h.2 hl' m (by omega)

/-- `nmbm_update_info_table` returns from every state, with the result of the loop
that counts its rounds if the layout is proper. -/
theorem updateInfoTable_returns (w : World) :
    ∃ r, Returns (fun n => Budgeted.updateInfoTable g dev n w) r ∧
      r.2.ni.mappingBlocksTopBa = w.ni.mappingBlocksTopBa ∧
      (Layout g w → updateInfoTable g dev w = r) := by
  have htables : ∃ r, Returns (fun n => Budgeted.updateTables g dev n w) r ∧
      r.2.ni.mappingBlocksTopBa = w.ni.mappingBlocksTopBa ∧
      (Layout g w → updateTables g dev w = r) := by
    simp only [Budgeted.updateTables, updateTables]
    split
    · exact ⟨_, .const _, rfl, fun _ => rfl⟩
    · obtain ⟨r, hr, htop, hloop⟩ :=
        budgetLoop_returns _ (fun w _ => updateRound_returns (g := g) dev w) (s := w) trivial
      exact ⟨r, hr, htop, fun hl => hloop hl _ (by omega)⟩
  obtain ⟨r, hr, htop, heq⟩ := htables
  refine ⟨_, hr.map, htop, fun hl => ?_⟩
  simp only [updateInfoTable, heq hl]

theorem nextSpare_top {pb : Nat} (h : nextSpare g w = some pb) : 0 < w.ni.mappingBlocksTopBa := by
  have := walkDescLoop_range (Nat.sub_le _ _) h
  omega

theorem mapBlock_returns (lb : Nat) (w : World) :
    ∃ r, Returns (fun n => Budgeted.mapBlock g dev n lb w) r ∧
      (r.1 = true → r.2.ni.mappingBlocksTopBa < w.ni.mappingBlocksTopBa) ∧
      (Layout g w → mapBlock g dev lb w = r) := by
  simp only [Budgeted.mapBlock, mapBlock]
  split
  · exact ⟨_, .const _, fun h => absurd h Bool.false_ne_true, fun _ => rfl⟩
  · cases hspare : nextSpare g w with
    | none =>
        obtain ⟨u, hu, -, heq⟩ := updateInfoTable_returns (g := g) dev w
        refine ⟨_, hu.map, fun h => absurd h Bool.false_ne_true, fun hl => ?_⟩
        simp only [heq hl]
    | some pb =>
        have hpos := nextSpare_top hspare
        refine ⟨_, .const _, fun _ => ?_, fun _ => rfl⟩
        show w.ni.mappingBlocksTopBa - 1 < w.ni.mappingBlocksTopBa
        omega

theorem remapLogicBlock_returns (lb pb : Nat) (w : World) :
    ∃ r, Returns (fun n => Budgeted.remapLogicBlock g dev n lb pb w) r ∧
      (r.1 = true → r.2.ni.mappingBlocksTopBa < w.ni.mappingBlocksTopBa) ∧
      (Base g w → lb < w.ni.dataBlockCount → remapLogicBlock g dev lb pb w = r) := by
  obtain ⟨r, hr, hless, heq⟩ := mapBlock_returns (g := g) dev lb w
  -- the world in which the tables are updated
  let w₁ := if r.1 then r.2 else unmapBlock lb (r.2.log (.remapFailed r.2.ni lb))
  let w₂ := if w₁.blockStateOf pb ≠ stNeedRemap then w₁.setBlockState pb stBad else w₁
  have htop : w₂.ni.mappingBlocksTopBa = r.2.ni.mappingBlocksTopBa := by
    have h₁ : w₁.ni.mappingBlocksTopBa = r.2.ni.mappingBlocksTopBa := by
      show (ite _ _ _ : World).ni.mappingBlocksTopBa = _
      split <;> rfl
    rw [← h₁]
    show (ite _ _ _ : World).ni.mappingBlocksTopBa = _
    split <;> rfl
  obtain ⟨u, hu, hutop, hueq⟩ := updateInfoTable_returns (g := g) dev w₂
  refine ⟨(r.1, u.2), hr.bind hu.map, fun h => ?_, fun hb hlb => ?_⟩
  · rw [hutop, htop]
    exact hless h
  · have hrun := remapState_run dev pb hlb (heq hb.layout)
    simp only [remapLogicBlock, heq hb.layout]
    exact congrArg (fun u => (r.1, u.2)) (hueq (hb.run hrun).layout)

theorem tryEraseBlock_top (pb : Nat) (w : World) :
    (tryEraseBlock g dev pb w).2.ni.mappingBlocksTopBa = w.ni.mappingBlocksTopBa := by
  simp only [tryEraseBlock]
  repeat' split
  all_goals rfl

/-- A retry has moved the boundary down. -/
theorem eraseRound_returns (lb : Nat) (w : World) :
    RoundReturns (Budgeted.eraseRound g dev lb) (fun _ => True)
      (fun w => w.ni.mappingBlocksTopBa)
      (fun w r => Base g w → lb < g.blockCount → ∀ n, w.ni.mappingBlocksTopBa < n →
        eraseLogicLoop g dev lb n w = r) w := by
  -- the counted loop gets at least one round
  have hloop {r : Int × World} (h : ∀ m, w.ni.mappingBlocksTopBa ≤ m →
      eraseLogicLoop g dev lb (m + 1) w = r) (n : Nat) (hn : w.ni.mappingBlocksTopBa < n) :
      eraseLogicLoop g dev lb n w = r := by
    obtain ⟨m, rfl⟩ := Nat.exists_eq_succ_of_ne_zero (show n ≠ 0 by omega)
    exact h m (by omega)
  simp only [RoundReturns, Budgeted.eraseRound]
  split
  next hneg =>
    refine .inl ⟨_, .const _, fun _ _ => hloop fun m _ => ?_⟩
    simp only [eraseLogicLoop, if_pos hneg]
  next hneg =>
    split
    next htry =>
      refine .inl ⟨_, .const _, fun _ _ => hloop fun m _ => ?_⟩
      simp only [eraseLogicLoop, if_neg hneg, if_pos htry]
    next htry =>
      obtain ⟨r, hr, hless, heq⟩ := remapLogicBlock_returns (g := g) dev lb
        (w.ni.blockMapping lb).toNat (tryEraseBlock g dev (w.ni.blockMapping lb).toNat w).2
      have hround := hr.map
        (f := fun r => if !r.1 then Round.leave (-eIo, r.2) else Round.again r.2)
      have hremap (hb : Base g w) (hlb : lb < g.blockCount) :
          Run g dev w r.2 ∧ remapLogicBlock g dev lb (w.ni.blockMapping lb).toNat
            (tryEraseBlock g dev (w.ni.blockMapping lb).toNat w).2 = r := by
        have hlt := hb.lt_count hlb (not_lt.mp hneg)
        have hrun := tryEraseBlock_run (g := g) dev hlt
          (show w.ni.blockMapping lb = ((w.ni.blockMapping lb).toNat : Nat) by omega)
        have hcount := hlt.trans_le (hb.count_le hrun)
        have hr' := heq (hb.run hrun) hcount
        refine ⟨?_, hr'⟩
        rw [← hr']
        exact hrun.trans (remapLogicBlock_run dev _ hcount)
      rw [tryEraseBlock_top] at hless
      cases hok : r.1 with
      | false =>
          simp only [hok, Bool.not_false, if_true] at hround
          refine .inl ⟨_, hround, fun hb hlb => hloop fun m _ => ?_⟩
          simp only [eraseLogicLoop, if_neg hneg, if_neg htry, (hremap hb hlb).2, hok,
            Bool.not_false, if_true]
      | true =>
          simp only [hok, Bool.not_true, Bool.false_eq_true, if_false] at hround
          refine .inr ⟨_, hround, trivial, hless hok, fun _ h hb hlb => hloop fun m hm => ?_⟩
          obtain ⟨hrun, hr'⟩ := hremap hb hlb
          simp only [eraseLogicLoop, if_neg hneg, if_neg htry, hr', hok, Bool.not_true,
            Bool.false_eq_true, if_false]
          exact h (hb.run hrun) hlb m ((hless hok).trans_le hm)

/-- `nmbm_erase_logic_block` returns from every state, with the result of the loop
that counts its rounds if the state is one that creation and calls lead to. -/
theorem eraseLogicBlock_returns (lb : Nat) (w : World) :
    ∃ r, Returns (fun n => Budgeted.eraseLogicBlock g dev n lb w) r ∧
      (Base g w → lb < g.blockCount → eraseLogicBlock g dev lb w = r) := by
  obtain ⟨r, hr, heq⟩ :=
    budgetLoop_returns _ (fun w _ => eraseRound_returns (g := g) dev lb w) (s := w) trivial
  exact ⟨r, hr, fun hb hlb => heq hb hlb _ (Nat.lt_succ_self _)⟩

/-- From every state and whatever the chip does, writing a chunk of a table,
`nmbm_update_info_table` and `nmbm_erase_logic_block` return. -/
theorem repair_loops_return (g : Geometry) (dev : Device) (w : World) :
    (∀ addr data size c,
      ∃ r, Returns (fun n => Budgeted.writeVerifyData g dev n addr data size c) r) ∧
    (∃ r, Returns (fun n => Budgeted.updateInfoTable g dev n w) r) ∧
    ∀ lb, ∃ r, Returns (fun n => Budgeted.eraseLogicBlock g dev n lb w) r := by
  refine ⟨fun addr data size c => ⟨_, writeVerifyData_returns dev addr data size c⟩, ?_,
    fun lb => ?_⟩
  · obtain ⟨r, hr, -⟩ := updateInfoTable_returns (g := g) dev w
    exact ⟨r, hr⟩
  · obtain ⟨r, hr, -⟩ := eraseLogicBlock_returns (g := g) dev lb w
    exact ⟨r, hr⟩

end Loops

end Speedway.Nmbm
