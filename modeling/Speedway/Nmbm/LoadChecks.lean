import Speedway.Lib.Scan
import Speedway.Nmbm.Sample
import Speedway.Nmbm.Search
import Speedway.Nmbm.Written

/-!
# What attaching to an existing chip checks

`nmbm_attach` takes the offsets of the two tables, the mapping entries and the
number of data blocks from flash. This module says which bytes of the cache
`nmbm_check_info_table` reads, which checks are made on the entries, and which
conditions on the images are left for the loaded mapping to be valid.
-/

namespace Speedway.Nmbm

open Speedway.Lib

instance (ni : Instance) (stop e : Nat) : Decidable (EntryAccepted ni stop e) :=
  inferInstanceAs (Decidable (_ ∧ _))

/-- A call of `nmbm_check_info_table`: the instance with the image in its cache,
the blocks of the table, and whether a table has been loaded before. -/
structure TableCheck where
  ni : Instance
  start : Nat
  stop : Nat
  tableLoaded : Bool

namespace TableCheck

/-- The header of the image. -/
def header (k : TableCheck) : InfoTableHeader := .ofMem k.ni.infoTableCache

/-- The mapping entries of the image as unsigned words. -/
def entry (k : TableCheck) (lb : Nat) : Nat :=
  (k.ni.infoTableCache.shift k.header.mappingTableOff).word lb

/-- The table is valid for `nmbm_check_info_table`. -/
def passes (k : TableCheck) : Bool := (checkInfoTable k.ni k.start k.stop).isSome

/-- `nmbm_try_load_info_table` copies the table into the instance. -/
def adopts (k : TableCheck) : Bool :=
  k.passes && (!k.tableLoaded || decide (k.ni.infoTable.writeCount < k.header.writeCount))

/-- The mapping loop returns at this entry. -/
def rejectsEntry (k : TableCheck) (lb : Nat) : Bool :=
  !decide (EntryAccepted k.ni k.stop (k.entry lb))

/-- The block is good for the instance, so that its state in the image is read. -/
def looksAt (k : TableCheck) (b : Nat) : Bool := getBlockStateRaw k.ni.blockState b == stGood

/-- The state loop returns at this block. -/
def rejectsState (k : TableCheck) (b : Nat) : Bool :=
  k.looksAt b && !(getBlockStateRaw (imageState k.ni.infoTableCache) b == stGood)

/-- The reads of the mapping loop, as offset and length. -/
def mappingReads (k : TableCheck) : List (Nat × Nat) :=
  (visited k.rejectsEntry k.ni.dataBlockCount 0).map fun lb =>
    (k.header.mappingTableOff + 4 * lb, 4)

/-- The reads of the state loop, which runs when no entry is rejected. -/
def stateReads (k : TableCheck) : List (Nat × Nat) :=
  if ∀ lb < k.ni.dataBlockCount, k.rejectsEntry lb = false then
    ((visited k.rejectsState (k.stop - k.start) k.start).filter k.looksAt).map fun b =>
      (k.header.stateTableOff + 4 * (b / 16), 4)
  else []

/-- The two copies out of the image. -/
def copyReads (g : Geometry) (k : TableCheck) : List (Nat × Nat) :=
  if k.adopts then
    [(k.header.stateTableOff, g.stateTableSize), (k.header.mappingTableOff, g.mappingTableSize)]
  else []

/-- All reads of the state and the mapping table stay inside the image. -/
def ReadsInside (g : Geometry) (k : TableCheck) : Prop :=
  ∀ r ∈ k.mappingReads ++ k.stateReads ++ k.copyReads g, r.1 + r.2 ≤ g.infoTableSize

/-- The offsets of the header leave room for the entries up to the first rejected
one, for the state words up to the first rejected block, and for the copies. -/
structure HasRoom (g : Geometry) (k : TableCheck) : Prop where
  mapping : ∀ lb, lb < k.ni.dataBlockCount →
    (∀ j, j < lb → EntryAccepted k.ni k.stop (k.entry j)) →
    k.header.mappingTableOff + 4 * lb + 4 ≤ g.infoTableSize
  state : (∀ lb, lb < k.ni.dataBlockCount → EntryAccepted k.ni k.stop (k.entry lb)) →
    ∀ b, k.start ≤ b → b < k.stop → k.looksAt b = true →
    (∀ b', k.start ≤ b' → b' < b → k.rejectsState b' = false) →
    k.header.stateTableOff + 4 * (b / 16) + 4 ≤ g.infoTableSize
  copy : k.adopts = true → k.header.stateTableOff + g.stateTableSize ≤ g.infoTableSize ∧
    k.header.mappingTableOff + g.mappingTableSize ≤ g.infoTableSize

variable {g : Geometry} {k : TableCheck}

theorem rejectsEntry_eq_false {lb : Nat} :
    k.rejectsEntry lb = false ↔ EntryAccepted k.ni k.stop (k.entry lb) := by
  simp [rejectsEntry]

theorem mappingReads_inside : (∀ r ∈ k.mappingReads, r.1 + r.2 ≤ g.infoTableSize) ↔
    ∀ lb, lb < k.ni.dataBlockCount → (∀ j, j < lb → EntryAccepted k.ni k.stop (k.entry j)) →
      k.header.mappingTableOff + 4 * lb + 4 ≤ g.infoTableSize := by
  simp only [mappingReads, List.forall_mem_map, mem_visited, Nat.zero_le, true_and, Nat.zero_add,
    true_implies, rejectsEntry_eq_false, and_imp]

theorem stateReads_inside : (∀ r ∈ k.stateReads, r.1 + r.2 ≤ g.infoTableSize) ↔
    ((∀ lb, lb < k.ni.dataBlockCount → EntryAccepted k.ni k.stop (k.entry lb)) →
      ∀ b, k.start ≤ b → b < k.stop → k.looksAt b = true →
      (∀ b', k.start ≤ b' → b' < b → k.rejectsState b' = false) →
      k.header.stateTableOff + 4 * (b / 16) + 4 ≤ g.infoTableSize) := by
  simp only [stateReads, rejectsEntry_eq_false]
  split
  · next hall =>
      simp only [List.forall_mem_map, List.mem_filter, mem_visited, and_imp]
      constructor
      · intro h _ b h₁ h₂ hlook hprev
        exact h b h₁ (by omega) hprev hlook
      · intro h b h₁ h₂ hprev hlook
        exact h hall b h₁ (by omega) hlook hprev
  · next hnot =>
      simp only [List.not_mem_nil, false_implies, implies_true, true_iff]
      intro hall
      exact absurd hall hnot

/-- The reads of a check stay inside the image exactly when there is room. -/
theorem readsInside_iff : k.ReadsInside g ↔ k.HasRoom g := by
  simp only [ReadsInside, List.forall_mem_append, mappingReads_inside, stateReads_inside]
  have hcopy : (∀ r ∈ k.copyReads g, r.1 + r.2 ≤ g.infoTableSize) ↔
      (k.adopts = true → k.header.stateTableOff + g.stateTableSize ≤ g.infoTableSize ∧
        k.header.mappingTableOff + g.mappingTableSize ≤ g.infoTableSize) := by
    simp only [copyReads]
    split <;> simp_all
  rw [hcopy]
  constructor
  · rintro ⟨⟨h₁, h₂⟩, h₃⟩
    exact ⟨h₁, h₂, h₃⟩
  · intro h
    exact ⟨⟨h.mapping, h.state⟩, h.copy⟩

/-- The comparisons that the source leaves out: with offsets that do not wrap
around and no more data blocks than blocks, there is room. -/
theorem HasRoom.of_offsets (hheader : checkInfoTableHeader g.toLowerDevice
      k.ni.infoTableCache = true)
    (hstate : k.header.stateTableOff ≤ k.header.mappingTableOff)
    (hmapping : k.header.mappingTableOff ≤ g.infoTableSize)
    (hcount : k.ni.dataBlockCount ≤ g.blockCount) (hstop : k.stop ≤ g.blockCount) :
    k.HasRoom g := by
  -- the header check with the two subtractions unwrapped
  have hsizes : g.stateTableSize ≤ k.header.mappingTableOff - k.header.stateTableOff ∧
      g.mappingTableSize ≤ g.infoTableSize - k.header.mappingTableOff := by
    simp only [checkInfoTableHeader] at hheader
    repeat' split at hheader
    all_goals try exact absurd hheader Bool.false_ne_true
    next hst hmap =>
      rw [Nat.not_lt] at hst hmap
      exact ⟨hst.trans_eq (subU32_of_le hstate), hmap.trans_eq (subU32_of_le hmapping)⟩
  have hmapSize : g.mappingTableSize = g.blockCount * 4 := rfl
  have hstateSize : g.stateTableSize = (g.blockCount + 15) / 16 * 4 := rfl
  refine ⟨fun lb hlb _ => by omega, fun _ b _ hb _ _ => ?_, fun _ => by omega⟩
  have hword : b / 16 + 1 ≤ (g.blockCount + 15) / 16 := by omega
  omega

end TableCheck

/-- The checks of a run. -/
def World.checks (w : World) : List TableCheck :=
  w.trace.filterMap fun
    | .checkTable ni start stop tableLoaded => some ⟨ni, start, stop, tableLoaded⟩
    | _ => none

/-- What the loaded mapping and its checks are about. -/
structure SameLoad (w w' : World) : Prop where
  signature : w'.ni.signature = w.ni.signature
  signatureBa : w'.ni.signatureBa = w.ni.signatureBa
  dataBlockCount : w'.ni.dataBlockCount = w.ni.dataBlockCount
  blockMapping : w'.ni.blockMapping = w.ni.blockMapping
  checks : w'.checks = w.checks

namespace SameLoad

variable {w w' w'' : World}

theorem refl : SameLoad w w := ⟨rfl, rfl, rfl, rfl, rfl⟩

theorem trans (h : SameLoad w w') (h' : SameLoad w' w'') : SameLoad w w'' where
  signature := h'.signature.trans h.signature
  signatureBa := h'.signatureBa.trans h.signatureBa
  dataBlockCount := h'.dataBlockCount.trans h.dataBlockCount
  blockMapping := h'.blockMapping.trans h.blockMapping
  checks := h'.checks.trans h.checks

/-- Maintenance of a range of blocks checks no table. -/
theorem of_maint {g : Geometry} {lo hi : Nat} (h : Maint g lo hi w w') : SameLoad w w' where
  signature := by rw [h.ni]
  signatureBa := by rw [h.ni]
  dataBlockCount := by rw [h.ni]
  blockMapping := by rw [h.ni]
  checks := by
    obtain ⟨new, htrace, hnew⟩ := h.trace
    have hnil : new.filterMap (fun
        | .checkTable ni start stop tableLoaded => some ⟨ni, start, stop, tableLoaded⟩
        | _ => none) = ([] : List TableCheck) := by
      rw [List.filterMap_eq_nil_iff]
      intro e he
      obtain ⟨before, ops, rfl, -⟩ := hnew e he
      rfl
    rw [World.checks, htrace, List.filterMap_append, hnil, List.append_nil]
    rfl

theorem clean (h : SameLoad w w') : SameLoad w w'.markTablesClean where
  signature := h.signature
  signatureBa := h.signatureBa
  dataBlockCount := h.dataBlockCount
  blockMapping := h.blockMapping
  checks := by
    rw [← h.checks]
    show (w'.trace ++ [Event.markTablesClean w'.ni]).filterMap _ = _
    simp [World.checks]

end SameLoad

section Tables

variable {g : Geometry} {dev : Device} {w : World}

theorem rescueSingleInfoTable_sameLoad : SameLoad w (rescueSingleInfoTable g dev w).2 := by
  have hfirst := SameLoad.of_maint
    (writeInfoTable_maint (g := g) dev w.ni.mgmtStartBa w.ni.mainTableBa w)
  simp only [rescueSingleInfoTable]
  split
  · refine .trans (.clean ?_) (.of_maint (eraseRange_maint (g := g) dev _ _ _))
    exact hfirst.trans ⟨rfl, rfl, rfl, rfl, rfl⟩
  · split
    · exact hfirst
    · next writeBa hreserve =>
        generalize (writeInfoTable g dev w.ni.mgmtStartBa w.ni.mainTableBa w).w = w₁ at *
        have hdown := SameLoad.of_maint (writeTableDown_maint (g := g) dev
          (writeBa + 1 - w₁.ni.mappingBlocksBa) writeBa w₁ (Nat.sub_le _ _))
        generalize writeTableDown g dev (writeBa + 1 - w₁.ni.mappingBlocksBa) writeBa w₁ = r at *
        split
        · have herase := SameLoad.of_maint
            (eraseRange_maint (g := g) dev r.w.ni.mappingBlocksBa r.start r.w)
          exact .clean (hfirst.trans (hdown.trans (herase.trans ⟨rfl, rfl, rfl, rfl, rfl⟩)))
        · exact hfirst.trans hdown

theorem updateSingleInfoTable_sameLoad (main : Bool) :
    SameLoad w (updateSingleInfoTable g dev main w).2 := by
  simp only [updateSingleInfoTable]
  split
  · have hwrite := SameLoad.of_maint
      (writeInfoTable_maint (g := g) dev w.ni.mainTableBa w.ni.backupTableBa w)
    split
    · exact .clean (hwrite.trans ⟨rfl, rfl, rfl, rfl, rfl⟩)
    · refine .trans ?_ rescueSingleInfoTable_sameLoad
      exact hwrite.trans ⟨rfl, rfl, rfl, rfl, rfl⟩
  · have hwrite := SameLoad.of_maint
      (writeInfoTable_maint (g := g) dev w.ni.backupTableBa w.ni.mappingBlocksTopBa w)
    split
    · exact .clean (hwrite.trans ⟨rfl, rfl, rfl, rfl, rfl⟩)
    · exact hwrite.trans ⟨rfl, rfl, rfl, rfl, rfl⟩

end Tables

section Search

variable {g : Geometry} {dev : Device} {w : World}

/-- Reading a candidate changes no more than the cache and the block states. -/
theorem readTableLoop_sameLoad (dev : Device) (n ba remain : Nat) (start : Option Nat)
    (w : World) :
    SameLoad w (readTableLoop g dev n ba remain start w).2 := by
  induction n generalizing ba remain start w with
  | zero => exact .refl
  | succ n ih =>
      simp only [readTableLoop]
      split
      · exact .refl
      split
      · exact ih ..
      split
      · refine .trans ?_ (ih ..)
        exact ⟨rfl, rfl, rfl, rfl, rfl⟩
      split
      · refine .trans ?_ (ih ..)
        exact ⟨rfl, rfl, rfl, rfl, rfl⟩
      split
      · exact ⟨rfl, rfl, rfl, rfl, rfl⟩
      split
      · exact ⟨rfl, rfl, rfl, rfl, rfl⟩
      · refine .trans ?_ (ih ..)
        exact ⟨rfl, rfl, rfl, rfl, rfl⟩

/-- The start of a table is set once. -/
theorem readTableLoop_start {n ba remain b stop first rest : Nat} {w : World}
    (h : (readTableLoop g dev n ba remain (some b) w).1 = some (stop, first, rest)) :
    first = b ∧ ba ≤ stop := by
  induction n generalizing ba remain w with
  | zero =>
      simp only [readTableLoop, Option.some.injEq, Prod.mk.injEq] at h
      exact ⟨h.2.1.symm, h.1.le⟩
  | succ n ih =>
      have hstep {remain' : Nat} {w' : World}
          (h' : (readTableLoop g dev n (ba + 1) remain' (some b) w').1 = some (stop, first, rest)) :
          first = b ∧ ba ≤ stop :=
        ⟨(ih h').1, Nat.le_of_succ_le (ih h').2⟩
      simp only [readTableLoop] at h
      split at h
      · simp only [Option.some.injEq, Prod.mk.injEq] at h
        exact ⟨h.2.1.symm, h.1.le⟩
      split at h
      · exact hstep h
      split at h
      · exact hstep h
      split at h
      · exact hstep h
      split at h
      · exact absurd h (by simp)
      split at h
      · exact absurd h (by simp)
      · exact hstep h

/-- A complete table starts at or after the candidate and before its end. -/
theorem readTableLoop_bounds {n ba remain stop first : Nat} {w : World} (hpos : 0 < remain)
    (h : (readTableLoop g dev n ba remain none w).1 = some (stop, first, 0)) :
    ba ≤ first ∧ first < stop := by
  induction n generalizing ba remain w with
  | zero =>
      simp only [readTableLoop, Option.some.injEq, Prod.mk.injEq] at h
      omega
  | succ n ih =>
      have hstep {w' : World}
          (h' : (readTableLoop g dev n (ba + 1) remain none w').1 = some (stop, first, 0)) :
          ba ≤ first ∧ first < stop :=
        ⟨Nat.le_of_succ_le (ih hpos h').1, (ih hpos h').2⟩
      simp only [readTableLoop] at h
      split at h
      · omega
      split at h
      · exact hstep h
      split at h
      · exact hstep h
      split at h
      · exact hstep h
      split at h
      · exact absurd h (by simp)
      split at h
      · exact absurd h (by simp)
      · obtain ⟨rfl, hle⟩ := readTableLoop_start h
        exact ⟨le_refl _, hle⟩

/-- `ni->block_mapping` after the check. -/
def TableCheck.mappingAfter (g : Geometry) (bm : Nat → Int) (k : TableCheck) : Nat → Int :=
  if k.adopts then fun lb =>
    if lb < g.blockCount then imageMapping k.ni.infoTableCache lb else bm lb
  else bm

/-- What the instance has after a check, when `k` is the check made on `w`. -/
structure Checked (g : Geometry) (w w' : World) (k : TableCheck) : Prop where
  signature : w'.ni.signature = w.ni.signature
  signatureBa : w'.ni.signatureBa = w.ni.signatureBa ∧ k.ni.signatureBa = w.ni.signatureBa
  dataBlockCount : w'.ni.dataBlockCount = w.ni.dataBlockCount ∧
    k.ni.dataBlockCount = w.ni.dataBlockCount
  checks : w'.checks = w.checks ++ [k]
  blockMapping : w'.ni.blockMapping = k.mappingAfter g w.ni.blockMapping

/-- A candidate is either given up before the check, or checked once. -/
theorem tryLoadInfoTable_checks (dev : Device) (ba : Nat) (tableLoaded : Bool) (w : World) :
    ((tryLoadInfoTable g dev ba tableLoaded w).ok = false ∧
      SameLoad w (tryLoadInfoTable g dev ba tableLoaded w).w) ∨
    ∃ k : TableCheck, Checked g w (tryLoadInfoTable g dev ba tableLoaded w).w k ∧
      k.passes = (tryLoadInfoTable g dev ba tableLoaded w).ok ∧ k.tableLoaded = tableLoaded ∧
      ba ≤ k.start ∧ k.start < k.stop ∧
      (tryLoadInfoTable g dev ba tableLoaded w).stop = k.stop := by
  have hsame := readTableLoop_sameLoad (g := g) dev (g.size2blk g.infoTableSize) ba
    g.infoTableSize none w
  simp only [tryLoadInfoTable]
  generalize hr : readTableLoop g dev (g.size2blk g.infoTableSize) ba g.infoTableSize none w = r
    at hsame
  split
  · exact .inl ⟨rfl, hsame⟩
  · next stop start remain hfound =>
      split
      · exact .inl ⟨rfl, hsame⟩
      split
      · exact .inl ⟨rfl, hsame⟩
      · next hremain _ =>
          rw [ne_eq, not_not] at hremain
          subst hremain
          have hsize : 0 < g.infoTableSize := by
            have := g.infoTableSize_ge
            omega
          have hloop : (readTableLoop g dev (g.size2blk g.infoTableSize) ba g.infoTableSize none
              w).1 = some (stop, start, 0) := by rw [hr]; exact hfound
          have hbounds := readTableLoop_bounds hsize hloop
          -- the world with the check logged
          have hchecks : (r.2.log (.checkTable r.2.ni start stop tableLoaded)).checks =
              w.checks ++ [⟨r.2.ni, start, stop, tableLoaded⟩] := by
            rw [← hsame.checks]
            simp [World.checks, World.log]
          have hni : (r.2.log (.checkTable r.2.ni start stop tableLoaded)).ni = r.2.ni := rfl
          generalize r.2.log (.checkTable r.2.ni start stop tableLoaded) = w₂ at hchecks hni ⊢
          refine .inr ⟨⟨r.2.ni, start, stop, tableLoaded⟩, ?_⟩
          rw [← hni] at hchecks ⊢
          have hsig : w₂.ni.signatureBa = w.ni.signatureBa := by rw [hni, hsame.signatureBa]
          have hcount : w₂.ni.dataBlockCount = w.ni.dataBlockCount := by
            rw [hni, hsame.dataBlockCount]
          have hsignature : w₂.ni.signature = w.ni.signature := by rw [hni, hsame.signature]
          have hmap : w₂.ni.blockMapping = w.ni.blockMapping := by rw [hni, hsame.blockMapping]
          split
          · next hcheck =>
              have hpasses : (TableCheck.mk w₂.ni start stop tableLoaded).passes = false := by
                simp [TableCheck.passes, hcheck]
              refine ⟨⟨hsignature, ⟨hsig, hsig⟩, ⟨hcount, hcount⟩, hchecks, ?_⟩, hpasses, rfl,
                hbounds.1, hbounds.2, rfl⟩
              rw [TableCheck.mappingAfter, if_neg (by simp [TableCheck.adopts, hpasses])]
              exact hmap
          · next top hcheck =>
              have hpasses : (TableCheck.mk w₂.ni start stop tableLoaded).passes = true := by
                simp [TableCheck.passes, hcheck]
              have hadopts : (TableCheck.mk w₂.ni start stop tableLoaded).adopts = true ↔
                  (!tableLoaded) = true ∨ w₂.ni.infoTable.writeCount <
                    (InfoTableHeader.ofMem w₂.ni.infoTableCache).writeCount := by
                rw [TableCheck.adopts, hpasses, Bool.true_and, Bool.or_eq_true, decide_eq_true_iff]
                exact Iff.rfl
              by_cases hadopt : (!tableLoaded) = true ∨ w₂.ni.infoTable.writeCount <
                  (InfoTableHeader.ofMem w₂.ni.infoTableCache).writeCount
              · dsimp only
                rw [if_pos hadopt]
                refine ⟨⟨hsignature, ⟨hsig, hsig⟩, ⟨hcount, hcount⟩, hchecks, ?_⟩, hpasses, rfl,
                  hbounds.1, hbounds.2, rfl⟩
                rw [TableCheck.mappingAfter, if_pos (hadopts.mpr hadopt), ← hmap]
                rfl
              · dsimp only
                rw [if_neg hadopt]
                refine ⟨⟨hsignature, ⟨hsig, hsig⟩, ⟨hcount, hcount⟩, hchecks, ?_⟩, hpasses, rfl,
                  hbounds.1, hbounds.2, rfl⟩
                rw [TableCheck.mappingAfter, if_neg (fun h => hadopt (hadopts.mp h))]
                exact hmap

/-- A search checks candidates until one passes. -/
structure Searched (g : Geometry) (tableLoaded : Bool) (ba : Nat) (w : World) (s : SearchResult)
    (pre : List TableCheck) (found : Option TableCheck) : Prop where
  signature : s.w.ni.signature = w.ni.signature
  signatureBa : s.w.ni.signatureBa = w.ni.signatureBa
  dataBlockCount : s.w.ni.dataBlockCount = w.ni.dataBlockCount
  checks : s.w.checks = w.checks ++ pre ++ found.toList
  rejected : ∀ k ∈ pre, k.passes = false
  ok : s.ok = found.isSome
  passes : ∀ k ∈ found, k.passes = true ∧ k.tableLoaded = tableLoaded
  range : ∀ k ∈ found, ba ≤ k.start ∧ k.start < k.stop ∧ s.stop = k.stop
  asked : ∀ k ∈ found, k.ni.signatureBa = w.ni.signatureBa ∧
    k.ni.dataBlockCount = w.ni.dataBlockCount
  blockMapping : s.w.ni.blockMapping =
    found.elim w.ni.blockMapping (·.mappingAfter g w.ni.blockMapping)

theorem searchLoop_searched (dev : Device) (tableLoaded : Bool) (n ba : Nat) (w : World) :
    ∃ pre found, Searched g tableLoaded ba w (searchLoop g dev tableLoaded n ba w) pre found := by
  induction n generalizing ba w with
  | zero =>
      refine ⟨[], none, ⟨rfl, rfl, rfl, ?_, ?_, rfl, ?_, ?_, ?_, rfl⟩⟩
      all_goals simp [searchLoop, LoadResult.fail]
  | succ n ih =>
      simp only [searchLoop]
      have htry := tryLoadInfoTable_checks (g := g) dev ba tableLoaded w
      generalize tryLoadInfoTable g dev ba tableLoaded w = r at htry ⊢
      obtain ⟨pre, found, hrest⟩ := ih (ba + 1) r.w
      rcases htry with ⟨hfail, hsame⟩ | ⟨k, hk, hpasses, hloaded, hstart, hstop, hend⟩
      · -- the candidate was given up
        rw [hfail, if_neg Bool.false_ne_true]
        refine ⟨pre, found, ?_⟩
        exact {
          signature := hrest.signature.trans hsame.signature
          signatureBa := hrest.signatureBa.trans hsame.signatureBa
          dataBlockCount := hrest.dataBlockCount.trans hsame.dataBlockCount
          checks := by rw [hrest.checks, hsame.checks]
          rejected := hrest.rejected
          ok := hrest.ok
          passes := hrest.passes
          range := fun k hk => ⟨Nat.le_of_succ_le (hrest.range k hk).1, (hrest.range k hk).2⟩
          asked := fun k hk => by
            rw [← hsame.signatureBa, ← hsame.dataBlockCount]
            exact hrest.asked k hk
          blockMapping := by
            rw [hrest.blockMapping, hsame.blockMapping] }
      · cases hok : r.ok with
        | true =>
            rw [if_pos rfl]
            refine ⟨[], some k, ?_⟩
            exact {
              signature := hk.signature
              signatureBa := hk.signatureBa.1
              dataBlockCount := hk.dataBlockCount.1
              checks := by simpa using hk.checks
              rejected := by simp
              ok := hok
              passes := by
                rintro _ ⟨⟩
                exact ⟨hpasses.trans hok, hloaded⟩
              range := by
                rintro _ ⟨⟩
                exact ⟨hstart, hstop, hend⟩
              asked := by
                rintro _ ⟨⟩
                exact ⟨hk.signatureBa.2, hk.dataBlockCount.2⟩
              blockMapping := hk.blockMapping }
        | false =>
            rw [if_neg Bool.false_ne_true]
            have hmap : r.w.ni.blockMapping = w.ni.blockMapping := by
              rw [hk.blockMapping, TableCheck.mappingAfter, if_neg]
              simp [TableCheck.adopts, hpasses, hok]
            refine ⟨k :: pre, found, ?_⟩
            exact {
              signature := hrest.signature.trans hk.signature
              signatureBa := hrest.signatureBa.trans hk.signatureBa.1
              dataBlockCount := hrest.dataBlockCount.trans hk.dataBlockCount.1
              checks := by
                rw [hrest.checks, hk.checks]
                simp
              rejected := by
                intro k' hk'
                rcases List.mem_cons.mp hk' with rfl | hmem
                · exact hpasses.trans hok
                · exact hrest.rejected k' hmem
              ok := hrest.ok
              passes := hrest.passes
              range := fun k hk => ⟨Nat.le_of_succ_le (hrest.range k hk).1, (hrest.range k hk).2⟩
              asked := fun k' hk' => by
                rw [← hk.signatureBa.1, ← hk.dataBlockCount.1]
                exact hrest.asked k' hk'
              blockMapping := by
                rw [hrest.blockMapping, hmap] }

/-- The checks of a run that has loaded tables: `k` is the last one that adopts
its table, and every table accepted before lies between the data blocks and it. -/
structure LoadedFrom (g : Geometry) (n sig : Nat) (bm : Nat → Int) (checks : List TableCheck)
    (pre : List TableCheck) (k : TableCheck) (post : List TableCheck) : Prop where
  checks : checks = pre ++ k :: post
  adopts : k.adopts = true
  post : ∀ k' ∈ post, k'.adopts = false
  below : ∀ k' ∈ pre, k'.passes = true → n ≤ k'.start ∧ k'.stop ≤ k.start
  start : n ≤ k.start
  stop : k.start < k.stop
  asked : k.ni.signatureBa = sig ∧ k.ni.dataBlockCount = n
  blockMapping : bm = fun lb =>
    if lb < g.blockCount then imageMapping k.ni.infoTableCache lb else 0

theorem adopts_eq_false {k : TableCheck} (h : k.passes = false) : k.adopts = false := by
  simp [TableCheck.adopts, h]

/-- The main table is found, and the backup table is searched after it. -/
theorem Searched.loadedFrom {n sig : Nat} {w₀ w₁ : World} {m b : SearchResult}
    {pre mid : List TableCheck} {km : TableCheck} {found : Option TableCheck}
    (hmain : Searched g false n w₀ m pre (some km)) (hsame : SameLoad m.w w₁)
    (hbackup : Searched g true m.stop w₁ b mid found) (hchecks : w₀.checks = [])
    (hmap : w₀.ni.blockMapping = fun _ => 0) (hsig : w₀.ni.signatureBa = sig)
    (hcount : w₀.ni.dataBlockCount = n) :
    ∃ pre k post, LoadedFrom g n sig b.w.ni.blockMapping b.w.checks pre k post := by
  have hkm := hmain.passes km rfl
  have hrange := hmain.range km rfl
  have hadopts : km.adopts = true := by simp [TableCheck.adopts, hkm.1, hkm.2]
  have hasked := hmain.asked km rfl
  rw [hsig, hcount] at hasked
  have hbelow (k' : TableCheck) (hk' : k' ∈ pre) (hpass : k'.passes = true) :
      n ≤ k'.start ∧ k'.stop ≤ km.start := by
    rw [hmain.rejected k' hk'] at hpass
    exact absurd hpass Bool.false_ne_true
  have hmid (k' : TableCheck) (hk' : k' ∈ mid) : k'.adopts = false :=
    adopts_eq_false (hbackup.rejected k' hk')
  have hmapMain : m.w.ni.blockMapping = fun lb =>
      if lb < g.blockCount then imageMapping km.ni.infoTableCache lb else 0 := by
    rw [hmain.blockMapping, Option.elim_some, TableCheck.mappingAfter, if_pos hadopts, hmap]
  rw [hbackup.blockMapping, hbackup.checks, hsame.blockMapping, hsame.checks, hmapMain,
    hmain.checks, hchecks, List.nil_append]
  cases found with
  | none => exact ⟨pre, km, mid, by simp, hadopts, hmid, hbelow, hrange.1, hrange.2.1, hasked, rfl⟩
  | some kb =>
      have hkb := hbackup.range kb rfl
      cases hadoptsB : kb.adopts with
      | false =>
          refine ⟨pre, km, mid ++ [kb], by simp, hadopts, ?_, hbelow, hrange.1, hrange.2.1,
            hasked, ?_⟩
          · intro k' hk'
            rcases List.mem_append.mp hk' with hk' | hk'
            · exact hmid k' hk'
            · rw [List.mem_singleton.mp hk']
              exact hadoptsB
          · rw [Option.elim_some, TableCheck.mappingAfter, hadoptsB, if_neg Bool.false_ne_true]
      | true =>
          have haskedB := hbackup.asked kb rfl
          rw [hsame.signatureBa, hmain.signatureBa, hsig, hsame.dataBlockCount,
            hmain.dataBlockCount, hcount] at haskedB
          have hstop := hrange.2.2
          refine ⟨pre ++ km :: mid, kb, [], by simp, hadoptsB, by simp, ?_, by omega, hkb.2.1,
            haskedB, ?_⟩
          · intro k' hk' hpass
            rcases List.mem_append.mp hk' with hk' | hk'
            · have := hbelow k' hk' hpass
              omega
            · rcases List.mem_cons.mp hk' with rfl | hk'
              · omega
              · rw [hbackup.rejected k' hk'] at hpass
                exact absurd hpass Bool.false_ne_true
          · rw [Option.elim_some, TableCheck.mappingAfter, hadoptsB, if_pos rfl]
            funext lb
            split <;> rfl

/-- `nmbm_load_info_table` up to the regenerated cache. -/
theorem findInfoTables_loadedFrom {ba limit : Nat} {flags : Bool × Bool}
    (hchecks : w.checks = []) (hmap : w.ni.blockMapping = fun _ => 0)
    (hba : ba = w.ni.signature.mgmtStartPb)
    (h : (findInfoTables g dev ba limit w).1 = some flags) :
    (findInfoTables g dev ba limit w).2.ni.signatureBa = w.ni.signatureBa ∧
    (findInfoTables g dev ba limit w).2.ni.dataBlockCount =
      lastMapped (findInfoTables g dev ba limit w).2.ni.blockMapping ba ba ∧
    ∃ pre k post, LoadedFrom g ba w.ni.signatureBa
      (findInfoTables g dev ba limit w).2.ni.blockMapping
      (findInfoTables g dev ba limit w).2.checks pre k post := by
  subst hba
  simp only [findInfoTables] at h ⊢
  -- the search of the main table
  generalize hw₀ : ({ w with ni := { w.ni with
      mainTableBa := 0
      backupTableBa := 0
      infoTable := { w.ni.infoTable with writeCount := 0 }
      mappingBlocksTopBa := subU32 w.ni.signatureBa 1
      dataBlockCount := w.ni.signature.mgmtStartPb } } : World) = w₀ at h ⊢
  have hchecks₀ : w₀.checks = [] := by
    rw [← hw₀]
    exact hchecks
  have hmap₀ : w₀.ni.blockMapping = fun _ => 0 := by
    rw [← hw₀]
    exact hmap
  have hsig₀ : w₀.ni.signature = w.ni.signature := by rw [← hw₀]
  have hsigBa₀ : w₀.ni.signatureBa = w.ni.signatureBa := by rw [← hw₀]
  have hcount₀ : w₀.ni.dataBlockCount = w.ni.signature.mgmtStartPb := by rw [← hw₀]
  generalize hn : w.ni.signature.mgmtStartPb = n at *
  obtain ⟨pre, found, hmain⟩ := searchLoop_searched (g := g) dev false
    (subU32 limit (g.size2blk g.infoTableSize) - n) n w₀
  change Searched g false n w₀ (searchInfoTable g dev n limit false w₀) pre found at hmain
  generalize searchInfoTable g dev n limit false w₀ = m at h hmain ⊢
  cases found with
  | none =>
      rw [hmain.ok, if_pos (by simp)] at h
      exact absurd h (by simp)
  | some km =>
      rw [hmain.ok, if_neg (by simp)]
      -- the search of the backup table
      generalize hw₁ : ({ m.w with
          ni := { m.w.ni with mainTableBa := m.start }
          mainBlocks := List.range' m.start (m.stop - m.start) } : World) = w₁
      have hsame₁ : SameLoad m.w w₁ := by
        rw [← hw₁]
        exact ⟨rfl, rfl, rfl, rfl, rfl⟩
      obtain ⟨mid, found, hbackup⟩ := searchLoop_searched (g := g) dev true
        (subU32 limit (g.size2blk g.infoTableSize) - m.stop) m.stop w₁
      change Searched g true m.stop w₁ (searchInfoTable g dev m.stop limit true w₁) mid found
        at hbackup
      generalize searchInfoTable g dev m.stop limit true w₁ = b at hbackup ⊢
      have hsigBa : b.w.ni.signatureBa = w.ni.signatureBa := by
        rw [hbackup.signatureBa, hsame₁.signatureBa, hmain.signatureBa, hsigBa₀]
      have hcount : b.w.ni.dataBlockCount = n := by
        rw [hbackup.dataBlockCount, hsame₁.dataBlockCount, hmain.dataBlockCount, hcount₀]
      have hpb : b.w.ni.signature.mgmtStartPb = n := by
        rw [hbackup.signature, hsame₁.signature, hmain.signature, hsig₀, hn]
      -- both ways to go on keep what was loaded
      generalize hw₂ : (if b.ok = true then ({ b.w with
          ni := { b.w.ni with backupTableBa := b.start, mappingBlocksBa := b.stop }
          backupBlocks := List.range' b.start (b.stop - b.start) } : World)
        else setMappingBlocksBa m.stop b.w) = w₂
      have hsame₂ : SameLoad b.w w₂ := by
        rw [← hw₂]
        split <;> exact ⟨rfl, rfl, rfl, rfl, rfl⟩
      refine ⟨hsame₂.signatureBa.trans hsigBa, ?_, ?_⟩
      · show lastMapped w₂.ni.blockMapping w₂.ni.dataBlockCount w₂.ni.signature.mgmtStartPb = _
        rw [hsame₂.dataBlockCount, hcount, hsame₂.signature, hpb]
        rfl
      · show ∃ pre k post, LoadedFrom g n w.ni.signatureBa w₂.ni.blockMapping w₂.checks pre k post
        rw [hsame₂.blockMapping, hsame₂.checks]
        exact hmain.loadedFrom hsame₁ hbackup hchecks₀ hmap₀ hsigBa₀ hcount₀

end Search

/-- A mapping entry of a valid image: no block, or a block of the chip outside the
loaded tables and the signature. -/
def ValidEntry (g : Geometry) (sig : Nat) (checks : List TableCheck) (e : Int) : Prop :=
  e < 0 ∨ e < g.blockCount ∧ e ≠ sig ∧
    ∀ k ∈ checks, k.passes = true → ¬ ((k.start : Int) ≤ e ∧ e < k.stop)

/-- `nmbm_attach` has validated what it has loaded: no read left the image, and
the entries in use exist and are valid. -/
structure Validated (g : Geometry) (w : World) : Prop where
  reads : ∀ k ∈ w.checks, k.ReadsInside g
  entries : ∀ lb, lb < w.ni.dataBlockCount → lb < g.blockCount ∧
    ValidEntry g w.ni.signatureBa w.checks (w.ni.blockMapping lb)

/-- The table of `k` has no more data blocks than the chip has blocks, and its
entries lie on the chip and outside the tables accepted after it. -/
def FitsChip (g : Geometry) (k : TableCheck) (post : List TableCheck) : Prop :=
  k.ni.dataBlockCount ≤ g.blockCount ∧
    ∀ lb, lb < k.ni.dataBlockCount → 0 ≤ imageMapping k.ni.infoTableCache lb →
      imageMapping k.ni.infoTableCache lb < g.blockCount ∧
      ∀ k' ∈ post, k'.passes = true → ¬ ((k'.start : Int) ≤ imageMapping k.ni.infoTableCache lb ∧
        imageMapping k.ni.infoTableCache lb < k'.stop)

instance (g : Geometry) (k : TableCheck) (post : List TableCheck) :
    Decidable (FitsChip g k post) := inferInstanceAs (Decidable (_ ∧ _))

/-- The conditions that no check of the source establishes: room for the tables
behind the offsets of each image checked, and a table adopted last that fits
the chip. -/
structure Unchecked (g : Geometry) (checks : List TableCheck) : Prop where
  room : ∀ k ∈ checks, k.HasRoom g
  adopted : ∀ r ∈ lastWith TableCheck.adopts checks, FitsChip g r.1 r.2

section LastMapped

variable {bm : Nat → Int} {dflt n lb : Nat}

theorem lastMapped_le (h : n ≤ dflt) : lastMapped bm dflt n ≤ dflt := by
  induction n with
  | zero => exact le_refl _
  | succ n ih =>
      simp only [lastMapped]
      split
      · exact h
      · exact ih (Nat.le_of_succ_le h)

theorem lt_lastMapped (hlb : lb < n) (h : 0 ≤ bm lb) : lb < lastMapped bm dflt n := by
  induction n with
  | zero => exact absurd hlb (Nat.not_lt_zero _)
  | succ n ih =>
      simp only [lastMapped]
      split
      · exact hlb
      · next hn =>
          rcases Nat.eq_or_lt_of_le (Nat.le_of_lt_succ hlb) with rfl | hlt
          · exact absurd h hn
          · exact ih hlt

end LastMapped

section Loaded

variable {g : Geometry} {dev : Device} {n sig : Nat} {bm : Nat → Int} {w : World}
  {checks pre post : List TableCheck} {k : TableCheck}

/-- What the checks of the adopted table say about a mapped block. -/
theorem LoadedFrom.entry_outside (h : LoadedFrom g n sig bm checks pre k post) {lb : Nat}
    (hlb : lb < n) (hpos : 0 ≤ imageMapping k.ni.infoTableCache lb) :
    imageMapping k.ni.infoTableCache lb ≠ sig ∧
      ∀ k' ∈ pre ++ [k], k'.passes = true →
        ¬ ((k'.start : Int) ≤ imageMapping k.ni.infoTableCache lb ∧
          imageMapping k.ni.infoTableCache lb < k'.stop) := by
  have hpass : k.passes = true := by
    by_contra hno
    have hadopts := h.adopts
    rw [adopts_eq_false (by simpa using hno)] at hadopts
    exact absurd hadopts Bool.false_ne_true
  have haccepted := ((checkInfoTable_isSome k.ni k.stop h.stop.le).mp hpass).1 lb
    (by rw [h.asked.2]; exact hlb)
  change EntryAccepted k.ni k.stop (k.entry lb) at haccepted
  rw [EntryAccepted, h.asked.1, h.asked.2] at haccepted
  -- a non-negative entry is the unsigned word that was checked
  obtain ⟨e, he⟩ := Int.eq_ofNat_of_zero_le hpos
  have hword : k.entry lb = e := toInt32_eq_natCast he (Mem.word_lt _ _)
  rw [hword] at haccepted
  rw [he]
  refine ⟨by exact_mod_cast haccepted.2, fun k' hk' hpass' hin => haccepted.1 ?_⟩
  have hstart := h.start
  have hstop := h.stop
  rcases List.mem_append.mp hk' with hk' | hk'
  · have := h.below k' hk' hpass'
    omega
  · rw [List.mem_singleton.mp hk'] at hin
    omega

/-- The loaded mapping is valid exactly under the conditions left unchecked. -/
theorem LoadedFrom.validated_iff (h : LoadedFrom g n sig w.ni.blockMapping w.checks pre k post)
    (hsig : w.ni.signatureBa = sig)
    (hcount : w.ni.dataBlockCount = lastMapped w.ni.blockMapping n n) :
    Validated g w ↔ Unchecked g w.checks := by
  have hlast : lastWith TableCheck.adopts w.checks = some (k, post) := by
    rw [h.checks]
    exact lastWith_append h.adopts h.post
  have hbm (lb : Nat) (hlb : lb < g.blockCount) :
      w.ni.blockMapping lb = imageMapping k.ni.infoTableCache lb := by
    rw [h.blockMapping]
    exact if_pos hlb
  constructor
  · intro hv
    have hn : k.ni.dataBlockCount ≤ g.blockCount := by
      rw [h.asked.2]
      by_contra hlt
      -- the entry behind the table is not negative, so it would be in use
      have hin : n - 1 < lastMapped w.ni.blockMapping n n := by
        refine lt_lastMapped (by omega) ?_
        rw [h.blockMapping]
        exact (if_neg (show ¬ n - 1 < g.blockCount by omega)).ge
      rw [← hcount] at hin
      have := (hv.entries (n - 1) hin).1
      omega
    refine ⟨fun k' hk' => TableCheck.readsInside_iff.mp (hv.reads k' hk'), ?_⟩
    rw [hlast]
    rintro _ ⟨⟩
    refine ⟨hn, fun lb hlb hpos => ?_⟩
    have hlt : lb < g.blockCount := Nat.lt_of_lt_of_le hlb hn
    have huse : lb < w.ni.dataBlockCount := by
      rw [hcount]
      refine lt_lastMapped (by rw [← h.asked.2]; exact hlb) ?_
      rw [hbm lb hlt]
      exact hpos
    have hvalid := (hv.entries lb huse).2
    rw [hbm lb hlt] at hvalid
    rcases hvalid with hneg | ⟨hblocks, -, htables⟩
    · exact absurd hpos (not_le.mpr hneg)
    · refine ⟨hblocks, fun k' hk' => htables k' ?_⟩
      rw [h.checks]
      simp [hk']
  · intro hu
    refine ⟨fun k' hk' => TableCheck.readsInside_iff.mpr (hu.room k' hk'), fun lb hlb => ?_⟩
    obtain ⟨hn, hfits⟩ := hu.adopted (k, post) hlast
    rw [h.asked.2] at hn
    have hle : lb < n := by
      rw [hcount] at hlb
      exact Nat.lt_of_lt_of_le hlb (lastMapped_le (le_refl _))
    have hlt : lb < g.blockCount := Nat.lt_of_lt_of_le hle hn
    refine ⟨hlt, ?_⟩
    rw [hbm lb hlt]
    by_cases hpos : 0 ≤ imageMapping k.ni.infoTableCache lb
    · have hentry := hfits lb (by rw [h.asked.2]; exact hle) hpos
      have hout := h.entry_outside hle hpos
      refine .inr ⟨hentry.1, by rw [hsig]; exact hout.1, fun k' hk' hpass => ?_⟩
      rw [h.checks, List.append_cons] at hk'
      rcases List.mem_append.mp hk' with hk' | hk'
      · exact hout.2 k' hk' hpass
      · exact hentry.2 k' hk' hpass
    · exact .inl (by omega)

/-- `nmbm_load_info_table` does not change what its first part has loaded. -/
theorem loadInfoTable_found {ba limit : Nat} (h : (loadInfoTable g dev ba limit w).1 = true) :
    ∃ flags, (findInfoTables g dev ba limit w).1 = some flags ∧
      SameLoad (findInfoTables g dev ba limit w).2 (loadInfoTable g dev ba limit w).2 := by
  simp only [loadInfoTable] at h ⊢
  generalize findInfoTables g dev ba limit w = f at h ⊢
  cases hf : f.1 with
  | none =>
      rw [hf] at h
      exact absurd h Bool.false_ne_true
  | some flags =>
      obtain ⟨differ, mainOlder⟩ := flags
      refine ⟨_, rfl, ?_⟩
      -- the write protection at the end changes nothing of it
      have hend (r : Bool × World) (hr : SameLoad f.2 r.2) : SameLoad f.2
          (if r.2.ni.mappingBlocksBa = r.2.ni.mappingBlocksTopBa ∨ (!r.1) = true then
            (true, { r.2 with ni := { r.2.ni with isProtected := true } })
          else (true, r.2)).2 := by
        split
        · exact hr.trans ⟨rfl, rfl, rfl, rfl, rfl⟩
        · exact hr
      dsimp only
      split
      · exact .refl
      · refine hend _ ?_
        split
        · exact rescueSingleInfoTable_sameLoad
        split
        · refine .trans ?_ (updateSingleInfoTable_sameLoad mainOlder)
          exact ⟨rfl, rfl, rfl, rfl, rfl⟩
        · exact .refl

end Loaded

/-- `nmbm_load_existing` that has loaded tables. -/
theorem loadExisting_loaded {g : Geometry} {dev : Device} {w : World}
    (h : (loadExisting g dev w).1 = true) :
    (loadInfoTable g dev w.ni.signature.mgmtStartPb w.ni.signatureBa
        (setMgmtStartBa w.ni.signature.mgmtStartPb w)).1 = true ∧
      (loadExisting g dev w).2.2 = (loadInfoTable g dev w.ni.signature.mgmtStartPb
        w.ni.signatureBa (setMgmtStartBa w.ni.signature.mgmtStartPb w)).2 := by
  have hstart : (setMgmtStartBa w.ni.signature.mgmtStartPb w).ni.mgmtStartBa =
    w.ni.signature.mgmtStartPb := rfl
  have hsig : (setMgmtStartBa w.ni.signature.mgmtStartPb w).ni.signatureBa =
    w.ni.signatureBa := rfl
  simp only [loadExisting, hstart, hsig] at h ⊢
  generalize loadInfoTable g dev w.ni.signature.mgmtStartPb w.ni.signatureBa
    (setMgmtStartBa w.ni.signature.mgmtStartPb w) = l at h ⊢
  cases hl : l.1 with
  | true => exact ⟨rfl, rfl⟩
  | false =>
      rw [hl, if_neg Bool.false_ne_true] at h
      split at h
      · exact absurd h Bool.false_ne_true
      split at h <;> exact absurd h Bool.false_ne_true

/-- `nmbm_attach` that returns 0 with loaded tables has validated them if and only
if the images meet the conditions that are left unchecked. -/
theorem attach_validated_iff {g : Geometry} {dev : Device} {fuel : Nat} {c : Chip} {w : World}
    (h : attach g dev fuel c = some (.loaded, w)) : Validated g w ↔ Unchecked g w.checks := by
  simp only [attach] at h
  split at h
  · exact absurd h (by simp)
  · next c' _ =>
      -- no signature: nothing can be loaded
      simp only [attachNew, Option.some.injEq] at h
      split at h
      · exact absurd (congrArg Prod.fst h) (by simp)
      · have hfst := congrArg Prod.fst h
        dsimp only at hfst
        split at hfst <;> exact absurd hfst (by simp)
  · next sig ba c' _ =>
      simp only [attachExisting, Option.some.injEq] at h
      split at h
      · exact absurd (congrArg Prod.fst h) (by simp)
      split at h
      · exact absurd (congrArg Prod.fst h) (by simp)
      generalize hw₁ : ({ initWorld g c' with ni := { (initWorld g c').ni with
        signature := sig, signatureBa := ba } } : World) = w₁ at h
      obtain ⟨hfst, hsnd⟩ := Prod.mk.inj h
      have hloaded : (loadExisting g dev w₁).1 = true := by
        by_contra hno
        rw [if_neg hno] at hfst
        split at hfst <;> exact absurd hfst (by simp)
      obtain ⟨hload, hworld⟩ := loadExisting_loaded hloaded
      obtain ⟨flags, hfound, hsame⟩ := loadInfoTable_found hload
      rw [← hworld, hsnd] at hsame
      have hchecks : (setMgmtStartBa w₁.ni.signature.mgmtStartPb w₁).checks = [] := by
        rw [← hw₁]
        rfl
      have hmap : (setMgmtStartBa w₁.ni.signature.mgmtStartPb w₁).ni.blockMapping =
          fun _ => 0 := by
        rw [← hw₁]
        rfl
      obtain ⟨hsig, hcount, pre, k, post, hfrom⟩ :=
        findInfoTables_loadedFrom hchecks hmap (by rfl) hfound
      rw [← hsame.blockMapping, ← hsame.checks] at hfrom
      rw [← hsame.dataBlockCount, ← hsame.blockMapping] at hcount
      rw [← hsame.signatureBa] at hsig
      exact hfrom.validated_iff hsig hcount

/-- A run that has loaded tables, for evaluation. -/
theorem attach_eq_loaded {g : Geometry} {dev : Device} {fuel : Nat} {c : Chip}
    (h : (attach g dev fuel c).map Prod.fst = some .loaded) :
    attach g dev fuel c = some (.loaded, attached g dev fuel c) := by
  unfold attached
  cases ha : attach g dev fuel c with
  | none => simp [ha] at h
  | some r =>
      rw [ha] at h
      have hr : r.1 = .loaded := by simpa using h
      rw [← hr]
      rfl

/-- The small chip attached once more. -/
def smallReloaded : World := attached (smallGeometry false) smallDevice 64 smallWorld.chip

set_option maxRecDepth 100000 in
theorem attach_validated_small : Validated (smallGeometry false) smallReloaded := by
  have h : (attach (smallGeometry false) smallDevice 64 smallWorld.chip).map Prod.fst =
        some .loaded ∧
      (∀ k ∈ smallReloaded.checks, checkInfoTableHeader (smallGeometry false).toLowerDevice
          k.ni.infoTableCache = true ∧
        k.header.stateTableOff ≤ k.header.mappingTableOff ∧
        k.header.mappingTableOff ≤ (smallGeometry false).infoTableSize ∧
        k.ni.dataBlockCount ≤ (smallGeometry false).blockCount ∧
        k.stop ≤ (smallGeometry false).blockCount) ∧
      ∀ r ∈ lastWith TableCheck.adopts smallReloaded.checks,
        FitsChip (smallGeometry false) r.1 r.2 := by
    decide +kernel
  obtain ⟨hloaded, hroom, hfits⟩ := h
  refine (attach_validated_iff (attach_eq_loaded hloaded)).mpr ⟨fun k hk => ?_, hfits⟩
  obtain ⟨hheader, hstate, hmapping, hcount, hstop⟩ := hroom k hk
  exact .of_offsets hheader hstate hmapping hcount hstop

/-- The small chip with tables that map block 0 to block 100 of 32. -/
def strayChip : Chip :=
  (updateInfoTable (smallGeometry false) smallDevice { smallWorld with
    ni := { smallWorld.ni with
      blockMapping := fun lb => if lb = 0 then 100 else smallWorld.ni.blockMapping lb
      blockMappingChanged := 1 } }).2.chip

set_option maxRecDepth 100000 in
/-- The tables pass all checks, and the entry is loaded. -/
theorem attach_loads_stray_entry :
    ∃ w, attach (smallGeometry false) smallDevice 64 strayChip = some (.loaded, w) ∧
      0 < w.ni.dataBlockCount ∧ w.ni.blockMapping 0 = 100 ∧
      (smallGeometry false).blockCount = 32 ∧ ¬ Validated (smallGeometry false) w := by
  have h : (attach (smallGeometry false) smallDevice 64 strayChip).map Prod.fst = some .loaded ∧
      0 < (attached (smallGeometry false) smallDevice 64 strayChip).ni.dataBlockCount ∧
      (attached (smallGeometry false) smallDevice 64 strayChip).ni.blockMapping 0 = 100 := by
    decide +kernel
  obtain ⟨hloaded, hcount, hentry⟩ := h
  refine ⟨_, attach_eq_loaded hloaded, hcount, hentry, rfl, fun hv => ?_⟩
  have hvalid := (hv.entries 0 hcount).2
  rw [hentry] at hvalid
  rcases hvalid with hneg | ⟨hblocks, -⟩
  · exact absurd hneg (by decide)
  · exact absurd hblocks (by decide)

end Speedway.Nmbm
