import Speedway.Nmbm.Sample
import Speedway.Nmbm.Search

/-!
# Writing an info table and finding it again

`nmbm_write_mgmt_range` skips bad blocks up to its limit, but
`nmbm_try_load_info_table` looks at a window of `size2blk` blocks only. The
search finds a written table exactly when all blocks of that window are good
and the table passes the checks of the header and of the mapping entries.
-/

namespace Speedway.Nmbm

open Speedway.Lib

/-- A search by the world `w` for the table that was generated from `w₀` and
written with the result `r`: the chip still has the table and reads what was
programmed, the block states are those after the write, the search starts at
or before the table and ends after it, and no candidate before it loads. -/
structure Reload (g : Geometry) (dev : Device) (w₀ : World) (r : RangeResult) (ba limit : Nat)
    (tableLoaded : Bool) (w : World) : Prop where
  flash : ∀ p, p / g.pagesPerBlock ∈ r.blocks → w.chip.flash p = r.w.chip.flash p
  faithful : FaithfulReads g dev w.chip.flash w.ni.blockState
  states : ∀ b, w.blockStateOf b = r.w.blockStateOf b
  count : w.ni.dataBlockCount ≤ g.blockCount
  start_le : ba ≤ r.start
  stop_lt : r.stop < limit
  noOther : ∀ b w', ba ≤ b → b < r.start → SameButCache w w' →
    (tryLoadInfoTable g dev b tableLoaded w').ok = false

/-- The instance has what a table that was generated from `w₀` records. -/
structure HasLoaded (g : Geometry) (w₀ : World) (ni : Instance) : Prop where
  writeCount : ni.infoTable.writeCount = (generateInfoTableCache g w₀).2.ni.infoTable.writeCount
  state : ∀ k, 4 * k + 4 ≤ g.stateTableSize → ni.blockState k = w₀.ni.blockState k
  mapping : ∀ k, k < g.blockCount → ni.blockMapping k = w₀.ni.blockMapping k

/-- The search has found the table and loaded what it was generated from. -/
structure Reloaded (g : Geometry) (w₀ : World) (r : RangeResult) (s : SearchResult) : Prop where
  ok : s.ok = true
  start : s.start = r.start
  found : s.writeCount = (generateInfoTableCache g w₀).2.ni.infoTable.writeCount
  loaded : HasLoaded g w₀ s.w.ni

/-- The condition for that. The header only matters for erase blocks smaller than
a header, where the bytes read from the blocks before the table complete it. A second
search does not adopt a table that is older than the one already loaded. -/
structure Loadable (g : Geometry) (w₀ : World) (r : RangeResult) (ba : Nat) (tableLoaded : Bool)
    (w : World) : Prop where
  window : ∀ b, r.start ≤ b → b < r.start + g.size2blk g.infoTableSize →
    w.blockStateOf b = stGood
  entries : ∀ lb, lb < w.ni.dataBlockCount →
    EntryAccepted w.ni (r.start + g.size2blk g.infoTableSize) (ofInt32 (w₀.ni.blockMapping lb))
  header : 32 ≤ g.erasesize ∨ checkInfoTableHeader g.toLowerDevice
    ((searchedBytes g w.chip.flash w.ni.blockState (r.start - ba) ba w.ni.infoTableCache).copy 0
      (generateInfoTableCache g w₀).2.ni.infoTableCache g.erasesize) = true
  adopted : tableLoaded = true → w.ni.infoTable.writeCount <
    (generateInfoTableCache g w₀).2.ni.infoTable.writeCount ∨ HasLoaded g w₀ w.ni

section Table

variable {g : Geometry} {dev : Device} {w₀ w : World} {m : Mem}

/-- The entries of a table as the unsigned words that the checks read. -/
theorem Records.entry {bs : Bitmap} {bm : Nat → Int} (h : Records g m bs bm) {k : Nat}
    (hk : k < g.blockCount) :
    (m.shift (InfoTableHeader.ofMem m).mappingTableOff).word k = ofInt32 (bm k) := by
  have hmap : toInt32 ((m.shift (InfoTableHeader.ofMem m).mappingTableOff).word k) = bm k :=
    h.mapping k hk
  rw [← hmap, ofInt32_toInt32 (Mem.word_lt _ _)]

/-- The block states of a table. -/
theorem Records.blockState {bs : Bitmap} {bm : Nat → Int} (h : Records g m bs bm) {b : Nat}
    (hb : b < g.blockCount) : getBlockStateRaw (imageState m) b = getBlockStateRaw bs b := by
  have hunit : 4 * (b / 16) + 4 ≤ g.stateTableSize := by
    have hsize : g.stateTableSize = (g.blockCount + 15) / 16 * 4 := rfl
    omega
  simp only [getBlockStateRaw, h.state _ hunit]

/-- The write count of a copy of a generated image. -/
theorem generated_writeCount (hcount : w₀.ni.infoTable.writeCount < 2 ^ 32)
    (hm : ∀ i, i < g.infoTableSize → m i = (generateInfoTableCache g w₀).2.ni.infoTableCache i) :
    (InfoTableHeader.ofMem m).writeCount =
      (generateInfoTableCache g w₀).2.ni.infoTable.writeCount := by
  rw [InfoTableHeader.ofMem_congr hm g.infoTableSize_ge]
  refine image_writeCount _ _ _ ?_
  show (if w₀.dirty = true then (w₀.ni.infoTable.writeCount + 1) % 2 ^ 32
    else w₀.ni.infoTable.writeCount) < 2 ^ 32
  split
  · exact Nat.mod_lt _ (by decide)
  · exact hcount

/-- What `nmbm_try_load_info_table` adopts. -/
theorem Records.adopted (hrec : Records g w.ni.infoTableCache w₀.ni.blockState w₀.ni.blockMapping)
    (hcount : (InfoTableHeader.ofMem w.ni.infoTableCache).writeCount =
      (generateInfoTableCache g w₀).2.ni.infoTable.writeCount) :
    HasLoaded g w₀ (adoptTable g w).ni where
  writeCount := hcount
  state := fun k hk => by
    show (if k < g.stateTableSize / 4 then imageState w.ni.infoTableCache k
      else w.ni.blockState k) = _
    rw [if_pos (by omega)]
    exact hrec.state k hk
  mapping := fun k hk => by
    show (if k < g.blockCount then imageMapping w.ni.infoTableCache k
      else w.ni.blockMapping k) = _
    rw [if_pos hk]
    exact hrec.mapping k hk

end Table

section Candidate

variable {g : Geometry} {dev : Device} {w₀ w w₁ : World} {r : RangeResult} {lo hi ba limit : Nat}
  {tableLoaded : Bool}

/-- What is known of the table that was written. -/
structure TableWritten (g : Geometry) (w₀ : World) (r : RangeResult) (lo hi : Nat) : Prop where
  written : Written g lo hi (generateInfoTableCache g w₀).2.ni.infoTableCache g.infoTableSize r
  inside : hi ≤ g.blockCount
  fits : w₀.ni.infoTable.Fits g.toLowerDevice
  int32 : Int32Mapping g w₀.ni.blockMapping
  count : w₀.ni.infoTable.writeCount < 2 ^ 32
  states : ∀ b, r.w.blockStateOf b = stGood → w₀.blockStateOf b = stGood

/-- A window of good blocks holds the generated image. -/
theorem Reload.bytes (ht : TableWritten g w₀ r lo hi)
    (hr : Reload g dev w₀ r ba limit tableLoaded w)
    (hwindow : ∀ b, r.start ≤ b → b < r.start + g.size2blk g.infoTableSize →
      w.blockStateOf b = stGood) {i : Nat} (hi : i < g.infoTableSize) :
    flashFrom g w.chip.flash (g.ba2addr r.start) i =
      (generateInfoTableCache g w₀).2.ni.infoTableCache i := by
  have hblocks := ht.written.blocks_eq fun b h₁ h₂ => by
    rw [← hr.states b]
    exact hwindow b h₁ h₂
  have hbound := (size2blk_bounds g (show 0 < g.infoTableSize by omega)).2.2
  rw [← ht.written.holds i hi, ← tableAt_congr hr.flash, hblocks,
    tableAt_range' _ _ _ (Nat.lt_of_lt_of_le hi hbound)]

/-- The first block of the window with old bytes of the cache behind it. -/
theorem Reload.firstBlock (ht : TableWritten g w₀ r lo hi)
    (hr : Reload g dev w₀ r ba limit tableLoaded w)
    (hwindow : ∀ b, r.start ≤ b → b < r.start + g.size2blk g.infoTableSize →
      w.blockStateOf b = stGood) (old : Mem) :
    old.copy 0 (flashFrom g w.chip.flash (g.ba2addr r.start)) (min g.infoTableSize g.erasesize) =
      old.copy 0 (generateInfoTableCache g w₀).2.ni.infoTableCache
        (min g.infoTableSize g.erasesize) := by
  funext i
  by_cases hi : i < min g.infoTableSize g.erasesize
  · rw [Mem.copy_zero hi, Mem.copy_zero hi]
    exact hr.bytes ht hwindow (by omega)
  · rw [Mem.copy_outside (by omega), Mem.copy_outside (by omega)]

/-- A block with room for a header has the whole header of the table. -/
theorem TableWritten.header (ht : TableWritten g w₀ r lo hi) (h32 : 32 ≤ g.erasesize) (old : Mem) :
    checkInfoTableHeader g.toLowerDevice (old.copy 0
      (generateInfoTableCache g w₀).2.ni.infoTableCache (min g.infoTableSize g.erasesize)) =
        true := by
  have hsize := g.infoTableSize_ge
  have hrec := records_generated ht.fits ht.int32 (fun i _ => rfl)
  rw [checkInfoTableHeader_congr g.toLowerDevice (n := 32)
    (fun i hi => Mem.copy_zero (by omega)) (le_refl _)]
  exact hrec.table

/-- The header check at the start of the window. -/
theorem Reload.header_iff (ht : TableWritten g w₀ r lo hi)
    (hr : Reload g dev w₀ r ba limit tableLoaded w)
    (hwindow : ∀ b, r.start ≤ b → b < r.start + g.size2blk g.infoTableSize →
      w.blockStateOf b = stGood) (old : Mem) :
    checkInfoTableHeader g.toLowerDevice (old.copy 0
        (flashFrom g w.chip.flash (g.ba2addr r.start)) (min g.infoTableSize g.erasesize)) = true ↔
      (32 ≤ g.erasesize ∨ checkInfoTableHeader g.toLowerDevice (old.copy 0
        (generateInfoTableCache g w₀).2.ni.infoTableCache g.erasesize) = true) := by
  rw [hr.firstBlock ht hwindow]
  constructor
  · intro h
    by_cases h32 : 32 ≤ g.erasesize
    · exact .inl h32
    · have hsize := g.infoTableSize_ge
      rw [Nat.min_eq_right (by omega)] at h
      exact .inr h
  · rintro (h32 | h)
    · exact ht.header h32 old
    · by_cases h32 : 32 ≤ g.erasesize
      · exact ht.header h32 old
      · have hsize := g.infoTableSize_ge
        rw [Nat.min_eq_right (by omega)]
        exact h

/-- A candidate with a window of good blocks and a header: what is left are the
checks of the mapping entries. -/
theorem Reload.candidate (ht : TableWritten g w₀ r lo hi)
    (hr : Reload g dev w₀ r ba limit tableLoaded w) (hsame : SameButCache w w₁)
    (hwindow : ∀ b, r.start ≤ b → b < r.start + g.size2blk g.infoTableSize →
      w.blockStateOf b = stGood)
    (hheader : checkInfoTableHeader g.toLowerDevice (w₁.ni.infoTableCache.copy 0
      (flashFrom g w.chip.flash (g.ba2addr r.start)) (min g.infoTableSize g.erasesize)) = true) :
    ((tryLoadInfoTable g dev r.start tableLoaded w₁).ok = true ↔
      ∀ lb, lb < w.ni.dataBlockCount → EntryAccepted w.ni
        (r.start + g.size2blk g.infoTableSize) (ofInt32 (w₀.ni.blockMapping lb))) ∧
    ((tryLoadInfoTable g dev r.start tableLoaded w₁).ok = true →
      (Reloaded g w₀ r ⟨tryLoadInfoTable g dev r.start tableLoaded w₁, r.start⟩ ↔
        (tableLoaded = true → w.ni.infoTable.writeCount <
          (generateInfoTableCache g w₀).2.ni.infoTable.writeCount ∨ HasLoaded g w₀ w.ni))) := by
  have hstate := hsame.blockState
  obtain ⟨w', hloop, hsame', hcache⟩ := readTableLoop_window hr.faithful hsame.flash hstate
    hwindow hheader
  have hsame₂ := hsame.trans hsame'
  -- the cache starts with the generated image
  have hm (i : Nat) (hi : i < g.infoTableSize) : w'.ni.infoTableCache i =
      (generateInfoTableCache g w₀).2.ni.infoTableCache i := by
    rw [hcache, Mem.copy_zero hi]
    exact hr.bytes ht hwindow hi
  have hrec := records_generated ht.fits ht.int32 hm
  have hcount := generated_writeCount ht.count hm
  have hstop := ht.written.length_le
  have hle := ht.written.stop_le
  have hinside := ht.inside
  have hcheck : (checkInfoTable w'.ni r.start (r.start + g.size2blk g.infoTableSize)).isSome =
      true ↔ ∀ lb, lb < w.ni.dataBlockCount → EntryAccepted w.ni
        (r.start + g.size2blk g.infoTableSize) (ofInt32 (w₀.ni.blockMapping lb)) := by
    rw [checkInfoTable_isSome _ _ (Nat.le_add_right _ _)]
    have hdata : w'.ni.dataBlockCount = w.ni.dataBlockCount := by rw [hsame₂.ni]
    have hsig : w'.ni.signatureBa = w.ni.signatureBa := by rw [hsame₂.ni]
    have hentry (lb : Nat) (hlb : lb < w.ni.dataBlockCount) :
        EntryAccepted w'.ni (r.start + g.size2blk g.infoTableSize) ((w'.ni.infoTableCache.shift
          (InfoTableHeader.ofMem w'.ni.infoTableCache).mappingTableOff).word lb) ↔
        EntryAccepted w.ni (r.start + g.size2blk g.infoTableSize)
          (ofInt32 (w₀.ni.blockMapping lb)) := by
      rw [hrec.entry (Nat.lt_of_lt_of_le hlb hr.count)]
      simp only [EntryAccepted, hdata, hsig]
    rw [hdata]
    constructor
    · intro h lb hlb
      exact (hentry lb hlb).mp (h.1 lb hlb)
    · intro h
      refine ⟨fun lb hlb => (hentry lb hlb).mpr (h lb hlb), fun b h₁ h₂ hgood => ?_⟩
      rw [hrec.blockState (by omega)]
      rw [hsame₂.blockState] at hgood
      exact ht.states b ((hr.states b).symm.trans hgood)
  simp only [tryLoadInfoTable, hloop, ne_eq, not_true, if_false, hrec.header, Bool.not_true,
    Bool.false_eq_true]
  rw [← hcheck]
  -- the world with the check logged
  have hni : (w'.log (.checkTable w'.ni r.start (r.start + g.size2blk g.infoTableSize)
    tableLoaded)).ni = w'.ni := rfl
  generalize w'.log (.checkTable w'.ni r.start (r.start + g.size2blk g.infoTableSize)
    tableLoaded) = w₂ at hni ⊢
  rw [← hni] at hm hrec hcount ⊢
  have hni₂ : w₂.ni = { w.ni with infoTableCache := w'.ni.infoTableCache } := by
    rw [hni]
    exact hsame₂.ni
  cases hc : checkInfoTable w₂.ni r.start (r.start + g.size2blk g.infoTableSize) with
  | none => simp
  | some top =>
      refine ⟨by simp, fun _ => ?_⟩
      dsimp only
      by_cases hadopt : (!tableLoaded) = true ∨ w₂.ni.infoTable.writeCount <
          (InfoTableHeader.ofMem w₂.ni.infoTableCache).writeCount
      · -- the first table or a newer one
        rw [if_pos hadopt]
        have hnewer : tableLoaded = true → w.ni.infoTable.writeCount <
            (generateInfoTableCache g w₀).2.ni.infoTable.writeCount := by
          intro hloaded
          rw [hcount, hni₂] at hadopt
          exact hadopt.resolve_left (by simp [hloaded])
        refine ⟨fun _ hloaded => .inl (hnewer hloaded), fun _ => ⟨rfl, rfl, hcount, ?_⟩⟩
        exact hrec.adopted hcount
      · rw [if_neg hadopt]
        have hloaded : tableLoaded = true := by
          by_contra h
          exact hadopt (.inl (by simpa using h))
        have hnot : ¬ w.ni.infoTable.writeCount <
            (generateInfoTableCache g w₀).2.ni.infoTable.writeCount := by
          intro h
          refine hadopt (.inr ?_)
          rw [hcount, hni₂]
          exact h
        have hsameNi : HasLoaded g w₀ w₂.ni ↔ HasLoaded g w₀ w.ni := by
          rw [hni₂]
          exact ⟨fun h => { h with }, fun h => { h with }⟩
        constructor
        · intro h _
          exact .inr (hsameNi.mp h.loaded)
        · intro h
          exact ⟨rfl, rfl, hcount, hsameNi.mpr ((h hloaded).resolve_left hnot)⟩

/-- The search comes to the table with nothing changed but the cache. -/
theorem Reload.search (ht : TableWritten g w₀ r lo hi)
    (hr : Reload g dev w₀ r ba limit tableLoaded w) :
    ∃ n w₁, searchInfoTable g dev ba limit tableLoaded w =
        searchLoop g dev tableLoaded (n + 1) r.start w₁ ∧ SameButCache w w₁ ∧
      w₁.ni.infoTableCache = searchedBytes g w.chip.flash w.ni.blockState (r.start - ba) ba
        w.ni.infoTableCache := by
  have h₁ := ht.written.length_le
  have h₂ := hr.stop_lt
  have h₃ := hr.start_le
  obtain ⟨n, hn⟩ : ∃ n, subU32 limit (g.size2blk g.infoTableSize) - ba =
      (r.start - ba) + (n + 1) := by
    refine ⟨subU32 limit (g.size2blk g.infoTableSize) - ba - (r.start - ba) - 1, ?_⟩
    rw [subU32_of_le (by omega)]
    omega
  have hskip := searchLoop_skip (n := n + 1) (k := r.start - ba) hr.faithful rfl rfl
    fun b w' hlo hhi hw => hr.noOther b w' hlo (by omega) hw
  rw [Nat.add_sub_cancel' h₃] at hskip
  exact ⟨n, _, by rw [searchInfoTable, hn]; exact hskip.1, hskip.2⟩

/-- The search finds the written table and loads what it was generated from if
and only if the table is loadable. -/
theorem Reload.reloaded_iff (ht : TableWritten g w₀ r lo hi)
    (hr : Reload g dev w₀ r ba limit tableLoaded w) :
    Reloaded g w₀ r (searchInfoTable g dev ba limit tableLoaded w) ↔
      Loadable g w₀ r ba tableLoaded w := by
  obtain ⟨n, w₁, hsearch, hsame, hbytes⟩ := hr.search ht
  rw [hsearch]
  -- the candidate decides: a search that goes on ends at another block
  have hgoal : Reloaded g w₀ r (searchLoop g dev tableLoaded (n + 1) r.start w₁) →
      (tryLoadInfoTable g dev r.start tableLoaded w₁).ok = true := by
    intro h
    by_contra hfail
    have hnext : searchLoop g dev tableLoaded (n + 1) r.start w₁ =
        searchLoop g dev tableLoaded n (r.start + 1)
          (tryLoadInfoTable g dev r.start tableLoaded w₁).w := by
      simp [searchLoop, hfail]
    rw [hnext] at h
    have hstart := searchLoop_start h.ok
    have := h.start
    omega
  have hfound (h : (tryLoadInfoTable g dev r.start tableLoaded w₁).ok = true) :
      searchLoop g dev tableLoaded (n + 1) r.start w₁ =
        ⟨tryLoadInfoTable g dev r.start tableLoaded w₁, r.start⟩ := by
    simp [searchLoop, h]
  constructor
  · intro h
    have hok := hgoal h
    have hwindow (b : Nat) (h₁ : r.start ≤ b)
        (h₂ : b < r.start + g.size2blk g.infoTableSize) : w.blockStateOf b = stGood := by
      by_contra hbad
      have hfail := tryLoadInfoTable_badBlock (s := r.start) (i := b - r.start) hr.faithful
        tableLoaded hsame.flash hsame.blockState (by omega) (by
          rw [Nat.add_sub_cancel' h₁]
          exact hbad)
      rw [hok] at hfail
      exact absurd hfail (by simp)
    have hheader : checkInfoTableHeader g.toLowerDevice (w₁.ni.infoTableCache.copy 0
        (flashFrom g w.chip.flash (g.ba2addr r.start)) (min g.infoTableSize g.erasesize)) =
          true := by
      by_contra hno
      have hpos := (size2blk_bounds g (show 0 < g.infoTableSize by
        have := g.infoTableSize_ge
        omega)).1
      have hfail := tryLoadInfoTable_noHeader hr.faithful tableLoaded hsame.flash hsame.blockState
        (hwindow r.start (le_refl _) (by omega)) (by simpa using hno)
      rw [hok] at hfail
      exact absurd hfail (by simp)
    have hcand := hr.candidate ht hsame hwindow hheader
    rw [hfound hok] at h
    refine ⟨hwindow, hcand.1.mp hok, ?_, (hcand.2 hok).mp h⟩
    rw [← hbytes]
    exact (hr.header_iff ht hwindow _).mp hheader
  · rintro ⟨hwindow, hentries, hheader, hadopted⟩
    rw [← hbytes] at hheader
    have hcand := hr.candidate ht hsame hwindow ((hr.header_iff ht hwindow _).mpr hheader)
    have hok := hcand.1.mpr hentries
    rw [hfound hok]
    exact (hcand.2 hok).mpr hadopted

end Candidate

/-- A table that `nmbm_write_info_table` has written is found by
`nmbm_search_info_table`, with the counter, the block states and the mapping it
was generated from, if and only if it is loadable. -/
theorem writeInfoTable_reloaded_iff {g : Geometry} {dev₀ dev : Device} {w₀ w : World}
    {lo hi ba limit : Nat} {tableLoaded : Bool} (hinside : hi ≤ g.blockCount)
    (hfits : w₀.ni.infoTable.Fits g.toLowerDevice) (hint : Int32Mapping g w₀.ni.blockMapping)
    (hcount : w₀.ni.infoTable.writeCount < 2 ^ 32)
    (hok : (writeInfoTable g dev₀ lo hi (generateInfoTableCache g w₀).2).ok = true)
    (hr : Reload g dev w₀ (writeInfoTable g dev₀ lo hi (generateInfoTableCache g w₀).2) ba limit
      tableLoaded w) :
    Reloaded g w₀ (writeInfoTable g dev₀ lo hi (generateInfoTableCache g w₀).2)
        (searchInfoTable g dev ba limit tableLoaded w) ↔
      Loadable g w₀ (writeInfoTable g dev₀ lo hi (generateInfoTableCache g w₀).2) ba
        tableLoaded w := by
  refine hr.reloaded_iff ⟨writeInfoTable_written dev₀ hok, hinside, hfits, hint, hcount, ?_⟩
  -- the write makes no block good
  intro b hgood
  rcases (writeInfoTable_maint (g := g) dev₀ lo hi (generateInfoTableCache g w₀).2).state b with
    hsame | ⟨-, -, hbefore, -⟩
  · exact hsame.symm.trans hgood
  · exact hbefore

/-- A chip like the small one with erase blocks of half the size: an info table
takes two of them. -/
def narrowGeometry : Geometry where
  maxRatio := 8
  maxReservedBlocks := 0
  create := true
  emptyPageEccOk := false
  readOnly := false
  size := 4096
  erasesize := 128
  writesize := 64
  oobsize := 1
  hasReadPage := true
  hasWritePage := true
  hasPanicWritePage := true
  hasEraseBlock := true
  hasIsBadBlock := true
  hasMarkBadBlock := true
  accepted := rfl
  pageInBlock := by decide
  tablesFit := by decide
  sizeFits := by decide

/-- The table of sixteen data blocks, with the given block bad. -/
def narrowWorld (bad : Nat) : World :=
  let w := (initWorld narrowGeometry blankChip).setBlockState bad stBad
  { w with ni := { w.ni with dataBlockCount := 16, signatureBa := 31 } }

/-- Write it behind the data blocks. -/
def narrowWritten (bad : Nat) : RangeResult :=
  writeInfoTable narrowGeometry (sampleDevice [bad] fun _ _ => false) 16 30
    (generateInfoTableCache narrowGeometry (narrowWorld bad)).2

/-- A device on which no call fails reads faithfully when its bad blocks are known. -/
theorem sampleDevice_faithful {g : Geometry} {bad : List Nat} {f : Flash} {bs : Bitmap}
    (hg : g.hasIsBadBlock = true) (h : ∀ b ∈ bad, getBlockStateRaw bs b ≠ stGood) :
    FaithfulReads g (sampleDevice bad fun _ _ => false) f bs where
  reads := fun _ _ => by simp [sampleDevice]
  notBad := fun b c hgood _ => by
    have hb : b ∉ bad := fun hmem => h b hmem hgood
    simp [checkBadPhysBlock, hg, sampleDevice, hb]

/-- A search in the world after the write that starts at the table. -/
theorem narrow_reload {bad : Nat} (hstart : (narrowWritten bad).start = 16)
    (hstop : (narrowWritten bad).stop < 30)
    (hbad : (narrowWritten bad).w.blockStateOf bad ≠ stGood)
    (hcount : (narrowWritten bad).w.ni.dataBlockCount = 16) :
    Reload narrowGeometry (sampleDevice [bad] fun _ _ => false) (narrowWorld bad)
      (narrowWritten bad) 16 30 false (narrowWritten bad).w where
  flash := fun _ _ => rfl
  faithful := sampleDevice_faithful rfl fun b hb => by
    rw [List.mem_singleton.mp hb]
    exact hbad
  states := fun _ => rfl
  count := by
    rw [hcount]
    decide
  start_le := le_of_eq hstart.symm
  stop_lt := hstop
  noOther := fun b w' h₁ h₂ _ => by omega

set_option maxRecDepth 100000 in
theorem writeInfoTable_reloaded_narrow :
    (narrowWritten 18).ok = true ∧
      Reloaded narrowGeometry (narrowWorld 18) (narrowWritten 18) (searchInfoTable narrowGeometry
        (sampleDevice [18] fun _ _ => false) 16 30 false (narrowWritten 18).w) := by
  have h : (narrowWritten 18).ok = true ∧ (narrowWritten 18).start = 16 ∧
      (narrowWritten 18).stop < 30 ∧ (narrowWritten 18).w.blockStateOf 18 ≠ stGood ∧
      (narrowWritten 18).w.ni.dataBlockCount = 16 ∧
      (narrowWritten 18).w.ni.signatureBa = 31 ∧
      (∀ b ∈ [16, 17], (narrowWritten 18).w.blockStateOf b = stGood) := by
    decide +kernel
  obtain ⟨hok, hstart, hstop, hbad, hcount, hsig, hgood⟩ := h
  have hint : Int32Mapping narrowGeometry (narrowWorld 18).ni.blockMapping := by
    intro k _
    show -2 ^ 31 ≤ (0 : Int) ∧ (0 : Int) < 2 ^ 31
    decide
  refine ⟨hok, (writeInfoTable_reloaded_iff (g := narrowGeometry) (by decide)
    ⟨by decide, by decide, by decide⟩ hint (by decide) hok
    (narrow_reload hstart hstop hbad hcount)).mpr ⟨?_, ?_, .inl (by decide), by simp⟩⟩
  · intro b h₁ h₂
    have h₁' : 16 ≤ b := by
      rw [← hstart]
      exact h₁
    have h₂' : b < 16 + 2 := by
      rw [← hstart]
      exact h₂
    exact hgood b (by simp; omega)
  · intro lb hlb
    show EntryAccepted (narrowWritten 18).w.ni _ 0
    exact ⟨fun h => by omega, by omega⟩

set_option maxRecDepth 100000 in
/-- A bad block inside the range: the table goes to blocks 16 and 18, and the
window of two blocks from 16 on does not hold it. -/
theorem searchInfoTable_misses_table :
    ∃ bad, (narrowWritten bad).ok = true ∧
      Reload narrowGeometry (sampleDevice [bad] fun _ _ => false) (narrowWorld bad)
        (narrowWritten bad) 16 30 false (narrowWritten bad).w ∧
      (searchInfoTable narrowGeometry (sampleDevice [bad] fun _ _ => false) 16 30 false
        (narrowWritten bad).w).ok = false := by
  have h : (narrowWritten 17).ok = true ∧ (narrowWritten 17).start = 16 ∧
      (narrowWritten 17).stop < 30 ∧ (narrowWritten 17).w.blockStateOf 17 ≠ stGood ∧
      (narrowWritten 17).w.ni.dataBlockCount = 16 ∧
      (searchInfoTable narrowGeometry (sampleDevice [17] fun _ _ => false) 16 30 false
        (narrowWritten 17).w).ok = false := by
    decide +kernel
  obtain ⟨hok, hstart, hstop, hbad, hcount, hfail⟩ := h
  exact ⟨17, hok, narrow_reload hstart hstop hbad hcount, hfail⟩

end Speedway.Nmbm
