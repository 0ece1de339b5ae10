import Speedway.Nmbm.Reading
import Speedway.Nmbm.Records

/-!
# Searching for an info table

`nmbm_search_info_table` tries one candidate block after the other. On a
device that reads every page a candidate fails when its window of `size2blk`
blocks has a bad block or no header at its start, and otherwise the bytes of
the window are in the table cache when the checks are made.
-/

namespace Speedway.Nmbm

open Speedway.Lib

/-- The two worlds differ in the table cache, the calls made and the trace. -/
structure SameButCache (w w' : World) : Prop where
  flash : w'.chip.flash = w.chip.flash
  ni : w'.ni = { w.ni with infoTableCache := w'.ni.infoTableCache }

namespace SameButCache

variable {w w' w'' : World}

theorem refl : SameButCache w w := ⟨rfl, rfl⟩

theorem trans (h : SameButCache w w') (h' : SameButCache w' w'') : SameButCache w w'' := by
  refine ⟨h'.flash.trans h.flash, ?_⟩
  rw [h'.ni, h.ni]

theorem blockState (h : SameButCache w w') : w'.ni.blockState = w.ni.blockState := by rw [h.ni]

end SameButCache

section Checks

variable (ni : Instance) (stop : Nat)

/-- An entry of the mapping table that `nmbm_check_info_table` lets pass. -/
def EntryAccepted (ni : Instance) (stop e : Nat) : Prop :=
  ¬ (ni.dataBlockCount ≤ e ∧ e < stop) ∧ e ≠ ni.signatureBa

theorem checkMappingLoop_isSome (entry : Nat → Nat) (n ba lowest : Nat) :
    (checkMappingLoop ni entry stop n ba lowest).isSome = true ↔
      ∀ k, ba ≤ k → k < ba + n → EntryAccepted ni stop (entry k) := by
  induction n generalizing ba lowest with
  | zero =>
      simp only [checkMappingLoop, Option.isSome_some, true_iff]
      intro k h₁ h₂
      omega
  | succ n ih =>
      simp only [checkMappingLoop]
      by_cases hbad : (ni.dataBlockCount ≤ entry ba ∧ entry ba < stop) ∨ entry ba = ni.signatureBa
      · rw [if_pos hbad]
        simp only [Option.isSome_none, Bool.false_eq_true, false_iff]
        intro h
        have hba := h ba (le_refl _) (by omega)
        exact hbad.elim hba.1 hba.2
      · rw [if_neg hbad, ih]
        constructor
        · intro h k h₁ h₂
          rcases Nat.eq_or_lt_of_le h₁ with rfl | hlt
          · exact not_or.mp hbad
          · exact h k hlt (by omega)
        · intro h k h₁ h₂
          exact h k (by omega) (by omega)

theorem checkStateLoop_eq_true (bs table : Bitmap) (n ba : Nat) :
    checkStateLoop bs table n ba = true ↔
      ∀ b, ba ≤ b → b < ba + n → getBlockStateRaw bs b = stGood →
        getBlockStateRaw table b = stGood := by
  induction n generalizing ba with
  | zero =>
      simp only [checkStateLoop, true_iff]
      intro b h₁ h₂
      omega
  | succ n ih =>
      have hsplit (P : Nat → Prop) : (∀ b, ba ≤ b → b < ba + (n + 1) → P b) ↔
          P ba ∧ ∀ b, ba + 1 ≤ b → b < ba + 1 + n → P b := by
        constructor
        · intro h
          exact ⟨h ba (le_refl _) (by omega), fun b h₁ h₂ => h b (by omega) (by omega)⟩
        · rintro ⟨h, h'⟩ b h₁ h₂
          rcases Nat.eq_or_lt_of_le h₁ with rfl | hlt
          · exact h
          · exact h' b hlt (by omega)
      rw [hsplit fun b => getBlockStateRaw bs b = stGood → getBlockStateRaw table b = stGood, ← ih]
      simp only [checkStateLoop]
      split
      · next hbs => simp [hbs]
      · next hbs =>
          rw [not_not] at hbs
          split
          · next htable => simp [hbs, htable]
          · next htable =>
              rw [not_not] at htable
              simp [htable]

/-- `nmbm_check_info_table` as a property of the entries and the states. -/
theorem checkInfoTable_isSome {start : Nat} (h : start ≤ stop) :
    (checkInfoTable ni start stop).isSome = true ↔
      (∀ lb, lb < ni.dataBlockCount → EntryAccepted ni stop
        ((ni.infoTableCache.shift
          (InfoTableHeader.ofMem ni.infoTableCache).mappingTableOff).word lb)) ∧
      ∀ b, start ≤ b → b < stop → getBlockStateRaw ni.blockState b = stGood →
        getBlockStateRaw (imageState ni.infoTableCache) b = stGood := by
  have hmap := checkMappingLoop_isSome ni stop (fun k => (ni.infoTableCache.shift
    (InfoTableHeader.ofMem ni.infoTableCache).mappingTableOff).word k) ni.dataBlockCount 0
    ni.signatureBa
  have hstate := checkStateLoop_eq_true ni.blockState (imageState ni.infoTableCache)
    (stop - start) start
  rw [Nat.add_sub_cancel' h] at hstate
  rw [← hstate]
  simp only [Nat.zero_le, true_implies, Nat.zero_add] at hmap
  rw [← hmap]
  simp only [checkInfoTable]
  split
  · next hnone => simp [hnone]
  · next lowest hsome =>
      split
      · next hpass => simp [hsome, hpass]
      · next hfail => simp [hfail]

end Checks

section Window

variable {g : Geometry} {dev : Device} {f : Flash} {bs : Bitmap} {w : World} {s : Nat}

/-- The number of blocks that a table fills. -/
theorem size2blk_bounds (g : Geometry) {size : Nat} (hsize : 0 < size) :
    0 < g.size2blk size ∧ (g.size2blk size - 1) * g.erasesize < size ∧
      size ≤ g.size2blk size * g.erasesize := by
  have hpos := g.erasesize_pos
  have hdm := Nat.div_add_mod (size + g.erasesize - 1) g.erasesize
  have hmod := Nat.mod_lt (size + g.erasesize - 1) hpos
  have hblk : g.size2blk size = (size + g.erasesize - 1) / g.erasesize := rfl
  rw [Nat.mul_comm] at hdm
  have hone : 0 < g.size2blk size := by
    rw [hblk]
    exact Nat.div_pos (by omega) hpos
  refine ⟨hone, ?_, ?_⟩
  · rw [Nat.sub_mul, Nat.one_mul, hblk]
    omega
  · rw [hblk]
    omega

/-- The table cache after a window of `n` blocks: the good ones are read in turn, and
none after the first of them if it does not start with a header. -/
def windowBytes (g : Geometry) (f : Flash) (bs : Bitmap) : Nat → Nat → Nat → Bool → Mem → Mem
  | 0, _, _, _, old => old
  | n + 1, ba, remain, first, old =>
      if remain = 0 then old
      else if getBlockStateRaw bs ba ≠ stGood then windowBytes g f bs n (ba + 1) remain first old
      else
        let read := old.copy (g.infoTableSize - remain) (flashFrom g f (g.ba2addr ba))
          (min remain g.erasesize)
        if first ∧ !checkInfoTableHeader g.toLowerDevice (read.shift (g.infoTableSize - remain))
        then read
        else windowBytes g f bs n (ba + 1) (remain - min remain g.erasesize) false read

/-- The table cache after the windows that start at the `n` blocks from `ba` on. -/
def searchedBytes (g : Geometry) (f : Flash) (bs : Bitmap) : Nat → Nat → Mem → Mem
  | 0, _, old => old
  | n + 1, ba, old => searchedBytes g f bs n (ba + 1)
      (windowBytes g f bs (g.size2blk g.infoTableSize) ba g.infoTableSize true old)

/-- The block loop of `nmbm_try_load_info_table` only fills the cache. -/
theorem readTableLoop_same (hF : FaithfulReads g dev f bs) (n ba remain : Nat) (start : Option Nat)
    (hf : w.chip.flash = f) (hbs : w.ni.blockState = bs) :
    SameButCache w (readTableLoop g dev n ba remain start w).2 ∧
      (readTableLoop g dev n ba remain start w).2.ni.infoTableCache =
        windowBytes g f bs n ba remain start.isNone w.ni.infoTableCache := by
  induction n generalizing ba remain start w with
  | zero => exact ⟨.refl, rfl⟩
  | succ n ih =>
      have hstate : w.blockStateOf ba = getBlockStateRaw bs ba := by rw [← hbs]; rfl
      by_cases h0 : remain = 0
      · rw [readTableLoop, windowBytes, if_pos h0, if_pos h0]
        exact ⟨.refl, rfl⟩
      · rw [windowBytes, if_neg h0, ← hstate]
        by_cases hgood : w.blockStateOf ba = stGood
        · have hread : SameButCache w (readBlock g dev ba remain w) := ⟨readBlock_flash, rfl⟩
          have hnext := fun start => ih (ba + 1) (remain - min remain g.erasesize) start
            (readBlock_flash.trans hf) (show (readBlock g dev ba remain w).ni.blockState = bs
              from hbs)
          rw [readTableLoop_good hF hf hbs hgood h0, if_neg (not_not.mpr hgood)]
          rw [readBlock_cache ba remain hF hf] at hnext ⊢
          dsimp only
          split
          · exact ⟨hread, readBlock_cache ba remain hF hf⟩
          · exact ⟨hread.trans (hnext _).1, (hnext _).2⟩
        · rw [readTableLoop_skip hgood h0, if_pos hgood]
          exact ih _ _ _ hf hbs

/-- A load that fails leaves the cache and an event behind. -/
theorem tryLoadInfoTable_fail (hF : FaithfulReads g dev f bs) {tableLoaded : Bool}
    (hf : w.chip.flash = f) (hbs : w.ni.blockState = bs)
    (h : (tryLoadInfoTable g dev s tableLoaded w).ok = false) :
    SameButCache w (tryLoadInfoTable g dev s tableLoaded w).w ∧
      (tryLoadInfoTable g dev s tableLoaded w).w.ni.infoTableCache =
        windowBytes g f bs (g.size2blk g.infoTableSize) s g.infoTableSize true
          w.ni.infoTableCache := by
  have hsame := readTableLoop_same hF (g.size2blk g.infoTableSize) s g.infoTableSize none hf hbs
  simp only [tryLoadInfoTable] at h ⊢
  split
  · exact hsame
  · next stop start remain hloop =>
      rw [hloop] at h
      dsimp only at h
      split at h
      · next h0 =>
          rw [if_pos h0]
          exact hsame
      · next h0 =>
          rw [if_neg h0]
          split at h
          · next hh =>
              rw [if_pos hh]
              exact hsame
          · next hh =>
              rw [if_neg hh]
              split
              · exact ⟨⟨hsame.1.flash, hsame.1.ni⟩, hsame.2⟩
              · next hsome =>
                  rw [hsome] at h
                  exact absurd h (by simp)

/-- A bad block in the window makes the load fail. -/
theorem tryLoadInfoTable_badBlock (hF : FaithfulReads g dev f bs) (tableLoaded : Bool)
    (hf : w.chip.flash = f) (hbs : w.ni.blockState = bs) {i : Nat}
    (hi : i < g.size2blk g.infoTableSize) (hbad : getBlockStateRaw bs (s + i) ≠ stGood) :
    (tryLoadInfoTable g dev s tableLoaded w).ok = false := by
  have hsize : 0 < g.infoTableSize := by
    have := g.infoTableSize_ge
    omega
  obtain ⟨-, hlo, -⟩ := size2blk_bounds g hsize
  -- one of the blocks does not count
  have hcount : goodBlocks bs s (g.size2blk g.infoTableSize) ≤
      g.size2blk g.infoTableSize - 1 := by
    have hle : goodBlocks bs s (g.size2blk g.infoTableSize) <
        (List.range' s (g.size2blk g.infoTableSize)).length := by
      rw [goodBlocks, lt_iff_le_and_ne]
      refine ⟨List.countP_le_length, fun heq => ?_⟩
      have hall := List.countP_eq_length.mp heq (s + i)
        (List.mem_range'_1.mpr ⟨by omega, by omega⟩)
      exact hbad (of_decide_eq_true hall)
    rw [List.length_range'] at hle
    omega
  simp only [tryLoadInfoTable]
  split
  · rfl
  · next stop start remain hloop =>
      have hshort := readTableLoop_short hF hf hbs hloop
      have hmul := Nat.mul_le_mul_right g.erasesize hcount
      rw [if_pos (by omega)]
      rfl

/-- A window of good blocks whose first block does not complete a header. -/
theorem tryLoadInfoTable_noHeader (hF : FaithfulReads g dev f bs) (tableLoaded : Bool)
    (hf : w.chip.flash = f) (hbs : w.ni.blockState = bs) (hgood : getBlockStateRaw bs s = stGood)
    (hheader : checkInfoTableHeader g.toLowerDevice (w.ni.infoTableCache.copy 0
      (flashFrom g f (g.ba2addr s)) (min g.infoTableSize g.erasesize)) = false) :
    (tryLoadInfoTable g dev s tableLoaded w).ok = false := by
  have hsize := g.infoTableSize_ge
  obtain ⟨hpos, -, -⟩ := size2blk_bounds g (show 0 < g.infoTableSize by omega)
  obtain ⟨n, hn⟩ := Nat.exists_eq_add_one_of_ne_zero (Nat.ne_of_gt hpos)
  have hstate : w.blockStateOf s = stGood := by
    rw [← hbs] at hgood
    exact hgood
  have hcache := readBlock_cache s g.infoTableSize hF hf
  rw [Nat.sub_self] at hcache
  have hnone : (readTableLoop g dev (g.size2blk g.infoTableSize) s g.infoTableSize none w).1 =
      none := by
    rw [hn, readTableLoop_good hF hf hbs hstate (by omega), Nat.sub_self, hcache, if_pos]
    refine ⟨rfl, ?_⟩
    rw [Bool.not_eq_true', ← hheader]
    rfl
  simp only [tryLoadInfoTable, hnone]
  rfl

/-- A window of good blocks with a header is read into the cache. -/
theorem readTableLoop_window (hF : FaithfulReads g dev f bs) (hf : w.chip.flash = f)
    (hbs : w.ni.blockState = bs)
    (hgood : ∀ b, s ≤ b → b < s + g.size2blk g.infoTableSize → getBlockStateRaw bs b = stGood)
    (hheader : checkInfoTableHeader g.toLowerDevice (w.ni.infoTableCache.copy 0
      (flashFrom g f (g.ba2addr s)) (min g.infoTableSize g.erasesize)) = true) :
    ∃ w', readTableLoop g dev (g.size2blk g.infoTableSize) s g.infoTableSize none w =
        (some (s + g.size2blk g.infoTableSize, s, 0), w') ∧ SameButCache w w' ∧
      w'.ni.infoTableCache =
        w.ni.infoTableCache.copy 0 (flashFrom g f (g.ba2addr s)) g.infoTableSize := by
  have hsize := g.infoTableSize_ge
  obtain ⟨hpos, hlo, hhi⟩ := size2blk_bounds g (show 0 < g.infoTableSize by omega)
  obtain ⟨n, hn⟩ := Nat.exists_eq_add_one_of_ne_zero (Nat.ne_of_gt hpos)
  have hstate : w.blockStateOf s = stGood := by
    have := hgood s (le_refl _) (by omega)
    rw [← hbs] at this
    exact this
  have hcache := readBlock_cache s g.infoTableSize hF hf
  rw [Nat.sub_self] at hcache
  obtain ⟨w', hloop, hflash, -, hni⟩ := readTableLoop_full (n := n) (k := 1) (s := s)
    (w := readBlock g dev s g.infoTableSize w) hF hlo hhi (by omega) hgood
    (readBlock_flash.trans hf) hbs (by rw [hcache, Nat.one_mul, Nat.min_comm])
  refine ⟨w', ?_, ⟨hflash.trans hf.symm, ?_⟩, ?_⟩
  · have hchunk : g.infoTableSize - min g.infoTableSize g.erasesize =
        g.infoTableSize - 1 * g.erasesize := by omega
    rw [hn, readTableLoop_good hF hf hbs hstate (by omega), Nat.sub_self, hcache, if_neg, hchunk,
      ← hn, ← hloop]
    · rfl
    · rintro ⟨-, hfail⟩
      rw [Bool.not_eq_true'] at hfail
      have htrue : checkInfoTableHeader g.toLowerDevice ((w.ni.infoTableCache.copy 0
        (flashFrom g f (g.ba2addr s)) (min g.infoTableSize g.erasesize)).shift 0) = true := hheader
      rw [htrue] at hfail
      exact absurd hfail (by simp)
  · rw [hni]
    rfl
  · rw [hni]

/-- The search passes over candidates that fail. -/
theorem searchLoop_skip (hF : FaithfulReads g dev f bs) {tableLoaded : Bool} {n k ba : Nat}
    (hf : w.chip.flash = f) (hbs : w.ni.blockState = bs)
    (hfail : ∀ b w', ba ≤ b → b < ba + k → SameButCache w w' →
      (tryLoadInfoTable g dev b tableLoaded w').ok = false) :
    searchLoop g dev tableLoaded (k + n) ba w =
        searchLoop g dev tableLoaded n (ba + k) (searchLoop g dev tableLoaded k ba w).w ∧
      SameButCache w (searchLoop g dev tableLoaded k ba w).w ∧
      (searchLoop g dev tableLoaded k ba w).w.ni.infoTableCache =
        searchedBytes g f bs k ba w.ni.infoTableCache := by
  induction k generalizing ba w with
  | zero =>
      rw [Nat.zero_add, Nat.add_zero]
      exact ⟨rfl, .refl, rfl⟩
  | succ k ih =>
      have hone := hfail ba w (le_refl _) (by omega) .refl
      obtain ⟨hsame, hbytes⟩ := tryLoadInfoTable_fail hF hf hbs hone
      obtain ⟨hrest, hsame', hbytes'⟩ := @ih _ (ba + 1) (hsame.flash.trans hf)
        (hsame.blockState.trans hbs)
        fun b w' h₁ h₂ hw => hfail b w' (by omega) (by omega) (hsame.trans hw)
      have hstep (m : Nat) : searchLoop g dev tableLoaded (m + 1) ba w =
          searchLoop g dev tableLoaded m (ba + 1) (tryLoadInfoTable g dev ba tableLoaded w).w := by
        simp [searchLoop, hone]
      rw [Nat.add_right_comm, hstep, hstep, hrest, Nat.add_assoc ba 1 k, Nat.add_comm 1 k]
      exact ⟨rfl, hsame.trans hsame', by rw [hbytes', hbytes, searchedBytes]⟩

theorem searchLoop_start {tableLoaded : Bool} {n ba : Nat}
    (h : (searchLoop g dev tableLoaded n ba w).ok = true) :
    ba ≤ (searchLoop g dev tableLoaded n ba w).start := by
  induction n generalizing ba w with
  | zero => exact absurd h (by simp [searchLoop, LoadResult.fail])
  | succ n ih =>
      simp only [searchLoop] at h ⊢
      split at h
      · next hok =>
          rw [if_pos hok]
      · next hok =>
          rw [if_neg hok]
          exact (Nat.le_succ ba).trans (ih h)

end Window

section Contiguous

variable {g : Geometry} {lo hi : Nat} {data : Mem} {r : RangeResult}

/-- Contiguous blocks hold one stretch of the flash. -/
theorem tableAt_range' (f : Flash) (s n : Nat) {i : Nat} (hi : i < n * g.erasesize) :
    tableAt g f (List.range' s n) i = flashFrom g f (g.ba2addr s) i := by
  have hdiv : i / g.erasesize < n := (Nat.div_lt_iff_lt_mul g.erasesize_pos).mpr hi
  have hget : (List.range' s n)[i / g.erasesize]? = some (s + i / g.erasesize) := by
    rw [List.getElem?_range' hdiv, Nat.one_mul]
  have hdm := Nat.div_add_mod i g.erasesize
  rw [Nat.mul_comm] at hdm
  simp only [tableAt, hget, flashFrom, LowerDevice.ba2addr, Nat.add_mul]
  congr 1
  omega

/-- The blocks of a table fit between its ends. -/
theorem Written.length_le (h : Written g lo hi data g.infoTableSize r) :
    r.start + g.size2blk g.infoTableSize ≤ r.stop := by
  have hnodup : r.blocks.Nodup := h.sorted.imp fun hlt => Nat.ne_of_lt hlt
  have hsub : r.blocks ⊆ List.range' r.start (r.stop - r.start) := by
    intro b hb
    have := h.range b hb
    exact List.mem_range'_1.mpr ⟨this.1, by omega⟩
  have hlen := (hnodup.subperm hsub).length_le
  rw [h.length, List.length_range'] at hlen
  have := h.start_lt
  omega

/-- A table whose window has only good blocks lies in the window. -/
theorem Written.blocks_eq (h : Written g lo hi data g.infoTableSize r)
    (hgood : ∀ b, r.start ≤ b → b < r.start + g.size2blk g.infoTableSize →
      r.w.blockStateOf b = stGood) :
    r.blocks = List.range' r.start (g.size2blk g.infoTableSize) := by
  have hlen := h.length_le
  have hsub : List.range' r.start (g.size2blk g.infoTableSize) ⊆ r.blocks := by
    intro b hb
    obtain ⟨h₁, h₂⟩ := List.mem_range'_1.mp hb
    by_contra hmem
    exact h.skipped b h₁ (by omega) hmem (hgood b h₁ h₂)
  have hnodup : (List.range' r.start (g.size2blk g.infoTableSize)).Nodup := List.nodup_range'
  have hperm := (hnodup.subperm hsub).perm_of_length_le (by rw [h.length, List.length_range'])
  exact (hperm.eq_of_pairwise (fun a b _ _ h₁ h₂ => absurd h₁ (Nat.lt_asymm h₂))
    List.pairwise_lt_range' h.sorted).symm

end Contiguous

end Speedway.Nmbm
