import Speedway.Nmbm.Calls

/-!
# What `nmbm_attach` builds on a chip without a signature

The scan and the mapping of the good blocks give an increasing mapping into
the blocks below the management area. The signature goes to a block at the
end of the chip, and everything after the first rebuild of the tables is a
run of steps.
-/

namespace Speedway.Nmbm

open Speedway.Lib

/-- The mapping right after creation: data blocks map to different blocks below
the management area and the other logic blocks are unmapped. -/
structure FreshMapping (g : Geometry) (ni : Instance) : Prop where
  count : ni.dataBlockCount ≤ ni.mgmtStartBa
  below : ∀ lb, lb < ni.dataBlockCount → 0 ≤ ni.blockMapping lb ∧
    ni.blockMapping lb < ni.mgmtStartBa
  mono : ∀ i j, i < j → j < ni.dataBlockCount → ni.blockMapping i < ni.blockMapping j
  unmapped : ∀ lb, ni.dataBlockCount ≤ lb → lb < g.blockCount → ni.blockMapping lb = -1
  int32 : ∀ k, -2 ^ 31 ≤ ni.blockMapping k ∧ ni.blockMapping k < 2 ^ 31

section Mapping

/-- The invariant of the first loop of `nmbm_build_mapping_table` after the
blocks below `pb` were looked at and `lb` of them mapped. -/
structure Mapping (m₀ m : Nat → Int) (pb lb : Nat) : Prop where
  le : lb ≤ pb
  below : ∀ k, k < lb → 0 ≤ m k ∧ m k < pb
  mono : ∀ i j, i < j → j < lb → m i < m j
  rest : ∀ k, lb ≤ k → m k = m₀ k

theorem Mapping.skip {m₀ m : Nat → Int} {pb lb : Nat} (h : Mapping m₀ m pb lb) :
    Mapping m₀ m (pb + 1) lb :=
  { h with
    le := Nat.le_succ_of_le h.le
    below := fun k hk => by
      have := h.below k hk
      omega }

theorem Mapping.add {m₀ m : Nat → Int} {pb lb : Nat} (h : Mapping m₀ m pb lb)
    (hpb : pb < 2 ^ 31) :
    Mapping m₀ (Function.update m lb (toInt32 pb)) (pb + 1) (lb + 1) where
  le := Nat.succ_le_succ h.le
  below k hk := by
    rcases Nat.lt_succ_iff_lt_or_eq.mp hk with hlt | rfl
    · rw [Function.update_of_ne (by omega)]
      have := h.below k hlt
      omega
    · rw [Function.update_self, toInt32_of_lt hpb]
      omega
  mono i j hij hj := by
    have hi := h.below i (by omega)
    rw [Function.update_of_ne (by omega)]
    rcases Nat.lt_succ_iff_lt_or_eq.mp hj with hlt | rfl
    · rw [Function.update_of_ne (by omega)]
      exact h.mono i j hij hlt
    · rw [Function.update_self, toInt32_of_lt hpb]
      omega
  rest k hk := by
    rw [Function.update_of_ne (by omega)]
    exact h.rest k (by omega)

theorem mapGoodBlocks_mapping {m₀ m : Nat → Int} (bs : Bitmap) {n pb lb : Nat}
    (h : Mapping m₀ m pb lb) (hn : pb + n < 2 ^ 31) :
    Mapping m₀ (mapGoodBlocks bs n pb lb m).2 (pb + n) (mapGoodBlocks bs n pb lb m).1 := by
  induction n generalizing m pb lb with
  | zero => exact h
  | succ n ih =>
      simp only [mapGoodBlocks]
      rw [show pb + (n + 1) = pb + 1 + n by omega]
      split
      · exact ih h.skip (by omega)
      · exact ih (h.add (by omega)) (by omega)

/-- `nmbm_build_mapping_table` starts from a zeroed table. -/
theorem buildMappingTable_fresh {g : Geometry} {w : World}
    (hzero : w.ni.blockMapping = fun _ => 0) (hmgmt : w.ni.mgmtStartBa ≤ g.blockCount) :
    FreshMapping g (buildMappingTable g w).ni := by
  have hblocks := g.blockCount_lt
  have hstart : Mapping (fun _ => 0) w.ni.blockMapping 0 0 :=
    ⟨le_refl _, by simp, by simp, by simp [hzero]⟩
  have h := mapGoodBlocks_mapping w.ni.blockState (n := w.ni.mgmtStartBa) hstart (by omega)
  rw [Nat.zero_add] at h
  have hle := h.le
  have hold (k : Nat) (hk : k < (mapGoodBlocks w.ni.blockState w.ni.mgmtStartBa 0 0
      w.ni.blockMapping).1) : (buildMappingTable g w).ni.blockMapping k =
        (mapGoodBlocks w.ni.blockState w.ni.mgmtStartBa 0 0 w.ni.blockMapping).2 k :=
    if_neg (by omega)
  exact {
    count := hle
    below := fun k hk => by
      rw [hold k hk]
      exact h.below k hk
    mono := fun i j hij hj => by
      rw [hold i (hij.trans hj), hold j hj]
      exact h.mono i j hij hj
    unmapped := fun k hk hlt => if_pos ⟨hk, hlt⟩
    int32 := fun k => by
      by_cases hk : k < (buildMappingTable g w).ni.dataBlockCount
      · rw [hold k hk]
        have := h.below k hk
        omega
      · by_cases hlt : k < g.blockCount
        · rw [show (buildMappingTable g w).ni.blockMapping k = -1 from if_pos ⟨not_lt.mp hk, hlt⟩]
          decide
        · rw [show (buildMappingTable g w).ni.blockMapping k = (mapGoodBlocks w.ni.blockState
            w.ni.mgmtStartBa 0 0 w.ni.blockMapping).2 k from if_neg (by omega),
            h.rest k (not_lt.mp hk)]
          decide }

end Mapping

section Start

variable {g : Geometry} (dev : Device)

theorem createMgmtStart_le : createMgmtStart g ≤ g.blockCount := by
  have hblocks := g.blockCount_lt
  have hstart : g.blockCount * (mgmtDiv - g.maxRatio) % 2 ^ 32 / mgmtDiv ≤ g.blockCount := by
    have h₁ : g.blockCount * (mgmtDiv - g.maxRatio) % 2 ^ 32 ≤ g.blockCount * mgmtDiv :=
      (Nat.mod_le _ _).trans (Nat.mul_le_mul_left _ (Nat.sub_le _ _))
    have h₂ := Nat.div_le_div_right (c := mgmtDiv) h₁
    rwa [Nat.mul_div_cancel _ (by decide)] at h₂
  simp only [createMgmtStart]
  generalize g.blockCount * (mgmtDiv - g.maxRatio) % 2 ^ 32 / mgmtDiv = start at hstart ⊢
  split
  · next h =>
      rw [subU32_of_le hstart] at h
      rw [subU32_of_le (by omega)]
      omega
  · exact hstart

/-- The world `w'` differs from `w` in the chip and the block states only. -/
def SameButState (w w' : World) : Prop :=
  w' = { w with
    chip := w'.chip
    ni := { w.ni with
      blockState := w'.ni.blockState
      blockStateChanged := w'.ni.blockStateChanged } }

theorem scanBadblocks_same (n ba : Nat) (w : World) :
    SameButState w (scanBadblocks g dev n ba w) := by
  induction n generalizing ba w with
  | zero => rfl
  | succ n ih =>
      simp only [scanBadblocks]
      have h := ih (ba + 1) (if (checkBadPhysBlock g dev ba w.chip).1 then
        World.setBlockState ba stBad { w with chip := (checkBadPhysBlock g dev ba w.chip).2 }
        else { w with chip := (checkBadPhysBlock g dev ba w.chip).2 })
      unfold SameButState at h ⊢
      rw [h]
      split <;> rfl

/-- The world before the signature is written. -/
theorem prepareNew_spec (c : Chip) :
    FreshMapping g (prepareNew g dev (initWorld g c)).ni ∧
      (prepareNew g dev (initWorld g c)).trace = [] ∧
      (prepareNew g dev (initWorld g c)).ni.infoTable = (initStructure g).infoTable := by
  have h := scanBadblocks_same (g := g) dev g.blockCount 0
    (setMgmtStartBa (createMgmtStart g) (initWorld g c))
  unfold SameButState at h
  refine ⟨buildMappingTable_fresh ?_ ?_, ?_, ?_⟩
  · rw [h]
    rfl
  · rw [h]
    exact createMgmtStart_le
  · show (scanBadblocks g dev _ _ _).trace = _
    rw [h]
    rfl
  · show (scanBadblocks g dev _ _ _).ni.infoTable = _
    rw [h]
    rfl

theorem useBlock_same (work : Chip → Bool × Chip) (ba : Nat) (w : World) :
    SameButState w (useBlock g dev work ba w).2 := by
  simp only [useBlock]
  split
  · rfl
  · split
    · rfl
    · split
      · split <;> rfl
      · rfl

theorem writeSignatureLoop_spec (data : Mem) (n ba : Nat) (w : World) (hn : n ≤ ba + 1) :
    SameButState w (writeSignatureLoop g dev data n ba w).2 ∧
      ∀ b, (writeSignatureLoop g dev data n ba w).1 = some b → ba < b + n ∧ b ≤ ba := by
  induction n generalizing ba w with
  | zero => exact ⟨rfl, by simp [writeSignatureLoop]⟩
  | succ n ih =>
      have hsame := useBlock_same (g := g) dev (writeRepeatedData g dev ba data sizeofSignature)
        ba w
      simp only [writeSignatureLoop]
      split
      · refine ⟨hsame, fun b hb => ?_⟩
        have := Option.some.inj hb
        omega
      · cases n with
        | zero => exact ⟨hsame, by simp [writeSignatureLoop]⟩
        | succ n =>
            have h := ih (ba - 1) (useBlock g dev (writeRepeatedData g dev ba data
              sizeofSignature) ba w).2 (by omega)
            refine ⟨?_, fun b hb => ?_⟩
            · have h' := h.1
              unfold SameButState at hsame h' ⊢
              rw [h', hsame]
            · have := h.2 b hb
              omega

/-- The top of the spare blocks that creation chooses: a block below the
signature and above the start of the management area. -/
theorem createTop_range {bs : Bitmap} {sig mgmt top : Nat} (hsig : sig ≤ subU32 g.blockCount 1)
    (h : blockWalk g.toLowerDevice bs false sig 1 mgmt = some top) :
    mgmt < top ∧ top < sig ∧ sig < g.blockCount := by
  have hblocks := g.blockCount_lt
  simp only [blockWalk, blockWalkDesc, walkLimit, Bool.false_eq_true, if_false] at h
  -- the first block of the walk only uses up the count
  have hwalk (n : Nat) (hn : n ≤ sig) (h : walkDescLoop bs n sig 1 = some top) :
      sig - n < top ∧ top < sig := by
    cases n with
    | zero => simp [walkDescLoop] at h
    | succ n =>
        simp only [walkDescLoop] at h
        split_ifs at h with hgood h₁ h₂
        · omega
        · have := walkDescLoop_range (by omega) h
          omega
        · omega
        · have := walkDescLoop_range (by omega) h
          omega
  split at h
  · rw [Nat.sub_eq_zero_of_le hsig] at h
    simp [walkDescLoop] at h
  · next hmgmt =>
      have := hwalk _ (Nat.sub_le _ _) h
      rw [subU32_of_le (by omega)] at hsig
      omega

/-- The remapping loop of creation, when it starts at the first unmapped block. -/
theorem remapTail_run (n : Nat) {w : World} (hb : Base g w)
    (hn : w.ni.dataBlockCount + n ≤ w.ni.mgmtStartBa) :
    Run g dev w (remapTail g dev n w.ni.dataBlockCount w) := by
  induction n generalizing w with
  | zero => exact .refl
  | succ n ih =>
      simp only [remapTail, mapBlock]
      split
      · exact .refl
      · split
        · exact (Relation.ReflTransGen.single .update).tail .close
        · next pb hpb =>
            have hstep : Step g dev w (countDataBlock (assignBlock w.ni.dataBlockCount pb w)) :=
              .assignNew (by omega) hpb
            have hrest := ih (hb.step hstep) (by
              show w.ni.dataBlockCount + 1 + n ≤ w.ni.mgmtStartBa
              omega)
            exact .head hstep hrest

/-- The world to which creation applies the first rebuild of the tables. -/
structure Prepared (g : Geometry) (w : World) : Prop where
  layout : Layout g (dropTables w)
  trace : w.trace = []
  fits : w.ni.infoTable.Fits g.toLowerDevice
  mapping : FreshMapping g w.ni
  cached : ∃ w₀, w = (generateInfoTableCache g w₀).2

theorem initStructure_fits : (initStructure g).infoTable.Fits g.toLowerDevice :=
  ⟨g.header_le_initStateTableOff, g.initStateTableOff_le, g.initMappingTableOff_le⟩

/-- The first rebuild gives a world with the unconditional invariant. -/
theorem Prepared.base {w : World} (h : Prepared g w) : Base g (rebuildInfoTable g dev w).2 := by
  have hs := rebuildInfoTable_safe' dev h.layout
  have hk := hs.step.kept
  exact {
    layout := hs.layout
    fits := by
      refine ⟨?_, ?_, ?_⟩ <;> simp only [hk.stateTableOff, hk.mappingTableOff]
      · exact h.fits.state
      · exact h.fits.mapping
      · exact h.fits.stop
    int32 := by rw [hk.blockMapping]; exact h.mapping.int32
    count := by rw [hk.dataBlockCount, hk.mgmtStartBa]; exact h.mapping.count
    unmapped := by rw [hk.dataBlockCount, hk.blockMapping]; exact h.mapping.unmapped }

theorem Prepared.of_top {w : World} {top : Nat} (hm : FreshMapping g w.ni) (htrace : w.trace = [])
    (hfits : w.ni.infoTable.Fits g.toLowerDevice) (hlo : w.ni.mgmtStartBa < top)
    (hhi : top < w.ni.signatureBa) (hsig : w.ni.signatureBa < g.blockCount) :
    Prepared g (generateInfoTableCache g (setTopBa top w)).2 where
  layout :=
    { mgmt_le := le_of_lt hlo
      mapping_le := le_refl _
      top_lt := hhi
      signature_lt := hsig
      mainHead := fun h => absurd rfl h
      backupHead := fun h => absurd rfl h
      main := fun _ h => absurd h List.not_mem_nil
      backup := fun _ h => absurd h List.not_mem_nil
      noBackup := fun _ => rfl
      order := fun h => absurd rfl h }
  trace := htrace
  fits := ⟨hfits.state, hfits.mapping, hfits.stop⟩
  mapping := ⟨hm.count, hm.below, hm.mono, hm.unmapped, hm.int32⟩
  cached := ⟨_, rfl⟩

theorem remapAndUpdate_run {w : World} (hb : Base g w) :
    Run g dev w (remapAndUpdate g dev w).2 := by
  have hcount := hb.count
  exact (remapTail_run dev (w.ni.mgmtStartBa - w.ni.dataBlockCount) hb (by omega)).tail .update

/-- `nmbm_create_info_table` on a world whose mapping is fresh. -/
theorem createInfoTable_run {w : World} (hm : FreshMapping g w.ni) (htrace : w.trace = [])
    (hfits : w.ni.infoTable.Fits g.toLowerDevice) (hsig : w.ni.signatureBa ≤ subU32 g.blockCount 1)
    (hok : (createInfoTable g dev w).1 = true) :
    ∃ w₁, Prepared g w₁ ∧ (rebuildInfoTable g dev w₁).1 = true ∧
      Run g dev (rebuildInfoTable g dev w₁).2 (createInfoTable g dev w).2 := by
  simp only [createInfoTable] at hok ⊢
  cases htop : blockWalk g.toLowerDevice w.ni.blockState false w.ni.signatureBa 1
      w.ni.mgmtStartBa with
  | none => simp [htop] at hok
  | some top =>
      obtain ⟨hlo, hhi, hlt⟩ := createTop_range hsig htop
      have hp := Prepared.of_top hm htrace hfits hlo hhi hlt
      simp only [htop] at hok ⊢
      generalize (generateInfoTableCache g (setTopBa top w)).2 = w₁ at hp hok ⊢
      cases hr : (rebuildInfoTable g dev w₁).1 with
      | false => simp [hr] at hok
      | true =>
          simp only [Bool.not_true, Bool.false_eq_true, if_false]
          exact ⟨w₁, hp, hr, remapAndUpdate_run dev (hp.base dev)⟩

theorem writeSignature_spec (limit : Nat) (image : Mem) (w : World) :
    SameButState w (writeSignature g dev limit image w).2 ∧
      ∀ b, (writeSignature g dev limit image w).1 = some b → b ≤ subU32 g.blockCount 1 := by
  have hspec (ba : Nat) := writeSignatureLoop_spec (g := g) dev image (ba - limit) ba w
    ((Nat.sub_le _ _).trans (Nat.le_succ _))
  obtain ⟨hsame, hba⟩ := hspec (subU32 g.blockCount 1)
  exact ⟨hsame, fun b hb => (hba b hb).2⟩

theorem createOnChip_run {image : Mem} {w : World} (hm : FreshMapping g w.ni)
    (htrace : w.trace = []) (hfits : w.ni.infoTable.Fits g.toLowerDevice)
    (hok : (createOnChip g dev image w).1 = true) :
    ∃ w₁, Prepared g w₁ ∧ (rebuildInfoTable g dev w₁).1 = true ∧
      Run g dev (rebuildInfoTable g dev w₁).2 (createOnChip g dev image w).2 := by
  obtain ⟨hsame, hba⟩ := writeSignature_spec (g := g) dev w.ni.mgmtStartBa image w
  unfold createOnChip at hok ⊢
  generalize writeSignature g dev w.ni.mgmtStartBa image w = s at hsame hba hok ⊢
  obtain ⟨found, w'⟩ := s
  cases found with
  | none => simp at hok
  | some ba =>
      unfold SameButState at hsame
      refine createInfoTable_run dev ?_ ?_ ?_ (hba ba rfl) hok
      · dsimp only at hsame
        rw [hsame]
        exact ⟨hm.count, hm.below, hm.mono, hm.unmapped, hm.int32⟩
      · dsimp only at hsame
        rw [hsame]
        exact htrace
      · dsimp only at hsame
        rw [hsame]
        exact hfits

theorem createNew_run {c : Chip} (hok : (createNew g dev (initWorld g c)).1 = true) :
    g.readOnly = true ∧ FreshMapping g (createNew g dev (initWorld g c)).2.ni ∧
        (createNew g dev (initWorld g c)).2.trace = [] ∨
      g.readOnly = false ∧ ∃ w₁, Prepared g w₁ ∧ (rebuildInfoTable g dev w₁).1 = true ∧
        Run g dev (rebuildInfoTable g dev w₁).2 (createNew g dev (initWorld g c)).2 := by
  obtain ⟨hm, htrace, hinfo⟩ := prepareNew_spec (g := g) dev c
  have hfits := initStructure_fits (g := g)
  rw [← hinfo] at hfits
  simp only [createNew] at hok ⊢
  generalize newSignatureImage g (prepareNew g dev (initWorld g c)) = image at hok ⊢
  generalize prepareNew g dev (initWorld g c) = w at hm htrace hfits hok ⊢
  have hm' : FreshMapping g (setSignature image w).ni :=
    ⟨hm.count, hm.below, hm.mono, hm.unmapped, hm.int32⟩
  cases hro : g.readOnly with
  | true => exact .inl ⟨rfl, hm', htrace⟩
  | false =>
      simp only [hro, Bool.false_eq_true, if_false] at hok ⊢
      exact .inr ⟨trivial, createOnChip_run dev hm' htrace hfits hok⟩

/-- What `nmbm_attach` leaves when it creates NMBM: on a read-only device the
fresh mapping alone, else a run from the first rebuild of the tables. -/
theorem attach_created {fuel : Nat} {c : Chip} {w : World}
    (h : attach g dev fuel c = some (.created, w)) :
    g.readOnly = true ∧ FreshMapping g w.ni ∧ w.trace = [] ∨
      g.readOnly = false ∧ ∃ w₁, Prepared g w₁ ∧ (rebuildInfoTable g dev w₁).1 = true ∧
        Run g dev (rebuildInfoTable g dev w₁).2 w := by
  simp only [attach] at h
  split at h
  · simp at h
  · next c' _ =>
      have hnew := Option.some.inj h
      simp only [attachNew] at hnew
      split at hnew
      · simp at hnew
      · obtain ⟨hok, rfl⟩ := Prod.mk.inj hnew
        apply createNew_run
        by_contra hne
        rw [if_neg hne] at hok
        simp at hok
  · next sig ba c' _ =>
      have hold := congrArg Prod.fst (Option.some.inj h)
      simp only [attachExisting] at hold
      split_ifs at hold

end Start

end Speedway.Nmbm
