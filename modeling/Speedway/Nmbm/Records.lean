import Speedway.Nmbm.Written

/-!
# Tables that the checks accept

`Records` says what a buffer with a valid info table records, and `TableOn`
that some blocks of the chip hold such a table. Every table written from a
freshly generated cache is one.
-/

namespace Speedway.Nmbm

open Speedway.Lib

/-- The buffer passes both header checks and records the given state table and
mapping table. -/
structure Records (g : Geometry) (m : Mem) (bs : Bitmap) (bm : Nat → Int) : Prop where
  header : checkHeader m g.infoTableSize = true
  table : checkInfoTableHeader g.toLowerDevice m = true
  state : ∀ k, 4 * k + 4 ≤ g.stateTableSize → imageState m k = bs k
  mapping : ∀ k, k < g.blockCount → imageMapping m k = bm k

/-- The given blocks hold a complete info table. -/
structure TableOn (g : Geometry) (f : Flash) (blocks : List Nat) (bs : Bitmap)
    (bm : Nat → Int) : Prop where
  sorted : blocks.Pairwise (· < ·)
  length : blocks.length = g.size2blk g.infoTableSize
  range : ∀ b ∈ blocks, b < g.blockCount
  records : Records g (tableAt g f blocks) bs bm

/-- The given blocks hold the table image `data`. -/
structure HoldsImage (g : Geometry) (f : Flash) (blocks : List Nat) (data : Mem) : Prop where
  sorted : blocks.Pairwise (· < ·)
  length : blocks.length = g.size2blk g.infoTableSize
  range : ∀ b ∈ blocks, b < g.blockCount
  holds : ∀ i, i < g.infoTableSize → tableAt g f blocks i = data i

/-- The values of a mapping table are 32-bit integers. -/
def Int32Mapping (g : Geometry) (bm : Nat → Int) : Prop :=
  ∀ k, k < g.blockCount → -2 ^ 31 ≤ bm k ∧ bm k < 2 ^ 31

variable {g : Geometry} {bs : Bitmap} {bm : Nat → Int} {w w' : World} {blocks : List Nat}

/-- A buffer that starts with a generated image records what the image was made from. -/
theorem records_of_image {h : InfoTableHeader} {cache m : Mem}
    (hm : ∀ i, i < g.infoTableSize → m i = infoTableImage g.toLowerDevice h bs bm cache i)
    (hf : h.Fits g.toLowerDevice) (hmagic : h.magic = magicInfoTable)
    (hsize : h.size = g.infoTableSize) (hint : Int32Mapping g bm) : Records g m bs bm := by
  have h32 := g.infoTableSize_ge
  have hmap := hf.mapping
  have hstop := hf.stop
  have hmt : g.mappingTableSize = g.blockCount * 4 := rfl
  exact {
    header := by
      rw [checkHeader_congr hm h32]
      exact image_checkHeader bs bm cache hsize
    table := by
      rw [checkInfoTableHeader_congr _ hm h32]
      exact image_checkInfoTableHeader bs bm cache hf hmagic hsize
    state := fun k hk => by
      rw [imageState_congr hm h32 (by rw [image_stateTableOff bs bm cache hf]; omega)]
      exact image_state bs bm cache hf hk
    mapping := fun k hk => by
      rw [imageMapping_congr hm h32 (by rw [image_mappingTableOff bs bm cache hf]; omega)]
      exact image_mapping bs bm cache hf hk (hint k hk).1 (hint k hk).2 }

/-- A copy of the cache that `nmbm_generate_info_table_cache` has just filled
records the block states and the mapping of the instance. -/
theorem records_generated (hf : w.ni.infoTable.Fits g.toLowerDevice)
    (hint : Int32Mapping g w.ni.blockMapping) {m : Mem}
    (hm : ∀ i, i < g.infoTableSize → m i = (generateInfoTableCache g w).2.ni.infoTableCache i) :
    Records g m w.ni.blockState w.ni.blockMapping :=
  records_of_image hm ⟨hf.state, hf.mapping, hf.stop⟩ rfl rfl hint

/-- A successful table write below the end of the chip. -/
theorem Written.holdsImage {lo hi : Nat} {data : Mem} {r : RangeResult}
    (h : Written g lo hi data g.infoTableSize r) (hhi : hi ≤ g.blockCount) :
    HoldsImage g r.w.chip.flash r.blocks data where
  sorted := h.sorted
  length := h.length
  range b hb := by
    have := h.range b hb
    have := h.stop_le
    omega
  holds := h.holds

/-- Maintenance of other blocks leaves a table image alone. -/
theorem HoldsImage.maint {lo hi : Nat} {data : Mem} (h : HoldsImage g w.chip.flash blocks data)
    (hm : Maint g lo hi w w') (hb : ∀ b ∈ blocks, b < lo ∨ hi ≤ b) :
    HoldsImage g w'.chip.flash blocks data :=
  { h with
    holds := by
      rw [hm.tableAt hb]
      exact h.holds }

/-- An image made of valid data is a table. -/
theorem HoldsImage.tableOn {f : Flash} {data : Mem} (h : HoldsImage g f blocks data)
    (hdata : ∀ m : Mem, (∀ i, i < g.infoTableSize → m i = data i) → Records g m bs bm) :
    TableOn g f blocks bs bm where
  sorted := h.sorted
  length := h.length
  range := h.range
  records := hdata _ h.holds

/-- A table depends on the pages of its blocks only. -/
theorem TableOn.congr {f f' : Flash} (h : TableOn g f blocks bs bm)
    (hf : ∀ p, p / g.pagesPerBlock ∈ blocks → f' p = f p) : TableOn g f' blocks bs bm :=
  { h with
    records := by
      rw [tableAt_congr hf]
      exact h.records }

end Speedway.Nmbm
