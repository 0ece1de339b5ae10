import Speedway.Lib.Crc
import Speedway.Nmbm.BlockState

/-!
# Headers, checksums and the memory image of an info table

The structures NMBM stores on flash start with a common header of four
words: magic, version, size and checksum. The checksum covers `size` bytes
with the checksum word taken as zero.
-/

namespace Speedway.Nmbm

open Speedway.Lib

/-- `NMBM_MAGIC_SIGNATURE`. -/
def magicSignature : Nat := 0x304d4d4e

/-- `NMBM_MAGIC_INFO_TABLE`. -/
def magicInfoTable : Nat := 0x314d4d4e

/-- `NMBM_VER`: major 1 in the low half, minor 0 in the high half. -/
def nmbmVer : Nat := 1

/-- `struct nmbm_info_table_header`. -/
structure InfoTableHeader where
  magic : Nat
  version : Nat
  size : Nat
  checksum : Nat
  writeCount : Nat
  stateTableOff : Nat
  mappingTableOff : Nat
  padding : Nat

namespace InfoTableHeader

/-- The header as an array of eight words. -/
def words (h : InfoTableHeader) : Nat → Nat
  | 0 => h.magic
  | 1 => h.version
  | 2 => h.size
  | 3 => h.checksum
  | 4 => h.writeCount
  | 5 => h.stateTableOff
  | 6 => h.mappingTableOff
  | _ => h.padding

/-- The header at the start of a memory. -/
def ofMem (m : Mem) : InfoTableHeader :=
  ⟨m.word 0, m.word 1, m.word 2, m.word 3, m.word 4, m.word 5, m.word 6, m.word 7⟩

end InfoTableHeader

/-- `struct nmbm_signature`: 48 bytes, that is twelve words. The last two hold
`max_try_count` with its padding and the tail padding of the structure. -/
structure Signature where
  magic : Nat
  version : Nat
  size : Nat
  checksum : Nat
  nandSizeLow : Nat
  nandSizeHigh : Nat
  blockSize : Nat
  pageSize : Nat
  spareSize : Nat
  mgmtStartPb : Nat
  maxTryCount : Nat
  tail : Nat

/-- `sizeof(struct nmbm_signature)`. -/
def sizeofSignature : Nat := 48

namespace Signature

def words (s : Signature) : Nat → Nat
  | 0 => s.magic
  | 1 => s.version
  | 2 => s.size
  | 3 => s.checksum
  | 4 => s.nandSizeLow
  | 5 => s.nandSizeHigh
  | 6 => s.blockSize
  | 7 => s.pageSize
  | 8 => s.spareSize
  | 9 => s.mgmtStartPb
  | 10 => s.maxTryCount
  | _ => s.tail

def ofMem (m : Mem) : Signature :=
  ⟨m.word 0, m.word 1, m.word 2, m.word 3, m.word 4, m.word 5, m.word 6, m.word 7,
    m.word 8, m.word 9, m.word 10, m.word 11⟩

end Signature

/-- A header with its checksum word cleared. -/
def clearChecksum (m : Mem) : Mem := m.copy 12 (fun _ => 0) 4

/-- `nmbm_update_checksum`. -/
def updateChecksum (m : Mem) : Mem :=
  (clearChecksum m).copy 12
    (Mem.ofWords fun _ => crc32Le 0 ((clearChecksum m).bytes (m.word 2))) 4

/-- `nmbm_check_header`: the stored size must not exceed the buffer, and the
checksum is taken over the header first and then over the rest. -/
def checkHeader (m : Mem) (size : Nat) : Bool :=
  if size < m.word 2 then false
  else
    let crc := crc32Le 0 ((clearChecksum m).bytes 16)
    let crc' := if 16 < m.word 2 then crc32Le crc ((m.shift 16).bytes (m.word 2 - 16)) else crc
    m.word 3 == crc'

/-- `nmbm_check_info_table_header`; both differences are 32-bit unsigned. -/
def checkInfoTableHeader (d : LowerDevice) (m : Mem) : Bool :=
  let h := InfoTableHeader.ofMem m
  if h.magic ≠ magicInfoTable then false
  else if h.size ≠ d.infoTableSize then false
  else if subU32 h.mappingTableOff h.stateTableOff < d.stateTableSize then false
  else if subU32 d.infoTableSize h.mappingTableOff < d.mappingTableSize then false
  else true

/-- The bytes of `ni->block_state`. -/
def stateImage (bs : Bitmap) : Mem := Mem.ofWords fun k => (bs k).toNat

/-- The bytes of `ni->block_mapping`. -/
def mappingImage (bm : Nat → Int) : Mem := Mem.ofWords fun k => ofInt32 (bm k)

/-- The table image that `nmbm_generate_info_table_cache` builds in the cache. -/
def infoTableImage (d : LowerDevice) (h : InfoTableHeader) (bs : Bitmap) (bm : Nat → Int)
    (cache : Mem) : Mem :=
  let c₀ := cache.fill 0 0xff d.infoTableSize
  let c₁ := c₀.copy h.stateTableOff (stateImage bs) d.stateTableSize
  let c₂ := c₁.copy h.mappingTableOff (mappingImage bm) d.mappingTableSize
  updateChecksum (c₂.copy 0 (Mem.ofWords h.words) 32)

/-- The state table of an image, by unit. -/
def imageState (m : Mem) : Bitmap := fun k =>
  BitVec.ofNat 32 ((m.shift (InfoTableHeader.ofMem m).stateTableOff).word k)

/-- The mapping table of an image. -/
def imageMapping (m : Mem) : Nat → Int := fun k =>
  toInt32 ((m.shift (InfoTableHeader.ofMem m).mappingTableOff).word k)

section Checksum

variable (m : Mem)

theorem updateChecksum_word {k : Nat} (hk : k ≠ 3) : (updateChecksum m).word k = m.word k := by
  apply Mem.word_congr
  intro j hj
  unfold updateChecksum clearChecksum
  rw [Mem.copy_outside (by omega), Mem.copy_outside (by omega)]

theorem updateChecksum_byte {i : Nat} (hi : 16 ≤ i) : updateChecksum m i = m i := by
  unfold updateChecksum clearChecksum
  rw [Mem.copy_outside (by omega), Mem.copy_outside (by omega)]

theorem updateChecksum_checksum : (updateChecksum m).word 3 =
    crc32Le 0 ((clearChecksum m).bytes (m.word 2)) := by
  have hcrc := crc32Le_lt (show 0 < 2 ^ 32 by decide) ((clearChecksum m).bytes (m.word 2))
  have hword : (Mem.ofWords fun _ => crc32Le 0 ((clearChecksum m).bytes (m.word 2))).word 0 =
      crc32Le 0 ((clearChecksum m).bytes (m.word 2)) := Mem.word_ofWords hcrc
  rw [← hword]
  unfold updateChecksum
  simp only [Mem.word]
  rfl

theorem clearChecksum_updateChecksum (i : Nat) :
    clearChecksum (updateChecksum m) i = clearChecksum m i := by
  unfold clearChecksum updateChecksum
  by_cases h : 12 ≤ i ∧ i < 12 + 4
  · simp [Mem.copy, h]
  · simp only [Mem.copy, if_neg h, clearChecksum]

/-- Updating the checksum makes the header pass its own check. -/
theorem checkHeader_updateChecksum {size : Nat} (h16 : 16 ≤ m.word 2) (hsize : m.word 2 ≤ size) :
    checkHeader (updateChecksum m) size = true := by
  have hword : (updateChecksum m).word 2 = m.word 2 := updateChecksum_word m (by decide)
  have hclear : (clearChecksum (updateChecksum m)).bytes 16 = (clearChecksum m).bytes 16 :=
    Mem.bytes_congr fun i _ => clearChecksum_updateChecksum m i
  have hrest : ((updateChecksum m).shift 16).bytes (m.word 2 - 16) =
      ((clearChecksum m).shift 16).bytes (m.word 2 - 16) := by
    apply Mem.bytes_congr
    intro i _
    rw [Mem.shift_apply, Mem.shift_apply, updateChecksum_byte m (by omega), clearChecksum,
      Mem.copy_outside (by omega)]
  have hsplit : (clearChecksum m).bytes (m.word 2) =
      (clearChecksum m).bytes 16 ++ ((clearChecksum m).shift 16).bytes (m.word 2 - 16) := by
    rw [← Mem.bytes_add]
    congr 1
    omega
  simp only [checkHeader, hword, hclear, hrest, updateChecksum_checksum, Nat.not_lt.mpr hsize,
    if_false]
  by_cases h : 16 < m.word 2
  · rw [if_pos h, hsplit, crc32Le_append, beq_self_eq_true]
  · have he : m.word 2 = 16 := by omega
    rw [if_neg h, he, beq_self_eq_true]

end Checksum

/-- The offsets of a header keep the three parts of a table apart and inside it. -/
structure InfoTableHeader.Fits (d : LowerDevice) (h : InfoTableHeader) : Prop where
  state : 32 ≤ h.stateTableOff
  mapping : h.stateTableOff + d.stateTableSize ≤ h.mappingTableOff
  stop : h.mappingTableOff + d.mappingTableSize ≤ d.infoTableSize

section Image

variable {g : Geometry} {h : InfoTableHeader} (bs : Bitmap) (bm : Nat → Int) (cache : Mem)

private theorem image_word {k : Nat} (hk : k < 8) (h3 : k ≠ 3) (hw : h.words k < 2 ^ 32) :
    (infoTableImage g.toLowerDevice h bs bm cache).word k = h.words k := by
  unfold infoTableImage
  rw [updateChecksum_word _ h3, ← Mem.word_ofWords hw]
  apply Mem.word_congr
  intro j hj
  exact Mem.copy_zero (by omega)

theorem image_writeCount (hcount : h.writeCount < 2 ^ 32) :
    (InfoTableHeader.ofMem (infoTableImage g.toLowerDevice h bs bm cache)).writeCount =
      h.writeCount :=
  image_word bs bm cache (k := 4) (by decide) (by decide) hcount

theorem image_size (hsize : h.size = g.infoTableSize) :
    (infoTableImage g.toLowerDevice h bs bm cache).word 2 = g.infoTableSize := by
  have := g.tablesFit
  rw [image_word bs bm cache (k := 2) (by decide) (by decide) (by
    change h.size < 2 ^ 32
    omega)]
  exact hsize

/-- A generated image passes `nmbm_check_header`. -/
theorem image_checkHeader (hsize : h.size = g.infoTableSize) :
    checkHeader (infoTableImage g.toLowerDevice h bs bm cache) g.infoTableSize = true := by
  have hs := image_size bs bm cache hsize
  unfold infoTableImage at hs ⊢
  rw [updateChecksum_word _ (by decide)] at hs
  have := g.infoTableSize_ge
  exact checkHeader_updateChecksum _ (by omega) (by omega)

variable (hf : h.Fits g.toLowerDevice)

include hf

private theorem mappingTableOff_lt : h.mappingTableOff < 2 ^ 32 := by
  have := hf.stop
  have := g.tablesFit
  omega

private theorem stateTableOff_lt : h.stateTableOff < 2 ^ 32 := by
  have := hf.mapping
  have := mappingTableOff_lt hf
  omega

theorem image_stateTableOff :
    (InfoTableHeader.ofMem (infoTableImage g.toLowerDevice h bs bm cache)).stateTableOff =
      h.stateTableOff :=
  image_word bs bm cache (k := 5) (by decide) (by decide) (stateTableOff_lt hf)

theorem image_mappingTableOff :
    (InfoTableHeader.ofMem (infoTableImage g.toLowerDevice h bs bm cache)).mappingTableOff =
      h.mappingTableOff :=
  image_word bs bm cache (k := 6) (by decide) (by decide) (mappingTableOff_lt hf)

/-- A generated image passes `nmbm_check_info_table_header`. -/
theorem image_checkInfoTableHeader (hmagic : h.magic = magicInfoTable)
    (hsize : h.size = g.infoTableSize) :
    checkInfoTableHeader g.toLowerDevice (infoTableImage g.toLowerDevice h bs bm cache) = true := by
  have hm : (InfoTableHeader.ofMem (infoTableImage g.toLowerDevice h bs bm cache)).magic =
      magicInfoTable := by
    have := image_word (g := g) bs bm cache (k := 0) (by decide) (by decide) (by
      change h.magic < 2 ^ 32
      rw [hmagic]
      decide)
    exact this.trans hmagic
  have hs : (InfoTableHeader.ofMem (infoTableImage g.toLowerDevice h bs bm cache)).size =
      g.infoTableSize := image_size bs bm cache hsize
  have hfit := g.tablesFit
  have h₁ := hf.mapping
  have h₂ := hf.stop
  simp only [checkInfoTableHeader, hm, hs, image_stateTableOff bs bm cache hf,
    image_mappingTableOff bs bm cache hf, ne_eq, not_true, if_false]
  rw [subU32_of_le (by omega), subU32_of_le (by omega),
    if_neg (by omega), if_neg (by omega)]

/-- The state table of a generated image is the bitmap it was made from. -/
theorem image_state {k : Nat} (hk : 4 * k + 4 ≤ g.stateTableSize) :
    imageState (infoTableImage g.toLowerDevice h bs bm cache) k = bs k := by
  have hword : ((infoTableImage g.toLowerDevice h bs bm cache).shift h.stateTableOff).word k =
      (stateImage bs).word k := by
    apply Mem.word_congr
    intro j hj
    have h₀ := hf.state
    have h₁ := hf.mapping
    unfold infoTableImage
    rw [Mem.shift_apply, updateChecksum_byte _ (by omega), Mem.copy_outside (by omega),
      Mem.copy_outside (by omega), Mem.copy_inside (by omega)]
  unfold imageState
  rw [image_stateTableOff bs bm cache hf, hword, stateImage, Mem.word_ofWords (bs k).isLt]
  simp

/-- The mapping table of a generated image is the mapping it was made from. -/
theorem image_mapping {k : Nat} (hk : k < g.blockCount) (hlo : -2 ^ 31 ≤ bm k)
    (hhi : bm k < 2 ^ 31) :
    imageMapping (infoTableImage g.toLowerDevice h bs bm cache) k = bm k := by
  have hword : ((infoTableImage g.toLowerDevice h bs bm cache).shift h.mappingTableOff).word k =
      (mappingImage bm).word k := by
    apply Mem.word_congr
    intro j hj
    have h₀ := hf.state
    have h₁ := hf.mapping
    have hsz : g.mappingTableSize = g.blockCount * 4 := rfl
    unfold infoTableImage
    rw [Mem.shift_apply, updateChecksum_byte _ (by omega), Mem.copy_outside (by omega),
      Mem.copy_inside (by omega)]
  unfold imageMapping
  rw [image_mappingTableOff bs bm cache hf, hword, mappingImage, Mem.word_ofWords (ofInt32_lt _)]
  exact toInt32_ofInt32 hlo hhi

end Image

section Congruence

variable {m m' : Mem} {n : Nat}

/-- A header is made of its first 32 bytes. -/
theorem InfoTableHeader.ofMem_congr (h : ∀ i, i < n → m i = m' i) (hn : 32 ≤ n) :
    InfoTableHeader.ofMem m = InfoTableHeader.ofMem m' := by
  have hword (k : Nat) (hk : k < 8) : m.word k = m'.word k :=
    Mem.word_congr fun j hj => h _ (by omega)
  simp only [InfoTableHeader.ofMem, hword 0 (by decide), hword 1 (by decide),
    hword 2 (by decide), hword 3 (by decide), hword 4 (by decide), hword 5 (by decide),
    hword 6 (by decide), hword 7 (by decide)]

/-- The header check reads no byte past the buffer. -/
theorem checkHeader_congr (h : ∀ i, i < n → m i = m' i) (hn : 32 ≤ n) :
    checkHeader m n = checkHeader m' n := by
  have hword (k : Nat) (hk : k < 8) : m.word k = m'.word k :=
    Mem.word_congr fun j hj => h _ (by omega)
  have hclear : (clearChecksum m).bytes 16 = (clearChecksum m').bytes 16 := by
    apply Mem.bytes_congr
    intro i hi
    simp only [clearChecksum, Mem.copy]
    rw [h i (by omega)]
  simp only [checkHeader, hword 2 (by decide), hword 3 (by decide), hclear]
  split
  · rfl
  · next hsize =>
      have hrest : (m.shift 16).bytes (m'.word 2 - 16) =
          (m'.shift 16).bytes (m'.word 2 - 16) := by
        apply Mem.bytes_congr
        intro i hi
        exact h _ (by omega)
      rw [hrest]

theorem checkInfoTableHeader_congr (d : LowerDevice) (h : ∀ i, i < n → m i = m' i)
    (hn : 32 ≤ n) : checkInfoTableHeader d m = checkInfoTableHeader d m' := by
  simp only [checkInfoTableHeader, InfoTableHeader.ofMem_congr h hn]

theorem imageState_congr (h : ∀ i, i < n → m i = m' i) (hn : 32 ≤ n) {k : Nat}
    (hk : (InfoTableHeader.ofMem m').stateTableOff + 4 * k + 4 ≤ n) :
    imageState m k = imageState m' k := by
  simp only [imageState, InfoTableHeader.ofMem_congr h hn]
  congr 1
  exact Mem.word_congr fun j hj => h _ (by omega)

theorem imageMapping_congr (h : ∀ i, i < n → m i = m' i) (hn : 32 ≤ n) {k : Nat}
    (hk : (InfoTableHeader.ofMem m').mappingTableOff + 4 * k + 4 ≤ n) :
    imageMapping m k = imageMapping m' k := by
  simp only [imageMapping, InfoTableHeader.ofMem_congr h hn]
  congr 1
  exact Mem.word_congr fun j hj => h _ (by omega)

end Congruence

end Speedway.Nmbm
