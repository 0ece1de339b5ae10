import Speedway.Lib.Memory

/-!
# The lower device and the sizes NMBM derives from it

`checkLowerMembers` is the acceptance test of `nmbm_attach`. A `Geometry` is
an accepted device on which the tables exist: an erase block holds whole
pages, as on every NAND chip, and the table sizes are below `2 ^ 32`, so the
instance memory that `nmbm_calc_structure_size` asks for really has room for
the tables that `nmbm_init_structure` places in it.
-/

namespace Speedway.Nmbm

/-- `struct nmbm_lower_device`: sizes, flags, and which callbacks are set. -/
structure LowerDevice where
  maxRatio : Nat
  maxReservedBlocks : Nat
  create : Bool
  emptyPageEccOk : Bool
  readOnly : Bool
  size : Nat
  erasesize : Nat
  writesize : Nat
  oobsize : Nat
  hasReadPage : Bool
  hasWritePage : Bool
  hasPanicWritePage : Bool
  hasEraseBlock : Bool
  hasIsBadBlock : Bool
  hasMarkBadBlock : Bool

/-- `NMBM_MGMT_DIV`. -/
def mgmtDiv : Nat := 16

/-- `NMBM_MGMT_BLOCKS_MIN`. -/
def mgmtBlocksMin : Nat := 32

/-- `is_power_of_2_u64`, also used for the 32-bit sizes. -/
def isPowerOf2 (n : Nat) : Bool := n != 0 && (n &&& (n - 1)) == 0

/-- `nmbm_check_lower_members`; the result carries the default of `max_ratio`. -/
def checkLowerMembers (nld : LowerDevice) : Option LowerDevice :=
  if nld.size = 0 ∨ !isPowerOf2 nld.size then none
  else if nld.erasesize = 0 ∨ !isPowerOf2 nld.erasesize then none
  else if nld.writesize = 0 ∨ !isPowerOf2 nld.writesize then none
  else if nld.oobsize = 0 then none
  else if !nld.hasReadPage then none
  else if !nld.readOnly ∧ (!nld.hasWritePage ∨ !nld.hasEraseBlock) then none
  else
    let ratio := if nld.maxRatio = 0 then 1 else nld.maxRatio
    if mgmtDiv - 1 ≤ ratio then none
    else if nld.maxReservedBlocks ≠ 0 ∧ nld.maxReservedBlocks < mgmtBlocksMin then none
    else some { nld with maxRatio := ratio }

/-- `NMBM_ALIGN` for a power of two `a`. -/
def align (v a : Nat) : Nat := (v + a - 1) / a * a

namespace LowerDevice

/-- `ni->block_count`. -/
def blockCount (d : LowerDevice) : Nat := d.size / d.erasesize

/-- `ni->state_table_size`: two bits per block in units of 32 bits. -/
def stateTableSize (d : LowerDevice) : Nat := (d.blockCount + 15) / 16 * 4

/-- `ni->mapping_table_size`. -/
def mappingTableSize (d : LowerDevice) : Nat := d.blockCount * 4

/-- The offset of the state table that `nmbm_init_structure` chooses. -/
def initStateTableOff (d : LowerDevice) : Nat := align 32 d.writesize

/-- The offset of the mapping table that `nmbm_init_structure` chooses. -/
def initMappingTableOff (d : LowerDevice) : Nat :=
  d.initStateTableOff + align d.stateTableSize d.writesize

/-- `ni->info_table_size`. -/
def infoTableSize (d : LowerDevice) : Nat :=
  d.initMappingTableOff + align d.mappingTableSize d.writesize

/-- Pages of one erase block. -/
def pagesPerBlock (d : LowerDevice) : Nat := d.erasesize / d.writesize

/-- `size2blk`. -/
def size2blk (d : LowerDevice) (size : Nat) : Nat := (size + d.erasesize - 1) / d.erasesize

/-- `addr2ba`: the erase block of a linear address, as `uint32_t`. -/
def addr2ba (d : LowerDevice) (addr : Nat) : Nat := addr / d.erasesize % 2 ^ 32

/-- `ba2addr`. -/
def ba2addr (d : LowerDevice) (ba : Nat) : Nat := ba * d.erasesize

end LowerDevice

/-- `nmbm_get_spare_block_count` with the constants 1, 2 and 2 of the header. -/
def getSpareBlockCount (blocks : Nat) : Nat :=
  let val := (blocks + 2 / 2) / 2 * 1
  if val < 2 then 2 else val

/-- An accepted lower device whose blocks hold whole pages and whose tables fit
their 32-bit sizes. -/
structure Geometry extends LowerDevice where
  accepted : checkLowerMembers toLowerDevice = some toLowerDevice
  pageInBlock : writesize ≤ erasesize
  tablesFit : toLowerDevice.infoTableSize < 2 ^ 32
  sizeFits : size < 2 ^ 64

theorem isPowerOf2_iff (n : Nat) : isPowerOf2 n = true ↔ n.isPowerOfTwo := by
  rw [← Nat.ne_zero_and_sub_one_eq_zero_iff_isPowerOfTwo]
  simp [isPowerOf2]

/-- What the acceptance test establishes about the members used below. -/
theorem checkLowerMembers_some {d d' : LowerDevice} (h : checkLowerMembers d = some d') :
    d.erasesize.isPowerOfTwo ∧ d.writesize.isPowerOfTwo ∧ d.oobsize ≠ 0 ∧
      d'.maxRatio < 15 ∧ 0 < d'.maxRatio := by
  simp only [checkLowerMembers, mgmtDiv] at h
  split_ifs at h with h₁ h₂ h₃ h₄ h₅ h₆ h₇ h₈ h₉ h₁₀ h₁₁
  all_goals
    simp only [not_or, Bool.not_eq_true', Bool.not_eq_false, isPowerOf2_iff] at h₂ h₃
    obtain rfl := Option.some.inj h
    refine ⟨h₂.2, h₃.2, h₄, ?_, ?_⟩ <;> simp only <;> omega

namespace Geometry

variable (g : Geometry)

/-- `ni->info_table_spare_blocks`. -/
def infoTableSpareBlocks : Nat := getSpareBlockCount (g.size2blk g.infoTableSize)

theorem writesize_pos : 0 < g.writesize :=
  Nat.pos_of_isPowerOfTwo (checkLowerMembers_some g.accepted).2.1

theorem erasesize_pos : 0 < g.erasesize :=
  Nat.pos_of_isPowerOfTwo (checkLowerMembers_some g.accepted).1

/-- Both sizes are powers of two, so pages tile the erase block. -/
theorem erasesize_eq : g.erasesize = g.writesize * g.pagesPerBlock := by
  obtain ⟨⟨a, ha⟩, ⟨b, hb⟩, -⟩ := checkLowerMembers_some g.accepted
  have hle := g.pageInBlock
  have hdvd : g.writesize ∣ g.erasesize := by
    rw [ha, hb] at hle ⊢
    exact pow_dvd_pow 2 ((Nat.pow_le_pow_iff_right (by decide)).mp hle)
  exact (Nat.mul_div_cancel' hdvd).symm

theorem pagesPerBlock_pos : 0 < g.pagesPerBlock :=
  Nat.div_pos g.pageInBlock g.writesize_pos

theorem le_align (v : Nat) : v ≤ align v g.writesize := by
  have hpos := g.writesize_pos
  have h := Nat.div_add_mod (v + g.writesize - 1) g.writesize
  have hlt := Nat.mod_lt (v + g.writesize - 1) hpos
  rw [Nat.mul_comm] at h
  unfold align
  omega

theorem header_le_initStateTableOff : 32 ≤ g.initStateTableOff := g.le_align 32

theorem initStateTableOff_le :
    g.initStateTableOff + g.stateTableSize ≤ g.initMappingTableOff :=
  Nat.add_le_add_left (g.le_align _) _

theorem initMappingTableOff_le :
    g.initMappingTableOff + g.mappingTableSize ≤ g.infoTableSize :=
  Nat.add_le_add_left (g.le_align _) _

theorem infoTableSize_ge : 32 ≤ g.infoTableSize := by
  have h₁ := g.header_le_initStateTableOff
  have h₂ := g.initStateTableOff_le
  have h₃ := g.initMappingTableOff_le
  omega

theorem writesize_lt : g.writesize < 2 ^ 32 := by
  have h₁ := g.initStateTableOff_le
  have h₂ := g.initMappingTableOff_le
  have h₃ := g.tablesFit
  have hle : g.writesize ≤ g.initStateTableOff := by
    have hpos : 0 < (32 + g.writesize - 1) / g.writesize :=
      Nat.div_pos (by omega) g.writesize_pos
    exact Nat.le_mul_of_pos_left _ hpos
  omega

theorem writesize_dvd : g.writesize ∣ 2 ^ 32 := by
  obtain ⟨-, ⟨b, hb⟩, -⟩ := checkLowerMembers_some g.accepted
  have hlt := g.writesize_lt
  rw [hb] at hlt ⊢
  exact pow_dvd_pow 2 ((Nat.pow_lt_pow_iff_right (by decide)).mp hlt).le

theorem blockCount_lt : g.blockCount < 2 ^ 30 := by
  have h₁ := g.initMappingTableOff_le
  have h₂ := g.tablesFit
  have h₃ : g.mappingTableSize = g.blockCount * 4 := rfl
  omega

/-- The block of a byte is the block of its page. -/
theorem div_erasesize (a : Nat) :
    a / g.erasesize = a / g.writesize / g.pagesPerBlock := by
  rw [Nat.div_div_eq_div_mul, ← g.erasesize_eq]

end Geometry

end Speedway.Nmbm
