import Speedway.Lib.Memory

/-!
# The reflected CRC-32 of a byte list

No inversion before or after, so a checksum can be continued: the value of a
prefix is the seed for the rest.
-/

namespace Speedway.Lib

/-- One bit of the reflected division by the polynomial `0xedb88320`. -/
def crcBit (c : Nat) : Nat :=
  if c % 2 = 1 then (c / 2) ^^^ 0xedb88320 else c / 2

/-- One byte: eight bit steps after folding the byte in. -/
def crcByte (c : Nat) (b : UInt8) : Nat := crcBit^[8] (c ^^^ b.toNat)

/-- `crc32_le(seed, bytes, length)`. -/
def crc32Le (seed : Nat) (bs : List UInt8) : Nat := bs.foldl crcByte seed

/-- Continuing from a prefix checks the whole list. -/
theorem crc32Le_append (seed : Nat) (as bs : List UInt8) :
    crc32Le seed (as ++ bs) = crc32Le (crc32Le seed as) bs := by
  simp [crc32Le, List.foldl_append]

theorem crcBit_lt {c : Nat} (h : c < 2 ^ 32) : crcBit c < 2 ^ 32 := by
  unfold crcBit
  split
  · exact Nat.xor_lt_two_pow (by omega) (by decide)
  · omega

theorem crcBit_iterate_lt (n : Nat) {c : Nat} (h : c < 2 ^ 32) : crcBit^[n] c < 2 ^ 32 := by
  induction n generalizing c with
  | zero => exact h
  | succ n ih =>
      rw [Function.iterate_succ_apply]
      exact ih (crcBit_lt h)

theorem crc32Le_lt {seed : Nat} (h : seed < 2 ^ 32) (bs : List UInt8) :
    crc32Le seed bs < 2 ^ 32 := by
  induction bs generalizing seed with
  | nil => exact h
  | cons b rest ih =>
      have hb : b.toNat < 2 ^ 32 := lt_trans b.toNat_lt (by decide)
      exact ih (crcBit_iterate_lt 8 (Nat.xor_lt_two_pow h hb))

end Speedway.Lib
