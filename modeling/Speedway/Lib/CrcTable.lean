import Mathlib.Data.Nat.Bitwise
import Speedway.Lib.Crc

/-!
# The CRC a byte at a time

The division is linear, so the eight bit steps of a byte act on the low byte of the
register alone; the other bytes only move down. A table of the 256 results of the bit
steps therefore computes the same checksum.
-/

namespace Speedway.Lib

/-- The division steps are linear. -/
theorem crcBit_xor (a b : Nat) : crcBit (a ^^^ b) = crcBit a ^^^ crcBit b := by
  have hpar : (a ^^^ b) % 2 = (a + b) % 2 := Nat.xor_mod_two_eq
  have hdiv : (a ^^^ b) / 2 = a / 2 ^^^ b / 2 := Nat.xor_div_two
  simp only [crcBit, hdiv]
  generalize a / 2 = a', b / 2 = b'
  rcases Nat.mod_two_eq_zero_or_one a with ha | ha <;>
    rcases Nat.mod_two_eq_zero_or_one b with hb | hb
  · rw [if_neg (by omega), if_neg (by omega), if_neg (by omega)]
  · rw [if_pos (by omega), if_neg (by omega), if_pos (by omega), Nat.xor_assoc]
  · rw [if_pos (by omega), if_pos (by omega), if_neg (by omega), Nat.xor_assoc, Nat.xor_assoc,
      Nat.xor_comm b']
  · rw [if_neg (by omega), if_pos (by omega), if_pos (by omega), Nat.xor_comm b', Nat.xor_assoc,
      ← Nat.xor_assoc 0xedb88320, Nat.xor_self, Nat.zero_xor]

theorem crcBit_iterate_xor (n a b : Nat) :
    crcBit^[n] (a ^^^ b) = crcBit^[n] a ^^^ crcBit^[n] b := by
  induction n generalizing a b with
  | zero => rfl
  | succ n ih => simp only [Function.iterate_succ_apply, crcBit_xor, ih]

/-- Low bits that are zero are shifted out. -/
theorem crcBit_iterate_mul (n a : Nat) : crcBit^[n] (a * 2 ^ n) = a := by
  induction n generalizing a with
  | zero => simp
  | succ n ih =>
      have heven : crcBit (a * 2 ^ (n + 1)) = a * 2 ^ n := by
        rw [Nat.pow_succ, ← Nat.mul_assoc, crcBit, if_neg (by omega),
          Nat.mul_div_cancel _ (by decide)]
      rw [Function.iterate_succ_apply, heven, ih]

/-- A number is its high part and its low byte. -/
theorem xor_low_byte (c : Nat) (b : UInt8) :
    c ^^^ b.toNat = (c / 2 ^ 8) * 2 ^ 8 ^^^ (c ^^^ b.toNat) % 2 ^ 8 := by
  apply Nat.eq_of_testBit_eq
  intro i
  rw [Nat.testBit_xor, Nat.testBit_xor, Nat.testBit_mod_two_pow, Nat.testBit_xor,
    Nat.testBit_mul_two_pow, Nat.testBit_div_two_pow]
  by_cases hi : i < 8
  · simp [hi, Nat.not_le.mpr hi]
  · have hb : b.toNat.testBit i = false :=
      Nat.testBit_lt_two_pow
        (lt_of_lt_of_le b.toNat_lt (Nat.pow_le_pow_right (by decide) (by omega)))
    have hadd : i - 8 + 8 = i := by omega
    simp [hi, hb, Nat.not_lt.mp hi, hadd]

/-- The byte step by a table of the bit steps of the low byte. -/
theorem crcByte_eq_table (c : Nat) (b : UInt8) :
    crcByte c b = crcBit^[8] ((c ^^^ b.toNat) % 2 ^ 8) ^^^ c / 2 ^ 8 := by
  rw [crcByte, xor_low_byte, crcBit_iterate_xor, crcBit_iterate_mul, Nat.xor_comm]
  congr 2
  rw [← xor_low_byte]

end Speedway.Lib
