import Mathlib.Tactic

/-!
# Records of little-endian numbers

A record is a list of fields, each with its width in bytes and its value. Bytes that start
with a record have its values, read with the same widths.
-/

namespace Speedway.Lib

/-- The low `k` bytes of a number, the lowest first. -/
def le : Nat → Nat → List UInt8
  | 0, _ => []
  | k + 1, n => UInt8.ofNat n :: le k (n / 256)

/-- The number with the given bytes. -/
def ofLe : List UInt8 → Nat
  | [] => 0
  | b :: bs => b.toNat + 256 * ofLe bs

/-- The bytes of a record. -/
def record (fs : List (Nat × Nat)) : List UInt8 := fs.flatMap fun f => le f.1 f.2

/-- The values of fields of the given widths. -/
def values : List Nat → List UInt8 → List Nat
  | [], _ => []
  | k :: ks, bs => ofLe (bs.take k) :: values ks (bs.drop k)

@[simp] theorem length_le (k n : Nat) : (le k n).length = k := by
  induction k generalizing n with
  | zero => rfl
  | succ k ih => rw [le, List.length_cons, ih]

theorem length_record (fs : List (Nat × Nat)) :
    (record fs).length = (fs.map Prod.fst).sum := by
  simp [record, List.length_flatMap]

end Speedway.Lib
