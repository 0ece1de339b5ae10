import Mathlib.Tactic

/-!
# Byte memories and 32-bit little-endian words

A buffer is a total function from offsets to bytes. Bytes past the end of
the buffer are whatever memory follows it, so an out-of-range read still has
a value and copies never need a bounds side condition.
-/

namespace Speedway.Lib

/-- Memory seen from a base pointer. -/
abbrev Mem := Nat → UInt8

namespace Mem

/-- `memcpy(dst + off, src, n)`. -/
def copy (dst : Mem) (off : Nat) (src : Mem) (n : Nat) : Mem :=
  fun i => if off ≤ i ∧ i < off + n then src (i - off) else dst i

/-- `memset(dst + off, v, n)`. -/
def fill (dst : Mem) (off : Nat) (v : UInt8) (n : Nat) : Mem :=
  fun i => if off ≤ i ∧ i < off + n then v else dst i

/-- The memory seen from the pointer `m + off`. -/
def shift (m : Mem) (off : Nat) : Mem := fun i => m (off + i)

/-- The first `n` bytes. -/
def bytes (m : Mem) (n : Nat) : List UInt8 := (List.range n).map m

/-- Word `k` of an array of little-endian 32-bit words. -/
def word (m : Mem) (k : Nat) : Nat :=
  (m (4 * k)).toNat + 256 * (m (4 * k + 1)).toNat +
    65536 * (m (4 * k + 2)).toNat + 16777216 * (m (4 * k + 3)).toNat

/-- The memory image of an array of 32-bit words. -/
def ofWords (ws : Nat → Nat) : Mem :=
  fun i => UInt8.ofNat (ws (i / 4) / 256 ^ (i % 4))

@[simp] theorem shift_apply (m : Mem) (off i : Nat) : m.shift off i = m (off + i) := rfl

@[simp] theorem shift_zero (m : Mem) : m.shift 0 = m := by
  funext i
  simp

theorem shift_shift (m : Mem) (a b : Nat) : (m.shift a).shift b = m.shift (a + b) := by
  funext i
  simp only [shift_apply, Nat.add_assoc]

@[simp] theorem length_bytes (m : Mem) (n : Nat) : (m.bytes n).length = n := by
  simp [bytes]

theorem copy_inside {dst src : Mem} {off n i : Nat} (h : i < n) :
    dst.copy off src n (off + i) = src i := by
  simp [copy, h]

theorem copy_zero {dst src : Mem} {n i : Nat} (h : i < n) : dst.copy 0 src n i = src i := by
  simp [copy, h]

theorem copy_outside {dst src : Mem} {off n i : Nat} (h : i < off ∨ off + n ≤ i) :
    dst.copy off src n i = dst i := by
  have : ¬ (off ≤ i ∧ i < off + n) := by omega
  simp [copy, this]

theorem copy_congr {dst src src' : Mem} {off n : Nat} (h : ∀ i, i < n → src i = src' i) :
    dst.copy off src n = dst.copy off src' n := by
  funext i
  simp only [copy]
  split
  · exact h _ (by omega)
  · rfl

/-- Two copies of neighbouring parts of one source are one copy. -/
theorem copy_append (dst src : Mem) (off a b : Nat) :
    (dst.copy off src a).copy (off + a) (src.shift a) b = dst.copy off src (a + b) := by
  funext i
  simp only [copy, shift]
  by_cases h₁ : off + a ≤ i ∧ i < off + a + b
  · rw [if_pos h₁, if_pos (by omega)]
    congr 1
    omega
  · rw [if_neg h₁]
    by_cases h₂ : off ≤ i ∧ i < off + a
    · rw [if_pos h₂, if_pos (by omega)]
    · rw [if_neg h₂, if_neg (by omega)]

theorem fill_inside {dst : Mem} {off n i : Nat} {v : UInt8} (h : off ≤ i ∧ i < off + n) :
    dst.fill off v n i = v := by
  simp [fill, h]

theorem bytes_congr {m m' : Mem} {n : Nat} (h : ∀ i, i < n → m i = m' i) :
    m.bytes n = m'.bytes n := by
  apply List.map_congr_left
  intro i hi
  exact h i (List.mem_range.mp hi)

theorem bytes_eq_iff {m m' : Mem} {n : Nat} :
    m.bytes n = m'.bytes n ↔ ∀ i, i < n → m i = m' i := by
  constructor
  · intro h i hi
    have := List.map_inj_left.mp h i (List.mem_range.mpr hi)
    exact this
  · exact bytes_congr

/-- Splitting a buffer at `a` splits its byte list. -/
theorem bytes_add (m : Mem) (a b : Nat) :
    m.bytes (a + b) = m.bytes a ++ (m.shift a).bytes b := by
  simp [bytes, List.range_add, List.map_append, Function.comp_def]

theorem take_bytes (m : Mem) {k n : Nat} (h : k ≤ n) : (m.bytes n).take k = m.bytes k := by
  rw [bytes, ← List.map_take, List.take_range, Nat.min_eq_left h, bytes]

theorem take_drop_bytes (m : Mem) {d k n : Nat} (h : d + k ≤ n) :
    ((m.bytes n).drop d).take k = (m.shift d).bytes k := by
  have hall : (m.bytes (d + k)).drop d = (m.shift d).bytes k := by
    rw [bytes_add, List.drop_left' (length_bytes ..)]
  rw [← hall, ← take_bytes m h, List.drop_take, Nat.add_sub_cancel_left]

theorem word_lt (m : Mem) (k : Nat) : m.word k < 2 ^ 32 := by
  have h₀ := (m (4 * k)).toNat_lt
  have h₁ := (m (4 * k + 1)).toNat_lt
  have h₂ := (m (4 * k + 2)).toNat_lt
  have h₃ := (m (4 * k + 3)).toNat_lt
  simp only [word]
  omega

theorem word_congr {m m' : Mem} {k : Nat} (h : ∀ j, j < 4 → m (4 * k + j) = m' (4 * k + j)) :
    m.word k = m'.word k := by
  have h₀ := h 0 (by omega)
  have h₁ := h 1 (by omega)
  have h₂ := h 2 (by omega)
  have h₃ := h 3 (by omega)
  rw [Nat.add_zero] at h₀
  simp only [word, h₀, h₁, h₂, h₃]

/-- Reading a word back from the image of a word array. -/
theorem word_ofWords {ws : Nat → Nat} {k : Nat} (h : ws k < 2 ^ 32) :
    (ofWords ws).word k = ws k := by
  have e₀ : 4 * k / 4 = k ∧ 4 * k % 4 = 0 := by omega
  have e₁ : (4 * k + 1) / 4 = k ∧ (4 * k + 1) % 4 = 1 := by omega
  have e₂ : (4 * k + 2) / 4 = k ∧ (4 * k + 2) % 4 = 2 := by omega
  have e₃ : (4 * k + 3) / 4 = k ∧ (4 * k + 3) % 4 = 3 := by omega
  simp only [word, ofWords, e₀, e₁, e₂, e₃, UInt8.toNat_ofNat']
  omega

/-- Two memories with the same words agree on the bytes of those words. -/
theorem eq_of_word_eq {m m' : Mem} {k j : Nat} (h : m.word k = m'.word k) (hj : j < 4) :
    m (4 * k + j) = m' (4 * k + j) := by
  have b₀ := (m (4 * k)).toNat_lt
  have b₁ := (m (4 * k + 1)).toNat_lt
  have b₂ := (m (4 * k + 2)).toNat_lt
  have b₃ := (m (4 * k + 3)).toNat_lt
  have c₀ := (m' (4 * k)).toNat_lt
  have c₁ := (m' (4 * k + 1)).toNat_lt
  have c₂ := (m' (4 * k + 2)).toNat_lt
  have c₃ := (m' (4 * k + 3)).toNat_lt
  simp only [word] at h
  apply UInt8.toNat_inj.mp
  interval_cases j
  · rw [Nat.add_zero]
    omega
  · omega
  · omega
  · omega

end Mem

/-- `a - b` in 32-bit unsigned arithmetic, for 32-bit `a` and `b`. -/
def subU32 (a b : Nat) : Nat := if b ≤ a then a - b else a + 2 ^ 32 - b

theorem subU32_of_le {a b : Nat} (h : b ≤ a) : subU32 a b = a - b := if_pos h

/-- The value of a 32-bit word read as `int32_t`. -/
def toInt32 (n : Nat) : Int :=
  if n % 2 ^ 32 < 2 ^ 31 then (n % 2 ^ 32 : Nat) else (n % 2 ^ 32 : Nat) - 2 ^ 32

/-- The 32-bit word of an `int32_t` value. -/
def ofInt32 (z : Int) : Nat := (z % 2 ^ 32).toNat

theorem ofInt32_lt (z : Int) : ofInt32 z < 2 ^ 32 := by
  unfold ofInt32
  omega

theorem ofInt32_toInt32 {n : Nat} (h : n < 2 ^ 32) : ofInt32 (toInt32 n) = n := by
  unfold ofInt32 toInt32
  split <;> omega

theorem toInt32_ofInt32 {z : Int} (hlo : -2 ^ 31 ≤ z) (hhi : z < 2 ^ 31) :
    toInt32 (ofInt32 z) = z := by
  unfold ofInt32 toInt32
  split <;> omega

theorem toInt32_of_lt {n : Nat} (h : n < 2 ^ 31) : toInt32 n = n := by
  unfold toInt32
  split <;> omega

theorem toInt32_range (n : Nat) : -2 ^ 31 ≤ toInt32 n ∧ toInt32 n < 2 ^ 31 := by
  unfold toInt32
  split <;> omega

theorem toInt32_eq_natCast {n p : Nat} (h : toInt32 n = (p : Int)) (hn : n < 2 ^ 32) :
    n = p := by
  unfold toInt32 at h
  split at h <;> omega

end Speedway.Lib
