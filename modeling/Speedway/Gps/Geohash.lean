import Speedway.Gps.Options
import Speedway.Lib.Bisection
import Speedway.Lib.Blocks
import Speedway.Lib.Memory

/-!
# Geohash

`geohash_encode` halves the ranges of longitude and latitude in turn and writes one
character for every five bits. A `double` is an exact rational here.
-/

namespace Speedway.Gps

open Speedway.Lib Speedway.Lib.Bisection

section Model

/-- The alphabet. -/
def charMap : List UInt8 := ascii "0123456789bcdefghjkmnpqrstuvwxyz"

/-- The variables of the loop, and the array for the characters. -/
structure HashLoop where
  lngInterval : Bisection.Interval ℚ := ⟨-180, 180⟩
  latInterval : Bisection.Interval ℚ := ⟨-90, 90⟩
  isEven : Bool := true
  hashChar : Nat := 0
  hash : Mem

/-- Round `i` of the loop. -/
def HashLoop.round (lat lng : ℚ) (st : HashLoop) (i : Nat) : HashLoop :=
  let interval := if st.isEven then st.lngInterval else st.latInterval
  let coord := if st.isEven then lng else lat
  let mid := (interval.low + interval.high) / 2
  let hashChar := st.hashChar <<< 1
  let interval' :=
    if mid < coord then { interval with low := mid } else { interval with high := mid }
  let hashChar := if mid < coord then hashChar ||| 1 else hashChar
  { lngInterval := if st.isEven then interval' else st.lngInterval
    latInterval := if st.isEven then st.latInterval else interval'
    isEven := !st.isEven
    hashChar := if i % 5 = 0 then 0 else hashChar
    hash := if i % 5 = 0 then Function.update st.hash ((i - 1) / 5) (charMap.getD hashChar 0)
      else st.hash }

/-- `geohash_encode`: the result and what is in the array afterwards. -/
def geohashEncode (lat lng : ℚ) (hash : Mem) (precision : Int) : Bool × Mem :=
  if precision ≤ 1 then (false, hash)
  else if lat ≤ 90 ∧ -90 ≤ lat ∧ lng ≤ 180 ∧ -180 ≤ lng then
    (true, ((List.range' 1 (precision * 5).toNat).foldl (HashLoop.round lat lng) { hash }).hash)
  else (true, hash)

end Model

section Decoding

/-- The five bits of a number, the highest first. -/
def fiveBits (v : Nat) : List Bool :=
  [v / 16 % 2 == 1, v / 8 % 2 == 1, v / 4 % 2 == 1, v / 2 % 2 == 1, v % 2 == 1]

/-- The bits of a character of the alphabet. -/
def charBits (c : UInt8) : Option (List Bool) :=
  if c ∈ charMap then some (fiveBits (charMap.findIdx (· == c))) else none

/-- The whole earth. -/
def world : Cell ℚ := ⟨⟨-180, 180⟩, ⟨-90, 90⟩⟩

/-- The cell of a text: its bits are read one after the other, the first for the
longitude. -/
def decodeCell (text : List UInt8) : Option (Cell ℚ) :=
  (text.mapM charBits).map fun bits => world.refine true bits.flatten

/-- What a text of `p` characters has to be for a point. -/
structure IsGeohash (lat lng : ℚ) (p : Nat) (text : List UInt8) : Prop where
  length : text.length = p
  alphabet : ∀ c ∈ text, c ∈ charMap
  cell : ∃ cell, decodeCell text = some cell ∧ cell.Contains lng lat ∧
    cell.first.width = 360 / 2 ^ ((5 * p + 1) / 2) ∧ cell.second.width = 180 / 2 ^ (5 * p / 2)

end Decoding

section Characters

/-- The number of some bits, the highest first. -/
def bitsValue (bits : List Bool) : Nat := bits.foldl (fun v b => 2 * v + b.toNat) 0

/-- The character for some bits. -/
def bitsChar (bits : List Bool) : UInt8 := charMap.getD (bitsValue bits) 0

theorem bitsValue_concat (bits : List Bool) (b : Bool) :
    bitsValue (bits ++ [b]) = 2 * bitsValue bits + b.toNat := by
  rw [bitsValue, List.foldl_append]
  rfl

/-- A character is read back to its bits. -/
theorem charBits_bitsChar : ∀ b₁ b₂ b₃ b₄ b₅ : Bool,
    charBits (bitsChar [b₁, b₂, b₃, b₄, b₅]) = some [b₁, b₂, b₃, b₄, b₅] := by
  decide

theorem charBits_of_length {bits : List Bool} (h : bits.length = 5) :
    charBits (bitsChar bits) = some bits := by
  obtain ⟨b₁, b₂, b₃, b₄, b₅, rfl⟩ : ∃ b₁ b₂ b₃ b₄ b₅, bits = [b₁, b₂, b₃, b₄, b₅] := by
    match bits, h with
    | [b₁, b₂, b₃, b₄, b₅], _ => exact ⟨b₁, b₂, b₃, b₄, b₅, rfl⟩
  exact charBits_bitsChar b₁ b₂ b₃ b₄ b₅

theorem bitsChar_mem {bits : List Bool} (h : bits.length = 5) : bitsChar bits ∈ charMap := by
  have hsome := charBits_of_length h
  rw [charBits] at hsome
  by_contra hout
  rw [if_neg hout] at hsome
  exact absurd hsome (Option.some_ne_none _).symm

end Characters

section Loop

variable {lat lng : ℚ}

/-- The first `n` bits of a point. -/
def pointBits (lat lng : ℚ) (n : Nat) : List Bool := Cell.bits lng lat n true world

@[simp] theorem length_pointBits (lat lng : ℚ) (n : Nat) : (pointBits lat lng n).length = n :=
  Cell.length_bits ..

/-- The cell after `n` rounds. -/
def pointCell (lat lng : ℚ) (n : Nat) : Cell ℚ := world.refine true (pointBits lat lng n)

/-- The bit of the next round. -/
def nextBit (lat lng : ℚ) (n : Nat) : Bool :=
  (pointCell lat lng n).isUpper (Cell.turn true n) lng lat

theorem pointBits_succ (lat lng : ℚ) (n : Nat) :
    pointBits lat lng (n + 1) = pointBits lat lng n ++ [nextBit lat lng n] :=
  Cell.bits_add ..

theorem pointCell_succ (lat lng : ℚ) (n : Nat) :
    pointCell lat lng (n + 1) =
      (pointCell lat lng n).half (Cell.turn true n) (nextBit lat lng n) := by
  rw [pointCell, pointBits_succ, Cell.refine_append, length_pointBits]
  rfl

/-- Block `k` of the bits does not change any more. -/
theorem block_pointBits {n k : Nat} (h : (k + 1) * 5 ≤ n) (more : Nat) :
    block 5 false (pointBits lat lng (n + more)) k = block 5 false (pointBits lat lng n) k := by
  rw [pointBits, Cell.bits_add]
  apply block_append
  rwa [Cell.length_bits]

/-- The state after `n` rounds: the cell and the bits of the point so far, of which the last
ones are not written yet. -/
structure HashLoop.After (lat lng : ℚ) (hash : Mem) (n : Nat) (st : HashLoop) : Prop where
  cell : Cell.mk st.lngInterval st.latInterval = pointCell lat lng n
  isEven : st.isEven = Cell.turn true n
  hashChar : st.hashChar = bitsValue ((pointBits lat lng n).drop (n / 5 * 5))
  written : ∀ k, k < n / 5 → st.hash k = bitsChar (block 5 false (pointBits lat lng n) k)
  kept : ∀ k, n / 5 ≤ k → st.hash k = hash k

theorem after_start (lat lng : ℚ) (hash : Mem) : HashLoop.After lat lng hash 0 { hash } where
  cell := rfl
  isEven := rfl
  hashChar := rfl
  written := fun k hk => absurd hk (Nat.not_lt_zero k)
  kept := fun _ _ => rfl

/-- The bits of the character in work, with the next one. -/
theorem drop_pointBits_succ (lat lng : ℚ) (n : Nat) :
    (pointBits lat lng (n + 1)).drop (n / 5 * 5) =
      (pointBits lat lng n).drop (n / 5 * 5) ++ [nextBit lat lng n] := by
  rw [pointBits_succ, List.drop_append_of_le_length (by rw [length_pointBits]; omega)]

theorem shiftLeft_or_bit (v : Nat) (b : Bool) :
    (if b then v <<< 1 ||| 1 else v <<< 1) = 2 * v + b.toNat := by
  have hshift : v <<< 1 = 2 * v := by rw [Nat.shiftLeft_eq, Nat.pow_one, Nat.mul_comm]
  cases b with
  | true =>
      rw [if_pos rfl, ← Nat.shiftLeft_add_eq_or_of_lt (by decide : 1 < 2 ^ 1), hshift]
      rfl
  | false =>
      rw [if_neg Bool.false_ne_true, hshift]
      rfl

/-- The cell of the loop variables. -/
def HashLoop.cell (st : HashLoop) : Cell ℚ := ⟨st.lngInterval, st.latInterval⟩

/-- The bit that a round adds. -/
def HashLoop.bit (lat lng : ℚ) (st : HashLoop) : Bool := st.cell.isUpper st.isEven lng lat

theorem round_cell (st : HashLoop) (i : Nat) :
    (st.round lat lng i).cell = st.cell.half st.isEven (st.bit lat lng) := by
  rw [HashLoop.bit, Cell.isUpper, Cell.half, HashLoop.cell, HashLoop.round]
  cases st.isEven with
  | true =>
      simp only [if_true, HashLoop.cell, Interval.isUpper, Interval.half, Interval.mid]
      by_cases h : (st.lngInterval.low + st.lngInterval.high) / 2 < lng <;> simp [h]
  | false =>
      simp only [Bool.false_eq_true, if_false, HashLoop.cell, Interval.isUpper, Interval.half,
        Interval.mid]
      by_cases h : (st.latInterval.low + st.latInterval.high) / 2 < lat <;> simp [h]

/-- The number of the character after the shift. -/
def HashLoop.shifted (lat lng : ℚ) (st : HashLoop) : Nat :=
  2 * st.hashChar + (st.bit lat lng).toNat

theorem round_shifted (lat lng : ℚ) (st : HashLoop) (i : Nat) :
    (st.round lat lng i).hashChar = (if i % 5 = 0 then 0 else st.shifted lat lng) ∧
      (st.round lat lng i).hash =
        if i % 5 = 0 then
          Function.update st.hash ((i - 1) / 5) (charMap.getD (st.shifted lat lng) 0)
        else st.hash := by
  have hbit : (if st.isEven then st.lngInterval else st.latInterval).isUpper
      (if st.isEven then lng else lat) = st.bit lat lng := by
    rw [HashLoop.bit, Cell.isUpper, HashLoop.cell]
    cases st.isEven <;> rfl
  have hvalue := shiftLeft_or_bit st.hashChar (st.bit lat lng)
  rw [← hbit, Interval.isUpper] at hvalue
  simp only [decide_eq_true_eq] at hvalue
  rw [HashLoop.shifted, ← hbit, Interval.isUpper, ← hvalue]
  exact ⟨rfl, rfl⟩

/-- One round of the loop. -/
theorem HashLoop.After.round {hash : Mem} {n : Nat} {st : HashLoop}
    (h : HashLoop.After lat lng hash n st) :
    HashLoop.After lat lng hash (n + 1) (st.round lat lng (n + 1)) := by
  have hbit : st.bit lat lng = nextBit lat lng n := by
    rw [HashLoop.bit, HashLoop.cell, h.cell, h.isEven, nextBit]
  have hshifted : st.shifted lat lng =
      bitsValue ((pointBits lat lng (n + 1)).drop (n / 5 * 5)) := by
    rw [HashLoop.shifted, h.hashChar, hbit, drop_pointBits_succ, bitsValue_concat]
  have hcell : (st.round lat lng (n + 1)).cell = pointCell lat lng (n + 1) := by
    rw [pointCell_succ, ← h.isEven, ← hbit, ← h.cell]
    exact round_cell st (n + 1)
  have heven : (st.round lat lng (n + 1)).isEven = Cell.turn true (n + 1) := by
    rw [Cell.turn_succ, ← h.isEven]
    rfl
  obtain ⟨hchar, hhash⟩ := round_shifted lat lng st (n + 1)
  by_cases hfull : (n + 1) % 5 = 0
  · -- the character is complete
    have hdiv : (n + 1) / 5 = n / 5 + 1 := by omega
    rw [if_pos hfull] at hchar hhash
    refine ⟨hcell, heven, ?_, ?_, ?_⟩
    · rw [hchar, List.drop_of_length_le (by rw [length_pointBits]; omega)]
      rfl
    · intro k hk
      rw [hhash, Nat.add_sub_cancel]
      by_cases hlast : k = n / 5
      · rw [hlast, Function.update_self, hshifted, bitsChar, block_of_le]
        · rw [List.take_of_length_le (by rw [List.length_drop, length_pointBits]; omega)]
        · rw [length_pointBits]
          omega
      · rw [Function.update_of_ne hlast, h.written k (by omega)]
        exact congrArg bitsChar (block_pointBits (by omega) 1).symm
    · intro k hk
      rw [hhash, Nat.add_sub_cancel, Function.update_of_ne (by omega)]
      exact h.kept k (by omega)
  · have hdiv : (n + 1) / 5 = n / 5 := by omega
    rw [if_neg hfull] at hchar hhash
    refine ⟨hcell, heven, ?_, ?_, ?_⟩
    · rw [hchar, hshifted, hdiv]
    · intro k hk
      rw [hdiv] at hk
      rw [hhash, h.written k hk]
      exact congrArg bitsChar (block_pointBits (by omega) 1).symm
    · intro k hk
      rw [hdiv] at hk
      rw [hhash]
      exact h.kept k hk

/-- All rounds of the loop. -/
theorem after_rounds (lat lng : ℚ) (hash : Mem) (n : Nat) :
    HashLoop.After lat lng hash n
      ((List.range' 1 n).foldl (HashLoop.round lat lng) { hash }) := by
  induction n with
  | zero => exact after_start lat lng hash
  | succ n ih =>
      rw [List.range'_1_concat, List.foldl_append, List.foldl_cons, List.foldl_nil,
        Nat.add_comm 1 n]
      exact ih.round

end Loop

section Encoding

variable {lat lng : ℚ}

/-- The text of `p` characters for a point. -/
def hashText (lat lng : ℚ) (p : Nat) : List UInt8 :=
  (List.range p).map fun k => bitsChar (block 5 false (pointBits lat lng (p * 5)) k)

theorem decodeCell_hashText (lat lng : ℚ) (p : Nat) :
    decodeCell (hashText lat lng p) = some (pointCell lat lng (p * 5)) := by
  have hbits (ks : List Nat) :
      (ks.map fun k => bitsChar (block 5 false (pointBits lat lng (p * 5)) k)).mapM charBits =
        some (ks.map (block 5 false (pointBits lat lng (p * 5)))) := by
    induction ks with
    | nil => rfl
    | cons k ks ih =>
        rw [List.map_cons, List.mapM_cons, ih, charBits_of_length (length_block ..)]
        rfl
  have hall : ((List.range p).map (block 5 false (pointBits lat lng (p * 5)))).flatten =
      pointBits lat lng (p * 5) := by
    rw [← List.flatMap_def, flatMap_block (by rw [length_pointBits]), length_pointBits,
      Nat.sub_self, List.replicate_zero, List.append_nil]
  rw [decodeCell, hashText, hbits, Option.map_some, hall, pointCell]

theorem isGeohash_hashText (hlat : |lat| ≤ 90) (hlng : |lng| ≤ 180) (p : Nat) :
    IsGeohash lat lng p (hashText lat lng p) := by
  have hin : world.Contains lng lat := ⟨abs_le.mp hlng, abs_le.mp hlat⟩
  refine ⟨?_, ?_, pointCell lat lng (p * 5), decodeCell_hashText lat lng p, ?_, ?_, ?_⟩
  · rw [hashText, List.length_map, List.length_range]
  · intro c hc
    obtain ⟨k, -, rfl⟩ := List.mem_map.mp hc
    exact bitsChar_mem (length_block ..)
  · exact hin.refine (p * 5) true
  · rw [pointCell, Cell.width_first, length_pointBits, Nat.mul_comm p 5, world, Interval.width]
    norm_num
  · rw [pointCell, Cell.width_second, length_pointBits, Nat.mul_comm p 5, world, Interval.width]
    norm_num

/-- A longer text starts with the shorter one. -/
theorem hashText_isPrefix (lat lng : ℚ) {p q : Nat} (h : p ≤ q) :
    hashText lat lng p <+: hashText lat lng q := by
  obtain ⟨d, rfl⟩ := Nat.exists_eq_add_of_le h
  have hsame : hashText lat lng p = (List.range p).map fun k =>
      bitsChar (block 5 false (pointBits lat lng ((p + d) * 5)) k) := by
    apply List.map_congr_left
    intro k hk
    rw [List.mem_range] at hk
    rw [Nat.add_mul, block_pointBits (by omega)]
  rw [hsame, hashText, List.range_add, List.map_append]
  exact List.prefix_append _ _

/-- The text is written into the array, and nothing after it. -/
theorem geohashEncode_writes (hlat : |lat| ≤ 90) (hlng : |lng| ≤ 180) {p : Nat} (hp : 2 ≤ p)
    (hash : Mem) :
    (geohashEncode lat lng hash p).1 = true ∧
      (geohashEncode lat lng hash p).2.bytes p = hashText lat lng p ∧
      ∀ i, p ≤ i → (geohashEncode lat lng hash p).2 i = hash i := by
  rw [abs_le] at hlat hlng
  have hafter := after_rounds lat lng hash (p * 5)
  have hdiv : p * 5 / 5 = p := Nat.mul_div_cancel p (by decide)
  rw [geohashEncode, if_neg (by omega), if_pos ⟨hlat.2, hlat.1, hlng.2, hlng.1⟩,
    show ((p : Int) * 5).toNat = p * 5 by omega]
  refine ⟨rfl, ?_, ?_⟩
  · rw [Mem.bytes, hashText]
    apply List.map_congr_left
    intro k hk
    exact hafter.written k (by rwa [hdiv, ← List.mem_range])
  · intro i hi
    exact hafter.kept i (by rwa [hdiv])

/-- For all points and precisions from 2 on the array gets a text of so many characters
whose cell contains the point, and longer texts start with shorter ones. -/
theorem geohashEncode_correct (lat lng : ℚ) (hlat : |lat| ≤ 90) (hlng : |lng| ≤ 180) {p : Nat}
    (hp : 2 ≤ p) (hash : Mem) :
    (geohashEncode lat lng hash p).1 = true ∧
      IsGeohash lat lng p ((geohashEncode lat lng hash p).2.bytes p) ∧
      (∀ i, p ≤ i → (geohashEncode lat lng hash p).2 i = hash i) ∧
      ∀ q (hash' : Mem), p ≤ q →
        (geohashEncode lat lng hash p).2.bytes p <+: (geohashEncode lat lng hash' q).2.bytes q := by
  obtain ⟨hresult, htext, hkept⟩ := geohashEncode_writes hlat hlng hp hash
  refine ⟨hresult, ?_, hkept, ?_⟩
  · rw [htext]
    exact isGeohash_hashText hlat hlng p
  · intro q hash' hpq
    obtain ⟨-, htext', -⟩ := geohashEncode_writes hlat hlng (hp.trans hpq) hash'
    rw [htext, htext']
    exact hashText_isPrefix lat lng hpq

/-- A place in the southern hemisphere, with the precision of the status file. -/
theorem geohashEncode_correct_place :
    (geohashEncode (-335 / 10) (1512 / 10) (fun _ => 0) 12).1 = true ∧
      IsGeohash (-335 / 10) (1512 / 10) 12
        ((geohashEncode (-335 / 10) (1512 / 10) (fun _ => 0) 12).2.bytes 12) := by
  have h := geohashEncode_correct (-335 / 10) (1512 / 10) (by norm_num [abs_le])
    (by norm_num [abs_le]) (by decide : 2 ≤ 12) fun _ => 0
  exact ⟨h.1, h.2.1⟩

end Encoding

end Speedway.Gps
