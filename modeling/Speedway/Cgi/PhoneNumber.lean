import Speedway.Cgi.Registration

/-!
# The phone number of the registration form

The handler copies the phone value without dashes and dots into `number[11]`. The
copy ends with the NUL of the value or when the array is full. A full array has no
NUL, and what is passed on as the phone goes on in the memory behind the array.
-/

namespace Speedway.Cgi

open Speedway.Lib

/-- A C string, by its characters before the NUL. -/
structure CText where
  chars : List UInt8
  noNul : (0 : UInt8) ∉ chars

/-- `sizeof(number)`. -/
def numberSize : Nat := 11

/-- The characters of a phone value other than dashes and dots. -/
def keptChars (value : List UInt8) : List UInt8 :=
  value.filter fun p => !(p == 0x2d || p == 0x2e)

/-- The loop that fills `number`, for what is left of the value. The memory starts
with the array. -/
def copyNumber (noffset : Nat) (number : Mem) : List UInt8 → Mem
  | [] => number.fill noffset 0 1
  | p :: value =>
      if p = 0x2d ∨ p = 0x2e then copyNumber noffset number value
      else if noffset + 1 = numberSize then number.fill noffset p 1
      else copyNumber (noffset + 1) (number.fill noffset p 1) value

/-- The memory holds the C string `text`. -/
def HoldsString (m : Mem) (text : List UInt8) : Prop :=
  (0 : UInt8) ∉ text ∧ m.bytes text.length = text ∧ m text.length = 0

/-- `strcmp(number, "8588592942") == 0`. -/
def takesBypass (number : Mem) : Prop := HoldsString number bypassNumber

/-- The number that is made of a value and passed on as the phone. -/
structure Normalised (value : CText) (number : Mem) : Prop where
  terminated : ∃ i, i < numberSize ∧ number i = 0
  text : HoldsString number ((keptChars value.chars).take 10)
  bypass : takesBypass number → keptChars value.chars = bypassNumber

/-- A memory holds one string. -/
theorem HoldsString.unique {m : Mem} {a b : List UInt8} (ha : HoldsString m a)
    (hb : HoldsString m b) : a = b := by
  obtain ⟨hnulA, hbytesA, hendA⟩ := ha
  obtain ⟨hnulB, hbytesB, hendB⟩ := hb
  have hle : ∀ {c d : List UInt8}, (0 : UInt8) ∉ d → m.bytes d.length = d →
      m c.length = 0 → d.length ≤ c.length := by
    intro c d hnul hbytes hend
    by_contra hlt
    apply hnul
    rw [← hbytes, ← hend]
    exact List.mem_map.mpr ⟨c.length, List.mem_range.mpr (by omega), rfl⟩
  have hlen : a.length = b.length := le_antisymm (hle hnulA hbytesA hendB) (hle hnulB hbytesB hendA)
  rw [← hbytesA, ← hbytesB, hlen]

/-- What the loop leaves: the characters kept, and the NUL if there is room for it. -/
structure Copied (noffset : Nat) (value : List UInt8) (number number' : Mem) : Prop where
  before : ∀ i, i < noffset → number' i = number i
  chars : ∀ i p, noffset + i < numberSize → (keptChars value)[i]? = some p →
    number' (noffset + i) = p
  nul : noffset + (keptChars value).length < numberSize →
    number' (noffset + (keptChars value).length) = 0

section Loop

variable {noffset : Nat} {value : List UInt8} {number number' : Mem} {p : UInt8}

theorem copied_nil : Copied noffset [] number (number.fill noffset 0 1) := by
  refine ⟨fun i hi => ?_, fun i p _ hp => absurd hp (by simp [keptChars]), fun _ => ?_⟩
  · rw [Mem.fill, if_neg (by omega)]
  · exact Mem.fill_inside (by simp [keptChars])

theorem keptChars_dropped (hp : p = 0x2d ∨ p = 0x2e) :
    keptChars (p :: value) = keptChars value :=
  List.filter_cons_of_neg (by rcases hp with rfl | rfl <;> decide)

theorem keptChars_kept (hp : ¬ (p = 0x2d ∨ p = 0x2e)) :
    keptChars (p :: value) = p :: keptChars value :=
  List.filter_cons_of_pos (by simpa using hp)

theorem Copied.dropped (h : Copied noffset value number number') (hp : p = 0x2d ∨ p = 0x2e) :
    Copied noffset (p :: value) number number' := by
  obtain ⟨hbefore, hchars, hnul⟩ := h
  rw [← keptChars_dropped hp] at hchars hnul
  exact ⟨hbefore, hchars, hnul⟩

/-- The character that fills the array ends the loop. -/
theorem copied_last (hp : ¬ (p = 0x2d ∨ p = 0x2e)) (hfull : noffset + 1 = numberSize) :
    Copied noffset (p :: value) number (number.fill noffset p 1) := by
  refine ⟨fun i hi => ?_, fun i q hi hq => ?_, fun hroom => ?_⟩
  · rw [Mem.fill, if_neg (by omega)]
  · obtain rfl : i = 0 := by omega
    rw [keptChars_kept hp, List.getElem?_cons_zero, Option.some.injEq] at hq
    rw [← hq]
    exact Mem.fill_inside (by omega)
  · rw [keptChars_kept hp, List.length_cons] at hroom
    omega

/-- A character that is kept, and the loop from the next offset on. -/
theorem Copied.kept (h : Copied (noffset + 1) value (number.fill noffset p 1) number')
    (hp : ¬ (p = 0x2d ∨ p = 0x2e)) : Copied noffset (p :: value) number number' := by
  refine ⟨fun i hi => ?_, fun i q hi hq => ?_, fun hroom => ?_⟩
  · rw [h.before i (by omega), Mem.fill, if_neg (by omega)]
  · rw [keptChars_kept hp] at hq
    cases i with
    | zero =>
        rw [List.getElem?_cons_zero, Option.some.injEq] at hq
        rw [h.before (noffset + 0) (Nat.lt_succ_self _), ← hq]
        exact Mem.fill_inside (by omega)
    | succ i =>
        rw [List.getElem?_cons_succ] at hq
        have := h.chars i q (by omega) hq
        rwa [show noffset + 1 + i = noffset + (i + 1) by omega] at this
  · rw [keptChars_kept hp, List.length_cons] at hroom ⊢
    have := h.nul (by omega)
    rwa [show noffset + 1 + (keptChars value).length =
      noffset + ((keptChars value).length + 1) by omega] at this

theorem copyNumber_copied (h : noffset < numberSize) (value : List UInt8) (number : Mem) :
    Copied noffset value number (copyNumber noffset number value) := by
  induction value generalizing noffset number with
  | nil => exact copied_nil
  | cons p value ih =>
      rw [copyNumber]
      split
      next hdrop => exact (ih h number).dropped hdrop
      next hkeep =>
        split
        next hfull => exact copied_last hkeep hfull
        next hmore =>
          have hnext : noffset + 1 < numberSize := by omega
          exact (ih hnext _).kept hkeep

end Loop

section Results

variable {value : List UInt8} {number number' : Mem}

theorem bytes_eq_take (h : Copied 0 value number number') {n : Nat}
    (hn : n ≤ (keptChars value).length) (hsize : n ≤ numberSize) :
    number'.bytes n = (keptChars value).take n := by
  apply List.ext_getElem?
  intro i
  by_cases hi : i < n
  · have hlt : i < (keptChars value).length := by omega
    have hchar := h.chars i _ (by omega) (List.getElem?_eq_getElem hlt)
    rw [Nat.zero_add] at hchar
    rw [List.getElem?_take_of_lt hi, List.getElem?_eq_getElem hlt, ← hchar]
    simp [Mem.bytes, hi]
  · rw [List.getElem?_eq_none (by rw [Mem.length_bytes]; omega),
      List.getElem?_eq_none (by rw [List.length_take]; omega)]

/-- A value of at most ten characters is copied with its NUL. -/
theorem holdsString_of_short (h : Copied 0 value number number')
    (hvalue : (0 : UInt8) ∉ value) (hlen : (keptChars value).length ≤ 10) :
    HoldsString number' (keptChars value) := by
  refine ⟨fun hmem => hvalue (List.mem_filter.mp hmem).1, ?_, ?_⟩
  · have hbytes := bytes_eq_take h (le_refl _) (by simp only [numberSize]; omega)
    rwa [List.take_length] at hbytes
  · have hnul := h.nul (by simp only [numberSize]; omega)
    rwa [Nat.zero_add] at hnul

/-- With more characters the array is full of them. -/
theorem number_full (h : Copied 0 value number number') (hvalue : (0 : UInt8) ∉ value)
    (hlen : 10 < (keptChars value).length) {i : Nat} (hi : i < numberSize) : number' i ≠ 0 := by
  have hlt : i < (keptChars value).length := by
    simp only [numberSize] at hi
    omega
  have hchar := h.chars i _ (by omega) (List.getElem?_eq_getElem hlt)
  rw [Nat.zero_add] at hchar
  rw [hchar]
  intro hzero
  exact hvalue (List.mem_filter.mp (hzero ▸ List.getElem_mem hlt)).1

theorem takesBypass_iff (h : Copied 0 value number number') (hvalue : (0 : UInt8) ∉ value) :
    takesBypass number' ↔ keptChars value = bypassNumber := by
  constructor
  · rintro ⟨hnul, hbytes, hend⟩
    have hshort : ¬ 10 < (keptChars value).length := fun hlong =>
      number_full h hvalue hlong (show 10 < numberSize by decide) hend
    have hholds := holdsString_of_short h hvalue (Nat.le_of_not_lt hshort)
    exact hholds.unique ⟨hnul, hbytes, hend⟩
  · intro heq
    have hholds := holdsString_of_short h hvalue (by rw [heq]; decide)
    rwa [heq] at hholds

end Results

/-- A value becomes a terminated number of its first ten kept characters exactly if
it has no more than ten; the check is bypassed for the bypass number alone. -/
theorem number_normalised_iff (value : CText) (stack : Mem) :
    Normalised value (copyNumber 0 stack value.chars) ↔
      (keptChars value.chars).length ≤ 10 := by
  have hcopied := copyNumber_copied (by decide : 0 < numberSize) value.chars stack
  constructor
  · intro h
    by_contra hlong
    obtain ⟨i, hi, hzero⟩ := h.terminated
    exact number_full hcopied value.noNul (Nat.lt_of_not_le hlong) hi hzero
  · intro hshort
    have hholds := holdsString_of_short hcopied value.noNul hshort
    refine ⟨⟨_, by simp only [numberSize]; omega, hholds.2.2⟩, ?_,
      (takesBypass_iff hcopied value.noNul).mp⟩
    rwa [List.take_of_length_le hshort]

/-- Eleven digits fill the array: the string goes on with the `X`s behind it. -/
theorem number_unterminated :
    ∃ (value : CText) (stack : Mem),
      value.chars = ascii ['1', '-', '8', '5', '8', '8', '5', '9', '2', '9', '4', '2'] ∧
      (copyNumber 0 stack value.chars).bytes 12 =
        ascii ['1', '8', '5', '8', '8', '5', '9', '2', '9', '4', '2', 'X'] ∧
      ¬ Normalised value (copyNumber 0 stack value.chars) := by
  refine ⟨⟨ascii ['1', '-', '8', '5', '8', '8', '5', '9', '2', '9', '4', '2'], by decide⟩,
    fun _ => 0x58, rfl, by decide, fun h => ?_⟩
  obtain ⟨i, hi, hzero⟩ := h.terminated
  have hnonzero : ∀ i, i < numberSize → copyNumber 0 (fun _ => 0x58)
      (ascii ['1', '-', '8', '5', '8', '8', '5', '9', '2', '9', '4', '2']) i ≠ 0 := by decide
  exact hnonzero i hi hzero

/-- The handler takes the bypass as the comparison with the array does. -/
theorem handlePair_phone_eq_none_iff (value : CText) (stack : Mem) (details : Details) :
    handlePair Field.phone.label value.chars details = none ↔
      takesBypass (copyNumber 0 stack value.chars) := by
  have hcopied := copyNumber_copied (by decide : 0 < numberSize) value.chars stack
  rw [handlePair_eq_none_iff, takesBypass_iff hcopied value.noNul]
  constructor
  · rintro ⟨-, hnumber⟩
    exact filter_eq_of_bypass hnumber
  · intro hkept
    refine ⟨rfl, ?_⟩
    rw [phoneNumber, ← keptChars, hkept]
    rfl

end Speedway.Cgi
