import Speedway.Gps.Resync

/-!
# Writing and checking checksums

`updateChecksumStr` writes the checksum with a leading zero, the parser compares
with one that has a leading blank. They agree from 16 on.
-/

namespace Speedway.Gps

open Speedway.Lib Speedway.Lib.Form

theorem hexDigit_inj : ∀ a b : Fin 16, hexDigit a.val = hexDigit b.val → a = b := by
  decide

theorem hexDigit_ne_blank : ∀ a : Fin 16, hexDigit a.val ≠ 0x20 := by
  decide

/-- The two ways to write a checksum. -/
theorem hexText_eq_iff {x y : UInt8} : hexText 0x20 x = hexText 0x30 y ↔ 16 ≤ y ∧ x = y := by
  have hx := x.toNat_lt
  have hy := y.toNat_lt
  have hlt (v : UInt8) : v < 16 ↔ v.toNat < 16 := UInt8.lt_iff_toNat_lt
  have hle : 16 ≤ y ↔ 16 ≤ y.toNat := UInt8.le_iff_toNat_le
  constructor
  · intro h
    rw [hexText, hexText] at h
    split at h
    · split at h
      · exact absurd (List.cons_eq_cons.mp h).1 (by decide)
      · exact absurd (List.cons_eq_cons.mp h).1.symm
          (hexDigit_ne_blank ⟨y.toNat / 16, by omega⟩)
    next hxbig =>
      rw [hlt] at hxbig
      split at h
      · have hhigh := hexDigit_inj ⟨x.toNat / 16, by omega⟩ 0 (List.cons_eq_cons.mp h).1
        have := congrArg Fin.val hhigh
        simp only [Fin.val_zero] at this
        omega
      next hybig =>
        rw [hlt] at hybig
        obtain ⟨hfirst, hrest⟩ := List.cons_eq_cons.mp h
        have hhigh := congrArg Fin.val
          (hexDigit_inj ⟨x.toNat / 16, by omega⟩ ⟨y.toNat / 16, by omega⟩ hfirst)
        have hlow := congrArg Fin.val
          (hexDigit_inj ⟨x.toNat % 16, by omega⟩ ⟨y.toNat % 16, by omega⟩
            (List.cons_eq_cons.mp hrest).1)
        simp only [] at hhigh hlow
        refine ⟨hle.mpr (by omega), UInt8.toNat_inj.mp (by omega)⟩
  · rintro ⟨hbig, rfl⟩
    rw [hle] at hbig
    have hnot : ¬ x < 16 := by
      rw [hlt]
      omega
    rw [hexText, hexText, if_neg hnot, if_neg hnot]

variable {text : List UInt8} {x y : UInt8}

theorem takeWhile_eq_self_append {p : UInt8 → Bool} {c : UInt8} {rest : List UInt8}
    (h : ∀ b ∈ text, p b = true) (hc : p c = false) :
    (text ++ c :: rest).takeWhile p = text := by
  rw [List.takeWhile_append_of_pos h, List.takeWhile_cons_of_neg (by simp [hc]), List.append_nil]

/-- The checksum is written over the two characters after `*`. -/
theorem updateChecksumStr_eq (hstar : (0x2a : UInt8) ∉ text) (hnul : (0 : UInt8) ∉ text) :
    updateChecksumStr (0x24 :: (text ++ [0x2a, x, y])) =
      (true, 0x24 :: (text ++ 0x2a :: hexText 0x30 (xorSum text))) := by
  have hidx : (text ++ [0x2a, x, y]).findIdx (· == 0x2a) = text.length := by
    have hnone : text.findIdx (· == 0x2a) = text.length := by
      rw [List.findIdx_eq_length]
      intro b hb
      simpa using fun heq : b = 0x2a => hstar (heq ▸ hb)
    rw [List.findIdx_append, hnone, if_neg (Nat.lt_irrefl _), List.findIdx_cons]
    simp
  have hsum : calcChecksumValue (0x24 :: (text ++ [0x2a, x, y])) = xorSum text := by
    rw [calcChecksumValue, List.drop_one, List.tail_cons, takeWhile_eq_self_append]
    · intro b hb
      have h₁ : b ≠ 0x2a := fun h => hstar (h ▸ hb)
      have h₂ : b ≠ 0 := fun h => hnul (h ▸ hb)
      simp [h₁, h₂]
    · rfl
  rw [updateChecksumStr, List.drop_one, List.tail_cons]
  simp only [hidx, hsum]
  rw [if_pos]
  · congr 1
    rw [show 1 + text.length + 1 = text.length + 1 + 1 by omega, List.take_succ_cons,
      List.take_length_add_append]
    simp
  · simp only [List.length_cons, List.length_append, List.length_nil]
    omega

section Found

variable {signed : Bool} {gpsBuff : Mem} {a : Nat}

theorem cleanChar_eq_star {c : UInt8} (h : cleanChar signed c = 0x2a) : c = 0x2a := by
  rw [cleanChar] at h
  split at h
  · exact absurd h (by decide)
  · exact h

theorem cleanChar_hexDigit : ∀ (signed : Bool) (n : Fin 16),
    cleanChar signed (hexDigit n.val) = hexDigit n.val := by
  decide

theorem cleanChar_hexText (v : UInt8) :
    (hexText 0x30 v).map (cleanChar signed) = hexText 0x30 v := by
  have hv := v.toNat_lt
  rw [hexText]
  split
  next hsmall =>
    rw [UInt8.lt_iff_toNat_lt] at hsmall
    have hzero : cleanChar signed 0x30 = 0x30 := by cases signed <;> decide
    rw [List.map_cons, List.map_singleton, hzero, cleanChar_hexDigit signed ⟨v.toNat, hsmall⟩]
  · rw [List.map_cons, List.map_singleton, cleanChar_hexDigit signed ⟨v.toNat / 16, by omega⟩,
      cleanChar_hexDigit signed ⟨v.toNat % 16, by omega⟩]

/-- A sentence with `*` after `text`. -/
def sentenceOf (text check : List UInt8) : List UInt8 := 0x24 :: (text ++ 0x2a :: check)

theorem length_hexText (pad v : UInt8) : (hexText pad v).length = 2 := by
  rw [hexText]
  split <;> rfl

/-- The parser sees a sentence of the buffer after the replacement. -/
theorem sentenceText_cleanBuffer {n : Nat} {sentence : List UInt8}
    (hat : (gpsBuff.shift a).bytes n = sentence) (hroom : a + n ≤ gpsBuffSize) :
    ((cleanBuffer signed gpsBuff).shift a).bytes n = sentence.map (cleanChar signed) := by
  rw [← hat, Mem.bytes, Mem.bytes, List.map_map]
  apply List.map_congr_left
  intro i hi
  rw [List.mem_range] at hi
  simp only [Function.comp_apply, Mem.shift_apply, cleanBuffer]
  rw [if_pos (by omega)]

theorem map_sentenceOf (v : UInt8) :
    (sentenceOf text (hexText 0x30 v)).map (cleanChar signed) =
      sentenceOf (text.map (cleanChar signed)) (hexText 0x30 v) := by
  have hdollar : cleanChar signed 0x24 = 0x24 := by cases signed <;> decide
  have hstar : cleanChar signed 0x2a = 0x2a := by cases signed <;> decide
  rw [sentenceOf, List.map_cons, List.map_append, List.map_cons, cleanChar_hexText, hdollar, hstar,
    sentenceOf]

theorem checksumNMEA_sentenceOf {check : List UInt8} (hnul : (0 : UInt8) ∉ text) :
    checksumNMEA (sentenceOf text check) (text.length + 1) = xorSum text := by
  have hall : ∀ b ∈ text, (b != 0) = true := by
    intro b hb
    simpa using fun heq : b = 0 => hnul (heq ▸ hb)
  rw [checksumNMEA, sentenceOf, List.take_succ_cons, List.take_left, List.drop_one, List.tail_cons]
  exact congrArg xorSum (List.takeWhile_eq_self_iff.mpr hall)

/-- The test of the parser on a sentence whose text has no `*`. -/
theorem accepts_sentenceOf {m : Mem} {v : UInt8} (hstar : (0x2a : UInt8) ∉ text)
    (hnul : (0 : UInt8) ∉ text) (hmin : minMsgSize < text.length + 4)
    (hmax : text.length + 4 ≤ maxMsgSize) (hroom : a + text.length + 4 < gpsBuffSize)
    (hat : (m.shift a).bytes (text.length + 4) = sentenceOf text (hexText 0x30 v)) :
    Accepts m a (a + 1 + text.length) ↔ 16 ≤ v ∧ xorSum text = v := by
  have hsize : 3 + (a + 1 + text.length) - a = text.length + 4 := by omega
  have hchar (i : Nat) (hi : i < text.length + 4) :
      some (m (a + i)) = (sentenceOf text (hexText 0x30 v))[i]? := by
    rw [← hat, Mem.bytes, List.getElem?_map, List.getElem?_range hi]
    rfl
  have hstart : m a = 0x24 := Option.some.inj (hchar 0 (by omega))
  have hfound : strstr m 0x2a (a + 1) = some (a + 1 + text.length) := by
    rw [strstr_eq_some]
    refine ⟨by omega, by omega, ?_, fun k h₁ h₂ => ?_⟩
    · have h := hchar (text.length + 1) (by omega)
      rw [sentenceOf, List.getElem?_cons_succ, List.getElem?_append_right (Nat.le_refl _),
        Nat.sub_self] at h
      rw [show a + 1 + text.length = a + (text.length + 1) by omega]
      exact Option.some.inj h
    · obtain ⟨i, rfl⟩ := Nat.exists_eq_add_of_le h₁
      have h := hchar (i + 1) (by omega)
      rw [sentenceOf, List.getElem?_cons_succ, List.getElem?_append_left (by omega)] at h
      rw [show a + 1 + i = a + (i + 1) by omega]
      exact fun heq => hstar (heq ▸ List.mem_of_getElem? h.symm)
  have htest : hexText 0x20 (checksumNMEA (sentenceText m a (a + 1 + text.length))
        (3 + (a + 1 + text.length) - a - 3)) =
      (sentenceText m a (a + 1 + text.length)).drop (3 + (a + 1 + text.length) - a - 2) ↔
      16 ≤ v ∧ xorSum text = v := by
    have hdrop : (sentenceOf text (hexText 0x30 v)).drop (text.length + 4 - 2) =
        hexText 0x30 v := by
      rw [show text.length + 4 - 2 = text.length + 1 + 1 by omega, sentenceOf, List.drop_succ_cons,
        List.drop_length_add_append, List.drop_one, List.tail_cons]
    rw [sentenceText, hsize, hat, hdrop, show text.length + 4 - 3 = text.length + 1 by omega,
      checksumNMEA_sentenceOf hnul, hexText_eq_iff]
  constructor
  · exact fun h => htest.mp h.checksum
  · exact fun h => ⟨hstart, hfound, by omega, by omega, htest.mpr h⟩

/-- A sentence with an updated checksum passes the test of the parser exactly when the
checksum has two digits and the replaced characters did not change it. -/
theorem updated_accepted_iff (hstar : (0x2a : UInt8) ∉ text) (hnul : (0 : UInt8) ∉ text)
    (hmin : minMsgSize < text.length + 4) (hmax : text.length + 4 ≤ maxMsgSize)
    (hroom : a + text.length + 4 < gpsBuffSize)
    (hat : (gpsBuff.shift a).bytes (text.length + 4) =
      (updateChecksumStr (sentenceOf text [x, y])).2) :
    Accepts (cleanBuffer signed gpsBuff) a (a + 1 + text.length) ↔
      16 ≤ xorSum text ∧ xorSum (text.map (cleanChar signed)) = xorSum text := by
  rw [sentenceOf, updateChecksumStr_eq hstar hnul] at hat
  have hsentence : ((cleanBuffer signed gpsBuff).shift a).bytes (text.length + 4) =
      sentenceOf (text.map (cleanChar signed)) (hexText 0x30 (xorSum text)) := by
    calc
      _ = (sentenceOf text (hexText 0x30 (xorSum text))).map (cleanChar signed) :=
        sentenceText_cleanBuffer hat (by omega)
      _ = _ := map_sentenceOf (xorSum text)
  have hlength : (text.map (cleanChar signed)).length = text.length := List.length_map _
  have hstar' : (0x2a : UInt8) ∉ text.map (cleanChar signed) := by
    intro hmem
    obtain ⟨c, hc, heq⟩ := List.mem_map.mp hmem
    exact hstar (cleanChar_eq_star heq ▸ hc)
  have hnul' : (0 : UInt8) ∉ text.map (cleanChar signed) := by
    intro hmem
    obtain ⟨c, -, heq⟩ := List.mem_map.mp hmem
    exact cleanChar_ne_nul c heq
  have h := accepts_sentenceOf (v := xorSum text) hstar' hnul' (by omega) (by omega) (by omega)
    (hlength.symm ▸ hsentence)
  rwa [hlength] at h

end Found

/-- A buffer that starts with a sentence and has blanks after it. -/
def bufferOf (sentence : List UInt8) : Mem := fun i => sentence.getD i 0x20

/-- GPGSA,A,1 -/
def fixText : List UInt8 := [0x47, 0x50, 0x47, 0x53, 0x41, 0x2c, 0x41, 0x2c, 0x31]

theorem updated_accepted_fix :
    Accepts (cleanBuffer false (bufferOf (updateChecksumStr (sentenceOf fixText [0x30, 0x30])).2))
      0 (0 + 1 + fixText.length) := by
  have hat : ((bufferOf (updateChecksumStr (sentenceOf fixText [0x30, 0x30])).2).shift 0).bytes
      (fixText.length + 4) = (updateChecksumStr (sentenceOf fixText [0x30, 0x30])).2 := by
    decide
  rw [updated_accepted_iff (by decide) (by decide) (by decide) (by decide) (by decide) hat]
  decide

/-- GPGSA,A,AB -/
def zeroText : List UInt8 := [0x47, 0x50, 0x47, 0x53, 0x41, 0x2c, 0x41, 0x2c, 0x41, 0x42]

set_option maxRecDepth 100000 in
/-- The exclusive or is 0, the checksum is written as 00 and the sentence is dropped. -/
theorem updated_rejected :
    updateChecksumStr (sentenceOf zeroText [0x30, 0x30]) =
        (true, sentenceOf zeroText [0x30, 0x30]) ∧
      (parseGPSBuffer false (bufferOf (sentenceOf zeroText [0x30, 0x30]))).gpsMsgIDX = 0 := by
  decide +kernel

end Speedway.Gps
