import Speedway.Gps.Nmea
import Speedway.Gps.Options
import Speedway.Lib.Separated

/-!
# The fields of a sentence

`parseNMEA` takes a copy of an accepted sentence apart with `strtok` and numbers the
pieces from 1. The comments on the formats number the fields by the commas between
them, and a receiver without a fix leaves fields empty.
-/

namespace Speedway.Gps

open Speedway.Lib.Separated

section Model

/-- What a field is read for. -/
inductive Quantity where
  | utcTime
  | latitude
  | latitudeDir
  | longitude
  | longitudeDir
  | bearing
  | speed
  | altitude
  deriving DecidableEq

/-- The values in a message; a `float` is an exact rational. -/
structure Readings where
  utcTimeSec : Int
  latitude : ℚ
  longitude : ℚ
  altitude : ℚ
  speedMPH : ℚ
  bearing : ℚ
  stationID : List UInt8
  deriving DecidableEq

/-- The values that `resetGPSMessages` sets. -/
def Readings.reset : Readings := ⟨0, 0, 0, 0, 0, 0, ascii "0000"⟩

/-- The value for a quantity; a direction is in the sign of its coordinate. -/
def Readings.value (r : Readings) : Quantity → ℚ
  | .utcTime => r.utcTimeSec
  | .latitude => r.latitude
  | .latitudeDir => 0
  | .longitude => r.longitude
  | .longitudeDir => 0
  | .bearing => r.bearing
  | .speed => r.speedMPH
  | .altitude => r.altitude

/-- The conversions of the C library. -/
structure Conversions where
  atoi : List UInt8 → Int
  atof : List UInt8 → ℚ

/-- The conversion of a floating point number to `int`. -/
def toInt (x : ℚ) : Int := x.num.tdiv x.den

/-- The second of the day for `hhmmss`. -/
def secondOfDay (utcTime : Int) : Int :=
  (utcTime.tdiv 10000 * 60 + (utcTime.tdiv 100).tmod 100) * 60 + utcTime.tmod 100

/-- The degrees for `DDmm.mm`. -/
def degrees (x : ℚ) : ℚ :=
  let dec := (toInt x).tdiv 100
  dec + (x - dec * 100) / 60

def mphPerKnots : ℚ := 115078 / 100000

/-- The branch that the loop takes for a field. In `GLL` the latitude direction has the
number of the time, which is tested first. -/
def fieldUse (msgTyp : GpsMsgType) (fieldIndex : Nat) : Option Quantity :=
  if (fieldIndex = 2 ∧ (msgTyp = .gga ∨ msgTyp = .rmc ∨ msgTyp = .zda)) ∨
      (fieldIndex = 6 ∧ msgTyp = .gll) then some .utcTime
  else if (fieldIndex = 3 ∧ msgTyp = .gga) ∨ (fieldIndex = 4 ∧ msgTyp = .rmc) ∨
      (fieldIndex = 2 ∧ msgTyp = .gll) then some .latitude
  else if (fieldIndex = 4 ∧ msgTyp = .gga) ∨ (fieldIndex = 5 ∧ msgTyp = .rmc) ∨
      (fieldIndex = 6 ∧ msgTyp = .gll) then some .latitudeDir
  else if (fieldIndex = 5 ∧ msgTyp = .gga) ∨ (fieldIndex = 6 ∧ msgTyp = .rmc) ∨
      (fieldIndex = 4 ∧ msgTyp = .gll) then some .longitude
  else if (fieldIndex = 6 ∧ msgTyp = .gga) ∨ (fieldIndex = 7 ∧ msgTyp = .rmc) ∨
      (fieldIndex = 5 ∧ msgTyp = .gll) then some .longitudeDir
  else if (fieldIndex = 9 ∧ msgTyp = .rmc) ∨ (fieldIndex = 2 ∧ msgTyp = .vtg) then some .bearing
  else if (fieldIndex = 8 ∧ msgTyp = .rmc) ∨ (fieldIndex = 7 ∧ msgTyp = .vtg) then some .speed
  else if fieldIndex = 10 ∧ msgTyp = .gga then some .altitude
  else none

variable (conv : Conversions)

/-- The body of a branch. -/
def Readings.assign (r : Readings) (fld : List UInt8) : Quantity → Readings
  | .utcTime => { r with utcTimeSec := secondOfDay (conv.atoi fld) }
  | .latitude => { r with latitude := degrees (conv.atof fld) }
  | .latitudeDir => if fld = ascii "S" then { r with latitude := -r.latitude } else r
  | .longitude => { r with longitude := degrees (conv.atof fld) }
  | .longitudeDir => if fld = ascii "W" then { r with longitude := -r.longitude } else r
  | .bearing => { r with bearing := conv.atof fld }
  | .speed => { r with speedMPH := mphPerKnots * conv.atof fld }
  | .altitude => { r with altitude := conv.atof fld }

/-- The values so far, and which piece of the sentence was read for what. -/
structure Parse where
  readings : Readings
  uses : List (Quantity × Piece UInt8)

/-- One round of the loop. -/
def Parse.step (msgTyp : GpsMsgType) (p : Parse) (fld : Piece UInt8) (fieldIndex : Nat) : Parse :=
  match fieldUse msgTyp fieldIndex with
  | none => p
  | some q => ⟨p.readings.assign conv fld.text q, p.uses ++ [(q, fld)]⟩

/-- The pieces that `strtok` returns for a text. -/
def strtokAll (text : List UInt8) : List (Piece UInt8) := tokens 0x2c (text.length + 1) 0 text

/-- `parseNMEA` on a message that was reset. The copy has room for `maxMsgSize`
characters with the 0 at the end; more than that is written past it. -/
def parseNMEA (message : List UInt8) : Option Parse :=
  let text := cText message
  if text.length < maxMsgSize then
    some (((strtokAll text).zipIdx 1).foldl
      (fun p x => p.step conv (getCPSMsgType message) x.1 x.2) ⟨.reset, []⟩)
  else none

theorem parseNMEA_isSome (message : List UInt8) :
    (parseNMEA conv message).isSome = inputStrFits message := by
  by_cases hroom : (cText message).length < maxMsgSize
  · rw [parseNMEA, if_pos hroom]
    exact (decide_eq_true hroom).symm
  · rw [parseNMEA, if_neg hroom]
    exact (decide_eq_false hroom).symm

/-- The pieces that were read for a quantity. -/
def Parse.texts (p : Parse) (q : Quantity) : List (Piece UInt8) :=
  p.uses.filterMap fun u => if u.1 = q then some u.2 else none

end Model

section Documented

/-- The numbers of the fields in the comments on the formats `GGA` and `RMC`. -/
def documented : GpsMsgType → Quantity → Option Nat
  | .gga, .utcTime => some 2
  | .gga, .latitude => some 3
  | .gga, .latitudeDir => some 4
  | .gga, .longitude => some 5
  | .gga, .longitudeDir => some 6
  | .gga, .altitude => some 10
  | .rmc, .utcTime => some 2
  | .rmc, .latitude => some 4
  | .rmc, .latitudeDir => some 5
  | .rmc, .longitude => some 6
  | .rmc, .longitudeDir => some 7
  | .rmc, .speed => some 8
  | .rmc, .bearing => some 9
  | _, _ => none

/-- The fields between the commas. -/
def commaFields (message : List UInt8) : List (Piece UInt8) := fields 0x2c 0 (cText message)

/-- The documented field for a quantity, if it is not empty. -/
def givenField (message : List UInt8) (q : Quantity) : Option (Piece UInt8) :=
  (documented (getCPSMsgType message) q).bind fun k =>
    (commaFields message)[k - 1]?.filter Piece.given

/-- Every text is the one from its documented field, and a value without one is 0. -/
structure FieldsInPlace (message : List UInt8) (p : Parse) : Prop where
  texts : ∀ q, p.texts q = (givenField message q).toList
  values : ∀ q, givenField message q = none → p.readings.value q = 0

end Documented

section Loop

variable {conv : Conversions} {msgTyp : GpsMsgType}

theorem step_uses (p : Parse) (fld : Piece UInt8) (fieldIndex : Nat) :
    (p.step conv msgTyp fld fieldIndex).uses =
      p.uses ++ ((fieldUse msgTyp fieldIndex).map (·, fld)).toList := by
  rw [Parse.step]
  cases fieldUse msgTyp fieldIndex with
  | none => exact (List.append_nil _).symm
  | some q => rfl

/-- A piece is recorded for every field that has a use. -/
theorem foldl_step_uses (numbered : List (Piece UInt8 × Nat)) (p : Parse) :
    (numbered.foldl (fun p x => p.step conv msgTyp x.1 x.2) p).uses =
      p.uses ++ numbered.filterMap fun x => (fieldUse msgTyp x.2).map (·, x.1) := by
  induction numbered generalizing p with
  | nil => exact (List.append_nil _).symm
  | cons x rest ih =>
      rw [List.foldl_cons, ih, step_uses, List.append_assoc, List.filterMap_cons]
      cases fieldUse msgTyp x.2 with
      | none => rfl
      | some q => rfl

/-- Only the field of a quantity gives it a value; a direction changes no 0. -/
theorem assign_value {r : Readings} {q other : Quantity} (fld : List UInt8) (hother : other ≠ q)
    (hzero : r.value q = 0) : (r.assign conv fld other).value q = 0 := by
  cases other with
  | latitudeDir =>
      rw [Readings.assign]
      split_ifs
      · cases q <;> simp_all [Readings.value]
      · exact hzero
  | longitudeDir =>
      rw [Readings.assign]
      split_ifs
      · cases q <;> simp_all [Readings.value]
      · exact hzero
  | _ => cases q <;> first | exact hzero | exact absurd rfl hother

theorem step_value {q : Quantity} {p : Parse} {fieldIndex : Nat} (fld : Piece UInt8)
    (hnot : fieldUse msgTyp fieldIndex ≠ some q) (hzero : p.readings.value q = 0) :
    (p.step conv msgTyp fld fieldIndex).readings.value q = 0 := by
  rw [Parse.step]
  cases huse : fieldUse msgTyp fieldIndex with
  | none => exact hzero
  | some other =>
      apply assign_value fld.text _ hzero
      intro heq
      exact hnot (heq ▸ huse)

/-- A run of the loop that reads no field for a quantity leaves its value 0. -/
theorem foldl_step_value {q : Quantity} (numbered : List (Piece UInt8 × Nat)) {p : Parse}
    (hzero : p.readings.value q = 0)
    (hunused : (numbered.foldl (fun p x => p.step conv msgTyp x.1 x.2) p).texts q = []) :
    (numbered.foldl (fun p x => p.step conv msgTyp x.1 x.2) p).readings.value q = 0 := by
  have hnone : ∀ x ∈ numbered, fieldUse msgTyp x.2 ≠ some q := by
    intro x hx huse
    rw [Parse.texts, foldl_step_uses, List.filterMap_append, List.append_eq_nil_iff] at hunused
    have hmem : (q, x.1) ∈ numbered.filterMap fun x => (fieldUse msgTyp x.2).map (·, x.1) :=
      List.mem_filterMap.mpr ⟨x, hx, by rw [huse]; rfl⟩
    have := List.filterMap_eq_nil_iff.mp hunused.2 _ hmem
    simp at this
  clear hunused
  induction numbered generalizing p with
  | nil => exact hzero
  | cons x rest ih =>
      apply ih
      · exact step_value x.1 (hnone x List.mem_cons_self) hzero
      · intro y hy
        exact hnone y (List.mem_cons_of_mem _ hy)

/-- The branches of the loop are the documented numbers. -/
theorem fieldUse_eq_iff (htyp : msgTyp = .gga ∨ msgTyp = .rmc) (fieldIndex : Nat) (q : Quantity) :
    fieldUse msgTyp fieldIndex = some q ↔ documented msgTyp q = some fieldIndex := by
  rcases htyp with rfl | rfl
  · cases q <;> simp [fieldUse, documented] <;> grind
  · cases q <;> simp [fieldUse, documented] <;> grind

/-- The numbers start at 1. -/
theorem one_le_of_fieldUse {q : Quantity} {k : Nat} (huse : fieldUse msgTyp k = some q) :
    1 ≤ k := by
  rcases Nat.eq_zero_or_pos k with rfl | hpos
  · simp [fieldUse] at huse
  · exact hpos

end Loop

section Numbering

variable {conv : Conversions} {message : List UInt8}

theorem strtokAll_eq : strtokAll (cText message) = (commaFields message).filter Piece.given :=
  tokens_eq 0 (Nat.lt_succ_self _)

/-- A quantity that is read at one number gets the piece with that number. -/
theorem parseNMEA_texts {p : Parse} {q : Quantity} {number : Option Nat}
    (hparse : parseNMEA conv message = some p)
    (huse : ∀ i, fieldUse (getCPSMsgType message) i = some q ↔ number = some i) :
    p.texts q =
      (number.bind fun k => ((commaFields message).filter Piece.given)[k - 1]?).toList := by
  rw [parseNMEA] at hparse
  split_ifs at hparse with hroom
  rw [← Option.some_inj.mp hparse, Parse.texts, foldl_step_uses, List.nil_append,
    List.filterMap_filterMap, strtokAll_eq]
  have hround : ∀ x : Piece UInt8 × Nat,
      (((fieldUse (getCPSMsgType message) x.2).map (·, x.1)).bind fun u =>
          if u.1 = q then some u.2 else none) =
        if number = some x.2 then some x.1 else none := by
    intro x
    simp only [← huse]
    cases fieldUse (getCPSMsgType message) x.2 with
    | none => rfl
    | some other => simp
  simp only [hround]
  cases hnumber : number with
  | none => simp
  | some k =>
      simp only [Option.some_inj, Option.bind_some]
      exact filterMap_zipIdx (one_le_of_fieldUse ((huse k).mpr hnumber))

variable (htyp : getCPSMsgType message = .gga ∨ getCPSMsgType message = .rmc)
include htyp

/-- The texts are the documented ones if no field before them moved. -/
theorem texts_iff {p : Parse} (hparse : parseNMEA conv message = some p) :
    (∀ q, p.texts q = (givenField message q).toList) ↔
      ∀ q k, documented (getCPSMsgType message) q = some k →
        Unshifted Piece.given (commaFields message) (k - 1) := by
  apply forall_congr'
  intro q
  rw [parseNMEA_texts hparse fun i => fieldUse_eq_iff htyp i q, givenField]
  cases documented (getCPSMsgType message) q with
  | none => simp
  | some k =>
      simp only [Option.bind_some, toList_inj, Option.some_inj, forall_eq']
      exact filter_getElem?_eq_iff (fields_nodup 0 _)

end Numbering

section Values

variable {conv : Conversions} {message : List UInt8}

/-- A value without a text is still the one after the reset. -/
theorem parseNMEA_value {p : Parse} {q : Quantity} (hparse : parseNMEA conv message = some p)
    (hunused : p.texts q = []) : p.readings.value q = 0 := by
  rw [parseNMEA] at hparse
  split_ifs at hparse with hroom
  obtain rfl := Option.some_inj.mp hparse
  apply foldl_step_value _ _ hunused
  cases q <;> rfl

/-- The texts and values of a sentence are those of its documented fields exactly if the
copy has room and no field that is read was moved by an empty one. -/
theorem fields_in_place_iff (conv : Conversions) (message : List UInt8)
    (htyp : getCPSMsgType message = .gga ∨ getCPSMsgType message = .rmc) :
    (∃ p, parseNMEA conv message = some p ∧ FieldsInPlace message p) ↔
      (cText message).length < maxMsgSize ∧
        ∀ q k, documented (getCPSMsgType message) q = some k →
          Unshifted Piece.given (commaFields message) (k - 1) := by
  constructor
  · rintro ⟨p, hparse, hplace⟩
    refine ⟨?_, (texts_iff htyp hparse).mp hplace.texts⟩
    by_contra hlong
    rw [parseNMEA, if_neg hlong] at hparse
    exact nomatch hparse
  · rintro ⟨hroom, hunshifted⟩
    obtain ⟨p, hparse⟩ : ∃ p, parseNMEA conv message = some p := ⟨_, if_pos hroom⟩
    have htexts := (texts_iff htyp hparse).mpr hunshifted
    refine ⟨p, hparse, htexts, ?_⟩
    intro q hnone
    apply parseNMEA_value hparse
    rw [htexts q, hnone]
    rfl

/-- Conversions that read the digits at the start of a text. -/
def wholeNumbers : Conversions where
  atoi fld := decimal (fld.takeWhile isDigit)
  atof fld := decimal (fld.takeWhile isDigit)

def fixSentence : List UInt8 := ascii "$GPGGA,193806,3301,N,11705,W,1,13,1,90,M*3F"

theorem fields_in_place_fix : getCPSMsgType fixSentence = .gga ∧
    ∃ p, parseNMEA wholeNumbers fixSentence = some p ∧ FieldsInPlace fixSentence p := by
  have htyp : getCPSMsgType fixSentence = .gga := by decide
  refine ⟨htyp, (fields_in_place_iff _ _ (.inl htyp)).mpr ⟨by decide, ?_⟩⟩
  rw [htyp]
  intro q k hdoc
  cases q <;> cases hdoc <;> decide

/-- A receiver that knows the time, the speed, the track and the date, but no position. -/
def noFixSentence : List UInt8 := ascii "$GPRMC,193806,V,,,,,0,12,140224,,,N*64"

/-- The date is taken for the longitude. -/
theorem no_fix_shifts :
    minMsgSize < noFixSentence.length ∧ noFixSentence.length ≤ maxMsgSize ∧
      hexText 0x20 (checksumNMEA noFixSentence (noFixSentence.length - 3)) =
        noFixSentence.drop (noFixSentence.length - 2) ∧
      getCPSMsgType noFixSentence = .rmc ∧
      givenField noFixSentence .longitude = none ∧
      ∃ p, parseNMEA wholeNumbers noFixSentence = some p ∧
        p.texts .longitude = [⟨25, ascii "140224"⟩] ∧
        p.readings.longitude = 1402 + 2 / 5 ∧
        ¬ FieldsInPlace noFixSentence p := by
  have hnone : givenField noFixSentence .longitude = none := by decide
  refine ⟨by decide, by decide, by decide, by decide, hnone, _, rfl, by decide, ?_, ?_⟩
  · show degrees (140224 : Nat) = 1402 + 2 / 5
    have hdec : (toInt (140224 : Nat)).tdiv 100 = 1402 := by decide
    rw [degrees, hdec]
    norm_num
  · intro hplace
    have := hplace.texts .longitude
    rw [hnone] at this
    exact absurd this (by decide)

end Values

end Speedway.Gps
