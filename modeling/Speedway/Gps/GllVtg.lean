import Speedway.Gps.Fields

/-!
# The fields of GLL and VTG sentences

The tests of `parseNMEA` for these types do not follow the comments on their formats:
the latitude direction of a `GLL` sentence is looked for at the number of its time, and
the speed of a `VTG` sentence at the number of the letter after the speed.
-/

namespace Speedway.Gps

open Speedway.Lib.Separated

section Documented

/-- The numbers of the fields in the comments on the formats `GLL` and `VTG`. -/
def documentedCourse : GpsMsgType → Quantity → Option Nat
  | .gll, .latitude => some 2
  | .gll, .latitudeDir => some 3
  | .gll, .longitude => some 4
  | .gll, .longitudeDir => some 5
  | .gll, .utcTime => some 6
  | .vtg, .bearing => some 2
  | .vtg, .speed => some 6
  | _, _ => none

/-- The documented field for a quantity. -/
def courseField (message : List UInt8) (q : Quantity) : Option (Piece UInt8) :=
  (documentedCourse (getCPSMsgType message) q).bind fun k => (commaFields message)[k - 1]?

/-- Every text is the one from its documented field, and a southern latitude is
negative. -/
structure CourseInPlace (conv : Conversions) (message : List UInt8) (p : Parse) : Prop where
  texts : ∀ q, p.texts q = (courseField message q).toList
  south : ∀ lat dir, courseField message .latitude = some lat →
    courseField message .latitudeDir = some dir → dir.text = ascii "S" →
      p.readings.latitude = -degrees (conv.atof lat.text)

/-- The number at which the loop reads a quantity. -/
def courseNumber : GpsMsgType → Quantity → Option Nat
  | .gll, .latitudeDir => none
  | .vtg, .speed => some 7
  | msgTyp, q => documentedCourse msgTyp q

/-- The sentence ends before the field that is not read. -/
def EndsBefore (message : List UInt8) : Prop :=
  (commaFields message).length < if getCPSMsgType message = .gll then 3 else 6

end Documented

section Numbering

variable {conv : Conversions} {message : List UInt8}

theorem fieldUse_course {msgTyp : GpsMsgType} (htyp : msgTyp = .gll ∨ msgTyp = .vtg) (i : Nat)
    (q : Quantity) : fieldUse msgTyp i = some q ↔ courseNumber msgTyp q = some i := by
  rcases htyp with rfl | rfl
  · cases q <;> simp [fieldUse, courseNumber, documentedCourse] <;> grind
  · cases q <;> simp [fieldUse, courseNumber, documentedCourse] <;> grind

variable (htyp : getCPSMsgType message = .gll ∨ getCPSMsgType message = .vtg)
  (hgiven : ∀ field ∈ commaFields message, field.given)
include htyp hgiven

theorem course_texts {p : Parse} (hparse : parseNMEA conv message = some p) (q : Quantity) :
    p.texts q = ((courseNumber (getCPSMsgType message) q).bind fun k =>
      (commaFields message)[k - 1]?).toList := by
  have htexts := parseNMEA_texts hparse fun i => fieldUse_course htyp i q
  rwa [List.filter_eq_self.mpr hgiven] at htexts

/-- The direction of a `GLL` latitude is never read, the speed of `VTG` at another field. -/
theorem course_texts_iff {p : Parse} (hparse : parseNMEA conv message = some p) :
    (∀ q, p.texts q = (courseField message q).toList) ↔ EndsBefore message := by
  have htexts := course_texts htyp hgiven hparse
  simp only [htexts, courseField, toList_inj, EndsBefore]
  rcases htyp with hgll | hvtg
  · rw [hgll, if_pos rfl]
    constructor
    · intro h
      have hdir : none = (commaFields message)[2]? := h .latitudeDir
      exact Nat.lt_succ_of_le (List.getElem?_eq_none_iff.mp hdir.symm)
    · intro hshort q
      cases q <;> simp [courseNumber, documentedCourse]
      omega
  · rw [hvtg, if_neg (by decide)]
    constructor
    · intro h
      have hspeed : (commaFields message)[6]? = (commaFields message)[5]? := h .speed
      by_contra hlong
      have hfive : 5 < (commaFields message).length := by omega
      rw [List.getElem?_eq_getElem hfive] at hspeed
      obtain ⟨hsix, heq⟩ := List.getElem?_eq_some_iff.mp hspeed
      exact absurd ((fields_nodup 0 _).getElem_inj_iff.mp heq) (by decide)
    · intro hshort q
      cases q <;> simp [courseNumber, documentedCourse]
      rw [List.getElem?_eq_none (by omega), List.getElem?_eq_none (by omega)]

end Numbering

/-- With every field given, the texts are those of the documented fields only in a
sentence that is too short to have the field that is not read. -/
theorem course_in_place_iff (conv : Conversions) (message : List UInt8)
    (htyp : getCPSMsgType message = .gll ∨ getCPSMsgType message = .vtg)
    (hgiven : ∀ field ∈ commaFields message, field.given) :
    (∃ p, parseNMEA conv message = some p ∧ CourseInPlace conv message p) ↔
      (cText message).length < maxMsgSize ∧ EndsBefore message := by
  constructor
  · rintro ⟨p, hparse, hplace⟩
    refine ⟨?_, (course_texts_iff htyp hgiven hparse).mp hplace.texts⟩
    by_contra hlong
    rw [parseNMEA, if_neg hlong] at hparse
    cases hparse
  · rintro ⟨hroom, hends⟩
    obtain ⟨p, hparse⟩ : ∃ p, parseNMEA conv message = some p := ⟨_, if_pos hroom⟩
    refine ⟨p, hparse, (course_texts_iff htyp hgiven hparse).mpr hends, ?_⟩
    intro lat dir _ hdir
    rw [EndsBefore] at hends
    rw [courseField] at hdir
    rcases htyp with hgll | hvtg
    · rw [hgll, if_pos rfl] at hends
      rw [hgll] at hdir
      rw [show (documentedCourse .gll .latitudeDir) = some 3 from rfl, Option.bind_some,
        List.getElem?_eq_none (by omega)] at hdir
      cases hdir
    · rw [hvtg, show (documentedCourse .vtg .latitudeDir) = none from rfl, Option.bind_none] at hdir
      cases hdir

/-- A sentence that ends after its latitude. -/
def cutSentence : List UInt8 := ascii "$GPGLL,3301*7D"

theorem course_in_place_cut : getCPSMsgType cutSentence = .gll ∧
    ∃ p, parseNMEA wholeNumbers cutSentence = some p ∧
      CourseInPlace wholeNumbers cutSentence p := by
  have htyp : getCPSMsgType cutSentence = .gll := by decide
  refine ⟨htyp, (course_in_place_iff _ _ (.inl htyp) ?_).mpr ⟨by decide, ?_⟩⟩
  · exact List.all_eq_true.mp (by decide)
  · rw [EndsBefore, htyp]
    decide

def southSentence : List UInt8 := ascii "$GPGLL,3301,S,11705,W,193806,A,A*4E"

def speedSentence : List UInt8 := ascii "$GPVTG,90,T,90,M,10,N,18,K,A*2B"

/-- A message that passes the checks for its length and checksum. -/
def PassesChecks (message : List UInt8) : Prop :=
  minMsgSize < message.length ∧ message.length ≤ maxMsgSize ∧
    hexText 0x20 (checksumNMEA message (message.length - 3)) = message.drop (message.length - 2)

instance (message : List UInt8) : Decidable (PassesChecks message) :=
  inferInstanceAs (Decidable (_ ∧ _ ∧ _))

/-- A southern latitude is stored as a northern one, and the letter after the speed is
read for the speed. -/
theorem course_out_of_place :
    (PassesChecks southSentence ∧ getCPSMsgType southSentence = .gll ∧
      (∀ field ∈ commaFields southSentence, field.given) ∧
      ∃ p, parseNMEA wholeNumbers southSentence = some p ∧
        p.readings.latitude = 33 + 1 / 60 ∧ ¬ CourseInPlace wholeNumbers southSentence p) ∧
    (PassesChecks speedSentence ∧ getCPSMsgType speedSentence = .vtg ∧
      (∀ field ∈ commaFields speedSentence, field.given) ∧
      ∃ p, parseNMEA wholeNumbers speedSentence = some p ∧
        p.texts .speed = [⟨20, ascii "N"⟩] ∧ ¬ CourseInPlace wholeNumbers speedSentence p) := by
  constructor
  · refine ⟨by decide, by decide, List.all_eq_true.mp (by decide), _, rfl, ?_, ?_⟩
    · show degrees (3301 : Nat) = 33 + 1 / 60
      have hdec : (toInt (3301 : Nat)).tdiv 100 = 33 := by decide
      rw [degrees, hdec]
      norm_num
    · intro hplace
      exact absurd (hplace.texts .latitudeDir) (by decide)
  · refine ⟨by decide, by decide, List.all_eq_true.mp (by decide), _, rfl, by decide, ?_⟩
    intro hplace
    exact absurd (hplace.texts .speed) (by decide)

end Speedway.Gps
