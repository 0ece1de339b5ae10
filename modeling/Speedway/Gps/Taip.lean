import Speedway.Gps.Checksum
import Speedway.Gps.Fields

/-!
# TAIP sentences

`buildTAIPSentence` writes the newest position and speed in a fixed layout,
`>RPV15714+3739438-1220384601512612;ID=1234;*7F<`.
-/

namespace Speedway.Gps

section Formats

/-- The last digits of a number. -/
def fixedDigits : Nat → Nat → List UInt8
  | 0, _ => []
  | width + 1, n => fixedDigits width (n / 10) ++ [UInt8.ofNat (0x30 + n % 10)]

/-- All digits of a number, with zeros before them up to a width. -/
def zeroPadded (width n : Nat) : List UInt8 := fixedDigits (max width (Nat.log 10 n + 1)) n

/-- The format `%0d` with a width, and with the flag `+` if `plus` is set. -/
def formatInt (plus : Bool) (width : Nat) (n : Int) : List UInt8 :=
  let sign : List UInt8 := if n < 0 then [0x2d] else if plus then [0x2b] else []
  sign ++ zeroPadded (width - sign.length) n.natAbs

/-- What `snprintf` leaves of a text in `size` characters. -/
def snprintf (size : Nat) (text : List UInt8) : List UInt8 := text.take (size - 1)

@[simp] theorem length_fixedDigits (width n : Nat) : (fixedDigits width n).length = width := by
  induction width generalizing n with
  | zero => rfl
  | succ width ih => simp [fixedDigits, ih]

theorem isDigit_of_lt {d : Nat} (hd : d < 10) : isDigit (UInt8.ofNat (0x30 + d)) = true := by
  interval_cases d <;> rfl

theorem isDigit_fixedDigits (width n : Nat) : ∀ b ∈ fixedDigits width n, isDigit b = true := by
  induction width generalizing n with
  | zero => exact nofun
  | succ width ih =>
      intro b hb
      rcases List.mem_append.mp hb with hb | hb
      · exact ih (n / 10) b hb
      · rw [List.mem_singleton.mp hb]
        exact isDigit_of_lt (Nat.mod_lt n (by decide))

theorem decimal_append_digit (text : List UInt8) {d : Nat} (hd : d < 10) :
    decimal (text ++ [UInt8.ofNat (0x30 + d)]) = 10 * decimal text + d := by
  rw [decimal, List.foldl_append, List.foldl_cons, List.foldl_nil]
  congr 1
  interval_cases d <;> rfl

theorem decimal_fixedDigits (width n : Nat) : decimal (fixedDigits width n) = n % 10 ^ width := by
  induction width generalizing n with
  | zero => simp [fixedDigits, decimal, Nat.mod_one]
  | succ width ih =>
      rw [fixedDigits, decimal_append_digit _ (Nat.mod_lt n (by decide)), ih, Nat.pow_succ,
        Nat.mul_comm (10 ^ width) 10, Nat.mod_mul]
      omega

theorem zeroPadded_eq {width n : Nat} (hwidth : 0 < width) (hn : n < 10 ^ width) :
    zeroPadded width n = fixedDigits width n := by
  have hlog : Nat.log 10 n < width := by
    rcases Nat.eq_zero_or_pos n with rfl | hpos
    · simpa using hwidth
    · exact Nat.log_lt_of_lt_pow hpos.ne' hn
  rw [zeroPadded, max_eq_left hlog]

/-- A number from 0 on that fits its width. -/
theorem formatInt_false {width : Nat} {n : Int} (hwidth : 0 < width) (hn : 0 ≤ n)
    (hfits : n < 10 ^ width) : formatInt false width n = fixedDigits width n.toNat := by
  have hnat : n.natAbs = n.toNat := by omega
  rw [formatInt, if_neg hn.not_gt, hnat]
  exact zeroPadded_eq hwidth (by zify; rwa [Int.toNat_of_nonneg hn])

theorem formatInt_true {width : Nat} {n : Int} (hwidth : 0 < width) (hn : 0 ≤ n)
    (hfits : n < 10 ^ width) :
    formatInt true (width + 1) n = 0x2b :: fixedDigits width n.toNat := by
  have hnat : n.natAbs = n.toNat := by omega
  rw [formatInt, if_neg hn.not_gt, hnat]
  exact congrArg (0x2b :: ·) (zeroPadded_eq hwidth (by zify; rwa [Int.toNat_of_nonneg hn]))

end Formats

section Truncation

theorem toInt_eq_floor {x : ℚ} (hx : 0 ≤ x) : toInt x = ⌊x⌋ := by
  rw [toInt, Int.tdiv_eq_ediv_of_nonneg (Rat.num_nonneg.mpr hx), Rat.floor_def']

theorem toInt_nonneg {x : ℚ} (hx : 0 ≤ x) : 0 ≤ toInt x := by
  rw [toInt_eq_floor hx]
  exact Int.floor_nonneg.mpr hx

theorem toInt_lt {x : ℚ} {n : Int} (hx : 0 ≤ x) (hn : x < n) : toInt x < n := by
  rw [toInt_eq_floor hx]
  exact Int.floor_lt.mpr hn

end Truncation

section Model

def taipMsgSize : Nat := 256

/-- What a sentence says: the newest position, and the newest speed and heading. -/
structure Fix where
  utcTimeSec : Int
  latitude : ℚ
  longitude : ℚ
  mph : ℚ
  bearing : ℚ

variable (conv : Conversions)

/-- The text for the station of the position. -/
def stationText (stationID : List UInt8) : List UInt8 :=
  snprintf 5 (zeroPadded 4 (toSize (conv.atoi stationID)))

/-- The parts of the text up to the checksum, in their order in the format. -/
def taipParts (fix : Fix) (id : List UInt8) : List (List UInt8) :=
  let lat := snprintf 16 (formatInt true 8 (toInt (|fix.latitude| * 100000)))
  let lon := snprintf 16 (formatInt true 9 (toInt (|fix.longitude| * 100000)))
  let dataSource := 3
  let dataAge := 2
  [ascii ">RPV", formatInt false 5 fix.utcTimeSec, lat, lon, formatInt false 3 (toInt fix.mph),
    formatInt false 3 (toInt fix.bearing), zeroPadded 0 dataSource, zeroPadded 0 dataAge,
    ascii ";ID=", id, ascii ";*"]

/-- The values at the newest positions; without a `VTG` sentence the speed is 0. -/
def newestFix (readings : Nat → Readings) (idxOfNewestGGAMsg idxOfNewestVTGMsg : Int) : Fix :=
  let gga := readings idxOfNewestGGAMsg.toNat
  let vtg := readings idxOfNewestVTGMsg.toNat
  { utcTimeSec := gga.utcTimeSec
    latitude := gga.latitude
    longitude := gga.longitude
    mph := if -1 < idxOfNewestVTGMsg then vtg.speedMPH else 0
    bearing := if -1 < idxOfNewestVTGMsg then vtg.bearing else 0 }

/-- The identification in a sentence. -/
def taipID (stationID : List UInt8) (host : GpsHost) : List UInt8 :=
  if (cText host.gpsID).length ≠ 0 then cText host.gpsID else stationText conv stationID

/-- `buildTAIPSentence`: the text in `latestTAIPSentence`. -/
def buildTAIPSentence (readings : Nat → Readings) (idxOfNewestGGAMsg idxOfNewestVTGMsg : Int)
    (host : GpsHost) : List UInt8 :=
  if idxOfNewestGGAMsg < 0 then []
  else
    let fix := newestFix readings idxOfNewestGGAMsg idxOfNewestVTGMsg
    let id := taipID conv (readings idxOfNewestGGAMsg.toNat).stationID host
    let text := (taipParts fix id).flatten
    let sentence := snprintf taipMsgSize text
    let checksum := xorSum (sentence.take text.length)
    sentence ++ snprintf (taipMsgSize - text.length) (hexText 0x30 checksum ++ ascii "<")

end Model

section Layout

/-- The characters at a place of a sentence. -/
def slice (sentence : List UInt8) (start width : Nat) : List UInt8 :=
  (sentence.drop start).take width

/-- Digits that stand for a number. -/
def IsNumber (text : List UInt8) (n : Int) : Prop :=
  (∀ b ∈ text, isDigit b = true) ∧ (decimal text : Int) = n

/-- The number that a sign and digits stand for. -/
def signedDecimal (text : List UInt8) : Int :=
  if text.head? = some 0x2d then -(decimal text.tail) else decimal text.tail

/-- A sign for the hemisphere, and digits for the coordinate in units of 1e-5 degree,
truncated toward zero. -/
structure IsCoordinate (text : List UInt8) (x : ℚ) : Prop where
  sign : text.head? = some (if x < 0 then 0x2d else 0x2b)
  digits : ∀ b ∈ text.tail, isDigit b = true
  value : signedDecimal text = toInt (x * 100000)

/-- The documented layout with the values of a fix. -/
structure IsTaip (fix : Fix) (gpsID : List UInt8) (sentence : List UInt8) : Prop where
  length : sentence.length = 47
  header : slice sentence 0 4 = ascii ">RPV"
  time : IsNumber (slice sentence 4 5) fix.utcTimeSec
  latitude : IsCoordinate (slice sentence 9 8) fix.latitude
  longitude : IsCoordinate (slice sentence 17 9) fix.longitude
  speed : IsNumber (slice sentence 26 3) (toInt fix.mph)
  heading : IsNumber (slice sentence 29 3) (toInt fix.bearing)
  source : slice sentence 32 1 = ascii "3"
  age : slice sentence 33 1 = ascii "2"
  id : slice sentence 34 4 = ascii ";ID="
  gpsID : gpsID ≠ [] → slice sentence 38 4 = gpsID
  star : slice sentence 42 2 = ascii ";*"
  checksum : slice sentence 44 2 = hexText 0x30 (xorSum (slice sentence 0 44))
  stop : slice sentence 46 1 = ascii "<"

/-- The values that a sentence has room for. -/
structure Fix.InRange (fix : Fix) : Prop where
  utcTimeSec : 0 ≤ fix.utcTimeSec ∧ fix.utcTimeSec ≤ 86399
  latitude : -90 ≤ fix.latitude ∧ fix.latitude ≤ 90
  longitude : -180 ≤ fix.longitude ∧ fix.longitude ≤ 180
  mph : 0 ≤ fix.mph ∧ fix.mph < 1000
  bearing : 0 ≤ fix.bearing ∧ fix.bearing < 360

/-- A part of a text of parts, by their widths. -/
theorem slice_part {parts : List (List UInt8)} {widths : List Nat} {part : List UInt8}
    (post : List UInt8) (hwidths : parts.map List.length = widths) (i : Nat)
    (hpart : parts[i]? = some part) {start width : Nat} (hstart : (widths.take i).sum = start)
    (hwidth : part.length = width) : slice (parts.flatten ++ post) start width = part := by
  obtain ⟨hi, hget⟩ := List.getElem?_eq_some_iff.mp hpart
  have hcut : parts = parts.take i ++ part :: parts.drop (i + 1) := by
    rw [← hget, ← List.drop_eq_getElem_cons hi, List.take_append_drop]
  have hbefore : (parts.take i).flatten.length = start := by
    rw [List.length_flatten, List.map_take, hwidths, hstart]
  rw [slice, hcut, List.flatten_append, List.append_assoc, ← hbefore, List.drop_left,
    List.flatten_cons, List.append_assoc, ← hwidth, List.take_left]

theorem isNumber_fixedDigits {width : Nat} {n : Int} (hn : 0 ≤ n) (hfits : n < 10 ^ width) :
    IsNumber (fixedDigits width n.toNat) n := by
  refine ⟨isDigit_fixedDigits width _, ?_⟩
  have hlt : n.toNat < 10 ^ width := by
    zify
    rwa [Int.toNat_of_nonneg hn]
  rw [decimal_fixedDigits, Nat.mod_eq_of_lt hlt, Int.toNat_of_nonneg hn]

/-- A coordinate of so many degrees has room in its digits. -/
theorem coordinate_lt {x : ℚ} (bound : Nat) {width : Nat} (hx : -bound ≤ x ∧ x ≤ bound)
    (hfits : bound * 100000 < 10 ^ width) : |x| * 100000 < ((10 ^ width : Int) : ℚ) := by
  have habs : |x| ≤ bound := abs_le.mpr hx
  calc
    |x| * 100000 ≤ bound * 100000 := by gcongr
    _ < ((10 ^ width : Int) : ℚ) := by exact_mod_cast hfits

/-- The absolute value of a coordinate is written with the sign `+`. -/
theorem coordinate_text {x : ℚ} {width : Nat} (hpos : 0 < width) (hroom : width < 15)
    (hx : |x| * 100000 < ((10 ^ width : Int) : ℚ)) :
    snprintf 16 (formatInt true (width + 1) (toInt (|x| * 100000))) =
      0x2b :: fixedDigits width (toInt (|x| * 100000)).toNat := by
  have hnonneg : 0 ≤ |x| * 100000 := by positivity
  rw [formatInt_true hpos (toInt_nonneg hnonneg) (toInt_lt hnonneg hx), snprintf,
    List.take_of_length_le]
  rw [List.length_cons, length_fixedDigits]
  omega

/-- So it is read back for the coordinates that are not negative, and only for them. -/
theorem isCoordinate_iff {x : ℚ} {width : Nat} (hx : |x| * 100000 < ((10 ^ width : Int) : ℚ)) :
    IsCoordinate (0x2b :: fixedDigits width (toInt (|x| * 100000)).toNat) x ↔ 0 ≤ x := by
  have hnonneg : 0 ≤ |x| * 100000 := by positivity
  have hnumber := isNumber_fixedDigits (toInt_nonneg hnonneg) (toInt_lt hnonneg hx)
  constructor
  · intro hcoordinate
    by_contra hneg
    have hsign := hcoordinate.sign
    rw [if_pos (not_le.mp hneg)] at hsign
    simp at hsign
  · intro hx0
    refine ⟨?_, hnumber.1, ?_⟩
    · rw [if_neg hx0.not_gt]
      rfl
    · calc
        signedDecimal (0x2b :: fixedDigits width (toInt (|x| * 100000)).toNat) =
            decimal (fixedDigits width (toInt (|x| * 100000)).toNat) := if_neg (by simp)
        _ = toInt (|x| * 100000) := hnumber.2
        _ = toInt (x * 100000) := by rw [abs_of_nonneg hx0]

end Layout

section Sentence

variable {fix : Fix} {id : List UInt8}

theorem Fix.InRange.latitude_lt (hfix : fix.InRange) :
    |fix.latitude| * 100000 < ((10 ^ 7 : Int) : ℚ) :=
  coordinate_lt 90 (by exact_mod_cast hfix.latitude) (by norm_num)

theorem Fix.InRange.longitude_lt (hfix : fix.InRange) :
    |fix.longitude| * 100000 < ((10 ^ 8 : Int) : ℚ) :=
  coordinate_lt 180 (by exact_mod_cast hfix.longitude) (by norm_num)

/-- What is written for values in range, up to the checksum. -/
def writtenParts (fix : Fix) (id : List UInt8) : List (List UInt8) :=
  [ascii ">RPV", fixedDigits 5 fix.utcTimeSec.toNat,
    0x2b :: fixedDigits 7 (toInt (|fix.latitude| * 100000)).toNat,
    0x2b :: fixedDigits 8 (toInt (|fix.longitude| * 100000)).toNat,
    fixedDigits 3 (toInt fix.mph).toNat, fixedDigits 3 (toInt fix.bearing).toNat,
    ascii "3", ascii "2", ascii ";ID=", id, ascii ";*"]

theorem taipParts_eq (hfix : fix.InRange) : taipParts fix id = writtenParts fix id := by
  have hlat := hfix.latitude_lt
  have hlon := hfix.longitude_lt
  obtain ⟨htime, -, -, hmph, hbearing⟩ := hfix
  have hmph' := toInt_lt (n := 1000) hmph.1 hmph.2
  have hbearing' := toInt_lt (n := 360) hbearing.1 hbearing.2
  rw [taipParts, coordinate_text (by decide) (by decide) hlat,
    coordinate_text (by decide) (by decide) hlon,
    formatInt_false (by decide) htime.1 (by omega),
    formatInt_false (by decide) (toInt_nonneg hmph.1) (by omega),
    formatInt_false (by decide) (toInt_nonneg hbearing.1) (by omega)]
  rfl

theorem widths_writtenParts (hid : id.length = 4) :
    (writtenParts fix id).map List.length = [4, 5, 8, 9, 3, 3, 1, 1, 4, 4, 2] := by
  rw [writtenParts]
  simp only [List.map_cons, List.map_nil, List.length_cons, length_fixedDigits, hid]
  rfl

theorem length_writtenParts (fix : Fix) (hid : id.length = 4) :
    (writtenParts fix id).flatten.length = 44 := by
  rw [List.length_flatten, widths_writtenParts hid]
  rfl

/-- The parts with the checksum after them. -/
def writtenSentence (fix : Fix) (id : List UInt8) : List UInt8 :=
  (writtenParts fix id).flatten ++
    (hexText 0x30 (xorSum (writtenParts fix id).flatten) ++ ascii "<")

/-- What stands at the place of a part. -/
theorem slice_written (hid : id.length = 4) (i : Nat) {part : List UInt8}
    (hpart : (writtenParts fix id)[i]? = some part) {start width : Nat}
    (hstart : ([4, 5, 8, 9, 3, 3, 1, 1, 4, 4, 2].take i).sum = start)
    (hwidth : part.length = width) : slice (writtenSentence fix id) start width = part :=
  slice_part _ (widths_writtenParts hid) i hpart hstart hwidth

theorem slice_time (hid : id.length = 4) :
    slice (writtenSentence fix id) 4 5 = fixedDigits 5 fix.utcTimeSec.toNat :=
  slice_written hid 1 rfl rfl (length_fixedDigits _ _)

theorem slice_latitude (hid : id.length = 4) :
    slice (writtenSentence fix id) 9 8 =
      0x2b :: fixedDigits 7 (toInt (|fix.latitude| * 100000)).toNat :=
  slice_written hid 2 rfl rfl (congrArg Nat.succ (length_fixedDigits _ _))

theorem slice_longitude (hid : id.length = 4) :
    slice (writtenSentence fix id) 17 9 =
      0x2b :: fixedDigits 8 (toInt (|fix.longitude| * 100000)).toNat :=
  slice_written hid 3 rfl rfl (congrArg Nat.succ (length_fixedDigits _ _))

theorem slice_speed (hid : id.length = 4) :
    slice (writtenSentence fix id) 26 3 = fixedDigits 3 (toInt fix.mph).toNat :=
  slice_written hid 4 rfl rfl (length_fixedDigits _ _)

theorem slice_heading (hid : id.length = 4) :
    slice (writtenSentence fix id) 29 3 = fixedDigits 3 (toInt fix.bearing).toNat :=
  slice_written hid 5 rfl rfl (length_fixedDigits _ _)

theorem slice_id (hid : id.length = 4) : slice (writtenSentence fix id) 38 4 = id :=
  slice_written hid 9 rfl rfl hid

theorem slice_text (hid : id.length = 4) :
    slice (writtenSentence fix id) 0 44 = (writtenParts fix id).flatten := by
  rw [slice, List.drop_zero, writtenSentence, ← length_writtenParts fix hid,
    List.take_left]

theorem drop_text (hid : id.length = 4) : (writtenSentence fix id).drop 44 =
    hexText 0x30 (xorSum (writtenParts fix id).flatten) ++ ascii "<" := by
  rw [writtenSentence, ← length_writtenParts fix hid, List.drop_left]

/-- In the north and the east every field of the layout has its value. -/
theorem isTaip_written {gpsID : List UInt8} (hfix : fix.InRange) (hid : id.length = 4)
    (hgpsID : gpsID ≠ [] → id = gpsID) (hlat : 0 ≤ fix.latitude) (hlon : 0 ≤ fix.longitude) :
    IsTaip fix gpsID (writtenSentence fix id) where
  length := by
    rw [writtenSentence, List.length_append, length_writtenParts fix hid, List.length_append,
      length_hexText]
    rfl
  header := slice_written hid 0 rfl rfl rfl
  time := by
    rw [slice_time hid]
    have hlast := hfix.utcTimeSec.2
    exact isNumber_fixedDigits hfix.utcTimeSec.1 (by omega)
  latitude := by
    rw [slice_latitude hid]
    exact (isCoordinate_iff hfix.latitude_lt).mpr hlat
  longitude := by
    rw [slice_longitude hid]
    exact (isCoordinate_iff hfix.longitude_lt).mpr hlon
  speed := by
    rw [slice_speed hid]
    exact isNumber_fixedDigits (toInt_nonneg hfix.mph.1) (toInt_lt hfix.mph.1 hfix.mph.2)
  heading := by
    rw [slice_heading hid]
    have hlast := toInt_lt (n := 360) hfix.bearing.1 hfix.bearing.2
    exact isNumber_fixedDigits (toInt_nonneg hfix.bearing.1) (by omega)
  source := slice_written hid 6 rfl rfl rfl
  age := slice_written hid 7 rfl rfl rfl
  id := slice_written hid 8 rfl rfl rfl
  gpsID := by
    intro hne
    rw [slice_id hid, hgpsID hne]
  star := slice_written hid 10 rfl rfl rfl
  checksum := by
    rw [slice_text hid, slice, drop_text hid]
    exact List.take_left' (length_hexText _ _)
  stop := by
    rw [slice, ← List.drop_drop (i := 2) (j := 44), drop_text hid,
      List.drop_left' (length_hexText _ _)]
    rfl

theorem isTaip_iff {gpsID : List UInt8} (hfix : fix.InRange) (hid : id.length = 4)
    (hgpsID : gpsID ≠ [] → id = gpsID) :
    IsTaip fix gpsID (writtenSentence fix id) ↔ 0 ≤ fix.latitude ∧ 0 ≤ fix.longitude := by
  constructor
  · intro h
    have hlat := h.latitude
    have hlon := h.longitude
    rw [slice_latitude hid] at hlat
    rw [slice_longitude hid] at hlon
    exact ⟨(isCoordinate_iff hfix.latitude_lt).mp hlat,
      (isCoordinate_iff hfix.longitude_lt).mp hlon⟩
  · rintro ⟨hlat, hlon⟩
    exact isTaip_written hfix hid hgpsID hlat hlon

end Sentence

section Build

variable {conv : Conversions} {readings : Nat → Readings} {host : GpsHost}
variable {idxOfNewestGGAMsg idxOfNewestVTGMsg : Int}

theorem length_stationText (stationID : List UInt8) : (stationText conv stationID).length = 4 := by
  rw [stationText, snprintf, List.length_take, zeroPadded, length_fixedDigits]
  omega

theorem taipID_eq {stationID : List UInt8} (hne : cText host.gpsID ≠ []) :
    taipID conv stationID host = cText host.gpsID :=
  if_pos (mt List.length_eq_zero_iff.mp hne)

theorem length_taipID (conv : Conversions) (stationID : List UInt8)
    (hgpsID : (cText host.gpsID).length = 0 ∨ (cText host.gpsID).length = 4) :
    (taipID conv stationID host).length = 4 := by
  rw [taipID]
  split_ifs with hempty
  · exact hgpsID.resolve_left hempty
  · exact length_stationText stationID

/-- Nothing is cut off from a sentence in range. -/
theorem buildTAIPSentence_eq (hgga : 0 ≤ idxOfNewestGGAMsg)
    (hfix : (newestFix readings idxOfNewestGGAMsg idxOfNewestVTGMsg).InRange)
    (hgpsID : (cText host.gpsID).length = 0 ∨ (cText host.gpsID).length = 4) :
    buildTAIPSentence conv readings idxOfNewestGGAMsg idxOfNewestVTGMsg host =
      writtenSentence (newestFix readings idxOfNewestGGAMsg idxOfNewestVTGMsg)
        (taipID conv (readings idxOfNewestGGAMsg.toNat).stationID host) := by
  have hlength := length_writtenParts
    (newestFix readings idxOfNewestGGAMsg idxOfNewestVTGMsg)
    (length_taipID conv (readings idxOfNewestGGAMsg.toNat).stationID hgpsID)
  rw [buildTAIPSentence, if_neg hgga.not_gt, writtenSentence]
  simp only [taipParts_eq hfix]
  generalize (writtenParts _ _).flatten = text at hlength
  have htext : snprintf taipMsgSize text = text := List.take_of_length_le (by rw [hlength]; decide)
  simp only [htext, List.take_length]
  congr 1
  apply List.take_of_length_le
  rw [hlength, List.length_append, length_hexText]
  decide

/-- The sentence has the documented layout with the values of the fix exactly if the
position is not in the south or the west. -/
theorem taip_faithful_iff (conv : Conversions) (readings : Nat → Readings)
    (idxOfNewestGGAMsg idxOfNewestVTGMsg : Int) (host : GpsHost) (hgga : 0 ≤ idxOfNewestGGAMsg)
    (hfix : (newestFix readings idxOfNewestGGAMsg idxOfNewestVTGMsg).InRange)
    (hgpsID : (cText host.gpsID).length = 0 ∨ (cText host.gpsID).length = 4) :
    IsTaip (newestFix readings idxOfNewestGGAMsg idxOfNewestVTGMsg) (cText host.gpsID)
        (buildTAIPSentence conv readings idxOfNewestGGAMsg idxOfNewestVTGMsg host) ↔
      0 ≤ (readings idxOfNewestGGAMsg.toNat).latitude ∧
        0 ≤ (readings idxOfNewestGGAMsg.toNat).longitude := by
  rw [buildTAIPSentence_eq hgga hfix hgpsID]
  exact isTaip_iff hfix (length_taipID conv _ hgpsID) taipID_eq

/-- The position of the documented sentence, in the east or, as there, in the west. -/
def exampleReadings (longitude : ℚ) : Nat → Readings := fun _ =>
  { Readings.reset with
    utcTimeSec := 15714, latitude := 3739438 / 100000, longitude, speedMPH := 15, bearing := 126 }

theorem exampleReadings_inRange (longitude : ℚ) (hlon : -180 ≤ longitude ∧ longitude ≤ 180) :
    (newestFix (exampleReadings longitude) 0 0).InRange where
  utcTimeSec := by norm_num [newestFix, exampleReadings]
  latitude := by norm_num [newestFix, exampleReadings]
  longitude := hlon
  mph := by norm_num [newestFix, exampleReadings]
  bearing := by norm_num [newestFix, exampleReadings]

def exampleHost : GpsHost := { GpsHost.initial with gpsID := ascii "1234" ++ [0] }

theorem taip_faithful_east :
    (newestFix (exampleReadings (12203846 / 100000)) 0 0).InRange ∧
      IsTaip (newestFix (exampleReadings (12203846 / 100000)) 0 0) (cText exampleHost.gpsID)
        (buildTAIPSentence wholeNumbers (exampleReadings (12203846 / 100000)) 0 0 exampleHost) := by
  have hfix := exampleReadings_inRange (12203846 / 100000) (by norm_num)
  refine ⟨hfix, (taip_faithful_iff _ _ 0 0 _ le_rfl hfix (.inr (by decide))).mpr ?_⟩
  norm_num [exampleReadings]

/-- The documented sentence has the longitude `-12203846`, the one that is built has
`+12203846`. -/
theorem taip_west :
    (newestFix (exampleReadings (-12203846 / 100000)) 0 0).InRange ∧
      (cText exampleHost.gpsID).length = 4 ∧
      slice (buildTAIPSentence wholeNumbers (exampleReadings (-12203846 / 100000)) 0 0 exampleHost)
        17 9 = ascii "+12203846" ∧
      ¬ IsTaip (newestFix (exampleReadings (-12203846 / 100000)) 0 0) (cText exampleHost.gpsID)
        (buildTAIPSentence wholeNumbers (exampleReadings (-12203846 / 100000)) 0 0
          exampleHost) := by
  have hfix := exampleReadings_inRange (-12203846 / 100000) (by norm_num)
  have hgpsID : (cText exampleHost.gpsID).length = 4 := by decide
  have hid := fun stationID => length_taipID wholeNumbers stationID (.inr hgpsID)
  refine ⟨hfix, hgpsID, ?_, ?_⟩
  · rw [buildTAIPSentence_eq le_rfl hfix (.inr hgpsID), slice_longitude (hid _)]
    have hvalue : toInt (|(-12203846 / 100000 : ℚ)| * 100000) = 12203846 := by
      rw [show |(-12203846 / 100000 : ℚ)| * 100000 = (12203846 : Nat) by norm_num [abs_div]]
      decide
    show 0x2b :: fixedDigits 8 (toInt (|(-12203846 / 100000 : ℚ)| * 100000)).toNat = _
    rw [hvalue]
    decide
  · rw [buildTAIPSentence_eq le_rfl hfix (.inr hgpsID), isTaip_iff hfix (hid _) taipID_eq]
    rintro ⟨-, hlon⟩
    norm_num [newestFix, exampleReadings] at hlon

end Build

end Speedway.Gps
