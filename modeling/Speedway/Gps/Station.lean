import Mathlib.Data.List.GetD
import Speedway.Gps.Checksum
import Speedway.Gps.Options

/-!
# The station of a GGA sentence

`replaceStation` copies the four characters of the host's identification over what
follows the 14th comma and then writes the checksum again. It does not look where the
field ends.
-/

namespace Speedway.Gps

open Speedway.Lib Speedway.Lib.Form

section Model

/-- Some characters of a text are overwritten. -/
def overwrite (buffer : List UInt8) (pos : Nat) (src : List UInt8) : List UInt8 :=
  buffer.take pos ++ src ++ buffer.drop (pos + src.length)

/-- The loop over the characters of the buffer, whose length is taken again in every
round. A buffer has at least four characters. -/
def stationLoop (gpsID : List UInt8) : Nat → Nat → Nat → List UInt8 → List UInt8
  | 0, _, _, buffer => buffer
  | fuel + 1, charCnt, commaCnt, buffer =>
      if charCnt < buffer.length - 4 then
        if buffer.getD charCnt 0 = 0x2c then
          if commaCnt + 1 = 14 then
            stationLoop gpsID fuel (charCnt + 1) (commaCnt + 1)
              (updateChecksumStr (overwrite buffer (charCnt + 1) gpsID)).2
          else stationLoop gpsID fuel (charCnt + 1) (commaCnt + 1) buffer
        else stationLoop gpsID fuel (charCnt + 1) commaCnt buffer
      else buffer

/-- `replaceStation`: what is in the buffer afterwards. -/
def replaceStation (host : GpsHost) (buffer : List UInt8) : List UInt8 :=
  let gpsID := cText host.gpsID
  if gpsID.length = 4 then stationLoop gpsID buffer.length 0 0 buffer else buffer

end Model

section Length

variable {buffer src gpsID : List UInt8} {pos : Nat}

theorem length_overwrite (h : pos + src.length ≤ buffer.length) :
    (overwrite buffer pos src).length = buffer.length := by
  rw [overwrite, List.length_append, List.length_append, List.length_take, List.length_drop]
  omega

/-- The checksum is written where two characters follow the `*`. -/
theorem length_updateChecksumStr_le (nmea : List UInt8) :
    (updateChecksumStr nmea).2.length ≤ nmea.length := by
  rw [updateChecksumStr]
  split
  · rw [List.length_append, List.length_take, length_hexText]
    omega
  · exact Nat.le_refl _

theorem length_stationLoop_le (hid : gpsID.length = 4) (fuel charCnt commaCnt : Nat)
    (buffer : List UInt8) :
    (stationLoop gpsID fuel charCnt commaCnt buffer).length ≤ buffer.length := by
  induction fuel generalizing charCnt commaCnt buffer with
  | zero => exact Nat.le_refl _
  | succ fuel ih =>
      rw [stationLoop]
      split_ifs with hroom
      · calc
          _ ≤ (updateChecksumStr (overwrite buffer (charCnt + 1) gpsID)).2.length := ih ..
          _ ≤ (overwrite buffer (charCnt + 1) gpsID).length := length_updateChecksumStr_le _
          _ = buffer.length := length_overwrite (by omega)
      · exact ih ..
      · exact ih ..
      · exact Nat.le_refl _

/-- The text never gets longer. -/
theorem length_replaceStation_le (host : GpsHost) (buffer : List UInt8) :
    (replaceStation host buffer).length ≤ buffer.length := by
  rw [replaceStation]
  split
  next hid => exact length_stationLoop_le hid ..
  · exact Nat.le_refl _

end Length

section Loop

variable {gpsID front rest : List UInt8} {fuel charCnt commaCnt : Nat}

/-- After the 14th comma nothing more is replaced. -/
theorem stationLoop_done (h : 14 ≤ commaCnt) (buffer : List UInt8) :
    stationLoop gpsID fuel charCnt commaCnt buffer = buffer := by
  induction fuel generalizing charCnt commaCnt with
  | zero => rfl
  | succ fuel ih =>
      rw [stationLoop]
      split_ifs with hroom hcomma hlast
      · omega
      · exact ih (by omega)
      · exact ih h
      · rfl

/-- The characters before the 14th comma are passed over, as long as four follow. -/
theorem stationLoop_front (done : List UInt8) (commaCnt : Nat) (hrest : 4 ≤ rest.length)
    (hcount : commaCnt + front.count 0x2c < 14) :
    stationLoop gpsID (front.length + fuel) done.length commaCnt (done ++ front ++ rest) =
      stationLoop gpsID fuel (done.length + front.length) (commaCnt + front.count 0x2c)
        (done ++ front ++ rest) := by
  induction front generalizing done commaCnt with
  | nil => simp
  | cons c front ih =>
      have hroom : done.length < (done ++ c :: front ++ rest).length - 4 := by
        rw [List.length_append, List.length_append, List.length_cons]
        omega
      have hc : (done ++ c :: front ++ rest).getD done.length 0 = c := by
        simp
      have hnext (commaCnt : Nat) := ih (done ++ [c]) commaCnt
      simp only [List.append_assoc, List.singleton_append, List.length_append,
        List.length_singleton] at hnext
      rw [List.length_cons, Nat.add_right_comm, stationLoop, if_pos hroom, hc]
      by_cases hcomma : c = 0x2c
      · subst hcomma
        rw [List.count_cons_self] at hcount ⊢
        rw [if_pos rfl, if_neg (by omega), List.append_assoc,
          hnext (commaCnt + 1) (by omega)]
        congr 1 <;> omega
      · rw [List.count_cons_of_ne hcomma] at hcount ⊢
        rw [if_neg hcomma, List.append_assoc, hnext commaCnt hcount]
        congr 1
        omega

end Loop

section Replace

variable {host : GpsHost} {front rest : List UInt8}

/-- Where at least four characters follow the 14th comma they are overwritten. -/
theorem replaceStation_eq (hid : (cText host.gpsID).length = 4) (hcount : front.count 0x2c = 13)
    (hrest : 4 ≤ rest.length) :
    replaceStation host (front ++ 0x2c :: rest) =
      (updateChecksumStr (front ++ 0x2c :: (cText host.gpsID ++ rest.drop 4))).2 := by
  have hskip : stationLoop (cText host.gpsID) (front.length + (rest.length + 1))
      ([] : List UInt8).length 0 ([] ++ front ++ 0x2c :: rest) = _ :=
    stationLoop_front [] 0 (by rw [List.length_cons]; omega) (by omega)
  have hover : overwrite (front ++ 0x2c :: rest) (front.length + 1) (cText host.gpsID) =
      front ++ 0x2c :: (cText host.gpsID ++ rest.drop 4) := by
    rw [overwrite, List.take_length_add_append, hid, Nat.add_assoc,
      List.drop_length_add_append]
    simp
  rw [List.nil_append, List.length_nil, Nat.zero_add, Nat.zero_add, hcount] at hskip
  rw [replaceStation, if_pos hid, List.length_append, List.length_cons, hskip, stationLoop,
    if_pos, List.getD_append_right _ _ _ _ (Nat.le_refl _), Nat.sub_self, List.getD_cons_zero,
    if_pos rfl, if_pos rfl, hover]
  · exact stationLoop_done (Nat.le_refl _) _
  · rw [List.length_append, List.length_cons]
    omega

end Replace

section Gga

/-- Fields with commas between them. -/
def joinFields (fields : List (List UInt8)) : List UInt8 := [0x2c].intercalate fields

/-- A GGA sentence with a valid checksum, by its 15 fields. -/
structure GgaSentence where
  fields : List (List UInt8)
  check : List UInt8
  count : fields.length = 15
  plain : ∀ field ∈ fields, ∀ b ∈ field, b ≠ 0x2c ∧ b ≠ 0x2a ∧ b ≠ 0
  typ : getCPSMsgType (sentenceOf (joinFields fields) check) = .gga
  valid : check = hexText 0x30 (xorSum (joinFields fields)) ∨
    check = hexText 0x20 (xorSum (joinFields fields))

namespace GgaSentence

def message (g : GgaSentence) : List UInt8 := sentenceOf (joinFields g.fields) g.check

/-- The last field. -/
def station (g : GgaSentence) : List UInt8 := g.fields.getD 14 []

/-- The sentence with another last field and the checksum for it. -/
def withStation (g : GgaSentence) (id : List UInt8) : List UInt8 :=
  let text := joinFields (g.fields.set 14 id)
  sentenceOf text (hexText 0x30 (xorSum text))

/-- The fields before the station. -/
def front (g : GgaSentence) : List UInt8 := joinFields (g.fields.take 14)

end GgaSentence

theorem joinFields_concat {fields : List (List UInt8)} (h : fields ≠ []) (last : List UInt8) :
    joinFields (fields ++ [last]) = joinFields fields ++ 0x2c :: last := by
  induction fields with
  | nil => exact absurd rfl h
  | cons first others ih =>
      cases others with
      | nil => simp [joinFields]
      | cons second others =>
          have hrest := ih (List.cons_ne_nil _ _)
          rw [joinFields, List.cons_append] at hrest ⊢
          rw [joinFields, List.cons_append, List.intercalate_cons_cons, hrest, joinFields,
            List.intercalate_cons_cons]
          simp

theorem count_joinFields {fields : List (List UInt8)}
    (h : ∀ field ∈ fields, (0x2c : UInt8) ∉ field) :
    (joinFields fields).count 0x2c = fields.length - 1 := by
  induction fields using List.reverseRecOn with
  | nil => rfl
  | append_singleton fields last ih =>
      have hlast : last.count 0x2c = 0 := List.count_eq_zero.mpr (h last (by simp))
      by_cases hnil : fields = []
      · rw [hnil]
        simp [joinFields, hlast]
      · have hpos := List.length_pos_iff.mpr hnil
        rw [joinFields_concat hnil, List.count_append, List.count_cons_self, hlast,
          ih fun field hfield => h field (List.mem_append_left _ hfield), List.length_append,
          List.length_singleton]
        omega

/-- The characters of the fields and the commas. -/
theorem mem_joinFields {fields : List (List UInt8)} {b : UInt8} (h : b ∈ joinFields fields) :
    b = 0x2c ∨ ∃ field ∈ fields, b ∈ field := by
  induction fields using List.reverseRecOn with
  | nil => exact absurd h List.not_mem_nil
  | append_singleton fields last ih =>
      by_cases hnil : fields = []
      · rw [hnil] at h ⊢
        exact .inr ⟨last, List.mem_singleton_self last, by simpa [joinFields] using h⟩
      · rw [joinFields_concat hnil, List.mem_append, List.mem_cons] at h
        rcases h with h | h | h
        · rcases ih h with hcomma | ⟨field, hfield, hb⟩
          · exact .inl hcomma
          · exact .inr ⟨field, List.mem_append_left _ hfield, hb⟩
        · exact .inl h
        · exact .inr ⟨last, List.mem_append_right _ (List.mem_singleton_self last), h⟩

namespace GgaSentence

variable (g : GgaSentence)

theorem set_fields (id : List UInt8) : g.fields.set 14 id = g.fields.take 14 ++ [id] := by
  have hdrop : g.fields.drop (14 + 1) = [] := List.drop_of_length_le (Nat.le_of_eq g.count)
  rw [List.set_eq_take_append_cons_drop, if_pos (by rw [g.count]; decide), hdrop]

theorem fields_eq : g.fields = g.fields.take 14 ++ [g.station] := by
  have hlast : g.fields.set 14 g.station = g.fields := by
    rw [station, List.getD_eq_getElem _ _ (by rw [g.count]; decide), List.set_getElem_self]
  rw [← set_fields, hlast]

theorem take_ne_nil : g.fields.take 14 ≠ [] := by
  intro hnil
  have hlength := congrArg List.length hnil
  rw [List.length_take, g.count] at hlength
  exact absurd hlength (by decide)

theorem joinFields_set (id : List UInt8) :
    joinFields (g.fields.set 14 id) = g.front ++ 0x2c :: id := by
  rw [set_fields, joinFields_concat g.take_ne_nil, front]

theorem message_eq :
    g.message = (0x24 :: g.front) ++ 0x2c :: (g.station ++ 0x2a :: g.check) := by
  have htext : joinFields g.fields = g.front ++ 0x2c :: g.station := by
    conv_lhs => rw [g.fields_eq]
    exact joinFields_concat g.take_ne_nil g.station
  rw [message, sentenceOf, htext]
  simp

theorem count_front : (0x24 :: g.front).count 0x2c = 13 := by
  have hplain : ∀ field ∈ g.fields.take 14, (0x2c : UInt8) ∉ field := by
    intro field hfield hcomma
    exact (g.plain field (List.mem_of_mem_take hfield) _ hcomma).1 rfl
  rw [List.count_cons_of_ne (by decide), front, count_joinFields hplain, List.length_take, g.count]
  rfl

theorem length_check : g.check.length = 2 := by
  rcases g.valid with h | h
  · rw [h, length_hexText]
  · rw [h, length_hexText]

theorem front_plain : ∀ b ∈ g.front, b ≠ 0x2a ∧ b ≠ 0 := by
  intro b hb
  rcases mem_joinFields hb with rfl | ⟨field, hfield, hb⟩
  · decide
  · exact (g.plain field (List.mem_of_mem_take hfield) b hb).2

theorem station_plain : ∀ b ∈ g.station, b ≠ 0x2a ∧ b ≠ 0 := by
  intro b hb
  refine (g.plain g.station ?_ b hb).2
  rw [fields_eq]
  exact List.mem_append_right _ (List.mem_singleton_self _)

variable {g} {host : GpsHost}

/-- The rest of a longer station stays behind the identification. -/
theorem replaceStation_of_le (hid : (cText host.gpsID).length = 4)
    (hplain : ∀ b ∈ cText host.gpsID, b ≠ 0x2c ∧ b ≠ 0x2a) (hlong : 4 ≤ g.station.length) :
    replaceStation host g.message =
      g.withStation (cText host.gpsID ++ g.station.drop 4) := by
  obtain ⟨x, y, hcheck⟩ := List.length_eq_two.mp g.length_check
  have hrest : (g.station ++ 0x2a :: g.check).drop 4 = g.station.drop 4 ++ [0x2a, x, y] := by
    rw [List.drop_append_of_le_length hlong, hcheck]
  have htext : ∀ b ∈ g.front ++ 0x2c :: (cText host.gpsID ++ g.station.drop 4),
      b ≠ 0x2a ∧ b ≠ 0 := by
    intro b hb
    rw [List.mem_append, List.mem_cons, List.mem_append] at hb
    rcases hb with hb | rfl | hb | hb
    · exact g.front_plain b hb
    · decide
    · refine ⟨(hplain b hb).2, fun hnul => ?_⟩
      simpa [hnul] using List.mem_takeWhile_imp hb
    · exact g.station_plain b (List.mem_of_mem_drop hb)
  rw [message_eq, replaceStation_eq hid g.count_front, hrest, withStation, joinFields_set]
  · have hwrite := updateChecksumStr_eq (x := x) (y := y) (fun h => (htext _ h).1 rfl)
      fun h => (htext _ h).2 rfl
    simp only [List.append_assoc, List.cons_append] at hwrite ⊢
    rw [hwrite, sentenceOf]
    simp
  · rw [List.length_append]
    omega

theorem length_withStation (id : List UInt8) :
    (g.withStation id).length = g.front.length + id.length + 5 := by
  rw [withStation, sentenceOf, joinFields_set, List.length_cons, List.length_append,
    List.length_append, List.length_cons, List.length_cons, length_hexText]
  omega

end GgaSentence

/-- The station is replaced as it should be exactly where the old one has four characters. -/
theorem replaceStation_eq_withStation_iff (g : GgaSentence) (host : GpsHost)
    (hid : (cText host.gpsID).length = 4)
    (hplain : ∀ b ∈ cText host.gpsID, b ≠ 0x2c ∧ b ≠ 0x2a) :
    replaceStation host g.message = g.withStation (cText host.gpsID) ↔ g.station.length = 4 := by
  constructor
  · intro h
    have hlength := congrArg List.length h
    rw [GgaSentence.length_withStation, hid] at hlength
    rcases Nat.lt_or_ge g.station.length 4 with hshort | hlong
    · -- a shorter one: nothing is replaced, or the `*` is overwritten
      have hle := length_replaceStation_le host g.message
      rw [hlength, g.message_eq, List.length_append, List.length_cons, List.length_cons,
        List.length_append, List.length_cons, g.length_check] at hle
      omega
    · rw [GgaSentence.replaceStation_of_le hid hplain hlong, GgaSentence.length_withStation,
        List.length_append, List.length_drop, hid] at hlength
      omega
  · intro h
    rw [GgaSentence.replaceStation_of_le hid hplain (Nat.le_of_eq h.symm),
      List.drop_of_length_le (Nat.le_of_eq h), List.append_nil]

theorem plain_of_all {fields : List (List UInt8)}
    (h : (fields.all fun field => field.all fun b => b != 0x2c && b != 0x2a && b != 0) = true) :
    ∀ field ∈ fields, ∀ b ∈ field, b ≠ 0x2c ∧ b ≠ 0x2a ∧ b ≠ 0 := by
  intro field hfield b hb
  have hb := List.all_eq_true.mp (List.all_eq_true.mp h field hfield) b hb
  simpa [and_assoc] using hb

/-- The fields of the sentence for a receiver without a fix, with a station. -/
def noFixFields (station : String) : List (List UInt8) :=
  ["GPGGA", "000000.000", "0000.00000", "N", "00000.00000", "E", "0", "00", "0.0", "0.0", "M",
    "0.0", "M", "", station].map ascii

def fourDigits : GgaSentence where
  fields := noFixFields "0000"
  check := ascii "6D"
  count := rfl
  plain := plain_of_all rfl
  typ := by decide
  valid := .inl rfl

def twoDigits : GgaSentence where
  fields := noFixFields "12"
  check := ascii "6E"
  count := rfl
  plain := plain_of_all rfl
  typ := by decide
  valid := .inl rfl

def noDigits : GgaSentence where
  fields := noFixFields ""
  check := ascii "6D"
  count := rfl
  plain := plain_of_all rfl
  typ := by decide
  valid := .inl rfl

/-- A host with an identification of four characters. -/
def stationHost : GpsHost := { GpsHost.initial with gpsID := ascii "4711" ++ [0] }

theorem stationHost_plain : ∀ b ∈ cText stationHost.gpsID, b ≠ 0x2c ∧ b ≠ 0x2a := by
  intro b hb
  have hall : ((cText stationHost.gpsID).all fun b => b != 0x2c && b != 0x2a) = true := rfl
  simpa using List.all_eq_true.mp hall b hb

theorem replaceStation_four_digits :
    replaceStation stationHost fourDigits.message = fourDigits.withStation (ascii "4711") :=
  (replaceStation_eq_withStation_iff fourDigits stationHost rfl stationHost_plain).mpr rfl

/-- With two characters the `*` is lost, with none the identification is not written. -/
theorem replaceStation_other_digits :
    replaceStation stationHost twoDigits.message =
        ascii "$GPGGA,000000.000,0000.00000,N,00000.00000,E,0,00,0.0,0.0,M,0.0,M,,4711E" ∧
      replaceStation stationHost twoDigits.message ≠ twoDigits.withStation (ascii "4711") ∧
      replaceStation stationHost noDigits.message = noDigits.message ∧
      replaceStation stationHost noDigits.message ≠ noDigits.withStation (ascii "4711") := by
  decide +kernel

end Gga

end Speedway.Gps
