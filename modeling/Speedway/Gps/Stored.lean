import Speedway.Gps.Station
import Speedway.Gps.Taip

/-!
# The messages that are stored

An accepted sentence is stored as it stands in the buffer, after the replacement of
characters there. Only in GGA, VTG and RMC sentences the talker `GN` becomes `GP` and the
checksum is written again. From there the message is copied into arrays of several sizes.
-/

namespace Speedway.Gps

open Speedway.Lib Speedway.Lib.Form

section Shape

variable {m : Mem} {a e : Nat}

/-- The characters between `$` and `*`. -/
def innerText (m : Mem) (a e : Nat) : List UInt8 := (m.shift (a + 1)).bytes (e - (a + 1))

@[simp] theorem length_innerText (m : Mem) (a e : Nat) :
    (innerText m a e).length = e - (a + 1) := Mem.length_bytes ..

theorem Accepts.sentenceText_eq (h : Accepts m a e) :
    sentenceText m a e = sentenceOf (innerText m a e) [m (e + 1), m (e + 2)] := by
  obtain ⟨hlt, hstar, -⟩ := h.bounds
  have hsize : 3 + e - a = 1 + (e - (a + 1) + 3) := by omega
  have hfirst : (m.shift a).bytes 1 = [0x24] := congrArg (· :: []) h.start
  have hlast : (m.shift e).bytes 3 = [0x2a, m (e + 1), m (e + 2)] := by
    rw [← hstar]
    rfl
  rw [sentenceText, hsize, Mem.bytes_add, Mem.bytes_add, Mem.shift_shift, Mem.shift_shift, hfirst,
    show a + 1 + (e - (a + 1)) = e by omega, hlast]
  rfl

/-- A sentence has no `*` before its end. -/
theorem Accepts.star_notMem (h : Accepts m a e) : (0x2a : UInt8) ∉ innerText m a e := by
  intro hmem
  obtain ⟨i, hi, heq⟩ := List.mem_map.mp hmem
  rw [List.mem_range] at hi
  exact h.bounds.2.2 (a + 1 + i) (by omega) (by omega) heq

theorem Accepts.nul_notMem {signed : Bool} {gpsBuff : Mem}
    (h : Accepts (cleanBuffer signed gpsBuff) a e) :
    (0 : UInt8) ∉ innerText (cleanBuffer signed gpsBuff) a e := by
  intro hmem
  obtain ⟨i, hi, heq⟩ := List.mem_map.mp hmem
  rw [List.mem_range] at hi
  have hroom := h.room
  rw [Mem.shift_apply, cleanBuffer, if_pos (by omega)] at heq
  exact cleanChar_ne_nul _ heq

theorem Accepts.length_innerText (h : Accepts m a e) :
    (innerText m a e).length + 4 = 3 + e - a ∧ 8 ≤ (innerText m a e).length := by
  have hlt := h.bounds.1
  have hsize := h.size.1
  rw [Gps.length_innerText]
  rw [minMsgSize] at hsize
  omega

end Shape

section Relabel

variable {text : List UInt8} {x y : UInt8}

/-- The sentences whose talker is changed. -/
def Relabels (message : List UInt8) : Prop :=
  (getCPSMsgType message = .gga ∨ getCPSMsgType message = .vtg ∨ getCPSMsgType message = .rmc) ∧
    message.getD 2 0 = 0x4e

theorem relabel_of_not {message : List UInt8} (h : ¬ Relabels message) :
    relabel message = message := if_neg h

theorem not_mem_set {b c : UInt8} {i : Nat} (h : b ∉ text) (hc : b ≠ c) : b ∉ text.set i c := by
  intro hmem
  rcases List.mem_or_eq_of_mem_set hmem with hold | hnew
  · exact h hold
  · exact hc hnew

/-- The talker is changed and the checksum is that of the new text. -/
theorem relabel_sentenceOf (hstar : (0x2a : UInt8) ∉ text) (hnul : (0 : UInt8) ∉ text)
    (hlength : 2 ≤ text.length) (h : Relabels (sentenceOf text [x, y])) :
    relabel (sentenceOf text [x, y]) =
      sentenceOf (text.set 1 0x50) (hexText 0x30 (xorSum (text.set 1 0x50))) := by
  have hset : (sentenceOf text [x, y]).set 2 0x50 =
      0x24 :: (text.set 1 0x50 ++ [0x2a, x, y]) := by
    rw [sentenceOf, List.set_cons_succ, List.set_append_left _ _ (by omega)]
  have hwrite := updateChecksumStr_eq (x := x) (y := y)
    (not_mem_set (i := 1) hstar (by decide : (0x2a : UInt8) ≠ 0x50))
    (not_mem_set (i := 1) hnul (by decide : (0 : UInt8) ≠ 0x50))
  calc
    relabel (sentenceOf text [x, y]) =
        (updateChecksumStr ((sentenceOf text [x, y]).set 2 0x50)).2 := if_pos h
    _ = _ := by rw [hset, hwrite, sentenceOf]

theorem length_sentenceOf (text check : List UInt8) :
    (sentenceOf text check).length = text.length + check.length + 2 := by
  rw [sentenceOf, List.length_cons, List.length_append, List.length_cons]
  omega

theorem length_relabel (hstar : (0x2a : UInt8) ∉ text) (hnul : (0 : UInt8) ∉ text)
    (hlength : 2 ≤ text.length) :
    (relabel (sentenceOf text [x, y])).length = text.length + 4 := by
  by_cases h : Relabels (sentenceOf text [x, y])
  · rw [relabel_sentenceOf hstar hnul hlength h, length_sentenceOf, List.length_set,
      length_hexText]
  · rw [relabel_of_not h, length_sentenceOf]
    rfl

end Relabel

section Frame

/-- Only the third character and the checksum differ. -/
structure OnlyRelabelled (input message : List UInt8) : Prop where
  length : message.length = input.length
  third : message[2]? = some 0x50
  others : ∀ i, i ≠ 2 → i + 2 < input.length → message[i]? = input[i]?
  checksum : message.drop (message.length - 2) =
    hexText 0x30 (xorSum ((message.take (message.length - 3)).drop 1))

/-- A message is stored for the characters of the input. -/
structure StoredFrom (signed : Bool) (input : List UInt8) (stored : GpsMessage) : Prop where
  typ : stored.msgTyp = getCPSMsgType (input.map (cleanChar signed))
  relabelled : (stored.msgTyp = .gga ∨ stored.msgTyp = .vtg ∨ stored.msgTyp = .rmc) →
    input[2]? = some 0x4e → OnlyRelabelled (input.map (cleanChar signed)) stored.message
  kept : ¬ ((stored.msgTyp = .gga ∨ stored.msgTyp = .vtg ∨ stored.msgTyp = .rmc) ∧
    input[2]? = some 0x4e) → stored.message = input.map (cleanChar signed)

variable {text : List UInt8} {x y : UInt8} {signed : Bool} {gpsBuff : Mem} {a e k : Nat}

theorem onlyRelabelled_sentenceOf (hlength : 2 ≤ text.length) :
    OnlyRelabelled (sentenceOf text [x, y])
      (sentenceOf (text.set 1 0x50) (hexText 0x30 (xorSum (text.set 1 0x50)))) := by
  have hlen : (sentenceOf (text.set 1 0x50) (hexText 0x30 (xorSum (text.set 1 0x50)))).length =
      text.length + 4 := by
    rw [length_sentenceOf, List.length_set, length_hexText]
  constructor
  · rw [hlen, length_sentenceOf]
    rfl
  · rw [sentenceOf, List.getElem?_cons_succ,
      List.getElem?_append_left (by rw [List.length_set]; omega),
      List.getElem?_set_self (by omega)]
  · intro i hi hin
    rw [length_sentenceOf, List.length_cons, List.length_cons, List.length_nil] at hin
    cases i with
    | zero => rfl
    | succ i =>
        rw [sentenceOf, sentenceOf, List.getElem?_cons_succ, List.getElem?_cons_succ]
        rcases Nat.lt_or_ge i text.length with hlt | hge
        · rw [List.getElem?_append_left (by rwa [List.length_set]), List.getElem?_append_left hlt,
            List.getElem?_set_ne (by omega)]
        · obtain rfl : i = text.length := by omega
          rw [List.getElem?_append_right (by rw [List.length_set]), List.length_set,
            List.getElem?_append_right (Nat.le_refl _), Nat.sub_self]
          rfl
  · have htake : (sentenceOf (text.set 1 0x50)
        (hexText 0x30 (xorSum (text.set 1 0x50)))).take (text.length + 1) =
        0x24 :: text.set 1 0x50 := by
      rw [sentenceOf, List.take_succ_cons, List.take_left' (List.length_set ..)]
    have hdrop : (sentenceOf (text.set 1 0x50)
        (hexText 0x30 (xorSum (text.set 1 0x50)))).drop (text.length + 2) =
        hexText 0x30 (xorSum (text.set 1 0x50)) := by
      rw [sentenceOf, List.drop_succ_cons, List.drop_append, List.length_set,
        List.drop_of_length_le (by rw [List.length_set]; omega), List.nil_append,
        show text.length + 1 - text.length = 1 by omega, List.drop_one, List.tail_cons]
    rw [hlen, show text.length + 4 - 2 = text.length + 2 by omega,
      show text.length + 4 - 3 = text.length + 1 by omega, hdrop, htake, List.drop_one,
      List.tail_cons]

theorem cleanChar_eq_talker {c : UInt8} : cleanChar signed c = 0x4e ↔ c = 0x4e := by
  constructor
  · intro h
    rw [cleanChar] at h
    split at h
    · exact absurd h (by decide)
    · exact h
  · rintro rfl
    cases signed <;> decide

/-- A message that is to be sent was accepted. -/
theorem exists_sentence (h : ((parseGPSBuffer signed gpsBuff).gpsMsgArray k).sendThisMsg = true) :
    ∃ a e, Sentence (cleanBuffer signed gpsBuff) a e ∧
      (parseGPSBuffer signed gpsBuff).gpsMsgArray k = entry (cleanBuffer signed gpsBuff) a e ∧
      ((parseGPSBuffer signed gpsBuff).inputStrFits = true → 3 + e - a ≠ maxMsgSize) := by
  obtain ⟨D, -, hmem, hstores⟩ := parseGPSBuffer_found signed gpsBuff
  have hk : k < (parseGPSBuffer signed gpsBuff).gpsMsgIDX := by
    by_contra hle
    rw [hstores.rest k (Nat.le_of_not_lt hle)] at h
    exact absurd h Bool.false_ne_true
  rw [hstores.count] at hk
  have hD : k < D.length := by omega
  have hsentence := (hmem D[k].1 D[k].2).mp (List.getElem_mem hD)
  refine ⟨D[k].1, D[k].2, hsentence, ?_, fun hfits => ?_⟩
  · exact hstores.stored k _ _ (List.getElem?_eq_getElem hD) (by omega)
  · apply hsentence.accepts.inputStrFits_iff.mp
    exact hstores.copied.mp hfits _ (List.mem_take_iff_getElem.mpr ⟨k, by omega, rfl⟩)

/-- A sentence at the start of the buffer is the first message. -/
theorem first_entry (h : Accepts (cleanBuffer signed gpsBuff) 0 e) :
    (parseGPSBuffer signed gpsBuff).gpsMsgArray 0 = entry (cleanBuffer signed gpsBuff) 0 e := by
  obtain ⟨D, hsorted, hmem, hstores⟩ := parseGPSBuffer_found signed gpsBuff
  have hD : (0, e) ∈ D := (hmem 0 e).mpr ⟨h, fun a ha => absurd ha (Nat.not_lt_zero a)⟩
  cases D with
  | nil => exact absurd hD List.not_mem_nil
  | cons first rest =>
      apply hstores.stored 0 0 e _ (by decide)
      rcases List.mem_cons.mp hD with hfirst | hrest
      · rw [hfirst]
        rfl
      · exact absurd (List.rel_of_pairwise_cons hsorted hrest) (Nat.not_lt_zero _)

/-- What is stored for a sentence of the buffer. -/
theorem storedFrom_entry (h : Accepts (cleanBuffer signed gpsBuff) a e) :
    StoredFrom signed ((gpsBuff.shift a).bytes (3 + e - a))
      (entry (cleanBuffer signed gpsBuff) a e) := by
  have hroom := h.room
  have hsize := h.size.1
  have hlt := h.bounds.1
  obtain ⟨hlen, hlong⟩ := h.length_innerText
  have hseen : ((gpsBuff.shift a).bytes (3 + e - a)).map (cleanChar signed) =
      sentenceText (cleanBuffer signed gpsBuff) a e :=
    (sentenceText_cleanBuffer rfl (by omega)).symm
  -- the third character of the input is the one that is tested
  have hthird : ((gpsBuff.shift a).bytes (3 + e - a))[2]? = some 0x4e ↔
      (sentenceText (cleanBuffer signed gpsBuff) a e).getD 2 0 = 0x4e := by
    rw [← hseen, List.getD_eq_getElem?_getD, List.getElem?_map,
      List.getElem?_eq_getElem (by rw [Mem.length_bytes]; rw [minMsgSize] at hsize; omega),
      Option.map_some, Option.getD_some, Option.some_inj]
    exact cleanChar_eq_talker.symm
  constructor
  · rw [hseen]
    rfl
  · intro htyp hn
    rw [hseen, entry]
    have hrelabels : Relabels (sentenceText (cleanBuffer signed gpsBuff) a e) :=
      ⟨htyp, hthird.mp hn⟩
    rw [h.sentenceText_eq] at hrelabels ⊢
    rw [relabel_sentenceOf h.star_notMem h.nul_notMem (by omega) hrelabels]
    exact onlyRelabelled_sentenceOf (by omega)
  · intro hnot
    rw [hseen, entry]
    exact relabel_of_not fun hrelabels => hnot ⟨hrelabels.1, hthird.mpr hrelabels.2⟩

/-- If the copies of `parseNMEA` have room, each stored message stands for a sentence of the
buffer: up to the replaced characters it is that sentence, and in a GGA, VTG or RMC sentence
of the talker `GN` only the talker and the checksum differ from it. -/
theorem stored_message_frame (signed : Bool) (gpsBuff : Mem) {k : Nat}
    (hfits : (parseGPSBuffer signed gpsBuff).inputStrFits = true)
    (h : ((parseGPSBuffer signed gpsBuff).gpsMsgArray k).sendThisMsg = true) :
    ∃ a e, Sentence (cleanBuffer signed gpsBuff) a e ∧ 3 + e - a ≠ maxMsgSize ∧
      StoredFrom signed ((gpsBuff.shift a).bytes (3 + e - a))
        ((parseGPSBuffer signed gpsBuff).gpsMsgArray k) := by
  obtain ⟨a, e, hsentence, hentry, hlength⟩ := exists_sentence h
  refine ⟨a, e, hsentence, hlength hfits, ?_⟩
  rw [hentry]
  exact storedFrom_entry hsentence.accepts

/-- A sentence of a buffer with one text ends in the text. -/
theorem Accepts.star_bufferOf {s : List UInt8} {a e : Nat}
    (h : Accepts (cleanBuffer signed (bufferOf s)) a e) : e < s.length ∧ s.getD e 0x20 = 0x2a := by
  have hroom := h.room
  have hend := h.bounds.2.1
  rw [cleanBuffer, if_pos (by omega)] at hend
  have hchar : s.getD e 0x20 = 0x2a := cleanChar_eq_star hend
  refine ⟨?_, hchar⟩
  by_contra hout
  rw [List.getD_eq_default _ _ (Nat.le_of_not_lt hout)] at hchar
  exact absurd hchar (by decide)

/-- The sentences of a short text have room in `inputStr`. -/
theorem inputStrFits_bufferOf {s : List UInt8} (h : s.length + 2 < maxMsgSize) :
    (parseGPSBuffer signed (bufferOf s)).inputStrFits = true := by
  obtain ⟨D, -, hmem, hstores⟩ := parseGPSBuffer_found signed (bufferOf s)
  apply hstores.copied.mpr
  intro x hx
  have haccepts := ((hmem x.1 x.2).mp (List.mem_of_mem_take hx)).accepts
  have hend := haccepts.star_bufferOf.1
  exact haccepts.inputStrFits_iff.mpr (by omega)

/-- The course of a receiver that uses several systems. -/
def courseGN : List UInt8 := ascii "$GNVTG,000.0,T,,M,000.1,N,000.1,K,A*13"

theorem accepts_courseGN : Accepts (cleanBuffer false (bufferOf courseGN)) 0 35 where
  start := by decide
  star := by decide +kernel
  room := by decide
  size := by decide
  checksum := by decide +kernel

theorem courseGN_stored :
    ((parseGPSBuffer false (bufferOf courseGN)).gpsMsgArray 0).sendThisMsg = true := by
  rw [first_entry accepts_courseGN]
  rfl

theorem stored_message_frame_course :
    ∃ a e, Sentence (cleanBuffer false (bufferOf courseGN)) a e ∧ 3 + e - a ≠ maxMsgSize ∧
      StoredFrom false (((bufferOf courseGN).shift a).bytes (3 + e - a))
        ((parseGPSBuffer false (bufferOf courseGN)).gpsMsgArray 0) :=
  stored_message_frame false (bufferOf courseGN) (inputStrFits_bufferOf (by decide)) courseGN_stored

/-- A sentence with a control character, and the checksum for a blank in its place. -/
def controlSentence : List UInt8 := ascii "$GPGSA,A," ++ [0x01] ++ ascii "*23"

theorem accepts_controlSentence :
    Accepts (cleanBuffer false (bufferOf controlSentence)) 0 10 where
  start := by decide
  star := by decide +kernel
  room := by decide
  size := by decide
  checksum := by decide +kernel

set_option maxRecDepth 100000 in
/-- The sentence is stored with a blank where the input has another character. -/
theorem stored_message_blank :
    (parseGPSBuffer false (bufferOf controlSentence)).inputStrFits = true ∧
      ((parseGPSBuffer false (bufferOf controlSentence)).gpsMsgArray 0).sendThisMsg = true ∧
      ((parseGPSBuffer false (bufferOf controlSentence)).gpsMsgArray 0).msgTyp = .gsa ∧
      ((parseGPSBuffer false (bufferOf controlSentence)).gpsMsgArray 0).message =
        ascii "$GPGSA,A, *23" ∧
      ((bufferOf controlSentence).shift 0).bytes 13 = controlSentence ∧
      controlSentence ≠ ascii "$GPGSA,A, *23" := by
  refine ⟨inputStrFits_bufferOf (by decide), ?_⟩
  rw [first_entry accepts_controlSentence]
  decide +kernel

end Frame

section Copies

/-- The arrays that a message is copied to. -/
inductive MsgArray where
  | message
  | inputStr
  | hostMsgBuffer
  | statusMessage
  | statusMsgBuffer

/-- The characters an array has room for, with the 0 at the end of a text. -/
def MsgArray.size : MsgArray → Nat
  | .message => maxMsgSize + 1
  | .inputStr => maxMsgSize
  | .hostMsgBuffer => maxMsgSize
  | .statusMessage => maxMsgSize + 1
  | .statusMsgBuffer => taipMsgSize

/-- What stands in the arrays for an accepted sentence: `parseGPSBuffer` copies it into its
entry, `parseNMEA` takes it apart, the entry is relabelled, and `sendHostData` and
`writeGPSStatusFile` copy the entry and replace the station. -/
def msgCopies (host : GpsHost) (accepted : List UInt8) : List (MsgArray × List UInt8) :=
  let stored := relabel accepted
  [(.message, accepted), (.inputStr, accepted), (.message, stored),
    (.hostMsgBuffer, stored), (.hostMsgBuffer, replaceStation host stored),
    (.statusMessage, stored), (.statusMsgBuffer, stored),
    (.statusMsgBuffer, replaceStation host stored)]

/-- Every copy of a sentence has room, with the 0 after it. -/
def FitsEverywhere (host : GpsHost) (accepted : List UInt8) : Prop :=
  ∀ c ∈ msgCopies host accepted, c.2.length + 1 ≤ c.1.size

variable {signed : Bool} {gpsBuff : Mem} {a e : Nat}

theorem length_sentenceText (m : Mem) (a e : Nat) : (sentenceText m a e).length = 3 + e - a :=
  Mem.length_bytes ..

/-- The relabelled sentence has the same length. -/
theorem length_relabel_sentenceText (h : Accepts (cleanBuffer signed gpsBuff) a e) :
    (relabel (sentenceText (cleanBuffer signed gpsBuff) a e)).length = 3 + e - a := by
  obtain ⟨hlen, hlong⟩ := h.length_innerText
  rw [h.sentenceText_eq, length_relabel h.star_notMem h.nul_notMem (by omega), hlen]

theorem fitsEverywhere_iff (host : GpsHost) (h : Accepts (cleanBuffer signed gpsBuff) a e) :
    FitsEverywhere host (sentenceText (cleanBuffer signed gpsBuff) a e) ↔
      3 + e - a ≠ maxMsgSize := by
  have hmax := h.size.2
  have hstored := length_relabel_sentenceText h
  have hstation := length_replaceStation_le host
    (relabel (sentenceText (cleanBuffer signed gpsBuff) a e))
  constructor
  · intro hfits heq
    have hinput := hfits (.inputStr, _) (List.mem_cons_of_mem _ List.mem_cons_self)
    rw [length_sentenceText, heq] at hinput
    exact Nat.not_succ_le_self maxMsgSize hinput
  · intro hne c hc
    rw [hstored] at hstation
    have haccepted := length_sentenceText (cleanBuffer signed gpsBuff) a e
    simp only [msgCopies, List.mem_cons, List.not_mem_nil, or_false] at hc
    rcases hc with rfl | rfl | rfl | rfl | rfl | rfl | rfl | rfl <;>
      simp only [MsgArray.size, maxMsgSize, taipMsgSize] at hmax hne ⊢ <;> omega

/-- Every stored message is the copy of an accepted sentence, which has room everywhere
exactly if it has not the full length that is accepted. -/
theorem stored_fits_iff (signed : Bool) (gpsBuff : Mem) (host : GpsHost) {k : Nat}
    (h : ((parseGPSBuffer signed gpsBuff).gpsMsgArray k).sendThisMsg = true) :
    ∃ a e, Sentence (cleanBuffer signed gpsBuff) a e ∧
      (parseGPSBuffer signed gpsBuff).gpsMsgArray k = entry (cleanBuffer signed gpsBuff) a e ∧
      (FitsEverywhere host (sentenceText (cleanBuffer signed gpsBuff) a e) ↔
        3 + e - a ≠ maxMsgSize) := by
  obtain ⟨a, e, hsentence, hentry, -⟩ := exists_sentence h
  exact ⟨a, e, hsentence, hentry, fitsEverywhere_iff host hsentence.accepts⟩

theorem stored_fits_course :
    ∃ a e, Sentence (cleanBuffer false (bufferOf courseGN)) a e ∧
      (parseGPSBuffer false (bufferOf courseGN)).gpsMsgArray 0 =
        entry (cleanBuffer false (bufferOf courseGN)) a e ∧
      (FitsEverywhere stationHost (sentenceText (cleanBuffer false (bufferOf courseGN)) a e) ↔
        3 + e - a ≠ maxMsgSize) :=
  stored_fits_iff false (bufferOf courseGN) stationHost courseGN_stored

/-- A sentence of 128 characters. -/
def longestSentence : List UInt8 :=
  ascii "$GPGGA," ++ List.replicate 118 0x30 ++ ascii "*7A"

theorem accepts_longestSentence :
    Accepts (cleanBuffer false (bufferOf longestSentence)) 0 125 where
  start := by decide
  star := by decide +kernel
  room := by decide
  size := by decide
  checksum := by decide +kernel

set_option maxRecDepth 100000 in
/-- It is stored, and `parseNMEA` and `sendHostData` copy it with its 0 into arrays of 128
characters. -/
theorem stored_does_not_fit :
    ((parseGPSBuffer false (bufferOf longestSentence)).gpsMsgArray 0).sendThisMsg = true ∧
      ((parseGPSBuffer false (bufferOf longestSentence)).gpsMsgArray 0).message =
        longestSentence ∧
      (MsgArray.inputStr, longestSentence) ∈ msgCopies stationHost longestSentence ∧
      (MsgArray.hostMsgBuffer, relabel longestSentence) ∈ msgCopies stationHost longestSentence ∧
      MsgArray.inputStr.size < longestSentence.length + 1 ∧
      MsgArray.hostMsgBuffer.size < (relabel longestSentence).length + 1 := by
  rw [first_entry accepts_longestSentence]
  refine ⟨rfl, by decide +kernel, ?_, ?_, by decide +kernel, by decide +kernel⟩
  · exact List.mem_cons_of_mem _ List.mem_cons_self
  · exact List.mem_cons_of_mem _ (List.mem_cons_of_mem _ (List.mem_cons_of_mem _
      List.mem_cons_self))

end Copies

end Speedway.Gps
