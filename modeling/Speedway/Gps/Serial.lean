import Speedway.Gps.Nmea

/-!
# Bursts on the serial port

The receiver sends its sentences in bursts that end with a ZDA sentence. The read
loop keeps the type of the sentence it is in, looks at it where a line ends, and
hands what it has read to `parseGPSBuffer` after a ZDA sentence, or when the last
burst was too long ago.
-/

namespace Speedway.Gps

open Speedway.Lib

/-- The position in a sentence and the type of the last one, which is kept from one
burst to the next. -/
structure TypeScan where
  strpos : Int
  mgrTypStr : Mem

/-- A character was read. -/
def TypeScan.read (a : TypeScan) (result : UInt8) : TypeScan :=
  if result = 0x24 then { a with strpos := 1 }
  else if 1 ≤ a.strpos then
    { strpos := if a.strpos ≤ 5 then a.strpos + 1 else 0
      mgrTypStr :=
        if 3 ≤ a.strpos ∧ a.strpos ≤ 5 then
          Function.update (Function.update a.mgrTypStr (a.strpos - 3).toNat result)
            (a.strpos - 3 + 1).toNat 0
        else a.mgrTypStr }
  else a

def zda : List UInt8 := [0x5a, 0x44, 0x41]

/-- `strncmp(mgrTypStr, "ZDA", 3) == 0`. -/
def TypeScan.isZda (a : TypeScan) : Bool := a.mgrTypStr.bytes 3 == zda

/-- A character of the port and the time at which it is read. -/
structure SerialChar where
  char : UInt8
  millis : Int

/-- The characters of a burst, and what is left when it ends. -/
structure BurstRead where
  bytes : List UInt8
  scan : TypeScan
  serial : List SerialChar

/-- The burst ends with this character. -/
def burstEnds (lastbursttime : Int) (prevresult : UInt8) (a : TypeScan) (c : SerialChar) : Bool :=
  c.char == 0x0a && (prevresult == 0x0a || prevresult == 0x0d) &&
    (a.isZda || decide (2000 < c.millis - lastbursttime))

/-- The inner read loop, with room for some more characters; it also ends when the port
has no more. -/
def readBurst (lastbursttime : Int) : Nat → UInt8 → TypeScan → List SerialChar → BurstRead
  | 0, _, a, serial => ⟨[], a, serial⟩
  | _ + 1, _, a, [] => ⟨[], a, []⟩
  | room + 1, prevresult, a, c :: serial =>
      if burstEnds lastbursttime prevresult (a.read c.char) c then
        ⟨[c.char], a.read c.char, serial⟩
      else
        let r := readBurst lastbursttime room c.char (a.read c.char) serial
        { r with bytes := c.char :: r.bytes }

/-- The buffer is cleared before each burst. -/
def gpsBuffOf (bytes : List UInt8) : Mem := fun i => bytes.getD i 0

/-- The read loop: the buffers that `parseGPSBuffer` gets, one for each reading of the clock
after a burst. -/
def serialLoop : List Int → Int → TypeScan → List SerialChar → List Mem
  | [], _, _, _ => []
  | now :: clock, lastbursttime, a, serial =>
      let r := readBurst lastbursttime gpsBuffSize 0 a serial
      gpsBuffOf r.bytes :: serialLoop clock now r.scan r.serial

/-- The port was opened; the type is not set yet. -/
def TypeScan.opened (mgrTypStr : Mem) : TypeScan := ⟨-1, mgrTypStr⟩

/-- A sentence with its line end. -/
structure Line where
  text : List UInt8
  crlf : Bool

def Line.bytes (l : Line) : List UInt8 := l.text ++ [if l.crlf then 0x0d else 0x0a, 0x0a]

def Line.msgTyp (l : Line) : List UInt8 := (l.text.drop 3).take 3

structure Line.WellFormed (l : Line) : Prop where
  start : l.text.head? = some 0x24
  length : 7 ≤ l.text.length
  dollar : (0x24 : UInt8) ∉ l.text.tail
  cr : (0x0d : UInt8) ∉ l.text
  lf : (0x0a : UInt8) ∉ l.text

/-- A burst of lines, of which the last is `last`, with its characters as they are read
and the time when it was handed over. -/
structure Burst where
  lines : List Line
  last : Line
  serial : List SerialChar
  closed : Int

def Burst.bytes (b : Burst) : List UInt8 := b.lines.flatMap Line.bytes ++ b.last.bytes

structure Burst.Valid (lastbursttime : Int) (b : Burst) : Prop where
  lines : ∀ l ∈ b.lines, l.WellFormed ∧ l.msgTyp ≠ zda
  last : b.last.WellFormed ∧ b.last.msgTyp = zda
  size : b.bytes.length ≤ gpsBuffSize
  chars : b.serial.map SerialChar.char = b.bytes
  timely : ∀ c ∈ b.serial, c.char = 0x0a → c.millis - lastbursttime ≤ 2000

/-- Every burst is valid, with the time of the one before it. -/
def Bursts (opened : Int) : List Burst → Prop
  | [] => True
  | b :: bursts => b.Valid opened ∧ Bursts b.closed bursts

section Scan

variable {a : TypeScan} {c : UInt8}

theorem read_idle (h : a.strpos = 0) (hc : c ≠ 0x24) : a.read c = a := by
  rw [TypeScan.read, if_neg hc, if_neg (by omega)]

theorem foldl_read_idle {text : List UInt8} (h : a.strpos = 0) (htext : (0x24 : UInt8) ∉ text) :
    text.foldl TypeScan.read a = a := by
  induction text with
  | nil => rfl
  | cons c text ih =>
      rw [List.mem_cons, not_or] at htext
      rw [List.foldl_cons, read_idle h (Ne.symm htext.1)]
      exact ih htext.2

/-- After its first seven characters the type of a sentence is known. -/
theorem foldl_read_head (a : TypeScan) {c₁ c₂ c₃ c₄ c₅ c₆ : UInt8}
    (h : (0x24 : UInt8) ∉ [c₁, c₂, c₃, c₄, c₅, c₆]) :
    ([0x24, c₁, c₂, c₃, c₄, c₅, c₆].foldl TypeScan.read a).strpos = 0 ∧
      ([0x24, c₁, c₂, c₃, c₄, c₅, c₆].foldl TypeScan.read a).mgrTypStr.bytes 3 =
        [c₃, c₄, c₅] := by
  simp only [List.mem_cons, not_or, List.not_mem_nil, not_false_eq_true, and_true] at h
  obtain ⟨h₁, h₂, h₃, h₄, h₅, h₆⟩ := h
  simp [TypeScan.read, Ne.symm h₁, Ne.symm h₂, Ne.symm h₃, Ne.symm h₄, Ne.symm h₅, Ne.symm h₆,
    Mem.bytes, List.range_succ, Function.update]

theorem Line.WellFormed.scan {l : Line} (h : l.WellFormed) (a : TypeScan) :
    (l.text.foldl TypeScan.read a).strpos = 0 ∧
      (l.text.foldl TypeScan.read a).isZda = (l.msgTyp == zda) := by
  obtain ⟨hstart, hlength, hdollar, -, -⟩ := h
  match htext : l.text, hlength with
  | c₀ :: c₁ :: c₂ :: c₃ :: c₄ :: c₅ :: c₆ :: more, _ =>
      rw [htext] at hstart hdollar
      obtain rfl : c₀ = 0x24 := Option.some.inj hstart
      have hhead : (0x24 : UInt8) ∉ [c₁, c₂, c₃, c₄, c₅, c₆] :=
        fun hmem => hdollar (List.mem_append_left more hmem)
      have hmore : (0x24 : UInt8) ∉ more :=
        fun hmem => hdollar (List.mem_append_right [c₁, c₂, c₃, c₄, c₅, c₆] hmem)
      obtain ⟨hpos, htyp⟩ := foldl_read_head a hhead
      have hsplit : (0x24 :: c₁ :: c₂ :: c₃ :: c₄ :: c₅ :: c₆ :: more).foldl TypeScan.read a =
          [0x24, c₁, c₂, c₃, c₄, c₅, c₆].foldl TypeScan.read a := by
        show ([0x24, c₁, c₂, c₃, c₄, c₅, c₆] ++ more).foldl TypeScan.read a = _
        rw [List.foldl_append]
        exact foldl_read_idle hpos hmore
      rw [hsplit, TypeScan.isZda, htyp, Line.msgTyp, htext]
      exact ⟨hpos, rfl⟩

end Scan

section Loop

variable {lastbursttime : Int} {room : Nat} {prevresult : UInt8} {a : TypeScan}
  {c e₁ e₂ : SerialChar} {chars serial : List SerialChar} {l : Line}

/-- What was read before. -/
def BurstRead.after (bytes : List UInt8) (r : BurstRead) : BurstRead :=
  { r with bytes := bytes ++ r.bytes }

theorem readBurst_continue
    (h : burstEnds lastbursttime prevresult (a.read c.char) c = false) :
    readBurst lastbursttime (room + 1) prevresult a (c :: serial) =
      (readBurst lastbursttime room c.char (a.read c.char) serial).after [c.char] := by
  rw [readBurst, h, if_neg Bool.false_ne_true]
  rfl

theorem readBurst_end (h : burstEnds lastbursttime prevresult (a.read c.char) c = true) :
    readBurst lastbursttime (room + 1) prevresult a (c :: serial) =
      ⟨[c.char], a.read c.char, serial⟩ := by
  rw [readBurst, h, if_pos rfl]

/-- Only a line feed can end a burst. -/
theorem burstEnds_of_ne (lastbursttime : Int) (prevresult : UInt8) (a : TypeScan)
    (h : c.char ≠ 0x0a) : burstEnds lastbursttime prevresult a c = false := by
  rw [burstEnds, beq_false_of_ne h]
  rfl

/-- Characters without a line feed are read on. -/
theorem readBurst_text (h : ∀ c ∈ chars, c.char ≠ 0x0a) :
    readBurst lastbursttime (chars.length + room) prevresult a (chars ++ serial) =
      (readBurst lastbursttime room ((chars.map SerialChar.char).getLastD prevresult)
        ((chars.map SerialChar.char).foldl TypeScan.read a) serial).after
          (chars.map SerialChar.char) := by
  induction chars generalizing prevresult a with
  | nil => simp [BurstRead.after]
  | cons c chars ih =>
      have hc := burstEnds_of_ne lastbursttime prevresult (a.read c.char) (h c List.mem_cons_self)
      rw [List.length_cons, Nat.add_right_comm, List.cons_append, readBurst_continue hc,
        ih fun c' hc' => h c' (List.mem_cons_of_mem c hc')]
      simp only [List.map_cons, List.foldl_cons, List.getLastD_cons, BurstRead.after,
        List.cons_append, List.nil_append]

/-- At its end the line is known to be the last of the burst or not. -/
theorem readBurst_line (h : l.WellFormed) (hchars : chars.map SerialChar.char = l.text)
    (he₁ : e₁.char = if l.crlf then 0x0d else 0x0a) (he₂ : e₂.char = 0x0a)
    (htimely : e₂.millis - lastbursttime ≤ 2000) :
    readBurst lastbursttime (l.bytes.length + room) prevresult a
        (chars ++ e₁ :: e₂ :: serial) =
      if l.msgTyp = zda then ⟨l.bytes, l.text.foldl TypeScan.read a, serial⟩
      else (readBurst lastbursttime room 0x0a (l.text.foldl TypeScan.read a) serial).after
        l.bytes := by
  obtain ⟨hpos, hzda⟩ := h.scan a
  have hlength : l.bytes.length + room = chars.length + (room + 2) := by
    rw [Line.bytes, List.length_append, ← hchars, List.length_map]
    simp only [List.length_cons, List.length_nil]
    omega
  have htext : ∀ c ∈ chars, c.char ≠ 0x0a := by
    intro c hc heq
    apply h.lf
    rw [← hchars, ← heq]
    exact List.mem_map_of_mem hc
  have hlast : l.text.getLastD prevresult ≠ 0x0a ∧ l.text.getLastD prevresult ≠ 0x0d := by
    have hne : l.text ≠ [] := by
      intro hnil
      have hlen := h.length
      rw [hnil] at hlen
      exact absurd hlen (by decide)
    have hmem : l.text.getLastD prevresult ∈ l.text := by
      rw [List.getLastD_eq_getLast?, List.getLast?_eq_some_getLast hne]
      exact List.getLast_mem hne
    exact ⟨fun heq => h.lf (heq ▸ hmem), fun heq => h.cr (heq ▸ hmem)⟩
  have hidle : ∀ e : SerialChar, e.char = 0x0a ∨ e.char = 0x0d →
      (l.text.foldl TypeScan.read a).read e.char = l.text.foldl TypeScan.read a := by
    rintro e (he | he)
    · exact read_idle hpos (he ▸ by decide)
    · exact read_idle hpos (he ▸ by decide)
  have hidle₁ : (l.text.foldl TypeScan.read a).read e₁.char = l.text.foldl TypeScan.read a := by
    apply hidle
    rw [he₁]
    split
    · exact .inr rfl
    · exact .inl rfl
  have hidle₂ := hidle e₂ (.inl he₂)
  -- the first of the two characters does not end the line
  have hfirst : burstEnds lastbursttime (l.text.getLastD prevresult)
      ((l.text.foldl TypeScan.read a).read e₁.char) e₁ = false := by
    rw [burstEnds, beq_false_of_ne hlast.1, beq_false_of_ne hlast.2]
    simp
  have hsecond : burstEnds lastbursttime e₁.char
      ((l.text.foldl TypeScan.read a).read e₂.char) e₂ = (l.msgTyp == zda) := by
    have hend : (e₁.char == 0x0a || e₁.char == 0x0d) = true := by
      rw [he₁]
      split
      · rfl
      · rfl
    rw [hidle₂, burstEnds, he₂, hend, hzda, decide_eq_false (by omega)]
    simp
  rw [hlength, readBurst_text htext, hchars, readBurst_continue hfirst, hidle₁]
  by_cases htyp : l.msgTyp = zda
  · rw [if_pos htyp, readBurst_end (hsecond.trans (beq_iff_eq.mpr htyp)), hidle₂]
    simp only [BurstRead.after, Line.bytes, he₁, he₂]
    rfl
  · rw [if_neg htyp, readBurst_continue (hsecond.trans (beq_false_of_ne htyp)), hidle₂, he₂]
    simp only [BurstRead.after, Line.bytes, he₁]
    simp

theorem split_serial {bytes : List UInt8}
    (h : serial.map SerialChar.char = l.bytes ++ bytes) :
    ∃ chars e₁ e₂ rest, serial = chars ++ e₁ :: e₂ :: rest ∧
      chars.map SerialChar.char = l.text ∧ e₁.char = (if l.crlf then 0x0d else 0x0a) ∧
      e₂.char = 0x0a ∧ rest.map SerialChar.char = bytes := by
  rw [Line.bytes, List.append_assoc] at h
  obtain ⟨chars, ends, rfl, hchars, hends⟩ := List.map_eq_append_iff.mp h
  obtain ⟨e₁, ends, rfl, he₁, hends⟩ := List.map_eq_cons_iff.mp hends
  obtain ⟨e₂, rest, rfl, he₂, hrest⟩ := List.map_eq_cons_iff.mp hends
  exact ⟨chars, e₁, e₂, rest, rfl, hchars, he₁, he₂, hrest⟩

/-- The lines of a burst are read up to the end of its last one. -/
theorem readBurst_lines (room : Nat) (prevresult : UInt8) (a : TypeScan)
    (more : List SerialChar) {lines : List Line} {last : Line}
    (hlines : ∀ l ∈ lines, l.WellFormed ∧ l.msgTyp ≠ zda)
    (hlast : last.WellFormed ∧ last.msgTyp = zda)
    (hchars : serial.map SerialChar.char = lines.flatMap Line.bytes ++ last.bytes)
    (htimely : ∀ c ∈ serial, c.char = 0x0a → c.millis - lastbursttime ≤ 2000) :
    ∃ scan, readBurst lastbursttime
      ((lines.flatMap Line.bytes ++ last.bytes).length + room) prevresult a (serial ++ more) =
        ⟨lines.flatMap Line.bytes ++ last.bytes, scan, more⟩ := by
  induction lines generalizing serial prevresult a with
  | nil =>
      rw [List.flatMap_nil, List.nil_append] at hchars ⊢
      rw [← List.append_nil last.bytes] at hchars
      obtain ⟨chars, e₁, e₂, rest, rfl, htext, he₁, he₂, hrest⟩ := split_serial hchars
      obtain rfl := List.map_eq_nil_iff.mp hrest
      have htime : e₂.millis - lastbursttime ≤ 2000 := htimely e₂ (by simp) he₂
      refine ⟨last.text.foldl TypeScan.read a, ?_⟩
      rw [List.append_assoc, List.cons_append, List.cons_append, List.nil_append,
        readBurst_line hlast.1 htext he₁ he₂ htime, if_pos hlast.2]
  | cons l lines ih =>
      rw [List.flatMap_cons, List.append_assoc] at hchars ⊢
      obtain ⟨chars, e₁, e₂, rest, rfl, htext, he₁, he₂, hrest⟩ := split_serial hchars
      obtain ⟨hwell, htyp⟩ := hlines l List.mem_cons_self
      have htime : e₂.millis - lastbursttime ≤ 2000 := htimely e₂ (by simp) he₂
      obtain ⟨scan, hread⟩ := ih 0x0a (l.text.foldl TypeScan.read a)
        (fun l' hl' => hlines l' (List.mem_cons_of_mem l hl')) hrest
        fun c hc => htimely c (List.mem_append_right _
          (List.mem_cons_of_mem e₁ (List.mem_cons_of_mem e₂ hc)))
      refine ⟨scan, ?_⟩
      rw [List.append_assoc, List.cons_append, List.cons_append, List.length_append,
        Nat.add_assoc, readBurst_line hwell htext he₁ he₂ htime, if_neg htyp, hread]
      rfl

end Loop

/-- The read loop cuts the stream at the ends of the bursts. -/
theorem serialLoop_bursts {opened : Int} (bursts : List Burst) (h : Bursts opened bursts)
    (a : TypeScan) (clock : List Int) (more : List SerialChar) :
    (serialLoop (bursts.map Burst.closed ++ clock) opened a
      (bursts.flatMap Burst.serial ++ more)).take bursts.length =
        bursts.map fun b => gpsBuffOf b.bytes := by
  induction bursts generalizing opened a with
  | nil => rfl
  | cons b bursts ih =>
      obtain ⟨hb, hbursts⟩ := h
      obtain ⟨room, hroom⟩ := Nat.exists_eq_add_of_le hb.size
      obtain ⟨scan, hread⟩ := readBurst_lines room 0 a
        (bursts.flatMap Burst.serial ++ more) hb.lines hb.last hb.chars hb.timely
      have hread' : readBurst opened gpsBuffSize 0 a
          (b.serial ++ (bursts.flatMap Burst.serial ++ more)) =
            ⟨b.bytes, scan, bursts.flatMap Burst.serial ++ more⟩ := by
        rw [hroom]
        exact hread
      simp only [List.map_cons, List.cons_append, List.flatMap_cons, List.append_assoc,
        serialLoop, hread', List.length_cons, List.take_succ_cons]
      rw [ih hbursts]

/-- `$GPGGA,` and `$GPZDA,` with the two line ends. -/
def ggaLine : Line := ⟨[0x24, 0x47, 0x50, 0x47, 0x47, 0x41, 0x2c], true⟩

def zdaLine : Line := ⟨[0x24, 0x47, 0x50, 0x5a, 0x44, 0x41, 0x2c], false⟩

theorem ggaLine_wellFormed : ggaLine.WellFormed :=
  ⟨rfl, by decide, by decide, by decide, by decide⟩

theorem zdaLine_wellFormed : zdaLine.WellFormed :=
  ⟨rfl, by decide, by decide, by decide, by decide⟩

/-- A burst of both that is read at one time. -/
def twoLines (millis : Int) : Burst where
  lines := [ggaLine]
  last := zdaLine
  serial := (ggaLine.bytes ++ zdaLine.bytes).map fun char => ⟨char, millis⟩
  closed := millis

theorem twoLines_valid {opened millis : Int} (h : millis - opened ≤ 2000) :
    (twoLines millis).Valid opened where
  lines := by
    intro l hl
    cases List.mem_singleton.mp hl
    exact ⟨ggaLine_wellFormed, by decide⟩
  last := ⟨zdaLine_wellFormed, rfl⟩
  size := Nat.le_of_ble_eq_true rfl
  chars := rfl
  timely := by
    intro c hc _
    obtain ⟨char, -, rfl⟩ := List.mem_map.mp hc
    exact h

/-- Two bursts, one second and two and a half seconds after the port was opened. -/
theorem serialLoop_bursts_two :
    Bursts 0 [twoLines 1000, twoLines 2500] ∧
      (serialLoop [1000, 2500] 0 (.opened fun _ => 0)
        ((twoLines 1000).serial ++ (twoLines 2500).serial)).take 2 =
          [gpsBuffOf (ggaLine.bytes ++ zdaLine.bytes),
            gpsBuffOf (ggaLine.bytes ++ zdaLine.bytes)] := by
  have hbursts : Bursts 0 [twoLines 1000, twoLines 2500] :=
    ⟨twoLines_valid (by decide), twoLines_valid (by decide), trivial⟩
  exact ⟨hbursts, serialLoop_bursts _ hbursts (.opened fun _ => 0) [] []⟩

end Speedway.Gps
