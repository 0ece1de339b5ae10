import Speedway.Lib.FormEncoding
import Speedway.Lib.Memory

/-!
# NMEA sentences in the receive buffer of the GPS daemon

`parseGPSBuffer` looks for sentences `$...*hh` in the buffer, checks their
length and checksum and collects those that pass in `gpsMsgArray`.
-/

namespace Speedway.Gps

open Speedway.Lib Speedway.Lib.Form

/-- The number of characters of the receive buffer; a 0 follows them. -/
def gpsBuffSize : Nat := 2048

def maxMsgSize : Nat := 128

def minMsgSize : Nat := 11

def numGpsMessages : Nat := 30

inductive GpsMsgType where
  | gga
  | gll
  | gsa
  | gsv
  | rmc
  | vtg
  | zda
  | unknown
  deriving DecidableEq

/-- A message with the members that the search sets. -/
structure GpsMessage where
  message : List UInt8
  msgTyp : GpsMsgType
  sendThisMsg : Bool
  deriving DecidableEq

/-- The exclusive or of some characters. -/
def xorSum (text : List UInt8) : UInt8 := text.foldl (· ^^^ ·) 0

/-- `checksumNMEA`: the characters after the first one, up to a length. -/
def checksumNMEA (nmea : List UInt8) (len : Nat) : UInt8 :=
  xorSum (((nmea.take len).drop 1).takeWhile (· != 0))

/-- `calcChecksumValue`: the characters after the first one, up to `*`. -/
def calcChecksumValue (nmea : List UInt8) : UInt8 :=
  xorSum ((nmea.drop 1).takeWhile fun c => c != 0x2a && c != 0)

/-- A byte in upper-case hexadecimal with two places, the first filled with `pad`. -/
def hexText (pad : UInt8) (v : UInt8) : List UInt8 :=
  if v < 16 then [pad, hexDigit v.toNat] else [hexDigit (v.toNat / 16), hexDigit (v.toNat % 16)]

/-- `updateChecksumStr` and its result. -/
def updateChecksumStr (nmea : List UInt8) : Bool × List UInt8 :=
  let pos := 1 + (nmea.drop 1).findIdx (· == 0x2a)
  if pos < nmea.length - 2 then
    (true, nmea.take (pos + 1) ++ hexText 0x30 (calcChecksumValue nmea))
  else (false, nmea)

/-- `getCPSMsgType`. -/
def getCPSMsgType (nmea : List UInt8) : GpsMsgType :=
  let name := (nmea.drop 3).take 3
  if name = [0x47, 0x47, 0x41] then .gga
  else if name = [0x47, 0x4c, 0x4c] then .gll
  else if name = [0x47, 0x53, 0x41] then .gsa
  else if name = [0x47, 0x53, 0x56] then .gsv
  else if name = [0x52, 0x4d, 0x43] then .rmc
  else if name = [0x56, 0x54, 0x47] then .vtg
  else if name = [0x5a, 0x44, 0x41] then .zda
  else .unknown

/-- `parseNMEA` copies an accepted message with its 0 into `inputStr`, which has `maxMsgSize`
characters. -/
def inputStrFits (message : List UInt8) : Bool :=
  (message.takeWhile (· != 0)).length < maxMsgSize

/-- The messages and the places of the newest ones. -/
structure Parsed where
  gpsMsgArray : Nat → GpsMessage
  gpsMsgIDX : Nat
  idxOfNewestGGAMsg : Int
  idxOfNewestVTGMsg : Int
  /-- Every call of `parseNMEA` had room for its copy. After one that had not, the program
  has no defined result. -/
  inputStrFits : Bool

/-- `resetGPSMessages`, with the other variables of the search. -/
def resetGPSMessages : Parsed where
  gpsMsgArray := fun _ => ⟨[], .unknown, false⟩
  gpsMsgIDX := 0
  idxOfNewestGGAMsg := -1
  idxOfNewestVTGMsg := -1
  inputStrFits := true

/-- Characters below the blank are replaced; with signed characters these are also
the ones with the top bit. -/
def cleanChar (signed : Bool) (c : UInt8) : UInt8 :=
  if c < 0x20 ∨ (signed ∧ 0x80 ≤ c) then 0x20 else c

/-- The buffer after the replacement. -/
def cleanBuffer (signed : Bool) (gpsBuff : Mem) : Mem :=
  fun i => if i < gpsBuffSize then cleanChar signed (gpsBuff i) else 0

/-- The first of `n` characters from `i` on that is `c`. -/
def findChar (m : Mem) (c : UInt8) : Nat → Nat → Option Nat
  | 0, _ => none
  | n + 1, i => if m i = c then some i else findChar m c n (i + 1)

/-- `strstr` for one character, from `i` to the end of the buffer. -/
def strstr (m : Mem) (c : UInt8) (i : Nat) : Option Nat := findChar m c (gpsBuffSize - i) i

/-- The global navigation sentences are sent as positioning ones. -/
def relabel (message : List UInt8) : List UInt8 :=
  let msgTyp := getCPSMsgType message
  if (msgTyp = .gga ∨ msgTyp = .vtg ∨ msgTyp = .rmc) ∧ message.getD 2 0 = 0x4e then
    (updateChecksumStr (message.set 2 0x50)).2
  else message

/-- The message at the current index was copied but is not accepted yet. -/
def Parsed.copy (p : Parsed) (message : List UInt8) : Parsed :=
  let entry := { p.gpsMsgArray p.gpsMsgIDX with message }
  { p with gpsMsgArray := Function.update p.gpsMsgArray p.gpsMsgIDX entry }

/-- The message at the current index is accepted and goes to `parseNMEA`. -/
def Parsed.accept (p : Parsed) (message : List UInt8) : Parsed :=
  let msgTyp := getCPSMsgType message
  { gpsMsgArray := Function.update p.gpsMsgArray p.gpsMsgIDX ⟨relabel message, msgTyp, true⟩
    gpsMsgIDX := p.gpsMsgIDX + 1
    idxOfNewestGGAMsg :=
      if msgTyp = .gga ∧ p.idxOfNewestGGAMsg < p.gpsMsgIDX then p.gpsMsgIDX
      else p.idxOfNewestGGAMsg
    idxOfNewestVTGMsg :=
      if msgTyp = .vtg ∧ p.idxOfNewestVTGMsg < p.gpsMsgIDX then p.gpsMsgIDX
      else p.idxOfNewestVTGMsg
    inputStrFits := p.inputStrFits && Gps.inputStrFits message }

/-- One candidate from `$` at `gpsStart` to `*` at `gpsEnd`: the new state and
where the search goes on. -/
def candidate (m : Mem) (gpsStart gpsEnd : Nat) (p : Parsed) : Parsed × Nat :=
  let msgSize := 3 + gpsEnd - gpsStart
  if minMsgSize < msgSize ∧ msgSize ≤ maxMsgSize ∧ p.gpsMsgIDX < numGpsMessages then
    let message := (m.shift gpsStart).bytes msgSize
    if hexText 0x20 (checksumNMEA message (msgSize - 3)) = message.drop (msgSize - 2) then
      (p.accept message, gpsEnd)
    else (p.copy message, gpsStart)
  else (p, gpsStart)

/-- The loop over the `$` of the buffer, for at most `fuel` rounds. -/
def parseLoop (m : Mem) : Nat → Option Nat → Parsed → Parsed
  | 0, _, p => p
  | _ + 1, none, p => p
  | fuel + 1, some gpsStart, p =>
      match strstr m 0x2a (gpsStart + 1) with
      | none => parseLoop m fuel (strstr m 0x24 (gpsStart + 1)) p
      | some gpsEnd =>
          if gpsBuffSize ≤ 3 + gpsEnd then p
          else
            let r := candidate m gpsStart gpsEnd p
            parseLoop m fuel (strstr m 0x24 (r.2 + 1)) r.1

/-- `parseGPSBuffer`. -/
def parseGPSBuffer (signed : Bool) (gpsBuff : Mem) : Parsed :=
  let m := cleanBuffer signed gpsBuff
  parseLoop m (gpsBuffSize + 1) (strstr m 0x24 0) resetGPSMessages

end Speedway.Gps
