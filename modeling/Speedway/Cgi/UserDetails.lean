import Speedway.Lib.Memory

/-!
# The registration form handler

`cgi-userdetails` reads the form from standard input into a buffer, decodes
and splits it in one pass over that buffer, and collects the fields it knows
in a JSON object.
-/

namespace Speedway.Cgi

open Speedway.Lib

/-- The bytes of a text of ASCII characters. -/
def ascii (text : List Char) : List UInt8 := text.map fun c => UInt8.ofNat c.toNat

/-- The members of the JSON object. -/
inductive Field where
  | firstName
  | lastName
  | company
  | phone
  | email
  deriving DecidableEq

/-- The label of a field in the form. -/
def Field.label : Field → List UInt8
  | .firstName => ascii ['f', 'i', 'r', 's', 't']
  | .lastName => ascii ['l', 'a', 's', 't']
  | .company => ascii ['c', 'o', 'm', 'p', 'a', 'n', 'y']
  | .phone => ascii ['p', 'h', 'o', 'n', 'e']
  | .email => ascii ['e', 'm', 'a', 'i', 'l']

/-- The JSON object; a member that is added again is replaced. -/
abbrev Details := Field → Option (List UInt8)

def isHex (b : UInt8) : Bool :=
  (0x30 ≤ b && b ≤ 0x39) || (0x41 ≤ b && b ≤ 0x46) || (0x61 ≤ b && b ≤ 0x66)

def hexValue (b : UInt8) : UInt8 :=
  if b ≤ 0x39 then b - 0x30 else if b ≤ 0x46 then b - 0x37 else b - 0x57

/-- `isspace` in the C locale. -/
def isSpace (b : UInt8) : Bool := b == 0x20 || (0x09 ≤ b && b ≤ 0x0d)

/-- `strtoul` with base 16 on a string of two characters, as a character. -/
def strtoul (a b : UInt8) : UInt8 :=
  if isHex a then if isHex b then 16 * hexValue a + hexValue b else hexValue a
  else if isSpace a || a == 0x2b then if isHex b then hexValue b else 0
  else if a == 0x2d then if isHex b then -hexValue b else 0
  else 0

/-- Decode an escape at `offset`: the character there and the buffer. -/
def decodeAt (result offset : Nat) (input : Mem) : UInt8 × Mem :=
  if input offset = 0x25 ∧ input (offset + 1) ≠ 0 ∧ input (offset + 2) ≠ 0 then
    let c := strtoul (input (offset + 1)) (input (offset + 2))
    (c, (input.copy (offset + 1) (input.shift (offset + 3)) (result - offset)).fill offset c 1)
  else (input offset, input)

/-- The string at `start`, of which at most `n` characters are looked at. -/
def cString (m : Mem) : Nat → Nat → List UInt8
  | 0, _ => []
  | n + 1, start => if m start = 0 then [] else m start :: cString m n (start + 1)

/-- The digits kept of a phone number: dashes and dots are dropped, and the buffer
has room for eleven characters. Eleven fill it, and the string does not end there. -/
def phoneNumber (value : List UInt8) : List UInt8 :=
  (value.filter fun p => !(p == 0x2d || p == 0x2e)).take 11

/-- The number that skips the registration. -/
def bypassNumber : List UInt8 := ascii ['8', '5', '8', '8', '5', '9', '2', '9', '4', '2']

/-- The use made of a label and its value; `none` if the registration is skipped. -/
def handlePair (label value : List UInt8) (details : Details) : Option Details :=
  if label = ascii ['s', 'e', 's', 's', 'i', 'o', 'n', 'i', 'd'] then some details
  else if label = Field.firstName.label then some (Function.update details .firstName (some value))
  else if label = Field.lastName.label then some (Function.update details .lastName (some value))
  else if label = Field.company.label then some (Function.update details .company (some value))
  else if label = Field.phone.label then
    if phoneNumber value = bypassNumber then none
    else some (Function.update details .phone (some (phoneNumber value)))
  else if label = Field.email.label then some (Function.update details .email (some value))
  else some details

/-- The variables of the parser. -/
structure Scan where
  input : Mem
  offset : Nat
  labelStart : Nat
  valueStart : Nat
  details : Details

/-- How the handler ends. -/
inductive Outcome where
  | noInput
  | bypass
  | written (details : Details)

/-- The parser loop, for at most `fuel` rounds. -/
def scanLoop (result : Nat) : Nat → Scan → Option Outcome
  | 0, _ => none
  | fuel + 1, s =>
      let d := decodeAt result s.offset s.input
      let c := d.1
      let input := d.2.fill s.offset 0 1
      if c = 0x3d then
        if input (s.offset + 1) = 0x26 then
          scanLoop result fuel { s with input, valueStart := s.offset, offset := s.offset + 1 }
        else
          scanLoop result fuel { s with input, valueStart := s.offset + 1, offset := s.offset + 2 }
      else if c = 0x26 ∨ c = 0 then
        match handlePair (cString input (s.offset + 1 - s.labelStart) s.labelStart)
            (cString input (s.offset + 1 - s.valueStart) s.valueStart) s.details with
        | none => some .bypass
        | some details =>
            if c = 0 then some (.written details)
            else
              scanLoop result fuel
                { s with input, details, labelStart := s.offset + 1, offset := s.offset + 2 }
      else scanLoop result fuel { s with input := d.2, offset := s.offset + 1 }

/-- The size of the input buffer. -/
def inputSize : Nat := 16 * 1024

/-- The form parser of `main`. The bytes after the input are whatever `junk` the
buffer held; `none` if the parser leaves the buffer. -/
def userDetails (stdin : List UInt8) (junk : Mem) : Option Outcome :=
  let input := stdin.take (inputSize - 1)
  let result := input.length
  if result = 0 then some .noInput
  else
    scanLoop result inputSize
      { input := fun i => if i < result then input.getD i 0 else if i = result then 0 else junk i
        offset := 0
        labelStart := 0
        valueStart := 0
        details := fun _ => none }

end Speedway.Cgi
