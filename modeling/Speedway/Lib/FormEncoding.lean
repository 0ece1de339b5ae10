import Mathlib.Tactic.Common

/-!
# The `application/x-www-form-urlencoded` format

Letters, digits and `*-._` stand for themselves, a space is written `+`, and
every other byte is written `%` with two upper-case hexadecimal digits. Fields
are `label=value`, joined by `&`.
-/

namespace Speedway.Lib.Form

/-- The bytes that stand for themselves. -/
def unreserved (b : UInt8) : Bool :=
  (0x30 ≤ b && b ≤ 0x39) || (0x41 ≤ b && b ≤ 0x5a) || (0x61 ≤ b && b ≤ 0x7a) ||
    b == 0x2a || b == 0x2d || b == 0x2e || b == 0x5f

/-- An upper-case hexadecimal digit. -/
def hexDigit (n : Nat) : UInt8 := UInt8.ofNat (if n < 10 then 48 + n else 55 + n)

def encodeByte (b : UInt8) : List UInt8 :=
  if unreserved b then [b]
  else if b = 0x20 then [0x2b]
  else [0x25, hexDigit (b.toNat / 16), hexDigit (b.toNat % 16)]

def encode (text : List UInt8) : List UInt8 := text.flatMap encodeByte

def encodePair (field : List UInt8 × List UInt8) : List UInt8 :=
  encode field.1 ++ 0x3d :: encode field.2

/-- The fields after the first one, each with its separator. -/
def encodeTail (fields : List (List UInt8 × List UInt8)) : List UInt8 :=
  fields.flatMap fun field => 0x26 :: encodePair field

def encodePairs : List (List UInt8 × List UInt8) → List UInt8
  | [] => []
  | field :: fields => encodePair field ++ encodeTail fields

@[simp] theorem encode_nil : encode [] = [] := rfl

@[simp] theorem encode_cons (b : UInt8) (text : List UInt8) :
    encode (b :: text) = encodeByte b ++ encode text := rfl

@[simp] theorem encodeTail_cons (field : List UInt8 × List UInt8)
    (fields : List (List UInt8 × List UInt8)) :
    encodeTail (field :: fields) = 0x26 :: (encodePair field ++ encodeTail fields) := rfl

end Speedway.Lib.Form
