import Speedway.Mtd.Jffs2Nodes
import Speedway.Mtd.Write

/-!
# Adding a file to a jffs2 image

Nodes are collected in a buffer of one erase block. A block that is full, or too full for
what comes next, is filled up and written to the next block of the partition that is not
bad; the next block then starts with a clean marker. `State` has the static variables of
the source but `target_ino`, which here is the root directory.
-/

namespace Speedway.Mtd.Jffs2

open Speedway.Lib

/-- The static variables, the position of `outfd` and what was done to the flash. -/
structure State where
  lastIno : Nat
  lastVersion : Nat
  /-- The memory from `buf` on; the buffer has `erasesize` bytes. -/
  buf : Mem
  ofs : Nat
  mtdofs : Nat
  pos : Nat
  log : List FlashOp

/-- Ways not to return: the program exits where the state of a block cannot be read, or a
loop has no fuel left. -/
inductive Stop where
  | exit (s : State)
  | stuck

/-- What `stat` says of a file. -/
structure Stat where
  mode : UInt32
  size : UInt32
  atime : UInt32
  mtime : UInt32
  ctime : UInt32

section Model

variable (erasesize idx : Nat) (part : Part)

/-- The loop of `pad` over bad blocks. -/
def skipBad : Nat → State → Except Stop State
  | 0, _ => .error .stuck
  | fuel + 1, s =>
      match part.blockIsBad (s.mtdofs / erasesize) with
      | none => .error (.exit s)
      | some bad =>
          if bad ∧ s.mtdofs < part.size * erasesize then
            skipBad fuel { s with
              mtdofs := s.mtdofs + erasesize
              pos := part.lseek erasesize s.pos (s.pos + erasesize) }
          else .ok s

/-- The end of `pad`: erase a block and write the buffer, whatever comes of it. -/
def writeBlock (s : State) : State :=
  let k := s.mtdofs / erasesize
  let written := min erasesize (part.size * erasesize - s.pos)
  { s with
    mtdofs := s.mtdofs + erasesize
    pos := s.pos + written
    log := s.log ++ [.erase idx k (part.erases k), .write idx s.pos (s.buf.bytes written)] }

/-- `pad`. -/
def pad (size : Nat) (s : State) : Except Stop State :=
  if s.ofs % size = 0 ∧ s.ofs < erasesize then .ok s
  else
    let s := if s.ofs < erasesize then { s with
        buf := s.buf.fill s.ofs 0xff (size - s.ofs % size)
        ofs := s.ofs + (size - s.ofs % size) }
      else s
    let s := { s with ofs := s.ofs % erasesize }
    if s.ofs = 0 then
      (skipBad erasesize part (part.size + 1) s).map (writeBlock erasesize idx part)
    else .ok s

/-- The end of `add_data`. -/
def put (bytes : List UInt8) (s : State) : State :=
  { s with
    buf := s.buf.copy s.ofs (ofList bytes) bytes.length
    ofs := s.ofs + bytes.length }

/-- `prep_eraseblock`; the marker is shorter than a block. -/
def prepEraseblock (s : State) : State := if 0 < s.ofs then s else put cleanmarker s

/-- `add_data`. -/
def addData (bytes : List UInt8) (s : State) : Except Stop State := do
  let s ← if erasesize < s.ofs + bytes.length then
      (pad erasesize idx part erasesize s).map prepEraseblock
    else .ok s
  .ok (put bytes s)

/-- The end of `mtd_replace_jffs2`: the block that is begun and a block with the end marker are
written. -/
def finish (s : State) : Except Stop State := do
  let s ← pad erasesize idx part erasesize s
  let s ← addData erasesize idx part eof s
  pad erasesize idx part erasesize s

end Model

end Speedway.Mtd.Jffs2
