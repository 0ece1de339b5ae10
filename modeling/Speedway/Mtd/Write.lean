import Speedway.Mtd.Flash

/-!
# `mtd_write`

The image is read into a buffer of one erase block, filled up with `0xff` at its end.
Before the buffer is written the next block is erased; bad blocks are passed over, and
where a block cannot be erased the writing goes on in the next partition of the list. The
write position, the erase position and the bytes passed over are counted separately. No
jffs2 file is given and erasing is enabled. All partitions have the same erase size.
-/

namespace Speedway.Mtd

open Speedway.Lib

/-- The variables of `mtd_write`, the position in the device and what was done so far. -/
structure WriteState where
  w : Nat
  e : Nat
  skipBadBlocks : Nat
  offset : Nat
  /-- The position of `fd`. -/
  pos : Nat
  /-- The memory from `buf` on; the buffer has `erasesize` bytes. -/
  buf : Mem
  buflen : Nat
  /-- What is left to read of the image. -/
  image : List UInt8
  /-- No `write` was cut short. -/
  complete : Bool
  log : List FlashOp

/-- The bytes of a list in memory. -/
def ofList (bytes : List UInt8) : Mem := fun i => bytes.getD i 0

section Model

variable (erasesize partOffset idx : Nat) (part : Part)

/-- The loop that fills the buffer from the image. -/
def WriteState.fill (st : WriteState) : WriteState :=
  let r := min (erasesize - st.buflen) st.image.length
  { st with
    buf := st.buf.copy st.buflen (ofList st.image) r
    buflen := st.buflen + r
    image := st.image.drop r }

/-- The block is padded. -/
def WriteState.pad (st : WriteState) : WriteState :=
  { st with
    buf := st.buf.fill st.buflen 0xff (erasesize - st.buflen)
    buflen := erasesize }

/-- `lseek` in a partition; past the end it fails. -/
def Part.lseek (pos target : Nat) : Nat := if target ≤ part.size * erasesize then target else pos

/-- `write` of some bytes of the buffer; at the end of the partition it is cut short. -/
def WriteState.write (st : WriteState) (len : Nat) : WriteState :=
  let written := min len (part.size * erasesize - st.pos)
  { st with
    pos := st.pos + written
    complete := st.complete && written == len
    log := st.log ++ [.write idx st.pos ((st.buf.shift st.offset).bytes written)] }

/-- How the erase loop ends; `stuck` if there is no fuel left. -/
inductive EraseEnd where
  | stuck
  | exit
  | failed (st : WriteState)
  | ready (st : WriteState)

/-- The loop that erases up to the end of what is to be written. -/
def eraseLoop : Nat → WriteState → EraseEnd
  | 0, _ => .stuck
  | fuel + 1, st =>
      if st.w + st.buflen + st.skipBadBlocks ≤ st.e then .ready st
      else match part.blockIsBad (st.e / erasesize) with
        | none => .exit
        | some true =>
            eraseLoop fuel { st with
              skipBadBlocks := st.skipBadBlocks + erasesize
              e := st.e + erasesize
              pos := part.lseek erasesize st.pos (st.pos + erasesize) }
        | some false =>
            let block := (st.e + partOffset) / erasesize
            let st := { st with log := st.log ++ [.erase idx block (part.erases block)] }
            if part.erases block then eraseLoop fuel { st with e := st.e + erasesize }
            else .failed st

/-- An erase failed and there is a next partition. -/
def WriteState.leave (st : WriteState) : WriteState :=
  let st := if st.w < st.e then
      { st.write erasesize idx part (st.e - st.w) with offset := st.e - st.w }
    else st
  { st with w := 0, e := 0 }

inductive PartEnd where
  | stuck
  | exit
  | next (st : WriteState)
  | returned (st : WriteState)

/-- The main loop in one partition. -/
def writePart (last : Bool) : Nat → WriteState → PartEnd
  | 0, _ => .stuck
  | fuel + 1, st =>
      let st := st.fill erasesize
      if st.buflen = 0 then .returned st
      else match eraseLoop erasesize partOffset idx part (part.size + 2) (st.pad erasesize) with
        | .stuck => .stuck
        | .exit => .exit
        | .failed st => if last then .exit else .next (st.leave erasesize idx part)
        | .ready st =>
            if st.pos + st.buflen ≤ part.size * erasesize then
              let st := st.write erasesize idx part st.buflen
              writePart last fuel { st with w := st.w + st.buflen, buflen := 0, offset := 0 }
            else .exit

end Model

/-- From `resume` on, with the partitions that are left. -/
def mtdWriteFrom (erasesize partOffset : Nat) : Nat → List Part → WriteState → PartEnd
  | _, [], _ => .exit
  | idx, part :: rest, st =>
      let st := { st with w := 0, e := 0, pos := part.lseek erasesize 0 partOffset }
      match writePart erasesize partOffset idx part rest.isEmpty
          (st.buflen + st.image.length + 1) st with
      | .next st => mtdWriteFrom erasesize partOffset (idx + 1) rest st
      | other => other

/-- The state at the start; the first `held` bytes of the image are in the buffer already. -/
def WriteState.start (held : Nat) (heap : Mem) (image : List UInt8) : WriteState where
  w := 0
  e := 0
  skipBadBlocks := 0
  offset := 0
  pos := 0
  buf := heap.copy 0 (ofList image) held
  buflen := min held image.length
  image := image.drop held
  complete := true
  log := []

/-- `mtd_write`, with the memory before the buffer was filled and the number of bytes that
are in it. -/
def mtdWrite (erasesize partOffset : Nat) (parts : List Part) (held : Nat) (heap : Mem)
    (image : List UInt8) : PartEnd :=
  mtdWriteFrom erasesize partOffset 0 parts (.start held heap image)

end Speedway.Mtd
