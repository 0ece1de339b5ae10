import Speedway.Nmbm.World

/-!
# Erasing and writing ranges of management blocks

`nmbm_erase_range`, `nmbm_write_mgmt_range` and `nmbm_write_signature` treat
each block in the same way: skip it unless its state is good, look for an
unexpected bad mark, erase it, do the work, and mark it bad on any failure.
`useBlock` is that common part, with the work as a parameter.
-/

namespace Speedway.Nmbm

open Speedway.Lib

section Definitions

variable (g : Geometry) (dev : Device)

/-- Try to use block `ba` for `work`; the flag tells whether it was used. -/
def useBlock (work : Chip → Bool × Chip) (ba : Nat) (w : World) : Bool × World :=
  if w.blockStateOf ba ≠ stGood then (false, w)
  else
    -- insurance to detect unexpected bad block marked by user
    let b := checkBadPhysBlock g dev ba w.chip
    if b.1 then (false, { w with chip := b.2 }.setBlockState ba stBad)
    else
      let e := eraseBlockAndCheck g dev ba b.2
      let v := if e.1 then work e.2 else (false, e.2)
      if v.1 then (true, { w with chip := v.2 })
      else (false, { w with chip := (markPhysBadBlock g dev ba v.2).2 }.setBlockState ba stBad)

/-- The loop of `nmbm_erase_range` over the `n` blocks from `ba` on. -/
def eraseRangeLoop : Nat → Nat → World → World
  | 0, _, w => w
  | n + 1, ba, w => eraseRangeLoop n (ba + 1) (useBlock g dev (fun c => (true, c)) ba w).2

/-- Record a table maintenance step together with the operations it issued. -/
def logMaintain (before after : World) : World :=
  after.log (.maintain before.ni (after.chip.ops.drop before.chip.ops.length))

/-- `nmbm_erase_range`. -/
def eraseRange (ba limit : Nat) (w : World) : World :=
  logMaintain w (eraseRangeLoop g dev (limit - ba) ba w)

/-- The results of `nmbm_write_mgmt_range`: success, `*actual_start_ba`,
`*actual_end_ba` (meaningful on success), and the blocks that hold the data. -/
structure RangeResult where
  ok : Bool
  start : Nat
  stop : Nat
  blocks : List Nat
  w : World

/-- The loop of `nmbm_write_mgmt_range` over the `n` blocks from `ba` on, with
`remain` of the `size` bytes still to be written. -/
def writeMgmtLoop (data : Mem) (size : Nat) :
    Nat → Nat → Nat → Nat → List Nat → World → RangeResult
  | 0, ba, remain, start, blocks, w => ⟨remain = 0, start, ba, blocks, w⟩
  | n + 1, ba, remain, start, blocks, w =>
      if remain = 0 then ⟨true, start, ba, blocks, w⟩
      else
        let chunk := min remain g.erasesize
        let r := useBlock g dev
          (writeVerifyData g dev (g.ba2addr ba) (data.shift (size - remain)) chunk) ba w
        if r.1 then
          writeMgmtLoop data size n (ba + 1) (remain - chunk)
            (if remain = size then ba else start) (blocks ++ [ba]) r.2
        else writeMgmtLoop data size n (ba + 1) remain start blocks r.2

/-- `nmbm_write_mgmt_range`; `limit` is not counted into the allowed blocks. -/
def writeMgmtRange (ba limit : Nat) (data : Mem) (size : Nat) (w : World) : RangeResult :=
  writeMgmtLoop g dev data size (limit - ba) ba size 0 [] w

/-- `nmbm_write_info_table`. -/
def writeInfoTable (ba limit : Nat) (w : World) : RangeResult :=
  let r := writeMgmtRange g dev ba limit w.ni.infoTableCache g.infoTableSize w
  { r with w := logMaintain w r.w }

/-- The loop of `nmbm_write_signature` over the `n` blocks from `ba` down. -/
def writeSignatureLoop (data : Mem) : Nat → Nat → World → Option Nat × World
  | 0, _, w => (none, w)
  | n + 1, ba, w =>
      let r := useBlock g dev (writeRepeatedData g dev ba data sizeofSignature) ba w
      if r.1 then (some ba, r.2) else writeSignatureLoop data n (ba - 1) r.2

/-- `nmbm_write_signature`: from the last block down to the one above `limit`. -/
def writeSignature (limit : Nat) (data : Mem) (w : World) : Option Nat × World :=
  let ba := subU32 g.blockCount 1
  writeSignatureLoop g dev data (ba - limit) ba w

end Definitions

end Speedway.Nmbm
