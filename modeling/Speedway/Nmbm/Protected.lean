import Speedway.Nmbm.Sample

/-!
# Reading from a protected instance

When the info tables cannot be written any more, the instance is protected
and reported to be read-only. Both readers test the same flag as the writers:
from then on no page can be read, although its data is still on the chip.
-/

namespace Speedway.Nmbm

open Speedway.Lib

section Definitions

variable (g : Geometry) (dev : Device)

/-- The logic blocks that a call works on. -/
def Call.Targets (lb : Nat) : Call → Prop
  | .eraseBlockRange addr size => ∃ a, addr ≤ a ∧ a < addr + size ∧ lb = g.addr2ba a
  | .writeSinglePage addr _ _ | .panicWriteSinglePage addr _ | .markBadBlock addr =>
      lb = g.addr2ba addr
  | .writeRange addr size _ => ∃ a, addr ≤ a ∧ a < addr + size ∧ lb = g.addr2ba a
  | .readSinglePage _ | .readRange _ _ _ | .detach => False

/-- `nmbm_read_single_page` reads the page at `addr`. -/
def CanReadPage (w : World) (addr : Nat) : Prop := 0 ≤ (readSinglePage g dev addr w).ret

/-- `nmbm_read_range` reads `size` bytes from `addr` on into `buf`. -/
def CanReadRange (w : World) (addr size : Nat) (buf : Mem) : Prop :=
  0 ≤ (readRange g dev addr size buf w).1

/-- No byte of the range lies in a block that the call works on. -/
def Call.Avoids (c : Call) (addr size : Nat) : Prop :=
  ∀ a, addr ≤ a → a < addr + size → ¬ c.Targets g (g.addr2ba a)

/-- Whatever could be read before the call, outside its blocks, can be read after
it with the same bytes. -/
structure KeepsReadable (w : World) (c : Call) : Prop where
  page : ∀ addr, ¬ c.Targets g (g.addr2ba addr) → CanReadPage g dev w addr →
    CanReadPage g dev (c.run g dev w) addr ∧
      (readSinglePage g dev addr (c.run g dev w)).page = (readSinglePage g dev addr w).page
  range : ∀ addr size buf, 0 < size → c.Avoids g addr size → CanReadRange g dev w addr size buf →
    CanReadRange g dev (c.run g dev w) addr size buf ∧
      (readRange g dev addr size buf (c.run g dev w)).2.2.1 =
        (readRange g dev addr size buf w).2.2.1

/-- Nothing outside the blocks of the call could be read before it. -/
structure NothingReadable (w : World) (c : Call) : Prop where
  page : ∀ addr, ¬ c.Targets g (g.addr2ba addr) → ¬ CanReadPage g dev w addr
  range : ∀ addr size buf, 0 < size → c.Avoids g addr size → ¬ CanReadRange g dev w addr size buf

end Definitions

section Readers

variable {g : Geometry} {dev : Device} {w : World}

theorem not_canReadPage (h : w.ni.isProtected = true) (addr : Nat) :
    ¬ CanReadPage g dev w addr := by
  rw [CanReadPage, readSinglePage, if_pos h]
  exact (show ¬ 0 ≤ -eRofs by decide)

theorem not_canReadRange (h : w.ni.isProtected = true) (addr size : Nat) (buf : Mem) :
    ¬ CanReadRange g dev w addr size buf := by
  rw [CanReadRange, readRange, if_pos h]
  exact (show ¬ 0 ≤ -eRofs by decide)

/-- A call that ends with a protected instance keeps the readable pages readable
only when there were none. -/
theorem keepsReadable_iff (c : Call) (h : (c.run g dev w).ni.isProtected = true) :
    KeepsReadable g dev w c ↔ NothingReadable g dev w c := by
  constructor
  · intro hk
    refine ⟨fun addr hout hread => ?_, fun addr size buf hsize hout hread => ?_⟩
    · exact not_canReadPage h addr (hk.page addr hout hread).1
    · exact not_canReadRange h addr size buf (hk.range addr size buf hsize hout hread).1
  · intro hn
    refine ⟨fun addr hout hread => ?_, fun addr size buf hsize hout hread => ?_⟩
    · exact absurd hread (hn.page addr hout)
    · exact absurd hread (hn.range addr size buf hsize hout)

end Readers

/-- The small chip on which every program and erase fails once NMBM is created. -/
def brokenDevice : Device :=
  sampleDevice [0, 1] fun t r =>
    match r with
    | .eraseBlock _ | .writePage _ => decide (171 ≤ t)
    | _ => false

/-- The world after creation on that chip. -/
def wornWorld : World := attached (smallGeometry false) brokenDevice 64 blankChip

/-- A write to logic block 0. -/
def wornCall : Call := .writeSinglePage 0 (some fun _ => 0) none

theorem wornCall_targets :
    ¬ wornCall.Targets (smallGeometry false) ((smallGeometry false).addr2ba 512) :=
  show ¬ (smallGeometry false).addr2ba 512 = (smallGeometry false).addr2ba 0 by decide

set_option maxRecDepth 100000 in
theorem wornWorld_run :
    (attach (smallGeometry false) brokenDevice 64 blankChip).map Prod.fst = some .created ∧
      (wornCall.run (smallGeometry false) brokenDevice wornWorld).ni.isProtected = true ∧
      0 ≤ (readSinglePage (smallGeometry false) brokenDevice 512 wornWorld).ret := by
  decide +kernel

/-- The write does not keep the pages of that chip readable. -/
theorem keepsReadable_iff_worn :
    Reachable (smallGeometry false) brokenDevice wornWorld ∧
      (wornCall.run (smallGeometry false) brokenDevice wornWorld).ni.isProtected = true ∧
      ¬ KeepsReadable (smallGeometry false) brokenDevice wornWorld wornCall := by
  obtain ⟨hcreated, hprotected, hread⟩ := wornWorld_run
  refine ⟨reachable_attached hcreated, hprotected, fun hkeeps => ?_⟩
  have hnothing := (keepsReadable_iff wornCall hprotected).mp hkeeps
  exact hnothing.page 512 wornCall_targets hread

/-- The write protects the instance, and a page of logic block 2 that could be
read before it is refused. -/
theorem write_loses_reads :
    ∃ w, Reachable (smallGeometry false) brokenDevice w ∧
      (wornCall.run (smallGeometry false) brokenDevice w).ni.isProtected = true ∧
      ¬ wornCall.Targets (smallGeometry false) ((smallGeometry false).addr2ba 512) ∧
      CanReadPage (smallGeometry false) brokenDevice w 512 ∧
      (readSinglePage (smallGeometry false) brokenDevice 512
        (wornCall.run (smallGeometry false) brokenDevice w)).ret = -eRofs := by
  obtain ⟨hcreated, hprotected, hread⟩ := wornWorld_run
  refine ⟨wornWorld, reachable_attached hcreated, hprotected, wornCall_targets, hread, ?_⟩
  rw [readSinglePage, if_pos hprotected]

end Speedway.Nmbm
