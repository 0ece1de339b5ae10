import Speedway.Nmbm.Calls
import Speedway.Nmbm.Mtd
import Speedway.Nmbm.Sample

/-!
# The tests of the range operations

The three range operations add address and size in 64 bits and compare the sum with
the size of the data area. A sum that wraps passes this test although the range
does not fit. Each operation comes with the entries of `block_mapping` it uses.
-/

namespace Speedway.Nmbm

open Speedway.Lib

/-- The calls of the range operations. -/
inductive RangeCall where
  | erase
  | read (buf : Mem)
  | write (data : Mem)

section Definitions

variable (g : Geometry) (dev : Device)

/-- The logic blocks that the loop of `nmbm_erase_block_range` erases; the entry of
`block_mapping` that `nmbm_erase_logic_block` uses is that of its block. -/
def eraseVisits : Nat → Nat → World → List Nat
  | 0, _, _ => []
  | n + 1, lb, w =>
      let r := eraseLogicBlock g dev lb w
      lb :: if r.1 ≠ 0 then [] else eraseVisits n (lb + 1) r.2

/-- The logic blocks whose pages the loop of `nmbm_read_range` reads. -/
def readVisits : Nat → Nat → Nat → World → List Nat
  | 0, _, _, _ => []
  | fuel + 1, off, remain, w =>
      if remain = 0 then []
      else
        let leading := off % g.writesize
        let chunk := min (g.writesize - leading) remain
        let r := readLogicPage g dev (off - leading) w
        let cache := r.w.chip.pageCache.copy 0 r.page.data g.writesize
        let w₁ : World := if chunk = g.writesize then r.w
          else { r.w with chip := { r.w.chip with pageCache := cache } }
        g.addr2ba (off - leading) ::
          if r.ret < 0 ∧ r.ret ≠ -eBadMsg then []
          else readVisits fuel (off + chunk) (remain - chunk) w₁

namespace RangeCall

/-- The request is not refused with `-EROFS` or `-EINVAL`. -/
def accepted (addr size : Nat) (w : World) : RangeCall → Bool
  | .erase | .write _ => !(w.ni.isProtected || g.readOnly) && rangeFits g addr size w
  | .read _ => !w.ni.isProtected && rangeFits g addr size w

/-- The return code of a call. -/
def ret (addr size : Nat) (w : World) : RangeCall → Int
  | .erase => (eraseBlockRange g dev addr size w).ret
  | .read buf => (readRange g dev addr size buf w).1
  | .write data => (writeRange g dev addr size data w).1

/-- The entries of `block_mapping` used by a call that is not refused. -/
def indices (addr size : Nat) (w : World) : RangeCall → List Nat
  | .erase =>
      if size = 0 then []
      else
        let startBa := g.addr2ba addr
        let endBa := g.addr2ba ((addr + size + 2 ^ 64 - 1) % 2 ^ 64)
        eraseVisits g dev (endBa + 1 - startBa) startBa w
  | .read _ => readVisits g dev size addr size w
  | .write data => (writeRangePages g dev addr size data w).map fun t => g.addr2ba t.addr

/-- A request that is not refused lies in the data area and is served from there, and
an erase that returns 0 has erased every block of the range. -/
structure Sound (addr size : Nat) (w : World) (c : RangeCall) : Prop where
  inside : addr + size ≤ g.ba2addr w.ni.dataBlockCount
  indices : ∀ lb ∈ c.indices g dev addr size w, lb < w.ni.dataBlockCount
  erased : c = .erase → c.ret g dev addr size w = 0 →
    ∀ a, addr ≤ a → a < addr + size → a / g.erasesize ∈ c.indices g dev addr size w

end RangeCall

end Definitions

section Visits

variable {g : Geometry} {dev : Device} {w : World}

theorem eraseVisits_range {n lb k : Nat} (h : k ∈ eraseVisits g dev n lb w) :
    lb ≤ k ∧ k < lb + n := by
  induction n generalizing lb w with
  | zero => exact absurd h List.not_mem_nil
  | succ n ih =>
      simp only [eraseVisits] at h
      rcases List.mem_cons.mp h with rfl | hrest
      · omega
      · split at hrest
        · exact absurd hrest List.not_mem_nil
        · have := ih hrest
          omega

/-- A loop that returns 0 has come to every block. -/
theorem mem_eraseVisits {n lb k : Nat} (h : (eraseBlocksLoop g dev n lb w).ret = 0)
    (hlo : lb ≤ k) (hhi : k < lb + n) : k ∈ eraseVisits g dev n lb w := by
  induction n generalizing lb w with
  | zero => omega
  | succ n ih =>
      simp only [eraseBlocksLoop] at h
      simp only [eraseVisits]
      split at h
      next hfail => exact absurd h hfail
      next hok =>
        rw [if_neg hok, List.mem_cons]
        rcases Nat.eq_or_lt_of_le hlo with rfl | hlt
        · exact .inl rfl
        · exact .inr (ih h hlt (by omega))

/-- The pages that are read begin before the end of the range. -/
theorem readVisits_range {fuel off remain lb : Nat} (h : lb ∈ readVisits g dev fuel off remain w) :
    ∃ a, a < off + remain ∧ lb = g.addr2ba a := by
  induction fuel generalizing off remain w with
  | zero => exact absurd h List.not_mem_nil
  | succ fuel ih =>
      simp only [readVisits] at h
      split at h
      · exact absurd h List.not_mem_nil
      next hremain =>
        rcases List.mem_cons.mp h with rfl | hrest
        · exact ⟨off - off % g.writesize, by omega, rfl⟩
        · split at hrest
          · exact absurd hrest List.not_mem_nil
          · obtain ⟨a, ha, hlb⟩ := ih hrest
            exact ⟨a, by omega, hlb⟩

/-- So do the pages that are written. -/
theorem writeRangeTries_addr {data : Mem} {fuel off pos remain : Nat} {t : PageTry}
    (h : t ∈ writeRangeTries g dev data fuel off pos remain w) : t.addr < off + remain := by
  induction fuel generalizing off pos remain w with
  | zero => exact absurd h List.not_mem_nil
  | succ fuel ih =>
      simp only [writeRangeTries] at h
      split at h
      · exact absurd h List.not_mem_nil
      next hremain =>
        rcases List.mem_cons.mp h with rfl | hrest
        · show off - off % g.writesize < off + remain
          omega
        · split at hrest
          · exact absurd hrest List.not_mem_nil
          · have := ih hrest
            omega

theorem writeRangePages_addr {data : Mem} {addr size : Nat} {t : PageTry}
    (h : t ∈ writeRangePages g dev addr size data w) : t.addr < addr + size := by
  simp only [writeRangePages] at h
  split at h
  · exact absurd h List.not_mem_nil
  split at h
  · exact absurd h List.not_mem_nil
  split at h
  · exact absurd h List.not_mem_nil
  · exact writeRangeTries_addr h

end Visits

section Checks

variable {g : Geometry} {dev : Device} {w : World} {addr size : Nat}

theorem RangeCall.rangeFits_of_accepted {c : RangeCall} (h : c.accepted g addr size w = true) :
    rangeFits g addr size w = true := by
  cases c <;> exact (Bool.and_eq_true_iff.mp h).2

theorem rangeFits_iff : rangeFits g addr size w = true ↔
    addr < g.ba2addr w.ni.dataBlockCount ∧
      (addr + size) % 2 ^ 64 ≤ g.ba2addr w.ni.dataBlockCount := by
  rw [rangeFits, Bool.and_eq_true, decide_eq_true_eq, decide_eq_true_eq]

/-- The return code of an erase that is not refused. -/
theorem eraseBlockRange_ret (h : RangeCall.erase.accepted g addr size w = true)
    (hsize : size ≠ 0) :
    (eraseBlockRange g dev addr size w).ret =
      (eraseBlocksLoop g dev (g.addr2ba ((addr + size + 2 ^ 64 - 1) % 2 ^ 64) + 1 -
        g.addr2ba addr) (g.addr2ba addr) w).ret := by
  obtain ⟨hguard, hfits⟩ := Bool.and_eq_true_iff.mp h
  rw [Bool.not_eq_true'] at hguard
  simp only [eraseBlockRange]
  rw [if_neg (ne_true_of_eq_false hguard), if_neg (by rw [hfits]; exact Bool.false_ne_true),
    if_neg hsize]

/-- A range that lies in the data area is served from it. -/
theorem RangeCall.sound_of_inside {c : RangeCall} (hcount : w.ni.dataBlockCount < 2 ^ 32)
    (harea : g.ba2addr w.ni.dataBlockCount < 2 ^ 64) (haccepted : c.accepted g addr size w = true)
    (hin : addr + size ≤ g.ba2addr w.ni.dataBlockCount) : c.Sound g dev addr size w := by
  have hblock {a : Nat} (ha : a < addr + size) : g.addr2ba a < w.ni.dataBlockCount :=
    addr2ba_lt (by omega)
  cases c with
  | read buf =>
      refine ⟨hin, fun lb hlb => ?_, fun h => RangeCall.noConfusion h⟩
      obtain ⟨a, ha, rfl⟩ := readVisits_range hlb
      exact hblock ha
  | write data =>
      refine ⟨hin, fun lb hlb => ?_, fun h => RangeCall.noConfusion h⟩
      obtain ⟨t, ht, rfl⟩ := List.mem_map.mp hlb
      exact hblock (writeRangePages_addr ht)
  | erase =>
      by_cases hsize : size = 0
      · refine ⟨hin, fun lb hlb => ?_, fun _ _ a h₁ h₂ => by omega⟩
        rw [RangeCall.indices, if_pos hsize] at hlb
        exact absurd hlb List.not_mem_nil
      have hend : (addr + size + 2 ^ 64 - 1) % 2 ^ 64 = addr + size - 1 := by omega
      have hdiv {a : Nat} (ha : a < addr + size) : g.addr2ba a = a / g.erasesize := by
        have : a / g.erasesize < w.ni.dataBlockCount :=
          (Nat.div_lt_iff_lt_mul g.erasesize_pos).mpr (by rw [LowerDevice.ba2addr] at hin; omega)
        exact Nat.mod_eq_of_lt (by omega)
      have hlast := hblock (show addr + size - 1 < addr + size by omega)
      refine ⟨hin, fun lb hlb => ?_, fun _ hret a h₁ h₂ => ?_⟩
      · rw [RangeCall.indices, if_neg hsize, hend] at hlb
        have := eraseVisits_range hlb
        omega
      · rw [RangeCall.ret, eraseBlockRange_ret haccepted hsize, hend] at hret
        rw [RangeCall.indices, if_neg hsize, hend]
        refine mem_eraseVisits hret ?_ ?_
        · rw [hdiv (by omega)]
          exact Nat.div_le_div_right h₁
        · have hle : a / g.erasesize ≤ (addr + size - 1) / g.erasesize :=
            Nat.div_le_div_right (by omega)
          rw [hdiv (a := addr + size - 1) (by omega)]
          omega

/-- A range operation serves only requests inside the data area if and only if no
request whose sum wraps passes its test. -/
theorem rangeCall_sound_iff (g : Geometry) (dev : Device) (w : World) (c : RangeCall)
    (addr size : Nat) (hcount : w.ni.dataBlockCount < 2 ^ 32) (herase : g.erasesize < 2 ^ 32) :
    (c.accepted g addr size w = true → c.Sound g dev addr size w) ↔
      (c.accepted g addr size w = true → addr + size < 2 ^ 64) := by
  have harea : g.ba2addr w.ni.dataBlockCount < 2 ^ 64 := by
    have hpow : 2 ^ 32 * 2 ^ 32 = 2 ^ 64 := by norm_num
    rw [LowerDevice.ba2addr, ← hpow]
    exact Nat.mul_lt_mul'' hcount herase
  constructor
  · intro h haccepted
    have := (h haccepted).inside
    omega
  · intro h haccepted
    have hfits := (rangeFits_iff.mp (RangeCall.rangeFits_of_accepted haccepted)).2
    rw [Nat.mod_eq_of_lt (h haccepted)] at hfits
    exact RangeCall.sound_of_inside hcount harea haccepted hfits

set_option maxRecDepth 100000 in
/-- Two erase calls on the small chip, which is evaluated once. -/
theorem smallWorld_erases :
    smallWorld.ni.dataBlockCount < 2 ^ 32 ∧
      (smallGeometry false).ba2addr smallWorld.ni.dataBlockCount < 2 ^ 64 ∧
      RangeCall.erase.accepted (smallGeometry false) 0 512 smallWorld = true ∧
      RangeCall.erase.accepted (smallGeometry false) 256 (2 ^ 64 - 1) smallWorld = true ∧
      RangeCall.erase.indices (smallGeometry false) smallDevice 256 (2 ^ 64 - 1) smallWorld = [] ∧
      RangeCall.erase.ret (smallGeometry false) smallDevice 256 (2 ^ 64 - 1) smallWorld = 0 := by
  decide +kernel

/-- The first two blocks of the small chip. -/
theorem rangeCall_sound_small :
    smallWorld.ni.dataBlockCount < 2 ^ 32 ∧ (smallGeometry false).erasesize < 2 ^ 32 ∧
      RangeCall.erase.accepted (smallGeometry false) 0 512 smallWorld = true ∧
      RangeCall.erase.Sound (smallGeometry false) smallDevice 0 512 smallWorld := by
  obtain ⟨hcount, -, haccepted, -⟩ := smallWorld_erases
  refine ⟨hcount, by decide, haccepted, ?_⟩
  exact (rangeCall_sound_iff _ smallDevice smallWorld .erase 0 512 hcount (by decide)).mpr
    (fun _ => by decide) haccepted

/-- An erase of nearly `2 ^ 64` bytes is not refused, returns 0 and erases no block. -/
theorem erase_range_wraps :
    Reachable (smallGeometry false) smallDevice smallWorld ∧
      RangeCall.erase.accepted (smallGeometry false) 256 (2 ^ 64 - 1) smallWorld = true ∧
      RangeCall.erase.ret (smallGeometry false) smallDevice 256 (2 ^ 64 - 1) smallWorld = 0 ∧
      RangeCall.erase.indices (smallGeometry false) smallDevice 256 (2 ^ 64 - 1) smallWorld = [] ∧
      ¬ RangeCall.erase.Sound (smallGeometry false) smallDevice 256 (2 ^ 64 - 1) smallWorld := by
  obtain ⟨-, harea, -, haccepted, hindices, hret⟩ := smallWorld_erases
  refine ⟨smallWorld_reachable, haccepted, hret, hindices, fun h => ?_⟩
  have := h.inside
  omega

end Checks

end Speedway.Nmbm
