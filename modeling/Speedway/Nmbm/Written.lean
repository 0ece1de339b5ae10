import Speedway.Nmbm.Maintain

/-!
# What a successful table write leaves on flash

`Written` is the promise of `nmbm_write_mgmt_range`: the data lie in ascending
blocks, bad blocks in between are skipped, and the bytes can be read back
from these blocks. `Writing` is the invariant of its loop.
-/

namespace Speedway.Nmbm

open Speedway.Lib

/-- What `nmbm_write_mgmt_range` promises on success: `size` bytes of `data` lie
in ascending blocks of `[lo, hi)`, from `start` up to the one before `stop`. -/
structure Written (g : Geometry) (lo hi : Nat) (data : Mem) (size : Nat) (r : RangeResult) :
    Prop where
  sorted : r.blocks.Pairwise (· < ·)
  length : r.blocks.length = g.size2blk size
  head : r.blocks.head? = some r.start
  last : r.stop - 1 ∈ r.blocks
  range : ∀ b ∈ r.blocks, r.start ≤ b ∧ b < r.stop
  lo_le : lo ≤ r.start
  start_lt : r.start < r.stop
  stop_le : r.stop ≤ hi
  good : ∀ b ∈ r.blocks, r.w.blockStateOf b = stGood
  skipped : ∀ b, r.start ≤ b → b < r.stop → b ∉ r.blocks → r.w.blockStateOf b ≠ stGood
  holds : ∀ i, i < size → tableAt g r.w.chip.flash r.blocks i = data i

/-- A written table stays written while its blocks are left alone. -/
theorem Written.of_maint {g : Geometry} {lo hi lo' hi' : Nat} {data : Mem} {size : Nat}
    {r : RangeResult} {w w' : World} (h : Written g lo hi data size r)
    (hm : Maint g lo' hi' w w') (hflash : w.chip.flash = r.w.chip.flash)
    (hstate : w.ni.blockState = r.w.ni.blockState) (hdisj : r.stop ≤ lo' ∨ hi' ≤ r.start) :
    Written g lo hi data size { r with w := w' } :=
  have hsame (b : Nat) (hlo : r.start ≤ b) (hhi : b < r.stop) :
      w'.blockStateOf b = r.w.blockStateOf b := by
    have houtside := hm.state b
    have heq : w.blockStateOf b = r.w.blockStateOf b := by
      unfold World.blockStateOf
      rw [hstate]
    rw [← heq]
    rcases houtside with h | ⟨h₁, h₂, -⟩
    · exact h
    · omega
  { h with
    good := fun b hb => by
      have hr := h.range b hb
      exact (hsame b hr.1 hr.2).trans (h.good b hb)
    skipped := fun b hlo hhi hb => by
      show w'.blockStateOf b ≠ stGood
      rw [hsame b hlo hhi]
      exact h.skipped b hlo hhi hb
    holds := fun i hi => by
      have houtside (b : Nat) (hb : b ∈ r.blocks) : b < lo' ∨ hi' ≤ b := by
        have := h.range b hb
        omega
      show tableAt g w'.chip.flash r.blocks i = data i
      rw [hm.tableAt houtside, hflash]
      exact h.holds i hi }

/-- The invariant of the loop of `nmbm_write_mgmt_range`. Every block but the
last takes a full block of data, so the number of blocks fixes what remains. -/
structure Writing (g : Geometry) (lo : Nat) (data : Mem) (size ba remain start : Nat)
    (blocks : List Nat) (w : World) : Prop where
  lo_le : lo ≤ ba
  remain_eq : remain = size - blocks.length * g.erasesize
  fits : blocks.length * g.erasesize < size + g.erasesize
  sorted : blocks.Pairwise (· < ·)
  range : ∀ b ∈ blocks, start ≤ b ∧ lo ≤ b ∧ b < ba
  head : blocks ≠ [] → blocks.head? = some start
  last : remain = 0 → ba - 1 ∈ blocks
  good : ∀ b ∈ blocks, w.blockStateOf b = stGood
  skipped : blocks ≠ [] → ∀ b, start ≤ b → b < ba → b ∉ blocks → w.blockStateOf b ≠ stGood
  holds : ∀ i, i < size → i < blocks.length * g.erasesize →
    tableAt g w.chip.flash blocks i = data i

namespace Writing

variable {g : Geometry} {lo : Nat} {data : Mem} {size ba remain start : Nat} {blocks : List Nat}
  {w w' : World}

theorem nil (hsize : 0 < size) : Writing g ba data size ba size 0 [] w where
  lo_le := le_refl _
  remain_eq := by simp
  fits := by
    have := g.erasesize_pos
    simp
    omega
  sorted := List.Pairwise.nil
  range := by simp
  head := by simp
  last h := by omega
  good := by simp
  skipped h := absurd rfl h
  holds := by simp

/-- Work on block `ba` leaves the state of the blocks below it. -/
theorem state_below (hm : Maint g ba (ba + 1) w w') {b : Nat} (hb : b < ba) :
    w'.blockStateOf b = w.blockStateOf b := by
  rcases hm.state b with h | ⟨h, -⟩
  · exact h
  · omega

/-- A block that could not be used is skipped. -/
theorem skip (h : Writing g lo data size ba remain start blocks w) (hremain : remain ≠ 0)
    (hm : Maint g ba (ba + 1) w w') (hbad : w'.blockStateOf ba ≠ stGood) :
    Writing g lo data size (ba + 1) remain start blocks w' :=
  { h with
    lo_le := Nat.le_succ_of_le h.lo_le
    range := fun b hb => by
      have := h.range b hb
      omega
    last := fun h0 => absurd h0 hremain
    good := fun b hb => (state_below hm (h.range b hb).2.2).trans (h.good b hb)
    skipped := fun hne b hlo hlt hb => by
      rcases Nat.lt_succ_iff_lt_or_eq.mp hlt with hlt | rfl
      · rw [state_below hm hlt]
        exact h.skipped hne b hlo hlt hb
      · exact hbad
    holds := fun i hi hlt => by
      rw [hm.tableAt fun b hb => .inl (h.range b hb).2.2]
      exact h.holds i hi hlt }

/-- A block that took its chunk joins the table. -/
theorem add (h : Writing g lo data size ba remain start blocks w) (hremain : remain ≠ 0)
    (hm : Maint g ba (ba + 1) w w') (hgood : w'.blockStateOf ba = stGood)
    (hchunk : ∀ i, i < min remain g.erasesize →
      byteAt g w'.chip.flash (g.ba2addr ba + i) = data (size - remain + i)) :
    Writing g lo data size (ba + 1) (remain - min remain g.erasesize)
      (if remain = size then ba else start) (blocks ++ [ba]) w' := by
  have hpos := g.erasesize_pos
  have hrem := h.remain_eq
  have hlen : (blocks ++ [ba]).length * g.erasesize =
      blocks.length * g.erasesize + g.erasesize := by
    rw [List.length_append, List.length_singleton, Nat.add_mul, Nat.one_mul]
  have hfirst : blocks = [] ∧ remain = size ∨ blocks ≠ [] ∧ remain ≠ size := by
    cases blocks with
    | nil => exact .inl ⟨rfl, by simpa using hrem⟩
    | cons b rest =>
        refine .inr ⟨by simp, ?_⟩
        rw [List.length_cons, Nat.add_mul, Nat.one_mul] at hrem
        omega
  exact {
    lo_le := Nat.le_succ_of_le h.lo_le
    remain_eq := by rw [hlen]; omega
    fits := by rw [hlen]; omega
    sorted := by
      rw [List.pairwise_append]
      refine ⟨h.sorted, List.pairwise_singleton _ _, fun a ha b hb => ?_⟩
      rw [List.mem_singleton] at hb
      subst hb
      exact (h.range a ha).2.2
    range := fun b hb => by
      have hlo := h.lo_le
      rcases hfirst with ⟨rfl, hsize⟩ | ⟨hne, hsize⟩
      · rw [List.nil_append, List.mem_singleton] at hb
        rw [if_pos hsize]
        omega
      · rw [if_neg hsize]
        rcases List.mem_append.mp hb with hm | hm
        · have := h.range b hm
          omega
        · obtain ⟨a, rest, rfl⟩ := List.exists_cons_of_ne_nil hne
          have ha := h.range a List.mem_cons_self
          rw [List.mem_singleton] at hm
          omega
    head := fun _ => by
      rcases hfirst with ⟨rfl, hsize⟩ | ⟨hne, hsize⟩
      · rw [if_pos hsize]
        rfl
      · rw [if_neg hsize, List.head?_append_of_ne_nil _ hne]
        exact h.head hne
    last := fun _ => by simp
    good := fun b hb => by
      rcases List.mem_append.mp hb with hmem | hmem
      · exact (state_below hm (h.range b hmem).2.2).trans (h.good b hmem)
      · rw [List.mem_singleton.mp hmem]
        exact hgood
    skipped := fun _ b hlo hlt hb => by
      rw [List.mem_append, List.mem_singleton, not_or] at hb
      have hb' : b < ba := by omega
      rw [state_below hm hb']
      rcases hfirst with ⟨rfl, hsize⟩ | ⟨hne, hsize⟩
      · rw [if_pos hsize] at hlo
        omega
      · rw [if_neg hsize] at hlo
        exact h.skipped hne b hlo hb' hb.1
    holds := fun i hi hlt => by
      rw [hlen] at hlt
      rw [tableAt_append _ _ _ (by rw [Nat.add_mul, Nat.one_mul]; exact hlt)]
      split
      · next hold =>
          rw [hm.tableAt fun b hb => .inl (h.range b hb).2.2]
          exact h.holds i hi hold
      · next hnew =>
          have := hchunk (i - blocks.length * g.erasesize) (by omega)
          rw [LowerDevice.ba2addr] at this
          rw [this]
          congr 1
          omega }

/-- When nothing remains the blocks hold all the data. -/
theorem done (h : Writing g lo data size ba 0 start blocks w) {hi : Nat} (hle : ba ≤ hi) :
    Written g lo hi data size ⟨true, start, ba, blocks, w⟩ := by
  have hpos := g.erasesize_pos
  have hrem := h.remain_eq
  have hfits := h.fits
  have hne : blocks ≠ [] := List.ne_nil_of_mem (h.last rfl)
  have hhead : start ∈ blocks := List.mem_of_head? (h.head hne)
  have hstart := h.range start hhead
  exact {
    sorted := h.sorted
    length := by
      symm
      rw [LowerDevice.size2blk]
      apply Nat.div_eq_of_lt_le
      · dsimp only
        omega
      · rw [Nat.add_mul, Nat.one_mul]
        dsimp only
        omega
    head := h.head hne
    last := h.last rfl
    range := fun b hb => ⟨(h.range b hb).1, (h.range b hb).2.2⟩
    lo_le := hstart.2.1
    start_lt := hstart.2.2
    stop_le := hle
    good := h.good
    skipped := h.skipped hne
    holds := fun i hi => h.holds i hi (by omega) }

end Writing

section WriteRange

variable {g : Geometry} (dev : Device)

theorem writeMgmtLoop_written {lo hi : Nat} {data : Mem} {size n ba remain start : Nat}
    {blocks : List Nat} {w : World} (hhi : ba + n ≤ hi)
    (h : Writing g lo data size ba remain start blocks w)
    (hok : (writeMgmtLoop g dev data size n ba remain start blocks w).ok = true) :
    Written g lo hi data size (writeMgmtLoop g dev data size n ba remain start blocks w) := by
  induction n generalizing ba remain start blocks w with
  | zero =>
      simp only [writeMgmtLoop, decide_eq_true_eq] at hok ⊢
      subst hok
      exact h.done (by omega)
  | succ n ih =>
      simp only [writeMgmtLoop] at hok ⊢
      split at hok
      · next h0 =>
          subst h0
          rw [if_pos rfl]
          exact h.done (by omega)
      · next h0 =>
          have hm := writeBlock_maint dev (data.shift (size - remain)) ba
            (Nat.min_le_right remain g.erasesize) w
          rw [if_neg h0]
          split at hok
          · next hused =>
              rw [if_pos hused]
              obtain ⟨hgood, c, hwork, hw⟩ := useBlock_ok dev hused
              refine ih (by omega) (h.add h0 hm ?_ fun i hi => ?_) hok
              · rw [hw]
                exact hgood
              · rw [hw]
                exact writeVerifyData_ok dev hwork hi
          · next hused =>
              rw [if_neg hused]
              rw [Bool.not_eq_true] at hused
              exact ih (by omega) (h.skip h0 hm (useBlock_skipped dev hused)) hok

/-- A successful `nmbm_write_mgmt_range`. -/
theorem writeMgmtRange_written {ba limit : Nat} {data : Mem} {size : Nat} {w : World}
    (hsize : 0 < size) (hok : (writeMgmtRange g dev ba limit data size w).ok = true) :
    Written g ba limit data size (writeMgmtRange g dev ba limit data size w) := by
  by_cases hle : ba ≤ limit
  · exact writeMgmtLoop_written dev (by omega) (Writing.nil hsize) hok
  · have hzero : limit - ba = 0 := by omega
    unfold writeMgmtRange at hok
    rw [hzero] at hok
    simp only [writeMgmtLoop, decide_eq_true_eq] at hok
    omega

/-- `nmbm_write_info_table` maintains the blocks of its range. -/
theorem writeInfoTable_maint (ba limit : Nat) (w : World) :
    Maint g ba limit w (writeInfoTable g dev ba limit w).w :=
  (writeMgmtRange_maint dev ba limit w.ni.infoTableCache g.infoTableSize w).log

/-- A successful `nmbm_write_info_table` has put the cached image on flash. -/
theorem writeInfoTable_written {ba limit : Nat} {w : World}
    (hok : (writeInfoTable g dev ba limit w).ok = true) :
    Written g ba limit w.ni.infoTableCache g.infoTableSize (writeInfoTable g dev ba limit w) := by
  have hsize := g.infoTableSize_ge
  have h := writeMgmtRange_written dev (by omega) hok
  exact { h with }

theorem writeTableDown_maint (n writeBa : Nat) (w : World) (hn : n ≤ writeBa + 1) :
    Maint g (writeBa + 1 - n) w.ni.mappingBlocksTopBa w (writeTableDown g dev n writeBa w).w := by
  induction n generalizing writeBa w with
  | zero => exact .refl
  | succ n ih =>
      have hone := writeInfoTable_maint (g := g) dev writeBa w.ni.mappingBlocksTopBa w
      have hone' := hone.mono (show writeBa + 1 - (n + 1) ≤ writeBa by omega) (le_refl _)
      simp only [writeTableDown]
      split
      · exact hone'
      · apply hone'.trans
        cases n with
        | zero => exact .refl
        | succ n =>
            have hrest := ih (writeBa - 1) (writeInfoTable g dev writeBa
              w.ni.mappingBlocksTopBa w).w (by omega)
            rw [hone.ni] at hrest
            exact hrest.mono (by omega) (le_refl _)

/-- A table written by trying lower and lower starts. -/
theorem writeTableDown_written {n writeBa : Nat} {w : World} (hn : n ≤ writeBa + 1)
    (hok : (writeTableDown g dev n writeBa w).ok = true) :
    Written g (writeBa + 1 - n) w.ni.mappingBlocksTopBa w.ni.infoTableCache g.infoTableSize
      (writeTableDown g dev n writeBa w) := by
  induction n generalizing writeBa w with
  | zero => simp [writeTableDown] at hok
  | succ n ih =>
      simp only [writeTableDown] at hok ⊢
      split at hok
      · next hone =>
          rw [if_pos hone]
          have h := writeInfoTable_written dev hone
          exact { h with lo_le := by have := h.lo_le; omega }
      · next hone =>
          rw [if_neg hone]
          have hm := (writeInfoTable_maint (g := g) dev writeBa w.ni.mappingBlocksTopBa w).ni
          cases n with
          | zero => simp [writeTableDown] at hok
          | succ n =>
              have h := ih (by omega) hok
              rw [hm] at h
              exact { h with lo_le := by have := h.lo_le; omega }

end WriteRange

end Speedway.Nmbm
