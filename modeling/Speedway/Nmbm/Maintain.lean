import Speedway.Nmbm.Contents
import Speedway.Nmbm.Tables

/-!
# What erasing and writing management blocks does

`Maint g lo hi w w'` is the footprint of the range functions: they work on the
blocks in `[lo, hi)`, may turn good blocks of that range bad, count each such
change, and leave every other part of the instance alone.
-/

namespace Speedway.Nmbm

open Speedway.Lib

/-- The events the range functions log: maintenance steps inside `[lo, hi)` by
an instance with the boundaries and the mapping of `ni`. -/
def MaintEvent (lo hi : Nat) (ni : Instance) (e : Event) : Prop :=
  ∃ before ops, e = .maintain before ops ∧
    before = { ni with
      blockState := before.blockState
      blockStateChanged := before.blockStateChanged } ∧
    ∀ op ∈ ops, lo ≤ op.block ∧ op.block < hi

/-- The world `w'` follows from `w` by maintenance of the blocks in `[lo, hi)`. -/
structure Maint (g : Geometry) (lo hi : Nat) (w w' : World) : Prop where
  chip : Evolves g (fun b => lo ≤ b ∧ b < hi) w.chip w'.chip
  ni : w'.ni = { w.ni with
    blockState := w'.ni.blockState
    blockStateChanged := w'.ni.blockStateChanged }
  mainBlocks : w'.mainBlocks = w.mainBlocks
  backupBlocks : w'.backupBlocks = w.backupBlocks
  trace : ∃ new, w'.trace = w.trace ++ new ∧ ∀ e ∈ new, MaintEvent lo hi w.ni e
  state : ∀ b, w'.blockStateOf b = w.blockStateOf b ∨
    lo ≤ b ∧ b < hi ∧ w.blockStateOf b = stGood ∧ w'.blockStateOf b = stBad
  count : w.ni.blockStateChanged ≤ w'.ni.blockStateChanged
  same : w'.ni.blockStateChanged = w.ni.blockStateChanged → w'.ni.blockState = w.ni.blockState
  good : hi ≤ g.blockCount → goodCount g w' + w'.ni.blockStateChanged =
    goodCount g w + w.ni.blockStateChanged

namespace MaintEvent

variable {lo hi lo' hi' : Nat} {ni ni' : Instance} {e : Event}

theorem mono (hlo : lo' ≤ lo) (hhi : hi ≤ hi') (h : MaintEvent lo hi ni e) :
    MaintEvent lo' hi' ni e := by
  obtain ⟨before, ops, he, hni, hops⟩ := h
  refine ⟨before, ops, he, hni, fun op hop => ?_⟩
  have := hops op hop
  omega

theorem of_ni (hni : ni' = { ni with
      blockState := ni'.blockState
      blockStateChanged := ni'.blockStateChanged })
    (h : MaintEvent lo hi ni' e) : MaintEvent lo hi ni e := by
  obtain ⟨before, ops, he, hbefore, hops⟩ := h
  refine ⟨before, ops, he, ?_, hops⟩
  rw [hbefore, hni]

end MaintEvent

namespace Maint

variable {g : Geometry} {lo hi lo' hi' : Nat} {w w' w'' : World}

theorem refl : Maint g lo hi w w where
  chip := .refl
  ni := rfl
  mainBlocks := rfl
  backupBlocks := rfl
  trace := ⟨[], by simp, by simp⟩
  state _ := .inl rfl
  count := le_refl _
  same _ := rfl
  good _ := rfl

theorem trans (h : Maint g lo hi w w') (h' : Maint g lo hi w' w'') : Maint g lo hi w w'' where
  chip := h.chip.trans h'.chip
  ni := by rw [h'.ni, h.ni]
  mainBlocks := h'.mainBlocks.trans h.mainBlocks
  backupBlocks := h'.backupBlocks.trans h.backupBlocks
  trace := by
    obtain ⟨new, hnew, hev⟩ := h.trace
    obtain ⟨new', hnew', hev'⟩ := h'.trace
    refine ⟨new ++ new', by rw [hnew', hnew, List.append_assoc], fun e he => ?_⟩
    rcases List.mem_append.mp he with hm | hm
    · exact hev e hm
    · exact (hev' e hm).of_ni h.ni
  state b := by
    rcases h.state b with hs | ⟨h₁, h₂, h₃, h₄⟩
    · rw [← hs]
      exact h'.state b
    · rcases h'.state b with hs' | ⟨-, -, hg, -⟩
      · exact .inr ⟨h₁, h₂, h₃, hs'.trans h₄⟩
      · rw [h₄] at hg
        exact absurd hg (by decide)
  count := h.count.trans h'.count
  same heq := by
    have h₁ := h.count
    have h₂ := h'.count
    rw [h'.same (by omega), h.same (by omega)]
  good hhi := (h'.good hhi).trans (h.good hhi)

theorem mono (hlo : lo' ≤ lo) (hhi : hi ≤ hi') (h : Maint g lo hi w w') : Maint g lo' hi' w w' where
  chip := h.chip.mono fun b hb => by omega
  ni := h.ni
  mainBlocks := h.mainBlocks
  backupBlocks := h.backupBlocks
  trace := by
    obtain ⟨new, hnew, hev⟩ := h.trace
    exact ⟨new, hnew, fun e he => (hev e he).mono hlo hhi⟩
  state b := by
    rcases h.state b with hs | ⟨h₁, h₂, hs⟩
    · exact .inl hs
    · exact .inr ⟨by omega, by omega, hs⟩
  count := h.count
  same := h.same
  good hhi' := h.good (by omega)

/-- Chip operations alone. -/
theorem of_chip {c : Chip} (h : Evolves g (fun b => lo ≤ b ∧ b < hi) w.chip c) :
    Maint g lo hi w { w with chip := c } :=
  { (refl : Maint g lo hi w w) with chip := h }

/-- A maintenance step together with its event. -/
theorem log (h : Maint g lo hi w w') : Maint g lo hi w (logMaintain w w') :=
  { h with
    trace := by
      obtain ⟨new, hnew, hev⟩ := h.trace
      refine ⟨new ++ [.maintain w.ni (w'.chip.ops.drop w.chip.ops.length)], ?_, fun e he => ?_⟩
      · simp [logMaintain, World.log, hnew]
      · rcases List.mem_append.mp he with hm | hm
        · exact hev e hm
        · rw [List.mem_singleton] at hm
          exact ⟨_, _, hm, rfl, h.chip.ops_drop.2⟩ }

section Members

variable (h : Maint g lo hi w w')

include h

theorem infoTableCache : w'.ni.infoTableCache = w.ni.infoTableCache := by rw [h.ni]

theorem blockMapping : w'.ni.blockMapping = w.ni.blockMapping := by rw [h.ni]

theorem mgmtStartBa : w'.ni.mgmtStartBa = w.ni.mgmtStartBa := by rw [h.ni]

theorem mainTableBa : w'.ni.mainTableBa = w.ni.mainTableBa := by rw [h.ni]

theorem backupTableBa : w'.ni.backupTableBa = w.ni.backupTableBa := by rw [h.ni]

theorem mappingBlocksBa : w'.ni.mappingBlocksBa = w.ni.mappingBlocksBa := by rw [h.ni]

theorem mappingBlocksTopBa : w'.ni.mappingBlocksTopBa = w.ni.mappingBlocksTopBa := by rw [h.ni]

end Members

/-- Blocks of no interest to the range keep their table. -/
theorem tableAt (h : Maint g lo hi w w') {blocks : List Nat}
    (hb : ∀ b ∈ blocks, b < lo ∨ hi ≤ b) :
    tableAt g w'.chip.flash blocks = tableAt g w.chip.flash blocks := by
  apply h.chip.tableAt
  intro b hm hin
  have := hb b hm
  omega

end Maint

theorem blockStateOf_setBlockState (w : World) (ba b : Nat) (st : BitVec 32) :
    (w.setBlockState ba st).blockStateOf b =
      if b = ba then st &&& 3#32 else w.blockStateOf b := by
  unfold World.setBlockState World.blockStateOf
  by_cases h : b = ba
  · subst h
    rw [if_pos rfl]
    exact getBlockStateRaw_set_self _ _ _
  · rw [if_neg h]
    exact getBlockStateRaw_set_other _ _ h

/-- Turning a good block bad lowers the number of good blocks below `n` by one. -/
theorem countP_good_setBad {w : World} {ba n : Nat} (hn : ba < n)
    (hgood : w.blockStateOf ba = stGood) :
    (List.range n).countP (fun b => (w.setBlockState ba stBad).blockStateOf b = stGood) + 1 =
      (List.range n).countP fun b => w.blockStateOf b = stGood := by
  induction n with
  | zero => omega
  | succ n ih =>
      rw [List.range_succ, List.countP_append, List.countP_append, List.countP_singleton,
        List.countP_singleton]
      by_cases heq : ba = n
      · subst heq
        have hsame : (List.range ba).countP
            (fun b => (w.setBlockState ba stBad).blockStateOf b = stGood) =
              (List.range ba).countP fun b => w.blockStateOf b = stGood := by
          apply List.countP_congr
          intro b hb
          rw [blockStateOf_setBlockState, if_neg (by have := List.mem_range.mp hb; omega)]
        have hbad : (w.setBlockState ba stBad).blockStateOf ba ≠ stGood := by
          rw [blockStateOf_setBlockState, if_pos rfl]
          decide
        rw [hsame]
        simp [hbad, hgood]
      · have hother : (w.setBlockState ba stBad).blockStateOf n = w.blockStateOf n := by
          rw [blockStateOf_setBlockState, if_neg (Ne.symm heq)]
        have := ih (by omega)
        rw [hother]
        omega

theorem goodCount_setBad {g : Geometry} {w : World} {ba : Nat} (hba : ba < g.blockCount)
    (hgood : w.blockStateOf ba = stGood) :
    goodCount g (w.setBlockState ba stBad) + 1 = goodCount g w :=
  countP_good_setBad hba hgood

theorem blockStateChanged_setBad {w : World} {ba : Nat} (hgood : w.blockStateOf ba = stGood) :
    (w.setBlockState ba stBad).ni.blockStateChanged = w.ni.blockStateChanged + 1 := by
  have hchanged : getBlockStateRaw w.ni.blockState ba ≠ stBad &&& 3#32 := by
    have : getBlockStateRaw w.ni.blockState ba = stGood := hgood
    rw [this]
    decide
  simp [World.setBlockState, hchanged]

/-- Marking a good block of the range bad. -/
theorem Maint.setBad {g : Geometry} {lo hi ba : Nat} {w w' : World} (h : Maint g lo hi w w')
    (hlo : lo ≤ ba) (hhi : ba < hi) (hgood : w'.blockStateOf ba = stGood) :
    Maint g lo hi w (w'.setBlockState ba stBad) := by
  apply h.trans
  have hcount := blockStateChanged_setBad hgood
  exact {
    chip := .of_eq rfl rfl
    ni := rfl
    mainBlocks := rfl
    backupBlocks := rfl
    trace := ⟨[], by simp [World.setBlockState], by simp⟩
    state := fun b => by
      rw [blockStateOf_setBlockState]
      by_cases hb : b = ba
      · subst hb
        rw [if_pos rfl]
        exact .inr ⟨hlo, hhi, hgood, by decide⟩
      · rw [if_neg hb]
        exact .inl rfl
    count := by omega
    same := fun heq => by omega
    good := fun hle => by
      have := goodCount_setBad (Nat.lt_of_lt_of_le hhi hle) hgood
      omega }

section Blocks

variable {g : Geometry} (dev : Device)

/-- `useBlock` maintains one block when its work stays inside it. -/
theorem useBlock_maint {work : Chip → Bool × Chip} {ba : Nat}
    (hwork : ∀ c, Evolves g (fun b => ba ≤ b ∧ b < ba + 1) c (work c).2) (w : World) :
    Maint g ba (ba + 1) w (useBlock g dev work ba w).2 := by
  have hin : ba ≤ ba ∧ ba < ba + 1 := by omega
  simp only [useBlock]
  split
  · exact .refl
  · next hgood =>
      rw [not_not] at hgood
      have hcheck := checkBadPhysBlock_evolves (g := g) dev
        (S := fun b => ba ≤ b ∧ b < ba + 1) ba w.chip
      split
      · exact (Maint.of_chip hcheck).setBad (le_refl _) (by omega) hgood
      · have herase := hcheck.trans (eraseBlockAndCheck_evolves (g := g) dev hin _)
        have hmark (c : Chip) : Evolves g (fun b => ba ≤ b ∧ b < ba + 1) c
            (markPhysBadBlock g dev ba c).2 := markPhysBadBlock_evolves dev hin c
        split
        · have hdone := herase.trans (hwork _)
          split
          · exact .of_chip hdone
          · exact (Maint.of_chip (hdone.trans (hmark _))).setBad (le_refl _) (by omega) hgood
        · rw [if_neg Bool.false_ne_true]
          exact (Maint.of_chip (herase.trans (hmark _))).setBad (le_refl _) (by omega) hgood

/-- When `useBlock` reports success the block was good and the last action was
successful work. -/
theorem useBlock_ok {work : Chip → Bool × Chip} {ba : Nat} {w : World}
    (h : (useBlock g dev work ba w).1 = true) :
    w.blockStateOf ba = stGood ∧
      ∃ c, (work c).1 = true ∧ (useBlock g dev work ba w).2 = { w with chip := (work c).2 } := by
  simp only [useBlock] at h ⊢
  split_ifs at h ⊢ with hgood _ _ hok
  · exact ⟨not_not.mp hgood, _, hok, rfl⟩
  · contradiction

/-- When `useBlock` reports failure the block is not good any more. -/
theorem useBlock_skipped {work : Chip → Bool × Chip} {ba : Nat} {w : World}
    (h : (useBlock g dev work ba w).1 = false) :
    (useBlock g dev work ba w).2.blockStateOf ba ≠ stGood := by
  have hbad (w' : World) : (w'.setBlockState ba stBad).blockStateOf ba ≠ stGood := by
    rw [blockStateOf_setBlockState, if_pos rfl]
    decide
  simp only [useBlock] at h ⊢
  split at h
  · next hgood =>
      rw [if_pos hgood]
      exact hgood
  · next hgood =>
      rw [if_neg hgood]
      split at h
      · next hcheck =>
          rw [if_pos hcheck]
          exact hbad _
      · next hcheck =>
          rw [if_neg hcheck]
          generalize (if (eraseBlockAndCheck g dev ba _).1 = true then _ else _) = v at h ⊢
          split at h
          · exact absurd h (by simp)
          · next hv =>
              rw [if_neg hv]
              exact hbad _

theorem eraseRangeLoop_maint (n ba : Nat) (w : World) :
    Maint g ba (ba + n) w (eraseRangeLoop g dev n ba w) := by
  induction n generalizing ba w with
  | zero => exact .refl
  | succ n ih =>
      have hone : Maint g ba (ba + 1) w (useBlock g dev (fun c => (true, c)) ba w).2 :=
        useBlock_maint dev (fun _ => .refl) w
      exact (hone.mono (le_refl _) (by omega)).trans ((ih (ba + 1) _).mono (by omega) (by omega))

/-- `nmbm_erase_range` maintains the blocks of its range. -/
theorem eraseRange_maint (ba limit : Nat) (w : World) :
    Maint g ba limit w (eraseRange g dev ba limit w) := by
  by_cases h : ba ≤ limit
  · have := eraseRangeLoop_maint (g := g) dev (limit - ba) ba w
    rw [Nat.add_sub_cancel' h] at this
    exact this.log
  · have hzero : limit - ba = 0 := by omega
    have : Maint g ba limit w (eraseRangeLoop g dev (limit - ba) ba w) := by
      rw [hzero]
      exact .refl
    exact this.log

/-- Using block `ba` for a chunk of at most a block. -/
theorem writeBlock_maint (data : Mem) (ba : Nat) {size : Nat} (hsize : size ≤ g.erasesize)
    (w : World) :
    Maint g ba (ba + 1) w
      (useBlock g dev (writeVerifyData g dev (g.ba2addr ba) data size) ba w).2 :=
  useBlock_maint dev (fun c => writeVerifyData_evolves dev (by omega) data hsize c) w

theorem writeMgmtLoop_maint (data : Mem) (size n ba remain start : Nat) (blocks : List Nat)
    (w : World) :
    Maint g ba (ba + n) w (writeMgmtLoop g dev data size n ba remain start blocks w).w := by
  induction n generalizing ba remain start blocks w with
  | zero => exact .refl
  | succ n ih =>
      have hone := (writeBlock_maint dev (data.shift (size - remain)) ba
        (Nat.min_le_right remain g.erasesize) w).mono (le_refl ba)
          (show ba + 1 ≤ ba + (n + 1) by omega)
      simp only [writeMgmtLoop]
      split
      · exact .refl
      · split
        · exact hone.trans ((ih _ _ _ _ _).mono (by omega) (by omega))
        · exact hone.trans ((ih _ _ _ _ _).mono (by omega) (by omega))

/-- `nmbm_write_mgmt_range` maintains the blocks of its range. -/
theorem writeMgmtRange_maint (ba limit : Nat) (data : Mem) (size : Nat) (w : World) :
    Maint g ba limit w (writeMgmtRange g dev ba limit data size w).w := by
  have h := writeMgmtLoop_maint (g := g) dev data size (limit - ba) ba size 0 [] w
  by_cases hle : ba ≤ limit
  · rw [Nat.add_sub_cancel' hle] at h
    exact h
  · have hzero : limit - ba = 0 := by omega
    unfold writeMgmtRange
    rw [hzero]
    exact .refl

end Blocks

end Speedway.Nmbm
