import Speedway.Nmbm.Geometry

/-!
# The block state bitmap and walks over it

Two bits per block, sixteen blocks per 32-bit unit. The bit-level `get` and
`set` of the source are related once by `getBlockStateRaw_set_self` and
`getBlockStateRaw_set_other`; later modules use only these.
-/

namespace Speedway.Nmbm

open Speedway.Lib

/-- The bitmap `ni->block_state`, by unit. -/
abbrev Bitmap := Nat → BitVec 32

/-- `BLOCK_ST_BAD`. -/
def stBad : BitVec 32 := 0#32

/-- `BLOCK_ST_NEED_REMAP`. -/
def stNeedRemap : BitVec 32 := 2#32

/-- `BLOCK_ST_GOOD`. -/
def stGood : BitVec 32 := 3#32

/-- `nmbm_get_block_state_raw`. -/
def getBlockStateRaw (bs : Bitmap) (ba : Nat) : BitVec 32 :=
  (bs (ba / 16) >>> (ba % 16 * 2)) &&& 3#32

/-- The bitmap update of `nmbm_set_block_state`. -/
def setBlockStateRaw (bs : Bitmap) (ba : Nat) (st : BitVec 32) : Bitmap := fun u =>
  if u = ba / 16 then
    (bs u &&& ~~~ (3#32 <<< (ba % 16 * 2))) ||| ((st &&& 3#32) <<< (ba % 16 * 2))
  else bs u

private theorem three_getLsbD (i : Nat) : (3#32).getLsbD i = decide (i < 2) := by
  by_cases h : i < 32
  · interval_cases i <;> rfl
  · rw [BitVec.getLsbD_of_ge _ _ (by omega)]
    simp only [Bool.false_eq, decide_eq_false_iff_not]
    omega

private theorem get_getLsbD (bs : Bitmap) (ba i : Nat) :
    (getBlockStateRaw bs ba).getLsbD i =
      ((bs (ba / 16)).getLsbD (ba % 16 * 2 + i) && decide (i < 2)) := by
  simp only [getBlockStateRaw, BitVec.getLsbD_and, BitVec.getLsbD_ushiftRight, three_getLsbD]

private theorem set_getLsbD (bs : Bitmap) (ba : Nat) (st : BitVec 32) {i : Nat} (hi : i < 32) :
    (setBlockStateRaw bs ba st (ba / 16)).getLsbD i =
      if ba % 16 * 2 ≤ i ∧ i < ba % 16 * 2 + 2 then st.getLsbD (i - ba % 16 * 2)
      else (bs (ba / 16)).getLsbD i := by
  simp only [setBlockStateRaw, if_true, BitVec.getLsbD_or, BitVec.getLsbD_and,
    BitVec.getLsbD_not, BitVec.getLsbD_shiftLeft, three_getLsbD, hi, decide_true, Bool.true_and]
  by_cases h₁ : i < ba % 16 * 2
  · have : ¬ (ba % 16 * 2 ≤ i ∧ i < ba % 16 * 2 + 2) := by omega
    simp [h₁, this]
  · by_cases h₂ : i - ba % 16 * 2 < 2
    · have : ba % 16 * 2 ≤ i ∧ i < ba % 16 * 2 + 2 := by omega
      simp [h₁, h₂, this]
    · have : ¬ (ba % 16 * 2 ≤ i ∧ i < ba % 16 * 2 + 2) := by omega
      simp [h₁, h₂, this]

theorem getBlockStateRaw_set_self (bs : Bitmap) (ba : Nat) (st : BitVec 32) :
    getBlockStateRaw (setBlockStateRaw bs ba st) ba = st &&& 3#32 := by
  apply BitVec.eq_of_getLsbD_eq
  intro i hi
  rw [get_getLsbD, BitVec.getLsbD_and, three_getLsbD]
  by_cases h : i < 2
  · rw [set_getLsbD _ _ _ (by omega), if_pos (by omega)]
    simp [h]
  · simp [h]

theorem getBlockStateRaw_set_other (bs : Bitmap) {ba ba' : Nat} (st : BitVec 32)
    (h : ba' ≠ ba) :
    getBlockStateRaw (setBlockStateRaw bs ba st) ba' = getBlockStateRaw bs ba' := by
  apply BitVec.eq_of_getLsbD_eq
  intro i hi
  rw [get_getLsbD, get_getLsbD]
  by_cases hu : ba' / 16 = ba / 16
  · by_cases h2 : i < 2
    · rw [hu, set_getLsbD _ _ _ (by omega), if_neg (by omega)]
    · simp [h2]
  · simp only [setBlockStateRaw, if_neg hu]

/-- Writing the state a block already has changes no bit of the map. -/
theorem setBlockStateRaw_of_get {bs : Bitmap} {ba : Nat} {st : BitVec 32}
    (h : getBlockStateRaw bs ba = st &&& 3#32) : setBlockStateRaw bs ba st = bs := by
  funext u
  by_cases hu : u = ba / 16
  · subst hu
    apply BitVec.eq_of_getLsbD_eq
    intro i hi
    rw [set_getLsbD _ _ _ hi]
    split
    · have hbit := congrArg (fun x => x.getLsbD (i - ba % 16 * 2)) h
      simp only [get_getLsbD, BitVec.getLsbD_and, three_getLsbD] at hbit
      have hidx : ba % 16 * 2 + (i - ba % 16 * 2) = i := by omega
      have htwo : decide (i - ba % 16 * 2 < 2) = true := by
        rw [decide_eq_true_eq]
        omega
      rw [hidx, htwo, Bool.and_true, Bool.and_true] at hbit
      exact hbit.symm
    · rfl
  · simp only [setBlockStateRaw, if_neg hu]

section Walk

variable (d : LowerDevice) (bs : Bitmap)

/-- The loop of `nmbm_block_walk_asc`, over the `n` blocks from `ba` on. -/
def walkAscLoop : Nat → Nat → Int → Option Nat
  | 0, _, _ => none
  | n + 1, ba, nblock =>
      let nblock' := if getBlockStateRaw bs ba = stGood then nblock - 1 else nblock
      if nblock' < 0 then some ba else walkAscLoop n (ba + 1) nblock'

/-- The loop of `nmbm_block_walk_desc`, over the `n` blocks from `ba` down. -/
def walkDescLoop : Nat → Nat → Int → Option Nat
  | 0, _, _ => none
  | n + 1, ba, nblock =>
      let nblock' := if getBlockStateRaw bs ba = stGood then nblock - 1 else nblock
      if nblock' < 0 then some ba else walkDescLoop n (ba - 1) nblock'

/-- The clamp both walks apply to their limit. -/
def walkLimit (limit : Nat) : Nat :=
  if d.blockCount ≤ limit then subU32 d.blockCount 1 else limit

/-- `nmbm_block_walk_asc`. -/
def blockWalkAsc (ba : Nat) (count : Int) (limit : Nat) : Option Nat :=
  walkAscLoop bs (walkLimit d limit - ba) ba count

/-- `nmbm_block_walk_desc`. -/
def blockWalkDesc (ba : Nat) (count : Int) (limit : Nat) : Option Nat :=
  walkDescLoop bs (ba - walkLimit d limit) ba count

/-- `nmbm_block_walk`. -/
def blockWalk (ascending : Bool) (ba : Nat) (count : Int) (limit : Nat) : Option Nat :=
  if ascending then blockWalkAsc d bs ba count limit else blockWalkDesc d bs ba count limit

/-- The loop of `nmbm_try_reserve_blocks`, with `n` attempts left. -/
def tryReserveLoop (ba limit : Nat) : Nat → Int → Option Nat
  | 0, _ => none
  | n + 1, nblocks =>
      match blockWalk d bs true ba nblocks limit with
      | some nba => some nba
      | none => tryReserveLoop ba limit n (nblocks - 1)

/-- `nmbm_try_reserve_blocks`: ask for `count` blocks, then for fewer and fewer. -/
def tryReserveBlocks (ba count : Nat) (minCount : Int) (limit : Nat) : Option Nat :=
  tryReserveLoop d bs ba limit (toInt32 count - minCount + 1).toNat (toInt32 count)

variable {d bs}

theorem walkAscLoop_range {n ba : Nat} {k : Int} {nba : Nat}
    (h : walkAscLoop bs n ba k = some nba) : ba ≤ nba ∧ nba < ba + n := by
  induction n generalizing ba k with
  | zero => simp [walkAscLoop] at h
  | succ n ih =>
      simp only [walkAscLoop] at h
      split_ifs at h with hg hk hk
      · obtain rfl := Option.some.inj h
        omega
      · have := ih h
        omega
      · obtain rfl := Option.some.inj h
        omega
      · have := ih h
        omega

theorem walkDescLoop_range {n ba : Nat} {k : Int} {nba : Nat} (hn : n ≤ ba)
    (h : walkDescLoop bs n ba k = some nba) : ba - n < nba ∧ nba ≤ ba := by
  induction n generalizing ba k with
  | zero => simp [walkDescLoop] at h
  | succ n ih =>
      simp only [walkDescLoop] at h
      split_ifs at h with hg hk hk
      · obtain rfl := Option.some.inj h
        omega
      · have := ih (by omega) h
        omega
      · obtain rfl := Option.some.inj h
        omega
      · have := ih (by omega) h
        omega

/-- A descending walk that is asked for one block or more stops on a good one. -/
theorem walkDescLoop_good {n ba : Nat} {k : Int} {nba : Nat} (hk : 0 ≤ k)
    (h : walkDescLoop bs n ba k = some nba) : getBlockStateRaw bs nba = stGood := by
  induction n generalizing ba k with
  | zero => simp [walkDescLoop] at h
  | succ n ih =>
      simp only [walkDescLoop] at h
      split_ifs at h with hg hneg hneg
      · obtain rfl := Option.some.inj h
        exact hg
      · exact ih (by omega) h
      · omega
      · exact ih hk h

theorem tryReserveBlocks_range {ba count limit nba : Nat} {m : Int}
    (h : tryReserveBlocks d bs ba count m limit = some nba) :
    ba ≤ nba ∧ nba < walkLimit d limit := by
  have loop : ∀ (n : Nat) (k : Int), tryReserveLoop d bs ba limit n k = some nba →
      ba ≤ nba ∧ nba < walkLimit d limit := by
    intro n
    induction n with
    | zero => intro k h; simp [tryReserveLoop] at h
    | succ n ih =>
        intro k h
        simp only [tryReserveLoop] at h
        split at h
        · next nba' hw =>
            obtain rfl := Option.some.inj h
            have := walkAscLoop_range hw
            omega
        · exact ih _ h
  exact loop _ _ h

end Walk

end Speedway.Nmbm
