import Speedway.Nmbm.Chip

/-!
# What the chip calls touch

`Evolves g S c c'` says that `c'` is `c` after flash operations on blocks in
`S`. Every call of the chip module is bounded by the block it is given, and
reads change no page at all.
-/

namespace Speedway.Nmbm

open Speedway.Lib

/-- The chip `c'` follows from `c` by operations on blocks in `S`. -/
def Evolves (g : Geometry) (S : Nat → Prop) (c c' : Chip) : Prop :=
  ∃ new, c'.ops = c.ops ++ new ∧ c'.flash = (flashJournal g).replay new c.flash ∧
    ∀ op ∈ new, S op.block

namespace Evolves

variable {g : Geometry} {S T : Nat → Prop} {c c' c'' : Chip}

theorem of_eq (hops : c'.ops = c.ops) (hflash : c'.flash = c.flash) : Evolves g S c c' :=
  ⟨[], by simp [hops], by simp [hflash], by simp⟩

theorem refl : Evolves g S c c := of_eq rfl rfl

theorem trans (h : Evolves g S c c') (h' : Evolves g S c' c'') : Evolves g S c c'' := by
  obtain ⟨new, hops, hflash, hS⟩ := h
  obtain ⟨new', hops', hflash', hS'⟩ := h'
  refine ⟨new ++ new', ?_, ?_, ?_⟩
  · rw [hops', hops, List.append_assoc]
  · rw [hflash', hflash, Journal.replay_append]
  · intro op hop
    rcases List.mem_append.mp hop with hm | hm
    · exact hS op hm
    · exact hS' op hm

theorem mono (hST : ∀ b, S b → T b) (h : Evolves g S c c') : Evolves g T c c' := by
  obtain ⟨new, hops, hflash, hS⟩ := h
  exact ⟨new, hops, hflash, fun op hop => hST _ (hS op hop)⟩

theorem perform {op : FlashOp} (h : S op.block) : Evolves g S c (c.perform g op) :=
  ⟨[op], rfl, rfl, by simpa using h⟩

/-- The operations between two chips are the ones logged since. -/
theorem ops_drop (h : Evolves g S c c') :
    c'.flash = (flashJournal g).replay (c'.ops.drop c.ops.length) c.flash ∧
      ∀ op ∈ c'.ops.drop c.ops.length, S op.block := by
  obtain ⟨new, hops, hflash, hS⟩ := h
  have hdrop : c'.ops.drop c.ops.length = new := by
    rw [hops, List.drop_left]
  rw [hdrop]
  exact ⟨hflash, hS⟩

/-- Pages of other blocks keep their contents. -/
theorem frame (h : Evolves g S c c') {p : Nat} (hp : ¬ S (p / g.pagesPerBlock)) :
    c'.flash p = c.flash p := by
  obtain ⟨new, -, hflash, hS⟩ := h
  rw [hflash]
  apply Journal.replay_frame
  intro op hop heq
  have hblock : op.block = p / g.pagesPerBlock := heq
  exact hp (hblock ▸ hS op hop)

end Evolves

section Calls

variable (g : Geometry) (dev : Device) {S : Nat → Prop}

theorem readTries_spec (n p : Nat) (c : Chip) :
    (readTries dev n p c).chip.ops = c.ops ∧ (readTries dev n p c).chip.flash = c.flash ∧
      (readTries dev n p c).chip.pageCache = c.pageCache ∧
      (0 ≤ (readTries dev n p c).ret → (readTries dev n p c).page = c.flash p) := by
  induction n generalizing c with
  | zero =>
      refine ⟨rfl, rfl, rfl, fun h => ?_⟩
      simp only [readTries, readPage] at h ⊢
      rw [if_pos h]
  | succ n ih =>
      simp only [readTries]
      split
      · next h =>
          refine ⟨rfl, rfl, rfl, fun _ => ?_⟩
          simp only [readPage] at h ⊢
          rw [if_pos h]
      · exact ih _

/-- A read changes no page, and delivers the page when it succeeds. -/
theorem readPhysPage_spec (p : Nat) (c : Chip) :
    (readPhysPage dev p c).chip.ops = c.ops ∧ (readPhysPage dev p c).chip.flash = c.flash ∧
      (readPhysPage dev p c).chip.pageCache = c.pageCache ∧
      (0 ≤ (readPhysPage dev p c).ret → (readPhysPage dev p c).page = c.flash p) :=
  readTries_spec dev _ p c

variable {g}

theorem programTries_evolves {req : Request} {p : Nat} {write : Page → Page}
    (hS : S (p / g.pagesPerBlock)) (n : Nat) (c : Chip) :
    Evolves g S c (programTries g dev req p write n c).2 := by
  induction n generalizing c with
  | zero => exact .refl
  | succ n ih =>
      simp only [programTries]
      split
      · exact .perform hS
      · exact (Evolves.perform hS).trans (ih _)

theorem writePhysPage_evolves {p : Nat} {data oob : Option Mem}
    (hS : S (p / g.pagesPerBlock)) (c : Chip) :
    Evolves g S c (writePhysPage g dev p data oob c).2 := by
  unfold writePhysPage
  split
  · exact .refl
  · exact programTries_evolves dev hS _ c

theorem panicWritePhysPage_evolves {p : Nat} {data : Mem}
    (hS : S (p / g.pagesPerBlock)) (c : Chip) :
    Evolves g S c (panicWritePhysPage g dev p data c).2 := by
  unfold panicWritePhysPage
  split
  · exact .refl
  · exact programTries_evolves dev hS _ c

theorem programTries_frame {req : Request} {p q : Nat} {write : Page → Page} (hq : q ≠ p)
    (n : Nat) (c : Chip) :
    (programTries g dev req p write n c).2.flash q = c.flash q := by
  have hone : ∀ (page : Page) (c : Chip), (c.perform g ⟨.program, p / g.pagesPerBlock,
      fun q => if q = p then some page else none⟩).flash q = c.flash q := by
    intro page c
    simp [Chip.perform, flashJournal, hq]
  induction n generalizing c with
  | zero => rfl
  | succ n ih =>
      simp only [programTries]
      split
      · exact hone _ c
      · rw [ih, hone]

/-- A page write leaves every other page alone. -/
theorem writePhysPage_frame {p q : Nat} {data oob : Option Mem} (hq : q ≠ p) (c : Chip) :
    (writePhysPage g dev p data oob c).2.flash q = c.flash q := by
  unfold writePhysPage
  split
  · rfl
  · exact programTries_frame dev hq _ c

theorem eraseTries_evolves {b : Nat} (hS : S b) (n : Nat) (c : Chip) :
    Evolves g S c (eraseTries g dev b n c).2 := by
  induction n generalizing c with
  | zero => exact .refl
  | succ n ih =>
      simp only [eraseTries]
      split
      · exact .perform hS
      · exact (Evolves.perform hS).trans (ih _)

theorem erasePhysBlock_evolves {b : Nat} (hS : S b) (c : Chip) :
    Evolves g S c (erasePhysBlock g dev b c).2 := by
  unfold erasePhysBlock
  split
  · exact .refl
  · exact eraseTries_evolves dev hS _ c

theorem checkBadPhysBlock_evolves (b : Nat) (c : Chip) :
    Evolves g S c (checkBadPhysBlock g dev b c).2 := by
  have h := readPhysPage_spec dev (b * g.pagesPerBlock) c
  unfold checkBadPhysBlock
  split
  · exact .of_eq rfl rfl
  · dsimp only
    split
    · exact .of_eq h.1 h.2.1
    · exact .of_eq h.1 h.2.1

/-- Page `i` of block `b` belongs to block `b`. -/
theorem page_block {b i : Nat} (hi : i < g.pagesPerBlock) :
    (b * g.pagesPerBlock + i) / g.pagesPerBlock = b := by
  rw [Nat.mul_comm, Nat.mul_add_div g.pagesPerBlock_pos, Nat.div_eq_of_lt hi, Nat.add_zero]

theorem writeZeroPages_evolves {b : Nat} (hS : S b) (n i : Nat) (c : Chip)
    (hn : i + n ≤ g.pagesPerBlock) :
    Evolves g S c (writeZeroPages g dev n (b * g.pagesPerBlock + i) c) := by
  induction n generalizing i c with
  | zero => exact .refl
  | succ n ih =>
      have hp : S ((b * g.pagesPerBlock + i) / g.pagesPerBlock) := by
        rw [page_block (by omega)]
        exact hS
      exact (writePhysPage_evolves dev hp c).trans (ih (i + 1) _ (by omega))

theorem markPhysBadBlock_evolves {b : Nat} (hS : S b) (c : Chip) :
    Evolves g S c (markPhysBadBlock g dev b c).2 := by
  unfold markPhysBadBlock
  split
  · exact .refl
  · split
    · exact .perform hS
    · exact Evolves.trans (.of_eq rfl rfl)
        (writeZeroPages_evolves dev hS g.pagesPerBlock 0 _ (by omega))

theorem checkEmptyPages_evolves (n p : Nat) (c : Chip) :
    Evolves g S c (checkEmptyPages g dev n p c).2 := by
  induction n generalizing p c with
  | zero => exact .refl
  | succ n ih =>
      have h := readPhysPage_spec dev p c
      simp only [checkEmptyPages]
      split
      · exact .of_eq h.1 h.2.1
      · exact Evolves.trans (.of_eq h.1 h.2.1) (ih _ _)

theorem eraseBlockAndCheck_evolves {b : Nat} (hS : S b) (c : Chip) :
    Evolves g S c (eraseBlockAndCheck g dev b c).2 := by
  have he := erasePhysBlock_evolves (g := g) dev hS c
  simp only [eraseBlockAndCheck]
  split
  · exact he
  · split
    · exact he
    · exact he.trans (checkEmptyPages_evolves dev _ _ _)

end Calls

end Speedway.Nmbm
