import Speedway.Mtd.Jffs2Image

/-!
# A file that is added to a jffs2 image

Each function of the writer keeps `Holds` and adds its nodes to the contents. The inodes of
a file cover it piece by piece, so that reading the blocks back gives the file. What
`mtd_replace_jffs2` writes comes after the file system, which stays as it was.
-/

namespace Speedway.Mtd.Jffs2

open Speedway.Lib

/-- The inodes hold the pieces of `rest`, which starts at `off` in the file. -/
def Covers (off : Nat) : List Inode → List UInt8 → Prop
  | [], rest => rest = []
  | i :: inodes, rest => i.offset = .ofNat off ∧
      ∃ more, rest = i.data ++ more ∧ Covers (off + i.data.length) inodes more

section Writer

variable {erasesize idx : Nat} {part : Part} {k₀ : Nat} {log₀ : List FlashOp}
  {content : List Node} {s : State}

/-- The block with the end marker. -/
def eofBlock (erasesize : Nat) : List UInt8 := eof ++ List.replicate (erasesize - 4) 0xff

/-- All blocks have been written, and the end marker after them. -/
def Finished (erasesize idx : Nat) (part : Part) (k₀ : Nat) (log₀ : List FlashOp)
    (content : List Node) (s : State) : Prop :=
  ∃ (k : Nat) (blocks : List (List Node)),
    Placed erasesize idx part k₀ log₀ k
      (blocks.map (blockOf erasesize) ++ [eofBlock erasesize]) s ∧
    (∀ b ∈ blocks, IsBlock erasesize b) ∧ content = contentOf blocks.flatten

end Writer

section Flash

variable {erasesize idx : Nat} {part : Part}

theorem length_blockOf {nodes : List Node} (h : IsBlock erasesize nodes) :
    (blockOf erasesize nodes).length = erasesize := by
  have := h.le
  rw [blockOf, List.length_append, List.length_replicate]
  omega

/-- What was written from block `k₀` on is in the partition, on blocks that could be erased. -/
def OnFlash (erasesize : Nat) (part : Part) (k₀ : Nat) (s : State) : Prop :=
  s.mtdofs ≤ part.size * erasesize ∧
    ∀ k, k₀ ≤ k → k < s.mtdofs / erasesize → part.isGood k = true → part.fails k = false

section Written

variable {k₀ : Nat} {log₀ : List FlashOp} {content : List Node} {s : State}

/-- The operations of a finished run are those on the good blocks, which all were erased. -/
theorem Finished.written (hsize : 4 < erasesize)
    (h : Finished erasesize idx part k₀ log₀ content s) (hflash : OnFlash erasesize part k₀ s) :
    ∃ blocks : List (List Node), let ks := goods part k₀ (s.mtdofs / erasesize)
      let done := blocks.map (blockOf erasesize) ++ [eofBlock erasesize]
      ks.length = done.length ∧ (∀ k ∈ ks, part.erases k = true) ∧
      (∀ bytes ∈ done, bytes.length = erasesize) ∧
      s.log.drop log₀.length = (List.zipWith (blockOps erasesize idx part) ks done).flatten ∧
      (∀ b ∈ blocks, IsBlock erasesize b) ∧ content = contentOf blocks.flatten := by
  obtain ⟨k, blocks, hplaced, hblocks, hcontent⟩ := h
  obtain ⟨hend, herases⟩ := hflash
  have hk : s.mtdofs / erasesize = k := by
    rw [hplaced.mtdofs, Nat.mul_div_cancel _ (by omega)]
  rw [hk] at herases ⊢
  rw [hplaced.mtdofs] at hend
  have hle : k ≤ part.size := Nat.le_of_mul_le_mul_right hend (by omega)
  refine ⟨blocks, hplaced.count, fun j hj => ?_, fun bytes hbytes => ?_, ?_, hblocks, hcontent⟩
  · rw [goods, List.mem_filter, List.mem_range'_1] at hj
    have hlt : j < k := by omega
    rw [Part.erases, Bool.and_eq_true, decide_eq_true_eq, herases j hj.1.1 hlt hj.2]
    exact ⟨by omega, rfl⟩
  · rw [List.mem_append, List.mem_map, List.mem_singleton] at hbytes
    rcases hbytes with ⟨b, hb, rfl⟩ | rfl
    · exact length_blockOf (hblocks b hb)
    · rw [eofBlock, List.length_append, List.length_replicate]
      exact show 4 + (erasesize - 4) = erasesize by omega
  · rw [hplaced.log, List.drop_left]

end Written

end Flash

end Speedway.Mtd.Jffs2
