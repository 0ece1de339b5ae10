import Speedway.Lib.Loop
import Speedway.Mtd.Jffs2
import Speedway.Mtd.Pass

/-!
# What the added file looks like on the flash

The state of the writer is described in two steps. `Placed` says which blocks of the
partition have been written, and `Buffered` what is in the buffer; both speak of bytes.
`Holds` says that these bytes are nodes. It is kept by every function of the writer, and at
the end the blocks are read back node by node.
-/

namespace Speedway.Mtd.Jffs2

open Speedway.Lib

/-- The good blocks from `lo` on and below `hi`. -/
def goods (part : Part) (lo hi : Nat) : List Nat :=
  (List.range' lo (hi - lo)).filter part.isGood

theorem goods_succ {part : Part} {lo hi : Nat} (h : lo ≤ hi) :
    goods part lo (hi + 1) = goods part lo hi ++ [hi].filter part.isGood := by
  rw [goods, Nat.succ_sub h, List.range'_1_concat, List.filter_append, Nat.add_sub_cancel' h]
  rfl

section Bytes

variable (erasesize idx : Nat) (part : Part)

/-- The operations that write block `k`; past the end of the partition nothing is done. -/
def blockOps (k : Nat) (bytes : List UInt8) : List FlashOp :=
  [.erase idx k (part.erases k),
    .write idx (min k part.size * erasesize) (if k < part.size then bytes else [])]

/-- The good blocks from `k₀` on and below `k` have been written with `done`. -/
structure Placed (k₀ : Nat) (log₀ : List FlashOp) (k : Nat) (done : List (List UInt8))
    (s : State) : Prop where
  mtdofs : s.mtdofs = k * erasesize
  start : k₀ ≤ k
  pos : s.pos = min k part.size * erasesize
  count : (goods part k₀ k).length = done.length
  log : s.log = log₀ ++ (List.zipWith (blockOps erasesize idx part) (goods part k₀ k) done).flatten

/-- The buffer starts with `cur` and the rest of it is free. -/
structure Buffered (cur : List UInt8) (s : State) : Prop where
  ofs : s.ofs = cur.length
  bytes : s.buf.bytes cur.length = cur
  le : cur.length ≤ erasesize

/-- The variables that writing blocks leaves alone. -/
structure Keeps (s s' : State) : Prop where
  lastIno : s'.lastIno = s.lastIno
  lastVersion : s'.lastVersion = s.lastVersion

end Bytes

theorem Keeps.refl {s : State} : Keeps s s := ⟨rfl, rfl⟩

theorem Keeps.trans {s s' s'' : State} (h : Keeps s s') (h' : Keeps s' s'') : Keeps s s'' :=
  ⟨h'.lastIno.trans h.lastIno, h'.lastVersion.trans h.lastVersion⟩

section Blocks

variable {erasesize idx : Nat} {part : Part} {k₀ k : Nat} {log₀ : List FlashOp}
  {done : List (List UInt8)} {cur : List UInt8} {s : State}

theorem Placed.congr {s' : State} (h : Placed erasesize idx part k₀ log₀ k done s)
    (hmtdofs : s'.mtdofs = s.mtdofs) (hpos : s'.pos = s.pos) (hlog : s'.log = s.log) :
    Placed erasesize idx part k₀ log₀ k done s' :=
  ⟨hmtdofs.trans h.mtdofs, h.start, hpos.trans h.pos, h.count, hlog.trans h.log⟩

/-- The buffer is written to a good block. -/
theorem Placed.writeBlock (hsize : 0 < erasesize) (hgood : part.isGood k = true)
    (h : Placed erasesize idx part k₀ log₀ k done s) :
    Placed erasesize idx part k₀ log₀ (k + 1) (done ++ [s.buf.bytes erasesize])
      (Jffs2.writeBlock erasesize idx part s) := by
  have hgoods : goods part k₀ (k + 1) = goods part k₀ k ++ [k] := by
    rw [goods_succ h.start, List.filter_singleton, hgood]
    rfl
  have hwritten : min erasesize (part.size * erasesize - min k part.size * erasesize) =
      if k < part.size then erasesize else 0 := by
    split
    · next hk =>
        have := Nat.mul_le_mul_right erasesize (show k + 1 ≤ part.size from hk)
        rw [Nat.succ_mul] at this
        rw [Nat.min_eq_left hk.le]
        omega
    · next hk =>
        rw [Nat.min_eq_right (Nat.not_lt.mp hk), Nat.sub_self, Nat.min_zero]
  have hbytes : s.buf.bytes (if k < part.size then erasesize else 0) =
      if k < part.size then s.buf.bytes erasesize else [] := by
    split
    · rfl
    · rfl
  refine ⟨?_, Nat.le_succ_of_le h.start, ?_, ?_, ?_⟩
  · rw [Jffs2.writeBlock, h.mtdofs, Nat.succ_mul]
  · simp only [Jffs2.writeBlock, h.pos, hwritten]
    split
    · next hk =>
        rw [Nat.min_eq_left hk.le, Nat.min_eq_left (show k + 1 ≤ part.size from hk), Nat.succ_mul]
    · next hk =>
        rw [Nat.min_eq_right (Nat.not_lt.mp hk),
          Nat.min_eq_right (Nat.le_succ_of_le (Nat.not_lt.mp hk)), Nat.add_zero]
  · rw [hgoods, List.length_append, List.length_append, h.count]
    rfl
  · simp only [Jffs2.writeBlock, h.mtdofs, Nat.mul_div_cancel _ hsize, h.pos, hwritten, hbytes]
    rw [hgoods, List.zipWith_append h.count, List.flatten_append, ← List.append_assoc, ← h.log]
    rfl

/-- Bytes that fit are added to the buffer. -/
theorem Buffered.put (hb : Buffered erasesize cur s) (bytes : List UInt8)
    (hfits : cur.length + bytes.length ≤ erasesize) :
    Buffered erasesize (cur ++ bytes) (Jffs2.put bytes s) := by
  refine ⟨?_, ?_, by rw [List.length_append]; exact hfits⟩
  · rw [Jffs2.put, List.length_append, hb.ofs]
  · rw [Jffs2.put, List.length_append, hb.ofs, bytes_copy _ _ _ _ (le_refl _), hb.bytes,
      List.take_length]

end Blocks

section Nodes

variable (erasesize idx : Nat) (part : Part)

/-- A block of nodes. -/
def blockOf (nodes : List Node) : List UInt8 :=
  encodeAll nodes ++ List.replicate (erasesize - (encodeAll nodes).length) 0xff

/-- The nodes that are no clean markers. -/
def contentOf (nodes : List Node) : List Node := nodes.filter fun n => n ≠ .cleanmarker

/-- The nodes of a block: a clean marker first, and no more than there is room for. -/
structure IsBlock (nodes : List Node) : Prop where
  marker : nodes.head? = some .cleanmarker
  fits : ∀ n ∈ nodes, n.Fits
  le : (encodeAll nodes).length ≤ erasesize

/-- Blocks and buffer hold the nodes `content`, apart from clean markers. -/
def Holds (k₀ : Nat) (log₀ : List FlashOp) (content : List Node) (s : State) : Prop :=
  ∃ (k : Nat) (blocks : List (List Node)) (cur : List Node),
    Placed erasesize idx part k₀ log₀ k (blocks.map (blockOf erasesize)) s ∧
    Buffered erasesize (encodeAll cur) s ∧ s.ofs < erasesize ∧
    (∀ b ∈ blocks, IsBlock erasesize b) ∧ (cur = [] ∨ IsBlock erasesize cur) ∧
    content = contentOf (blocks.flatten ++ cur)

end Nodes

theorem contentOf_append (as bs : List Node) :
    contentOf (as ++ bs) = contentOf as ++ contentOf bs :=
  List.filter_append ..

section Writer

variable {erasesize idx : Nat} {part : Part} {k₀ : Nat} {log₀ : List FlashOp}
  {content : List Node} {s : State}

/-- A new block starts with a clean marker. -/
theorem Holds.prepEraseblock (hsize : 12 < erasesize)
    (h : Holds erasesize idx part k₀ log₀ content s) :
    Holds erasesize idx part k₀ log₀ content (Jffs2.prepEraseblock s) ∧
      (Jffs2.prepEraseblock s).ofs = (if s.ofs = 0 then 12 else s.ofs) ∧
      Keeps s (Jffs2.prepEraseblock s) := by
  rw [Jffs2.prepEraseblock]
  split
  · next hpos =>
      rw [if_neg (by omega)]
      exact ⟨h, rfl, .refl⟩
  · next hpos =>
      have hzero : s.ofs = 0 := by omega
      obtain ⟨k, blocks, cur, hplaced, hbuffered, hlt, hblocks, -, hcontent⟩ := h
      have hcur : cur = [] := by
        have hlen := length_le_encodeAll cur
        rw [← hbuffered.ofs, hzero] at hlen
        exact List.length_eq_zero_iff.mp (Nat.le_zero.mp hlen)
      subst hcur
      have hmarker : encodeAll [.cleanmarker] = cleanmarker := rfl
      have hput := hbuffered.put cleanmarker (show 0 + 12 ≤ erasesize by omega)
      have hofs : (put cleanmarker s).ofs = 12 := hput.ofs
      rw [if_pos hzero]
      refine ⟨⟨k, blocks, [.cleanmarker], hplaced.congr rfl rfl rfl, ?_, ?_, hblocks, .inr ?_, ?_⟩,
        hofs, rfl, rfl⟩
      · rw [hmarker]
        exact hput
      · rw [hofs]
        exact hsize
      · exact ⟨rfl, by simp [Node.Fits], by rw [hmarker]; exact hsize.le⟩
      · rw [hcontent, contentOf_append, contentOf_append]
        rfl

end Writer

end Speedway.Mtd.Jffs2
