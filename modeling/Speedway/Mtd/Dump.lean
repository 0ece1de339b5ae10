import Mathlib.Algebra.Order.Floor.Div
import Speedway.Mtd.Verify

/-!
# `mtd_dump`

The partition is read in pieces of an erase block, the last piece of what is left of the
size, and a piece is dropped if it starts in a bad block. Where the last piece is short and
comes to a bad block, the reading goes on in short pieces, and the first one that is not
dropped need not start with the next block.
-/

namespace Speedway.Mtd

open Speedway.Lib

inductive DumpEnd where
  | stuck
  | exit (out : List UInt8)
  | returned (out : List UInt8)
  deriving DecidableEq

section Model

variable (erasesize : Nat) (part : Part) (dev : Mem)

/-- The loop, with what was written to standard output so far; `stuck` if there is no fuel
left. -/
def dumpLoop : Nat → Nat → Nat → Nat → List UInt8 → DumpEnd
  | 0, _, _, _, _ => .stuck
  | fuel + 1, pos, offset, size, out =>
      let len := if erasesize < size then erasesize else size
      let buf := part.read erasesize dev pos len
      if buf.length = 0 ∨ buf.length ≠ len then .returned out
      else match part.blockIsBad (offset / erasesize) with
        | none => .exit out
        | some bad =>
            let out := if bad then out else out ++ buf
            let size := if bad then size else size - buf.length
            if 0 < size then dumpLoop fuel (pos + buf.length) (offset + buf.length) size out
            else .returned out

/-- `mtd_dump`. -/
def mtdDump (partOffset size : Nat) : DumpEnd :=
  let size := if size = 0 then part.size * erasesize else size
  let pos := if 0 < partOffset then part.lseek erasesize 0 partOffset else 0
  dumpLoop erasesize part dev (part.size * erasesize + 1) pos 0 size []

end Model

section Loop

variable {erasesize fuel pos size : Nat} {part : Part} {dev : Mem} {out : List UInt8}

theorem Part.blockIsBad_of_lt {k : Nat} (h : k < part.size) :
    part.blockIsBad k = some (!part.isGood k) := by
  rw [blockIsBad, isGood, Bool.not_not]
  cases part.nand with
  | false => rfl
  | true =>
      rw [if_pos rfl, if_pos h]
      rfl

/-- A piece inside of the partition is dropped or kept. -/
theorem dumpLoop_succ (hsize : 0 < size) (herase : 0 < erasesize)
    (hin : pos + min erasesize size ≤ part.size * erasesize) :
    dumpLoop erasesize part dev (fuel + 1) pos pos size out =
      if part.isGood (pos / erasesize) then
        if erasesize < size then
          dumpLoop erasesize part dev fuel (pos + min erasesize size) (pos + min erasesize size)
            (size - erasesize) (out ++ (dev.shift pos).bytes (min erasesize size))
        else .returned (out ++ (dev.shift pos).bytes (min erasesize size))
      else
        dumpLoop erasesize part dev fuel (pos + min erasesize size) (pos + min erasesize size)
          size out := by
  have hlen : (if erasesize < size then erasesize else size) = min erasesize size := by
    split <;> omega
  have hblock : pos / erasesize < part.size := by
    rw [Nat.div_lt_iff_lt_mul herase]
    omega
  have hread : ¬ (min erasesize size = 0 ∨ min erasesize size ≠ min erasesize size) := by
    omega
  simp only [dumpLoop, hlen, Part.read_of_le hin, Mem.length_bytes, if_neg hread,
    Part.blockIsBad_of_lt hblock]
  cases part.isGood (pos / erasesize) with
  | true =>
      rcases Nat.lt_or_ge erasesize size with hlt | hge
      · simp [hlt, Nat.min_eq_left (Nat.le_of_lt hlt)]
      · simp [Nat.not_lt.mpr hge, Nat.min_eq_right hge]
  | false => simp [hsize]

/-- A piece past the end of the partition ends the loop. -/
theorem dumpLoop_short (hout : part.size * erasesize < pos + min erasesize size) :
    dumpLoop erasesize part dev (fuel + 1) pos pos size out = .returned out := by
  have hlen : (if erasesize < size then erasesize else size) = min erasesize size := by
    split <;> omega
  have hread : min (min erasesize size) (part.size * erasesize - pos) = 0 ∨
      min (min erasesize size) (part.size * erasesize - pos) ≠ min erasesize size := by
    omega
  simp only [dumpLoop, hlen, Part.length_read, if_pos hread]

end Loop

section Phases

variable {erasesize k a m r : Nat} {part : Part} {dev : Mem} {image : List UInt8}

/-- After `k` good blocks, the last of them before block `a`, there are `m` bad ones and then
a good one. -/
structure Gap (part : Part) (k a m : Nat) : Prop where
  count : part.goodCount a = k
  ends : a = 0 ∨ part.isGood (a - 1) = true
  bad : ∀ i, i < m → part.isGood (a + i) = false
  good : part.isGood (a + m) = true

/-- How far pieces of one length go past a number of bytes. -/
def overshoot (len total : Nat) : Nat := total ⌈/⌉ len * len - total

theorem overshoot_lt {len : Nat} (total : Nat) (hlen : 0 < len) : overshoot len total < len := by
  rw [overshoot]
  rcases Nat.eq_zero_or_pos (total ⌈/⌉ len) with hzero | hpos
  · rw [hzero, Nat.zero_mul, Nat.zero_sub]
    exact hlen
  · have hlt : total ⌈/⌉ len - 1 < total ⌈/⌉ len := by omega
    rw [lt_iff_lt_of_le_iff_le (ceilDiv_le_iff_le_mul hlen)] at hlt
    have hmul : total ⌈/⌉ len * len = len * (total ⌈/⌉ len - 1) + len := by
      rw [Nat.mul_comm, ← Nat.mul_succ, Nat.succ_eq_add_one, Nat.sub_add_cancel hpos]
    omega

theorem add_overshoot {len : Nat} (total : Nat) (hlen : 0 < len) :
    total + overshoot len total = total ⌈/⌉ len * len := by
  have := (ceilDiv_le_iff_le_mul hlen).mp (Nat.le_refl (total ⌈/⌉ len))
  rw [Nat.mul_comm] at this
  rw [overshoot]
  omega

/-- The blocks before the last piece are read one by one. -/
theorem dumpLoop_blocks (herase : 0 < erasesize) (hgap : Gap part k a m) (hroom : a + m < part.size)
    (hlen : image.length = k * erasesize + r) (hr : 0 < r)
    (hdev : ∀ i, i < a → part.isGood i = true → (dev.shift (i * erasesize)).bytes erasesize =
      block erasesize 0xff image (part.goodCount i)) {j : Nat} (hj : j ≤ a) :
    ∃ fuel, part.size * erasesize < fuel + j * erasesize ∧
      dumpLoop erasesize part dev (part.size * erasesize + 1) 0 0 image.length [] =
        dumpLoop erasesize part dev fuel (j * erasesize) (j * erasesize)
          (image.length - part.goodCount j * erasesize)
          (image.take (part.goodCount j * erasesize)) := by
  induction j with
  | zero =>
      refine ⟨part.size * erasesize + 1, by omega, ?_⟩
      simp [Part.goodCount]
  | succ j ih =>
      obtain ⟨fuel, hfuel, heq⟩ := ih (by omega)
      have hin : (j + 1) * erasesize ≤ part.size * erasesize :=
        Nat.mul_le_mul_right _ (by omega)
      rw [Nat.succ_mul] at hin
      have hcount : part.goodCount j < k := by
        by_contra hle
        have := Part.le_of_goodCount_le hgap.ends (hgap.count.trans_le (Nat.not_lt.mp hle))
        omega
      have hleft : (part.goodCount j + 1) * erasesize ≤ k * erasesize :=
        Nat.mul_le_mul_right _ hcount
      have hleft' := hleft
      rw [Nat.succ_mul] at hleft'
      obtain ⟨fuel, rfl⟩ : ∃ f, fuel = f + 1 := ⟨fuel - 1, by omega⟩
      have hmin : min erasesize (image.length - part.goodCount j * erasesize) = erasesize := by
        omega
      refine ⟨fuel, by rw [Nat.succ_mul]; omega, heq.trans ?_⟩
      rw [dumpLoop_succ (by omega) herase (by omega), hmin, Nat.mul_div_cancel _ herase,
        Nat.succ_mul]
      cases hgood : part.isGood j with
      | true =>
          rw [if_pos rfl, if_pos (by omega), Part.goodCount_succ, if_pos hgood, Nat.succ_mul,
            hdev j (by omega) hgood, block_of_le (by omega), ← List.take_add, Nat.sub_sub]
      | false =>
          rw [if_neg Bool.false_ne_true, Part.goodCount_succ, hgood, if_neg Bool.false_ne_true,
            Nat.add_zero]

/-- In the bad blocks the short pieces are dropped. -/
theorem dumpLoop_gap (herase : 0 < erasesize) (hgap : Gap part k a m) (hroom : a + m < part.size)
    (hlen : image.length = k * erasesize + r) (hr : 0 < r) (hle : r ≤ erasesize)
    (hdev : ∀ i, i < a → part.isGood i = true → (dev.shift (i * erasesize)).bytes erasesize =
      block erasesize 0xff image (part.goodCount i)) {t : Nat} (ht : t ≤ m * erasesize ⌈/⌉ r) :
    ∃ fuel, part.size * erasesize < fuel + (a * erasesize + t * r) ∧
      dumpLoop erasesize part dev (part.size * erasesize + 1) 0 0 image.length [] =
        dumpLoop erasesize part dev fuel (a * erasesize + t * r) (a * erasesize + t * r) r
          (image.take (k * erasesize)) := by
  have hin : (a + m + 1) * erasesize ≤ part.size * erasesize := Nat.mul_le_mul_right _ hroom
  rw [Nat.succ_mul, Nat.add_mul] at hin
  induction t with
  | zero =>
      obtain ⟨fuel, hfuel, heq⟩ :=
        dumpLoop_blocks herase hgap hroom hlen hr hdev (Nat.le_refl a)
      have hleft : image.length - k * erasesize = r := by omega
      rw [hgap.count, hleft] at heq
      refine ⟨fuel, by omega, heq.trans ?_⟩
      rw [Nat.zero_mul, Nat.add_zero]
  | succ t ih =>
      obtain ⟨fuel, hfuel, heq⟩ := ih (by omega)
      have hlt : r * t < m * erasesize :=
        (lt_iff_lt_of_le_iff_le (ceilDiv_le_iff_le_mul hr)).mp ht
      rw [Nat.mul_comm] at hlt
      obtain ⟨fuel, rfl⟩ : ∃ f, fuel = f + 1 := ⟨fuel - 1, by omega⟩
      have hmin : min erasesize r = r := Nat.min_eq_right hle
      have hbad : part.isGood ((a * erasesize + t * r) / erasesize) = false := by
        rw [Nat.add_comm, Nat.add_mul_div_right _ _ herase, Nat.add_comm]
        apply hgap.bad
        exact (Nat.div_lt_iff_lt_mul herase).mpr hlt
      refine ⟨fuel, by rw [Nat.succ_mul]; omega, heq.trans ?_⟩
      rw [dumpLoop_succ hr herase (by omega), hmin, hbad, if_neg Bool.false_ne_true, Nat.succ_mul,
        Nat.add_assoc]

/-- The first piece that is not dropped comes after the overshoot. -/
theorem mtdDump_eq (herase : 0 < erasesize) (hgap : Gap part k a m) (hroom : a + m < part.size)
    (hlen : image.length = k * erasesize + r) (hr : 0 < r) (hle : r ≤ erasesize)
    (hdev : ∀ i, i < a → part.isGood i = true → (dev.shift (i * erasesize)).bytes erasesize =
      block erasesize 0xff image (part.goodCount i)) :
    mtdDump erasesize part dev 0 image.length =
      .returned (image.take (k * erasesize) ++
        if (a + m) * erasesize + overshoot r (m * erasesize) + r ≤ part.size * erasesize then
          (dev.shift ((a + m) * erasesize + overshoot r (m * erasesize))).bytes r
        else []) := by
  have hin : (a + m + 1) * erasesize ≤ part.size * erasesize := Nat.mul_le_mul_right _ hroom
  rw [Nat.succ_mul] at hin
  have hpos : a * erasesize + m * erasesize ⌈/⌉ r * r =
      (a + m) * erasesize + overshoot r (m * erasesize) := by
    rw [← add_overshoot _ hr, Nat.add_mul, Nat.add_assoc]
  have hlt := overshoot_lt (m * erasesize) hr
  obtain ⟨fuel, hfuel, heq⟩ :=
    dumpLoop_gap herase hgap hroom hlen hr hle hdev (Nat.le_refl (m * erasesize ⌈/⌉ r))
  rw [hpos] at hfuel heq
  obtain ⟨fuel, rfl⟩ : ∃ f, fuel = f + 1 := ⟨fuel - 1, by omega⟩
  have hblock : ((a + m) * erasesize + overshoot r (m * erasesize)) / erasesize = a + m := by
    rw [Nat.add_comm, Nat.add_mul_div_right _ _ herase, Nat.div_eq_of_lt (by omega), Nat.zero_add]
  have hmin : min erasesize r = r := Nat.min_eq_right hle
  have hne : image.length ≠ 0 := by omega
  simp only [mtdDump, if_neg hne, Nat.lt_irrefl, if_false]
  rw [heq]
  split
  next hfits =>
    rw [dumpLoop_succ hr herase (hmin.symm ▸ hfits), hblock, hgap.good, if_pos rfl,
      if_neg (Nat.not_lt.mpr hle), hmin]
  next hout =>
    rw [dumpLoop_short (by rw [hmin]; omega), List.append_nil]

end Phases

section LastPiece

variable {erasesize k a m r d : Nat} {part : Part} {image : List UInt8}

theorem Gap.count_add (h : Gap part k a m) : part.goodCount (a + m) = k := by
  rw [← h.count]
  apply Part.goodCount_eq_of_bad (Nat.le_add_right a m)
  intro i hi hlt
  have := h.bad (i - a) (by omega)
  rwa [Nat.add_sub_cancel' hi] at this

/-- The block that was written last. -/
theorem Gap.last_block (h : Gap part k a m) (hlen : image.length = k * erasesize + r)
    (hle : r ≤ erasesize) (contents : Contents) :
    ((written erasesize image part (a + m + 1) contents).shift ((a + m) * erasesize)).bytes
        erasesize =
      image.drop (k * erasesize) ++ List.replicate (erasesize - r) 0xff := by
  have hdrop : (image.drop (k * erasesize)).length = r := by
    rw [List.length_drop]
    omega
  rw [written_block contents (Nat.lt_succ_self _) h.good, h.count_add, block,
    List.take_of_length_le (hdrop.trans_le hle), hdrop]

/-- A piece that starts inside of the last block is what was written there only at its start,
or if it cannot be told from the filling. -/
theorem Gap.piece_eq_iff (h : Gap part k a m) (hroom : a + m < part.size)
    (hlen : image.length = k * erasesize + r) (hr : 0 < r) (hle : r ≤ erasesize) (hd : d < r) :
    (∀ contents, (if (a + m) * erasesize + d + r ≤ part.size * erasesize then
          ((written erasesize image part (a + m + 1) contents).shift
            ((a + m) * erasesize + d)).bytes r
        else []) = image.drop (k * erasesize)) ↔
      d = 0 ∨ (∀ b ∈ image.drop (k * erasesize), b = 0xff) ∧ d + r ≤ erasesize := by
  have hin : (a + m + 1) * erasesize ≤ part.size * erasesize := Nat.mul_le_mul_right _ hroom
  rw [Nat.succ_mul] at hin
  have hdrop : (image.drop (k * erasesize)).length = r := by
    rw [List.length_drop]
    omega
  rcases Nat.lt_or_ge erasesize (d + r) with hover | hinside
  · -- the piece goes on in the next block, which was not written
    apply iff_of_false
    · intro hall
      split at hall
      · have hi : erasesize - d < (image.drop (k * erasesize)).length := by omega
        have hnext : (a + m) * erasesize + d + (erasesize - d) = (a + m + 1) * erasesize + 0 := by
          rw [Nat.succ_mul]
          omega
        apply Contents.not_forall_eq 0 ((a + m + 1) * erasesize + 0)
          ((image.drop (k * erasesize)).get ⟨erasesize - d, hi⟩)
        intro contents
        rw [← written_other contents (by omega) fun hlt => absurd hlt (Nat.lt_irrefl _), ← hnext]
        have hbyte := congrArg (·[erasesize - d]?) (hall contents)
        rw [Mem.bytes, List.getElem?_map, List.getElem?_range (by omega),
          List.getElem?_eq_getElem hi] at hbyte
        exact Option.some_inj.mp hbyte
      · have hnil := congrArg List.length (hall fun _ _ => 0)
        rw [hdrop, List.length_nil] at hnil
        omega
    · omega
  · have hpiece : ∀ contents, (if (a + m) * erasesize + d + r ≤ part.size * erasesize then
          ((written erasesize image part (a + m + 1) contents).shift
            ((a + m) * erasesize + d)).bytes r
        else []) = ((image.drop (k * erasesize) ++
          List.replicate (erasesize - r) 0xff).drop d).take r := by
      intro contents
      rw [if_pos (by omega), ← Mem.shift_shift, ← Mem.take_drop_bytes _ hinside,
        h.last_block hlen hle]
    simp only [hpiece, forall_const]
    rcases Nat.eq_zero_or_pos d with rfl | hpos
    · exact iff_of_true (List.take_left' hdrop) (.inl rfl)
    · have hfill := take_drop_append_replicate_iff (l := image.drop (k * erasesize))
        (x := (0xff : UInt8)) hpos (show d ≤ erasesize - r by omega)
      rw [hdrop] at hfill
      rw [hfill]
      constructor
      · exact fun hall => .inr ⟨hall, hinside⟩
      · rintro (hzero | ⟨hall, -⟩)
        · omega
        · exact hall

/-- A good block is preceded by such a gap. -/
theorem exists_gap {j : Nat} (hgood : part.isGood j = true) :
    ∃ a m, Gap part (part.goodCount j) a m := by
  have hex : ∃ a, part.goodCount j ≤ part.goodCount a := ⟨j, Nat.le_refl _⟩
  classical
  have hfirst : Nat.find hex ≤ j := Nat.find_min' hex (Nat.le_refl _)
  have hcount : part.goodCount (Nat.find hex) = part.goodCount j :=
    Nat.le_antisymm (Nat.count_monotone _ hfirst) (Nat.find_spec hex)
  refine ⟨Nat.find hex, j - Nat.find hex, hcount, ?_, ?_, ?_⟩
  · rcases Nat.eq_zero_or_pos (Nat.find hex) with hzero | hpos
    · exact .inl hzero
    · refine .inr ?_
      by_contra hbad
      have hmin := Nat.find_min hex (Nat.sub_lt hpos Nat.one_pos)
      have hsucc := part.goodCount_succ (Nat.find hex - 1)
      rw [if_neg hbad, Nat.sub_add_cancel hpos] at hsucc
      omega
  · intro i hi
    rw [Bool.eq_false_iff]
    intro hgoodi
    have hsucc := part.goodCount_succ (Nat.find hex + i)
    rw [if_pos hgoodi] at hsucc
    have h₁ : part.goodCount (Nat.find hex) ≤ part.goodCount (Nat.find hex + i) :=
      Nat.count_monotone _ (Nat.le_add_right ..)
    have h₂ : part.goodCount (Nat.find hex + i + 1) ≤ part.goodCount j :=
      Nat.count_monotone _ (by omega)
    omega
  · rw [Nat.add_sub_cancel' hfirst]
    exact hgood

end LastPiece

section Agreement

variable {erasesize : Nat} {part : Part} {image : List UInt8}

/-- The pieces of the last length meet the start of the last block again after `m` bad blocks,
or the last piece is like the filling and is found behind its place. -/
def LastFound (erasesize m : Nat) (last : List UInt8) : Prop :=
  overshoot last.length (m * erasesize) = 0 ∨
    (∀ b ∈ last, b = 0xff) ∧
      overshoot last.length (m * erasesize) + last.length ≤ erasesize

/-- The dump of what a pass wrote, up to the block after a gap. -/
theorem mtdDump_written_iff (hsize : 0 < erasesize) {k a m : Nat} (hgap : Gap part k a m)
    (hroom : a + m < part.size) (hlo : k * erasesize < image.length)
    (hhi : image.length ≤ (k + 1) * erasesize) :
    (∀ contents, mtdDump erasesize part (written erasesize image part (a + m + 1) contents) 0
        image.length = .returned image) ↔
      LastFound erasesize m (image.drop (k * erasesize)) := by
  rw [Nat.succ_mul] at hhi
  have hlen : image.length = k * erasesize + (image.length - k * erasesize) := by omega
  have hr : 0 < image.length - k * erasesize := by omega
  have hle : image.length - k * erasesize ≤ erasesize := by omega
  rw [LastFound, List.length_drop,
    ← hgap.piece_eq_iff hroom hlen hr hle (overshoot_lt (m * erasesize) hr)]
  apply forall_congr'
  intro contents
  have hdev : ∀ i, i < a → part.isGood i = true →
      ((written erasesize image part (a + m + 1) contents).shift (i * erasesize)).bytes erasesize =
        block erasesize 0xff image (part.goodCount i) :=
    fun i hi hgood => written_block contents (by omega) hgood
  rw [mtdDump_eq hsize hgap hroom hlen hr hle hdev, DumpEnd.returned.injEq]
  have hsplit := List.take_append_drop (k * erasesize) image
  constructor
  · intro h
    exact List.append_cancel_left (h.trans hsplit.symm)
  · intro h
    rw [h, hsplit]

/-- After `mtd_write` of an image to a single partition at offset 0, `mtd_dump` of its length
gives the image, whatever the partition held before, exactly if the last piece meets its
block. -/
theorem mtdDump_mtdWrite_iff (hsize : 0 < erasesize) {held : Nat} (hheld : held ≤ erasesize)
    (heap : Mem) (hne : image ≠ []) {st : WriteState}
    (hrun : mtdWrite erasesize 0 [part] held heap image = .returned st) :
    (∀ contents : Contents,
        mtdDump erasesize part (after erasesize st.log contents 0) 0 image.length =
          .returned image) ↔
      ∃ a m, Gap part (blockCount erasesize image - 1) a m ∧
        LastFound erasesize m (image.drop ((blockCount erasesize image - 1) * erasesize)) := by
  obtain ⟨J, hlog, hreached, hends, hcount⟩ := mtdWrite_single (p := 0) hsize hheld
    (by rw [Nat.zero_mul]; exact hrun)
  have hpos : 0 < blockCount erasesize image := by
    rw [lt_blockCount_iff hsize, Nat.zero_mul]
    exact List.length_pos_of_ne_nil hne
  have hlo := (lt_blockCount_iff hsize image _).mp (Nat.sub_lt hpos Nat.one_pos)
  have hhi := le_blockCount_mul hsize image
  rw [← Nat.sub_add_cancel hpos] at hhi
  have hJ : J ≠ 0 := by
    rintro rfl
    rw [Part.goodCount, Nat.count_zero] at hcount
    omega
  have hgood : part.isGood (J - 1) = true := hends.resolve_left hJ
  have hroom : J ≤ part.size := by
    have := hreached.add_le_size hends
    omega
  -- there is one such gap, and it ends with the last block
  have hiff : ∀ a m, Gap part (blockCount erasesize image - 1) a m →
      ((∀ contents : Contents,
        mtdDump erasesize part (after erasesize st.log contents 0) 0 image.length =
          .returned image) ↔
        LastFound erasesize m (image.drop ((blockCount erasesize image - 1) * erasesize))) := by
    intro a m hgap
    have hlast : part.goodCount (a + m + 1) = part.goodCount J := by
      rw [Part.goodCount_succ, if_pos hgap.good, hgap.count_add, hcount, Nat.sub_add_cancel hpos]
    have heq : J = a + m + 1 := by
      apply Nat.le_antisymm
      · exact Part.le_of_goodCount_le hends (Nat.le_of_eq hlast.symm)
      · exact Part.le_of_goodCount_le (.inr hgap.good) (Nat.le_of_eq hlast)
    subst heq
    rw [hlog]
    exact mtdDump_written_iff hsize hgap hroom hlo hhi
  constructor
  · intro hall
    obtain ⟨a, m, hgap⟩ := exists_gap hgood
    have hbefore : part.goodCount (J - 1) = blockCount erasesize image - 1 := by
      have hsucc := part.goodCount_succ (J - 1)
      rw [if_pos hgood, Nat.sub_add_cancel (Nat.pos_of_ne_zero hJ)] at hsucc
      omega
    rw [hbefore] at hgap
    exact ⟨a, m, hgap, (hiff a m hgap).mp hall⟩
  · rintro ⟨a, m, hgap, hfound⟩
    exact (hiff a m hgap).mpr hfound

/-- Block 1 is bad, and two pieces of one byte come to its end. -/
theorem mtdDump_mtdWrite_short_piece :
    ∃ st, mtdWrite 2 0 [⟨3, true, fun k => k == 1, fun _ => false⟩] 1 (fun _ => 0) [1, 2, 3] =
        .returned st ∧
      ∀ contents : Contents,
        mtdDump 2 ⟨3, true, fun k => k == 1, fun _ => false⟩ (after 2 st.log contents 0) 0 3 =
          .returned [1, 2, 3] := by
  refine ⟨_, rfl, ?_⟩
  refine (mtdDump_mtdWrite_iff (by decide) (show 1 ≤ 2 by decide) (fun _ => 0)
    (List.cons_ne_nil 1 [2, 3]) rfl).mpr ?_
  exact ⟨1, 1, ⟨rfl, .inr rfl, by decide, rfl⟩, .inl rfl⟩

/-- Block 0 is bad, and the second piece of two bytes ends one byte after it. -/
theorem mtdDump_mtdWrite_bad_block :
    ∃ st, mtdWrite 3 0 [⟨2, true, fun k => k == 0, fun _ => false⟩] 0 (fun _ => 0) [1, 2] =
        .returned st ∧
      mtdDump 3 ⟨2, true, fun k => k == 0, fun _ => false⟩ (after 3 st.log (fun _ _ => 0) 0) 0 2 =
        .returned [2, 0xff] := by
  refine ⟨_, rfl, ?_⟩
  generalize hst : WriteState.log _ = log
  have hlog : log = [.erase 0 1 true, .write 0 3 [1, 2, 0xff]] := hst.symm
  rw [hlog]
  rfl

end Agreement

end Speedway.Mtd
