import Mathlib.Data.Nat.Count
import Speedway.Mtd.Write

/-!
# One partition

As long as the counters agree, the main loop goes through the blocks of a partition in
order: block `j`, counted from the start of the partition, is looked up in the table of
bad blocks, and block `p + j` is erased and written, where `p` is the offset in blocks.
-/

namespace Speedway.Mtd

open Speedway.Lib

section Feeding

variable {erasesize c : Nat} {image : List UInt8} {st : WriteState}

/-- The buffer holds block `c` of the image, filled up. -/
structure Loaded (erasesize : Nat) (image : List UInt8) (c : Nat) (st : WriteState) : Prop where
  buflen : st.buflen = erasesize
  bytes : st.buf.bytes erasesize = block erasesize 0xff image c
  rest : st.image = image.drop ((c + 1) * erasesize)

/-- What is left of the image starts with block `c`. -/
def Feeds (erasesize : Nat) (image : List UInt8) (c : Nat) (st : WriteState) : Prop :=
  (st.buflen ≤ erasesize ∧ st.buf.bytes st.buflen ++ st.image = image.drop (c * erasesize)) ∨
    (c * erasesize < image.length ∧ Loaded erasesize image c st)

theorem Feeds.congr {st' : WriteState} (h : Feeds erasesize image c st) (hbuf : st'.buf = st.buf)
    (hbuflen : st'.buflen = st.buflen) (himage : st'.image = st.image) :
    Feeds erasesize image c st' := by
  rcases h with ⟨hle, hbytes⟩ | ⟨hlt, hloaded⟩
  · refine .inl ⟨hbuflen ▸ hle, ?_⟩
    rw [hbuf, hbuflen, himage]
    exact hbytes
  · refine .inr ⟨hlt, hbuflen.trans hloaded.buflen, ?_, himage.trans hloaded.rest⟩
    rw [hbuf]
    exact hloaded.bytes

theorem bytes_copy (m : Mem) (off : Nat) (bytes : List UInt8) (r : Nat) (hr : r ≤ bytes.length) :
    (m.copy off (ofList bytes) r).bytes (off + r) = m.bytes off ++ bytes.take r := by
  rw [Mem.bytes_add]
  congr 1
  · apply Mem.bytes_congr
    intro i hi
    exact Mem.copy_outside (Or.inl hi)
  · apply List.ext_getElem
    · rw [Mem.length_bytes, List.length_take, Nat.min_eq_left hr]
    · intro i hi hi'
      rw [Mem.length_bytes] at hi
      have hlt : i < bytes.length := Nat.lt_of_lt_of_le hi hr
      simp [Mem.bytes, Mem.copy_inside hi, ofList, hlt]

theorem bytes_fill (m : Mem) (off : Nat) (v : UInt8) (r : Nat) :
    (m.fill off v r).bytes (off + r) = m.bytes off ++ List.replicate r v := by
  rw [Mem.bytes_add]
  congr 1
  · apply Mem.bytes_congr
    intro i hi
    rw [Mem.fill, if_neg (by omega)]
  · apply List.ext_getElem
    · simp
    · intro i hi hi'
      rw [Mem.length_bytes] at hi
      simp [Mem.bytes, Mem.fill_inside (show off ≤ off + i ∧ off + i < off + r by omega)]

/-- The buffer after it was filled and padded. -/
theorem bytes_fill_pad (hle : st.buflen ≤ erasesize) :
    ((st.fill erasesize).pad erasesize).buf.bytes erasesize =
      st.buf.bytes st.buflen ++ st.image.take (erasesize - st.buflen) ++
        List.replicate (erasesize - (st.buflen + st.image.length)) 0xff := by
  have hfilled := bytes_copy st.buf st.buflen st.image
    (min (erasesize - st.buflen) st.image.length) (Nat.min_le_right ..)
  have hpadded := bytes_fill (st.fill erasesize).buf (st.fill erasesize).buflen 0xff
    (erasesize - (st.fill erasesize).buflen)
  simp only [WriteState.fill] at hpadded
  rw [show st.buflen + min (erasesize - st.buflen) st.image.length +
      (erasesize - (st.buflen + min (erasesize - st.buflen) st.image.length)) = erasesize by omega,
    hfilled, show erasesize - (st.buflen + min (erasesize - st.buflen) st.image.length) =
      erasesize - (st.buflen + st.image.length) by omega, ← List.take_eq_take_min] at hpadded
  simp only [WriteState.fill, WriteState.pad]
  rw [← hpadded]
  congr 2
  omega

/-- Filling and padding the buffer loads the next block, as long as there is one. -/
theorem Feeds.load (hsize : 0 < erasesize) (h : Feeds erasesize image c st) :
    (image.length ≤ c * erasesize ∧ (st.fill erasesize).buflen = 0) ∨
      (c * erasesize < image.length ∧ (st.fill erasesize).buflen ≠ 0 ∧
        Loaded erasesize image c ((st.fill erasesize).pad erasesize)) := by
  rcases h with ⟨hle, hbytes⟩ | ⟨hlt, hloaded⟩
  · have hlen : st.buflen + st.image.length = image.length - c * erasesize := by
      have := congrArg List.length hbytes
      rwa [List.length_append, Mem.length_bytes, List.length_drop] at this
    rcases Nat.lt_or_ge (c * erasesize) image.length with hlt | hge
    · have htake : (image.drop (c * erasesize)).take erasesize =
          st.buf.bytes st.buflen ++ st.image.take (erasesize - st.buflen) := by
        rw [← hbytes, List.take_append, Mem.length_bytes,
          List.take_of_length_le (by rwa [Mem.length_bytes])]
      have hrest : image.drop ((c + 1) * erasesize) = st.image.drop (erasesize - st.buflen) := by
        rw [Nat.add_mul, Nat.one_mul, ← List.drop_drop, ← hbytes, List.drop_append,
          Mem.length_bytes, List.drop_of_length_le (by rwa [Mem.length_bytes]), List.nil_append]
      refine .inr ⟨hlt, ?_, rfl, ?_, ?_⟩
      · simp only [WriteState.fill]
        omega
      · rw [bytes_fill_pad hle, block, htake, List.length_append, Mem.length_bytes,
          List.length_take]
        congr 2
        omega
      · rw [hrest]
        show st.image.drop (min (erasesize - st.buflen) st.image.length) = _
        rcases Nat.le_total (erasesize - st.buflen) st.image.length with hmin | hmin
        · rw [Nat.min_eq_left hmin]
        · rw [Nat.min_eq_right hmin, List.drop_of_length_le hmin,
            List.drop_of_length_le (Nat.le_refl _)]
    · refine .inl ⟨hge, ?_⟩
      simp only [WriteState.fill]
      omega
  · have hzero : min (erasesize - st.buflen) st.image.length = 0 := by
      rw [hloaded.buflen, Nat.sub_self, Nat.zero_min]
    refine .inr ⟨hlt, ?_, rfl, ?_, ?_⟩
    · simp only [WriteState.fill, hloaded.buflen]
      omega
    · rw [bytes_fill_pad (Nat.le_of_eq hloaded.buflen), hloaded.buflen, hloaded.bytes,
        Nat.sub_self, List.take_zero, List.append_nil, Nat.sub_eq_zero_of_le (Nat.le_add_right ..),
        List.replicate_zero, List.append_nil]
    · simp only [WriteState.fill, WriteState.pad, hzero, List.drop_zero]
      exact hloaded.rest

/-- At the start what is held and what is left to read is the image. -/
theorem feeds_start {held : Nat} (hheld : held ≤ erasesize) (heap : Mem) (image : List UInt8) :
    Feeds erasesize image 0 (.start held heap image) := by
  refine .inl ⟨Nat.le_trans (Nat.min_le_left ..) hheld, ?_⟩
  have hbytes : (heap.copy 0 (ofList image) held).bytes (min held image.length) =
      image.take held := by
    apply List.ext_getElem
    · rw [Mem.length_bytes, List.length_take]
    · intro i hi hi'
      rw [Mem.length_bytes, lt_min_iff] at hi
      simp [Mem.bytes, Mem.copy, ofList, hi.1, hi.2]
  show (heap.copy 0 (ofList image) held).bytes (min held image.length) ++ image.drop held = _
  rw [hbytes, List.take_append_drop, Nat.zero_mul, List.drop_zero]

end Feeding

section Scan

variable {erasesize p : Nat} {part : Part}

/-- The number of good blocks before block `j`. -/
def Part.goodCount (part : Part) (j : Nat) : Nat := Nat.count (fun i => part.isGood i = true) j

theorem Part.goodCount_succ (part : Part) (j : Nat) :
    part.goodCount (j + 1) = part.goodCount j + if part.isGood j = true then 1 else 0 :=
  Nat.count_succ ..

theorem Part.goodCount_le (part : Part) (j : Nat) : part.goodCount j ≤ j := Nat.count_le _

/-- Up to a good block the count does not stand still. -/
theorem Part.le_of_goodCount_le {part : Part} {j k : Nat}
    (hends : j = 0 ∨ part.isGood (j - 1) = true) (h : part.goodCount j ≤ part.goodCount k) :
    j ≤ k := by
  by_contra hlt
  have hgood : part.isGood (j - 1) = true := hends.resolve_left (by omega)
  have hmono : part.goodCount k ≤ part.goodCount (j - 1) := Nat.count_monotone _ (by omega)
  have hsucc := part.goodCount_succ (j - 1)
  rw [if_pos hgood, Nat.sub_add_cancel (by omega)] at hsucc
  omega

/-- The good blocks before block `j` of the table could be erased. -/
def Part.Reached (part : Part) (p j : Nat) : Prop :=
  ∀ i, i < j → part.isGood i = true → part.erases (p + i) = true

/-- The blocks up to a good one are in the partition. -/
theorem Part.Reached.add_le_size {part : Part} {p j : Nat} (hreached : part.Reached p j)
    (hends : j = 0 ∨ part.isGood (j - 1) = true) : j = 0 ∨ p + j ≤ part.size := by
  rcases hends with hzero | hgood
  · exact .inl hzero
  · rcases Nat.eq_zero_or_pos j with hzero | hpos
    · exact .inl hzero
    · have := Part.lt_size_of_erases (hreached (j - 1) (by omega) hgood)
      exact .inr (by omega)

/-- The position in the device after `j` blocks, where a seek past the end has no effect. -/
def Part.posAt (part : Part) (erasesize p j : Nat) : Nat :=
  (if p ≤ part.size then min (p + j) part.size else min j part.size) * erasesize

theorem Part.lseek_mul (hsize : 0 < erasesize) (part : Part) (q : Nat) :
    part.lseek erasesize (q * erasesize) (q * erasesize + erasesize) =
      min (q + 1) (max q part.size) * erasesize := by
  have hiff : q * erasesize + erasesize ≤ part.size * erasesize ↔ q + 1 ≤ part.size := by
    rw [← Nat.succ_mul]
    exact Nat.mul_le_mul_right_iff hsize
  rw [lseek]
  split
  next hle =>
    rw [show min (q + 1) (max q part.size) = q + 1 by omega, Nat.succ_mul]
  next hgt =>
    rw [show min (q + 1) (max q part.size) = q by omega]

theorem Part.lseek_posAt (hsize : 0 < erasesize) (part : Part) (p j : Nat) :
    part.lseek erasesize (part.posAt erasesize p j) (part.posAt erasesize p j + erasesize) =
      part.posAt erasesize p (j + 1) := by
  rw [posAt, lseek_mul hsize, posAt]
  congr 1
  split <;> omega

theorem Part.posAt_of_lt {part : Part} {p j : Nat} (h : p + j < part.size) :
    part.posAt erasesize p j = (p + j) * erasesize := by
  rw [posAt, if_pos (by omega), Nat.min_eq_left (by omega)]

/-- The erase loop when one block is to be erased: it passes over the bad blocks and erases
the next good one, if it can. -/
theorem eraseLoop_scan (hsize : 0 < erasesize) (idx fuel : Nat) (st : WriteState) (j : Nat)
    (he : st.e = j * erasesize)
    (hneed : st.w + st.buflen + st.skipBadBlocks = st.e + erasesize)
    (hpos : st.pos = part.posAt erasesize p j) :
    eraseLoop erasesize (p * erasesize) idx part fuel st = .stuck ∨
    eraseLoop erasesize (p * erasesize) idx part fuel st = .exit ∨
    ∃ k, j ≤ k ∧ (∀ i, j ≤ i → i < k → part.isGood i = false) ∧ part.isGood k = true ∧
      eraseLoop erasesize (p * erasesize) idx part fuel st =
        if part.erases (p + k) then
          .ready { st with
            e := (k + 1) * erasesize
            skipBadBlocks := st.skipBadBlocks + (k - j) * erasesize
            pos := part.posAt erasesize p k
            log := st.log ++ [.erase idx (p + k) true] }
        else
          .failed { st with
            e := k * erasesize
            skipBadBlocks := st.skipBadBlocks + (k - j) * erasesize
            pos := part.posAt erasesize p k
            log := st.log ++ [.erase idx (p + k) false] } := by
  induction fuel generalizing st j with
  | zero => exact .inl rfl
  | succ fuel ih =>
      have hcond : ¬ st.w + st.buflen + st.skipBadBlocks ≤ st.e := by omega
      have hdiv : st.e / erasesize = j := by rw [he, Nat.mul_div_cancel _ hsize]
      have hblock : (st.e + p * erasesize) / erasesize = p + j := by
        rw [he, ← Nat.add_mul, Nat.mul_div_cancel _ hsize, Nat.add_comm]
      simp only [eraseLoop, if_neg hcond, hdiv, hblock]
      cases hbad : part.blockIsBad j with
      | none => exact .inr (.inl rfl)
      | some bad =>
          have hgood := Part.isGood_of_blockIsBad hbad
          cases bad with
          | true =>
              -- the bad block is counted in `e`, in `skip_bad_blocks` and by the seek
              simp only [hpos, part.lseek_posAt hsize]
              have hnext := ih
                { st with
                  skipBadBlocks := st.skipBadBlocks + erasesize
                  e := st.e + erasesize
                  pos := part.posAt erasesize p (j + 1) }
                (j + 1) (by simp only [he, Nat.succ_mul]) (by simp only; omega) rfl
              rcases hnext with hstuck | hexit | ⟨k, hk, hskip, hgoodk, heq⟩
              · exact .inl hstuck
              · exact .inr (.inl hexit)
              · refine .inr (.inr ⟨k, by omega, ?_, hgoodk, ?_⟩)
                · intro i hi hlt
                  rcases Nat.eq_or_lt_of_le hi with rfl | hi
                  · exact hgood
                  · exact hskip i hi hlt
                · rw [heq]
                  have hcount : st.skipBadBlocks + erasesize + (k - (j + 1)) * erasesize =
                      st.skipBadBlocks + (k - j) * erasesize := by
                    rw [show k - j = k - (j + 1) + 1 by omega, Nat.succ_mul]
                    omega
                  simp only [hcount]
          | false =>
              have hnone : ∀ i, j ≤ i → i < j → part.isGood i = false :=
                fun i hi hlt => absurd hlt (Nat.not_lt.mpr hi)
              cases herases : part.erases (p + j) with
              | false =>
                  refine .inr (.inr ⟨j, Nat.le_refl j, hnone, hgood, ?_⟩)
                  simp [he, ← hpos, herases]
              | true =>
                  cases fuel with
                  | zero => exact .inl rfl
                  | succ fuel =>
                      refine .inr (.inr ⟨j, Nat.le_refl j, hnone, hgood, ?_⟩)
                      have hready : st.w + st.buflen + st.skipBadBlocks ≤
                          j * erasesize + erasesize := by
                        omega
                      simp [eraseLoop, herases, hready, ← hpos, he, Nat.succ_mul]

theorem Part.goodCount_eq_of_bad {part : Part} {j k : Nat} (hjk : j ≤ k)
    (h : ∀ i, j ≤ i → i < k → part.isGood i = false) : part.goodCount k = part.goodCount j := by
  induction k, hjk using Nat.le_induction with
  | base => rfl
  | succ k hk ih =>
      rw [goodCount_succ, h k hk (Nat.lt_succ_self k), if_neg Bool.false_ne_true, Nat.add_zero]
      exact ih fun i hi hlt => h i hi (Nat.lt_succ_of_lt hlt)

end Scan

section Pass

variable {erasesize p idx c j : Nat} {image : List UInt8} {part : Part} {log : List FlashOp}
  {st : WriteState}

/-- The operations on the blocks before block `j` of the table, from block `c` of the image
on. -/
def passOps (erasesize p : Nat) (image : List UInt8) (idx : Nat) (part : Part) (c : Nat) :
    Nat → List FlashOp
  | 0 => []
  | j + 1 => passOps erasesize p image idx part c j ++
      if part.isGood j then
        [.erase idx (p + j) true,
          .write idx ((p + j) * erasesize) (block erasesize 0xff image (c + part.goodCount j))]
      else []

theorem passOps_eq_of_bad {j k : Nat} (hjk : j ≤ k)
    (h : ∀ i, j ≤ i → i < k → part.isGood i = false) :
    passOps erasesize p image idx part c k = passOps erasesize p image idx part c j := by
  induction k, hjk using Nat.le_induction with
  | base => rfl
  | succ k hk ih =>
      rw [passOps, h k hk (Nat.lt_succ_self k), if_neg Bool.false_ne_true, List.append_nil]
      exact ih fun i hi hlt => h i hi (Nat.lt_succ_of_lt hlt)

/-- The counters agree: the next block of the image is to be written after `j` blocks. -/
structure InPass (erasesize p : Nat) (image : List UInt8) (idx : Nat) (part : Part) (c : Nat)
    (log : List FlashOp) (j : Nat) (st : WriteState) : Prop where
  w : st.w = part.goodCount j * erasesize
  e : st.e = j * erasesize
  skip : st.w + st.skipBadBlocks = st.e
  offset : st.offset = 0
  pos : st.pos = part.posAt erasesize p j
  log : st.log = log ++ passOps erasesize p image idx part c j
  reached : part.Reached p j
  ends : j = 0 ∨ part.isGood (j - 1) = true
  feeds : Feeds erasesize image (c + part.goodCount j) st
  count : c + part.goodCount j ≤ blockCount erasesize image

/-- How the main loop can end in a partition where the counters agreed. -/
inductive PassEnd (erasesize p : Nat) (image : List UInt8) (idx : Nat) (part : Part) (c : Nat)
    (log : List FlashOp) (complete last : Bool) : PartEnd → Prop
  | stuck : PassEnd erasesize p image idx part c log complete last .stuck
  | exit : PassEnd erasesize p image idx part c log complete last .exit
  /-- The image is written. -/
  | returned {st : WriteState} {J : Nat}
      (hlog : st.log = log ++ passOps erasesize p image idx part c J)
      (hcomplete : st.complete = complete) (hreached : part.Reached p J)
      (hends : J = 0 ∨ part.isGood (J - 1) = true)
      (hcount : c + part.goodCount J = blockCount erasesize image) :
      PassEnd erasesize p image idx part c log complete last (.returned st)
  /-- No bad block was passed over before the block that could not be erased. -/
  | left {st : WriteState} {f : Nat} (hlast : last = false)
      (hgood : ∀ i, i ≤ f → part.isGood i = true) (hreached : part.Reached p f)
      (hfails : part.erases (p + f) = false) (hcount : c + f < blockCount erasesize image)
      (hlog : st.log = log ++ passOps erasesize p image idx part c f ++
        [.erase idx (p + f) false])
      (hfeeds : Feeds erasesize image (c + f) st) (hskip : st.skipBadBlocks = 0)
      (hoffset : st.offset = 0) (hcomplete : st.complete = complete) :
      PassEnd erasesize p image idx part c log complete last (.next st)
  /-- Otherwise something is written that was not erased. -/
  | broken {st : WriteState} {k b : Nat} {pos : Nat} {bytes : List UInt8} (hlast : last = false)
      (hgood : part.isGood k = true) (hb : b < k) (hbad : part.isGood b = false)
      (hreached : part.Reached p k) (hfails : part.erases (p + k) = false)
      (hcount : c + part.goodCount k < blockCount erasesize image)
      (hlog : st.log = log ++ passOps erasesize p image idx part c k ++
        [.erase idx (p + k) false, .write idx pos bytes])
      (hwrites : st.complete = true → bytes ≠ [] ∧ ∃ q, pos = q * erasesize ∧
        ∀ i, i < k → part.isGood i = true → q ≠ p + i) :
      PassEnd erasesize p image idx part c log complete last (.next st)

/-- A partition is left at block `k`, after the bad blocks before it. -/
theorem InPass.leaves (hsize : 0 < erasesize) {k : Nat} {stL : WriteState} {complete : Bool}
    (h : InPass erasesize p image idx part c log j stL)
    (hloaded : Loaded erasesize image (c + part.goodCount j) stL)
    (hlt : (c + part.goodCount j) * erasesize < image.length) (hcomplete : stL.complete = complete)
    (hjk : j ≤ k) (hbetween : ∀ i, j ≤ i → i < k → part.isGood i = false)
    (hgood : part.isGood k = true) (hfails : part.erases (p + k) = false) :
    PassEnd erasesize p image idx part c log complete false
      (.next (WriteState.leave erasesize idx part
        { stL with
          e := k * erasesize
          skipBadBlocks := stL.skipBadBlocks + (k - j) * erasesize
          pos := part.posAt erasesize p k
          log := stL.log ++ [.erase idx (p + k) false] })) := by
  have hcount : part.goodCount k = part.goodCount j := Part.goodCount_eq_of_bad hjk hbetween
  have hlog : stL.log = log ++ passOps erasesize p image idx part c k := by
    rw [passOps_eq_of_bad hjk hbetween]
    exact h.log
  have hle := part.goodCount_le k
  have hlt' := (lt_blockCount_iff hsize image _).mpr hlt
  have hreached : part.Reached p k := by
    intro i hi hgoodi
    rcases Nat.lt_or_ge i j with hij | hij
    · exact h.reached i hij hgoodi
    · rw [hbetween i hij hi] at hgoodi
      exact nomatch hgoodi
  rcases Nat.eq_or_lt_of_le hle with hall | hsome
  · -- no block was passed over, so nothing is left to write
    have hw : stL.w = k * erasesize := by rw [h.w, ← hcount, hall]
    have hj : j = k := by
      have := part.goodCount_le j
      omega
    subst hj
    simp only [WriteState.leave, hw, Nat.lt_irrefl, if_false]
    rw [← hcount, hall] at hlt hloaded hlt'
    have hskip := h.skip
    rw [hw, h.e] at hskip
    apply PassEnd.left rfl _ hreached hfails hlt'
    · simp only [hlog]
    · exact .inr ⟨hlt, hloaded.buflen, hloaded.bytes, hloaded.rest⟩
    · simp only [Nat.sub_self, Nat.zero_mul]
      omega
    · exact h.offset
    · exact hcomplete
    · intro i hi
      rcases Nat.eq_or_lt_of_le hi with rfl | hi
      · exact hgood
      · exact Nat.count_iff_forall.mp hall i hi
  · -- as many bytes as were passed over are written where the erase failed
    have hw : stL.w < k * erasesize := by
      rw [h.w, ← hcount]
      exact Nat.mul_lt_mul_of_pos_right hsome hsize
    obtain ⟨b, hb, hbad⟩ : ∃ b, b < k ∧ part.isGood b = false := by
      by_contra hnone
      push Not at hnone
      have := Nat.count_iff_forall.mpr fun i hi => Bool.eq_true_of_not_eq_false (hnone i hi)
      exact absurd this (Nat.ne_of_lt hsome)
    simp only [WriteState.leave, hw, if_true, WriteState.write]
    refine PassEnd.broken rfl hgood hb hbad hreached hfails (hcount ▸ hlt')
      (?_ : _ = log ++ passOps erasesize p image idx part c k ++ [.erase idx (p + k) false,
        .write idx (part.posAt erasesize p k) ((stL.buf.shift stL.offset).bytes
          (min (k * erasesize - stL.w) (part.size * erasesize - part.posAt erasesize p k)))]) ?_
    · simp only [hlog, List.append_assoc, List.cons_append, List.nil_append]
    · intro hcut
      simp only [Bool.and_eq_true, beq_iff_eq] at hcut
      rw [hcut.2]
      have hroom := min_eq_left_iff.mp hcut.2
      refine ⟨?_, _, rfl, ?_⟩
      · intro hnil
        have hlen := congrArg List.length hnil
        rw [Mem.length_bytes, List.length_nil] at hlen
        omega
      · intro i hi hgoodi hq
        have hinside := Part.lt_size_of_erases (hreached i hi hgoodi)
        rw [if_pos (by omega)] at hq
        rw [Part.posAt, if_pos (by omega), Nat.min_eq_right (by omega), Nat.sub_self] at hroom
        omega

/-- A block is written. -/
theorem InPass.writes (hsize : 0 < erasesize) {k : Nat} {stL : WriteState}
    (h : InPass erasesize p image idx part c log j stL)
    (hloaded : Loaded erasesize image (c + part.goodCount j) stL)
    (hlt : (c + part.goodCount j) * erasesize < image.length)
    (hjk : j ≤ k) (hbetween : ∀ i, j ≤ i → i < k → part.isGood i = false)
    (hgood : part.isGood k = true) (herases : part.erases (p + k) = true) :
    InPass erasesize p image idx part c log (k + 1)
      { stL with
        w := stL.w + stL.buflen
        e := (k + 1) * erasesize
        skipBadBlocks := stL.skipBadBlocks + (k - j) * erasesize
        pos := part.posAt erasesize p k + erasesize
        buflen := 0
        offset := 0
        log := stL.log ++ [.erase idx (p + k) true] ++
          [.write idx (part.posAt erasesize p k) (stL.buf.bytes erasesize)] } := by
  have hcount : part.goodCount k = part.goodCount j := Part.goodCount_eq_of_bad hjk hbetween
  have hsucc : part.goodCount (k + 1) = part.goodCount j + 1 := by
    rw [Part.goodCount_succ, if_pos hgood, hcount]
  have hinside := Part.lt_size_of_erases herases
  have hskipped : (k - j) * erasesize + j * erasesize = k * erasesize := by
    rw [← Nat.add_mul, Nat.sub_add_cancel hjk]
  refine ⟨?_, rfl, ?_, rfl, ?_, ?_, ?_, .inr hgood, .inl ⟨Nat.zero_le _, ?_⟩, ?_⟩
  · show stL.w + stL.buflen = _
    rw [hsucc, hloaded.buflen, h.w, Nat.succ_mul]
  · have hskip := h.skip
    have he := h.e
    simp only [hloaded.buflen, Nat.succ_mul]
    omega
  · simp only
    rw [Part.posAt_of_lt hinside, Part.posAt, if_pos (by omega), Nat.min_eq_left (by omega),
      ← Nat.succ_mul]
    rfl
  · simp only
    rw [passOps, if_pos hgood, passOps_eq_of_bad hjk hbetween, h.log, Part.posAt_of_lt hinside,
      hloaded.bytes, hcount]
    simp
  · intro i hi hgoodi
    rcases Nat.lt_or_ge i j with hij | hij
    · exact h.reached i hij hgoodi
    · rcases Nat.eq_or_lt_of_le (Nat.le_of_lt_succ hi) with rfl | hik
      · exact herases
      · rw [hbetween i hij hik] at hgoodi
        exact nomatch hgoodi
  · simp only [hloaded.rest, hsucc]
    rfl
  · rw [hsucc, ← Nat.add_assoc]
    exact (lt_blockCount_iff hsize image _).mpr hlt

/-- The main loop goes through the partition block by block. -/
theorem writePart_pass (hsize : 0 < erasesize) (last : Bool) (fuel : Nat) {complete : Bool}
    (h : InPass erasesize p image idx part c log j st) (hcomplete : st.complete = complete) :
    PassEnd erasesize p image idx part c log complete last
      (writePart erasesize (p * erasesize) idx part last fuel st) := by
  induction fuel generalizing st j with
  | zero => exact .stuck
  | succ fuel ih =>
      rw [writePart]
      rcases h.feeds.load hsize with ⟨hge, hempty⟩ | ⟨hlt, hne, hloaded⟩
      · simp only [hempty, if_true]
        have hlog : (st.fill erasesize).log = _ := h.log
        apply PassEnd.returned hlog hcomplete h.reached h.ends
        apply Nat.le_antisymm h.count
        by_contra hlt
        have := (lt_blockCount_iff hsize image _).mp (Nat.lt_of_not_le hlt)
        omega
      · simp only [hne, if_false]
        have hL : InPass erasesize p image idx part c log j
            ((st.fill erasesize).pad erasesize) :=
          ⟨h.w, h.e, h.skip, h.offset, h.pos, h.log, h.reached, h.ends,
            .inr ⟨hlt, hloaded⟩, h.count⟩
        have hcompleteL : ((st.fill erasesize).pad erasesize).complete = complete := hcomplete
        generalize (st.fill erasesize).pad erasesize = stL at hloaded hL hcompleteL
        rcases eraseLoop_scan hsize idx (part.size + 2) stL j hL.e
          (by rw [hloaded.buflen, ← hL.skip]; omega) hL.pos with
          hstuck | hexit | ⟨k, hjk, hbetween, hgood, heq⟩
        · rw [hstuck]
          exact .stuck
        · rw [hexit]
          exact .exit
        · rw [heq]
          cases herases : part.erases (p + k) with
          | false =>
              cases last with
              | true => exact .exit
              | false => exact hL.leaves hsize hloaded hlt hcompleteL hjk hbetween hgood herases
          | true =>
              have hinside := Part.lt_size_of_erases herases
              have hroom : part.posAt erasesize p k + erasesize ≤ part.size * erasesize := by
                rw [Part.posAt_of_lt hinside, ← Nat.succ_mul]
                exact Nat.mul_le_mul_right _ hinside
              have hwritten : min erasesize
                  (part.size * erasesize - part.posAt erasesize p k) = erasesize := by
                omega
              simp only [if_true, hloaded.buflen, hroom, WriteState.write, hwritten, hL.offset,
                Mem.shift_zero, beq_self_eq_true, Bool.and_true]
              have hnext := hL.writes hsize hloaded hlt hjk hbetween hgood herases
              rw [hloaded.buflen] at hnext
              exact ih hnext hcompleteL

end Pass

end Speedway.Mtd
