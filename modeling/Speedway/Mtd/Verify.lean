import Speedway.Mtd.Reading

/-!
# `mtd_verify`

As many bytes of the partition as the file has are hashed, in pieces of 256 bytes, and the
hash is compared with that of the file. Unlike `mtd_write`, bad blocks are not passed over;
so the two agree exactly if there is no bad block where the file is read.
-/

namespace Speedway.Mtd

open Speedway.Lib

/-- `memcmp` of two hashes. -/
def memcmp : List UInt8 → List UInt8 → Int
  | a :: as, b :: bs => if a = b then memcmp as bs else Int.ofNat a.toNat - Int.ofNat b.toNat
  | _, _ => 0

theorem memcmp_eq_zero_iff {a b : List UInt8} (hlen : a.length = b.length) :
    memcmp a b = 0 ↔ a = b := by
  induction a generalizing b with
  | nil => exact iff_of_true rfl (List.length_eq_zero_iff.mp hlen.symm).symm
  | cons x a ih =>
      cases b with
      | nil => exact nomatch hlen
      | cons y b =>
          rw [memcmp, List.cons.injEq]
          split
          next heq =>
            rw [ih (Nat.succ.inj hlen)]
            exact ⟨fun h => ⟨heq, h⟩, And.right⟩
          next hne =>
            apply iff_of_false
            · intro hzero
              apply hne
              apply UInt8.toNat_inj.mp
              exact Int.ofNat.inj (Int.sub_eq_zero.mp hzero)
            · exact fun h => hne h.1

section Model

variable (erasesize : Nat) (part : Part) (dev : Mem)

/-- The loop, with what was hashed so far; no result if there is no fuel left. -/
def verifyLoop : Nat → Nat → Nat → List UInt8 → Option (List UInt8)
  | 0, _, _, _ => none
  | fuel + 1, pos, stSize, hashed =>
      let len := if 256 < stSize then 256 else stSize
      let buf := part.read erasesize dev pos len
      if buf.length = 0 then some hashed
      else
        let hashed := hashed ++ buf
        let stSize := stSize - buf.length
        if 0 < stSize then verifyLoop fuel (pos + buf.length) stSize hashed else some hashed

/-- `mtd_verify`, with a function for the hash. -/
def mtdVerify (hash : List UInt8 → Vector UInt8 16) (file : List UInt8) : Option Int :=
  (verifyLoop erasesize part dev (file.length + 1) 0 file.length []).map fun hashed =>
    memcmp (hash file).toList (hash hashed).toList

end Model

section Loop

variable {erasesize : Nat} {part : Part} {dev : Mem}

@[simp] theorem Part.length_read (pos len : Nat) :
    (part.read erasesize dev pos len).length = min len (part.size * erasesize - pos) :=
  Mem.length_bytes ..

/-- Two reads in a row. -/
theorem Part.read_append_read {pos len size : Nat} (hle : len ≤ size) :
    part.read erasesize dev pos len ++
        part.read erasesize dev (pos + min len (part.size * erasesize - pos))
          (size - min len (part.size * erasesize - pos)) =
      part.read erasesize dev pos size := by
  rw [read, read, read, ← Mem.shift_shift, ← Mem.bytes_add]
  congr 1
  omega

/-- What is hashed is what one read would give. -/
theorem verifyLoop_eq (fuel pos stSize : Nat) (hashed : List UInt8) (hfuel : stSize < fuel) :
    verifyLoop erasesize part dev fuel pos stSize hashed =
      some (hashed ++ part.read erasesize dev pos stSize) := by
  induction fuel generalizing pos stSize hashed with
  | zero => exact absurd hfuel (Nat.not_lt_zero _)
  | succ fuel ih =>
      have hlen : (if 256 < stSize then 256 else stSize) = min 256 stSize := by
        split <;> omega
      simp only [verifyLoop, hlen, Part.length_read]
      split
      next hzero =>
        have hnil : part.read erasesize dev pos stSize = [] := by
          apply List.length_eq_zero_iff.mp
          rw [Part.length_read]
          omega
        rw [hnil, List.append_nil]
      next hne =>
        split
        · rw [ih _ _ _ (by omega), List.append_assoc, Part.read_append_read (Nat.min_le_right ..)]
        next hdone =>
          congr 3
          omega

/-- The hashes are compared. -/
theorem mtdVerify_eq_zero_iff {hash : List UInt8 → Vector UInt8 16} {file : List UInt8} :
    mtdVerify erasesize part dev hash file = some 0 ↔
      hash file = hash (part.read erasesize dev 0 file.length) := by
  rw [mtdVerify, verifyLoop_eq _ _ _ _ (Nat.lt_succ_self _), List.nil_append, Option.map_some,
    Option.some_inj, memcmp_eq_zero_iff (by simp only [Vector.length_toList])]
  exact Vector.toList_inj

end Loop

section Agreement

variable {erasesize J : Nat} {part : Part} {file : List UInt8} {dev : Mem}

theorem Part.getElem?_read {pos len i : Nat} (hi : i < len)
    (hin : pos + i < part.size * erasesize) :
    (part.read erasesize dev pos len)[i]? = some (dev (pos + i)) := by
  have hlt : i < min len (part.size * erasesize - pos) := by omega
  rw [read, Mem.bytes, List.getElem?_map, List.getElem?_range hlt]
  rfl

theorem Part.read_of_le {pos len : Nat} (hle : pos + len ≤ part.size * erasesize) :
    part.read erasesize dev pos len = (dev.shift pos).bytes len := by
  rw [read, Nat.min_eq_left (by omega)]

/-- The device after a pass over the first `J` blocks of a single partition. -/
def written (erasesize : Nat) (file : List UInt8) (part : Part) (J : Nat)
    (contents : Contents) : Mem :=
  after erasesize (passOps erasesize 0 file 0 part 0 J) contents 0

theorem written_block (contents : Contents) {i : Nat} (hi : i < J) (hgood : part.isGood i = true) :
    ((written erasesize file part J contents).shift (i * erasesize)).bytes erasesize =
      block erasesize 0xff file (part.goodCount i) := by
  have h : (after erasesize (passOps erasesize 0 file 0 part 0 J) contents).block erasesize
      (0, 0 + i) = block erasesize 0xff file (0 + part.goodCount i) :=
    after_passOps contents hi hgood
  rwa [Nat.zero_add, Nat.zero_add] at h

theorem written_other (contents : Contents) {k i : Nat} (hi : i < erasesize)
    (hother : k < J → part.isGood k = false) :
    written erasesize file part J contents (k * erasesize + i) =
      contents 0 (k * erasesize + i) := by
  refine Contents.eq_of_block_eq (b := (0, k)) (after_passOps_other contents ?_) hi
  rintro l hl hgood rfl
  rw [Nat.zero_add] at hother
  rw [hother hl] at hgood
  exact nomatch hgood

/-- After a pass the file is read back if there is no bad block. -/
theorem read_written (hsize : 0 < erasesize) (contents : Contents)
    (hgood : ∀ i, i < blockCount erasesize file → part.isGood i = true)
    (hroom : blockCount erasesize file ≤ part.size) :
    part.read erasesize (written erasesize file part (blockCount erasesize file) contents)
        0 file.length = file := by
  have hle := le_blockCount_mul hsize file
  have hblocks : ∀ i ∈ List.range (blockCount erasesize file),
      (after erasesize (passOps erasesize 0 file 0 part 0 (blockCount erasesize file))
        contents).block erasesize (0, i) = block erasesize 0xff file i := by
    intro i hi
    rw [List.mem_range] at hi
    have hcount : part.goodCount i = i :=
      Nat.count_iff_forall.mpr fun l hl => hgood l (Nat.lt_trans hl hi)
    refine (written_block contents hi (hgood i hi)).trans ?_
    rw [hcount]
  have hroom' := Nat.mul_le_mul_right erasesize hroom
  rw [Part.read_of_le (by omega), Mem.shift_zero, ← Mem.take_bytes _ hle, written,
    Contents.bytes_mul, List.flatMap_congr hblocks, flatMap_block hle, List.take_left]

/-- A bad block where the file is read is hashed as well. -/
theorem not_forall_read_written (hsize : 0 < erasesize) {b : Nat} (hbad : part.isGood b = false)
    (hlt : b * erasesize < file.length) (hin : b < part.size) :
    ¬ ∀ contents, part.read erasesize (written erasesize file part J contents) 0 file.length =
      file := by
  intro h
  apply Contents.not_forall_eq 0 (b * erasesize) (file.get ⟨b * erasesize, hlt⟩)
  intro contents
  have hbyte := congrArg (·[b * erasesize]?) (h contents)
  have hin' := Nat.mul_lt_mul_of_pos_right hin hsize
  rw [Part.getElem?_read hlt (by omega), List.getElem?_eq_getElem hlt, Option.some_inj,
    Nat.zero_add] at hbyte
  exact (written_other (i := 0) contents hsize fun _ => hbad).symm.trans hbyte

/-- After `mtd_write` of a file to a single partition at offset 0, `mtd_verify` finds the same
hash, whatever it is and whatever the partition held before, exactly if the file was written
to the first blocks. -/
theorem mtdVerify_mtdWrite_iff (hsize : 0 < erasesize) {held : Nat} (hheld : held ≤ erasesize)
    (heap : Mem) {st : WriteState}
    (hrun : mtdWrite erasesize 0 [part] held heap file = .returned st) :
    (∀ (hash : List UInt8 → Vector UInt8 16) (contents : Contents),
        mtdVerify erasesize part (after erasesize st.log contents 0) hash file = some 0) ↔
      ∀ i, i < blockCount erasesize file → part.isGood i = true := by
  obtain ⟨J, hlog, hreached, hends, hcount⟩ := mtdWrite_single (p := 0) hsize hheld
    (by rw [Nat.zero_mul]; exact hrun)
  have hroom : J ≤ part.size := by
    have := hreached.add_le_size hends
    omega
  have hle := part.goodCount_le J
  have hwritten : ∀ contents, after erasesize st.log contents 0 =
      written erasesize file part J contents := by
    intro contents
    rw [hlog, written]
  simp only [mtdVerify_eq_zero_iff, hwritten]
  constructor
  · intro h i hi
    by_contra hbad
    have hread : ∀ contents,
        part.read erasesize (written erasesize file part J contents) 0 file.length = file := by
      intro contents
      by_contra hne
      -- a hash that tells the file from everything else
      have hsame := h (fun l => .replicate 16 (if l = file then 0 else 1)) contents
      have hfirst := congrArg (fun v : Vector UInt8 16 => v[0]) hsame
      simp only [Vector.getElem_replicate, if_true] at hfirst
      rw [if_neg hne] at hfirst
      exact absurd hfirst (by decide)
    exact not_forall_read_written hsize (Bool.eq_false_iff.mpr hbad)
      ((lt_blockCount_iff hsize file i).mp hi) (by omega) hread
  · intro hgood hash contents
    have hall : part.goodCount (blockCount erasesize file) = blockCount erasesize file :=
      Nat.count_iff_forall.mpr hgood
    have hJ : J = blockCount erasesize file := by
      apply Nat.le_antisymm
      · exact Part.le_of_goodCount_le hends (Nat.le_of_eq (hcount.trans hall.symm))
      · exact hcount.symm.trans_le hle
    subst hJ
    exact congrArg hash (read_written hsize contents hgood hroom).symm

/-- Block 2 is bad, but the file has two blocks. -/
theorem mtdVerify_mtdWrite_two_blocks :
    ∃ st, mtdWrite 2 0 [⟨3, true, fun k => k == 2, fun _ => false⟩] 1 (fun _ => 0) [1, 2, 3] =
        .returned st ∧
      ∀ (hash : List UInt8 → Vector UInt8 16) (contents : Contents),
        mtdVerify 2 ⟨3, true, fun k => k == 2, fun _ => false⟩ (after 2 st.log contents 0) hash
          [1, 2, 3] = some 0 :=
  ⟨_, rfl, (mtdVerify_mtdWrite_iff (by decide) (show 1 ≤ 2 by decide) (fun _ => 0) rfl).mpr
    (by decide)⟩

/-- Block 0 is bad, and what it holds is hashed. -/
theorem mtdVerify_mtdWrite_bad_block :
    ∃ st, mtdWrite 2 0 [⟨3, true, fun k => k == 0, fun _ => false⟩] 0 (fun _ => 0) [1, 2] =
        .returned st ∧
      ∃ hash : List UInt8 → Vector UInt8 16,
        mtdVerify 2 ⟨3, true, fun k => k == 0, fun _ => false⟩
          (after 2 st.log (fun _ _ => 0) 0) hash [1, 2] ≠ some 0 :=
  ⟨_, rfl, fun l => .replicate 16 (l.getD 0 0), by decide⟩

end Agreement

end Speedway.Mtd
