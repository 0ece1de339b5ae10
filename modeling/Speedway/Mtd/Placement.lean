import Speedway.Mtd.Reading

/-!
# Where the image is placed

An image is placed if it can be read back from the good blocks, every block was erased
before it was written, and no bad block was erased or written. The table of bad blocks is
asked without the offset of the partition, and the bad blocks passed over in a partition
are still counted in the next one; so an image is placed exactly if the table looks the
same from the offset on, and no partition is left after a bad block.
-/

namespace Speedway.Mtd

open Speedway.Lib

section Property

/-- What may be done after some operations: no bad block is erased or written, and a block
is only written if it was erased. -/
def Sound (erasesize : Nat) (parts : List Part) (before : List FlashOp) : FlashOp → Prop
  | .erase idx k ok =>
      ok = true → ∀ part, parts[idx]? = some part → part.isGood k = true
  | .write idx pos bytes =>
      ∀ k, (FlashOp.write idx pos bytes).Touches erasesize (idx, k) →
        .erase idx k true ∈ before ∧ ∀ part, parts[idx]? = some part → part.isGood k = true

/-- The image is placed, whatever the partitions held before. -/
structure Placed (erasesize p : Nat) (parts : List Part) (image : List UInt8)
    (log : List FlashOp) : Prop where
  sound : Each (Sound erasesize parts) log
  reads : ∀ contents : Contents,
    ((readBlocks p log 0 parts).flatMap
        ((after erasesize log contents).block erasesize)).take
        (blockCount erasesize image * erasesize) =
      image ++ List.replicate (blockCount erasesize image * erasesize - image.length) 0xff

/-- The next `n` blocks fit into the partition, whose table of bad blocks looks the same
from the offset on as far as it is asked. -/
structure Fits (part : Part) (p n J : Nat) : Prop where
  count : part.goodCount J = n
  same : ∀ i, i < J → part.isGood (p + i) = part.isGood i
  erased : part.Reached p J

/-- Block `p + f` cannot be erased, and there is no bad block before. -/
structure LeftAt (part : Part) (p f : Nat) : Prop where
  good : ∀ i, i ≤ f → part.isGood i = true
  same : ∀ i, i < f → part.isGood (p + i) = true
  erased : ∀ i, i < f → part.erases (p + i) = true
  fails : part.erases (p + f) = false

/-- The next `n` blocks go straight to the partitions. -/
def Straight (p : Nat) : List Part → Nat → Prop
  | [], n => n = 0
  | part :: rest, n =>
      (∃ J, Fits part p n J) ∨ ∃ f, f < n ∧ LeftAt part p f ∧ Straight p rest (n - f)

end Property

section Passes

variable {erasesize p idx c J : Nat} {image : List UInt8} {part : Part} {rest : List Part}
  {parts : List Part} {pre ops : List FlashOp}

/-- Erasing and writing one block is sound if it is not bad. -/
theorem each_erase_write {before : List FlashOp} {k : Nat} {bytes : List UInt8}
    (hpart : parts[idx]? = some part) (hlen : bytes.length = erasesize) :
    Each (fun after => Sound erasesize parts (before ++ after))
        [.erase idx k true, .write idx (k * erasesize) bytes] ↔
      part.isGood k = true := by
  have hgood : (∀ part', parts[idx]? = some part' → part'.isGood k = true) ↔
      part.isGood k = true := by
    rw [hpart]
    simp
  rw [each_cons, each_cons]
  constructor
  · intro h
    exact hgood.mp (h.1 rfl)
  · intro h
    refine ⟨fun _ => hgood.mpr h, ?_, each_nil⟩
    intro k' htouches
    obtain rfl := congrArg Prod.snd (touches_block_write hlen htouches)
    exact ⟨List.mem_append_right _ (List.mem_singleton_self _), hgood.mpr h⟩

/-- A pass is sound if no bad block was erased. -/
theorem each_passOps (hpart : parts[idx]? = some part) (j : Nat) :
    Each (fun before => Sound erasesize parts (pre ++ before))
        (passOps erasesize p image idx part c j) ↔
      ∀ i, i < j → part.isGood i = true → part.isGood (p + i) = true := by
  induction j with
  | zero => exact iff_of_true each_nil fun i hi => absurd hi (Nat.not_lt_zero i)
  | succ j ih =>
      have hlast : Each (fun after => Sound erasesize parts
          (pre ++ (passOps erasesize p image idx part c j ++ after)))
          (if part.isGood j then
            [.erase idx (p + j) true, .write idx ((p + j) * erasesize)
              (block erasesize 0xff image (c + part.goodCount j))]
          else []) ↔ (part.isGood j = true → part.isGood (p + j) = true) := by
        split
        next hgood =>
          simp only [← List.append_assoc]
          rw [each_erase_write hpart (length_block ..)]
          exact ⟨fun h _ => h, fun h => h hgood⟩
        next hbad => exact iff_of_true each_nil fun hgood => absurd hgood hbad
      rw [passOps, each_append, ih, hlast]
      constructor
      · rintro ⟨hbefore, hj⟩ i hi
        rcases Nat.eq_or_lt_of_le (Nat.le_of_lt_succ hi) with rfl | hi
        · exact hj
        · exact hbefore i hi
      · intro h
        exact ⟨fun i hi => h i (Nat.lt_succ_of_lt hi), h j (Nat.lt_succ_self j)⟩

/-- The operations from a partition on, after some on the partitions before it, place the
rest of the image. -/
def PlacedFrom (erasesize p : Nat) (parts : List Part) (image : List UInt8) (idx : Nat)
    (suffix : List Part) (c : Nat) (pre ops : List FlashOp) : Prop :=
  Each (fun before => Sound erasesize parts (pre ++ before)) ops ∧
    ∀ contents : Contents,
      ((readBlocks p (pre ++ ops) idx suffix).take (blockCount erasesize image - c)).map
          ((after erasesize (pre ++ ops) contents).block erasesize) =
        (List.range' c (blockCount erasesize image - c)).map (block erasesize 0xff image)

/-- The blocks from the offset on, where the table looks the same. -/
theorem filter_range'_eq {j : Nat} (h : ∀ i, i < j → part.isGood (p + i) = part.isGood i) :
    (List.range' p j).filter part.isGood = (part.goods j).map (p + ·) := by
  rw [List.range'_eq_map_range, List.filter_map, Part.goods]
  congr 1
  apply List.filter_congr
  intro i hi
  exact h i (List.mem_range.mp hi)

/-- What a pass has written, read in order. -/
theorem map_goods_block (contents : Contents) (j : Nat) :
    ((part.goods j).map (p + ·)).map (fun k =>
        (after erasesize (passOps erasesize p image idx part c j) contents).block erasesize
          (idx, k)) =
      (List.range' c (part.goodCount j)).map (block erasesize 0xff image) := by
  have hmap : ∀ i ∈ part.goods j,
      (after erasesize (passOps erasesize p image idx part c j) contents).block erasesize
        (idx, p + i) = block erasesize 0xff image (c + part.goodCount i) := by
    intro i hi
    rw [Part.goods, List.mem_filter, List.mem_range] at hi
    exact after_passOps contents hi.1 hi.2
  calc ((part.goods j).map (p + ·)).map (fun k =>
        (after erasesize (passOps erasesize p image idx part c j) contents).block erasesize
          (idx, k))
      = (part.goods j).map fun i => block erasesize 0xff image (c + part.goodCount i) := by
        rw [List.map_map]
        exact List.map_congr_left hmap
    _ = ((part.goods j).map part.goodCount).map fun q => block erasesize 0xff image (c + q) := by
        rw [List.map_map]
        rfl
    _ = (List.range' c (part.goodCount j)).map (block erasesize 0xff image) := by
        rw [Part.goods_map_goodCount, List.range'_eq_map_range, List.map_map]
        rfl

/-- Two constant contents differ in every block. -/
theorem not_forall_block (hsize : 0 < erasesize) (b : Nat × Nat) (bytes : List UInt8) :
    ¬ ∀ contents : Contents, contents.block erasesize b = bytes := by
  intro h
  have hzero := h fun _ _ => 0
  have hone := h fun _ _ => 1
  have heq := hzero.trans hone.symm
  have := (Mem.bytes_eq_iff.mp heq) 0 hsize
  exact absurd this (show (0 : UInt8) ≠ 1 by decide)

end Passes

section Finished

variable {erasesize p idx c J : Nat} {image : List UInt8} {part : Part} {rest : List Part}
  {parts : List Part} {pre : List FlashOp}

/-- A block that was passed over is what it was before. -/
theorem untouched_block {i : Nat} (hpre : ∀ op ∈ pre, op.part < idx)
    (hbad : part.isGood i = false) (contents : Contents) :
    (after erasesize (passOps erasesize p image idx part c J)
        (after erasesize pre contents)).block erasesize (idx, p + i) =
      contents.block erasesize (idx, p + i) := by
  rw [after_passOps_other, after_block]
  · intro op hop htouches
    have := hpre op hop
    rw [touches_part htouches] at this
    exact Nat.lt_irrefl idx this
  · intro l _ hgood heq
    rw [Nat.add_left_cancel heq, hgood] at hbad
    exact nomatch hbad

/-- A block that is read, after blocks where the tables agree. -/
theorem block_of_reads {i n : Nat} {f : Nat × Nat → List UInt8} {g : Nat → List UInt8}
    (hsame : ∀ l, l < i → part.isGood (p + l) = part.isGood l)
    (hread : part.isGood (p + i) = true) (hlt : part.goodCount i < n) (hroom : i < part.size - p)
    (h : ((((List.range' p (part.size - p)).filter part.isGood).map (idx, ·)).take n).map f =
      (List.range' c n).map g) :
    f (idx, p + i) = g (c + part.goodCount i) := by
  have hlen : (((part.goods i).map (p + ·)).map ((idx, ·) : Nat → Nat × Nat)).length =
      part.goodCount i := by
    rw [List.length_map, List.length_map, Part.length_goods]
  rw [show part.size - p = i + ((part.size - p - i - 1) + 1) by omega, ← List.range'_append_1,
    List.range'_succ, List.filter_append, filter_range'_eq hsame, List.filter_cons_of_pos hread,
    List.map_append, List.map_cons] at h
  have hat := congrArg (·[part.goodCount i]?) h
  simp only [List.getElem?_map, List.getElem?_take, hlt, if_true] at hat
  rw [List.getElem?_append_right (Nat.le_of_eq hlen), hlen, Nat.sub_self,
    List.getElem?_range' hlt] at hat
  simpa using hat

theorem placedFrom_finished (hsize : 0 < erasesize) (hpart : parts[idx]? = some part)
    (hpre : ∀ op ∈ pre, op.part < idx) (hreached : part.Reached p J)
    (hends : J = 0 ∨ part.isGood (J - 1) = true)
    (hcount : c + part.goodCount J = blockCount erasesize image) :
    PlacedFrom erasesize p parts image idx (part :: rest) c pre
        (passOps erasesize p image idx part c J) ↔
      ∀ i, i < J → part.isGood (p + i) = part.isGood i := by
  have hno : ∀ k, .erase idx k false ∉ pre ++ passOps erasesize p image idx part c J := by
    intro k hk
    rcases List.mem_append.mp hk with hk | hk
    · exact absurd (hpre _ hk) (Nat.lt_irrefl idx)
    · exact not_fails_mem_passOps hk
  have hleft : blockCount erasesize image - c = part.goodCount J := by omega
  have hroom := hreached.add_le_size hends
  rw [PlacedFrom, each_passOps hpart, readBlocks_finished hno, hleft]
  simp only [after_append]
  constructor
  · rintro ⟨hgood, hreads⟩ i
    -- the first block where the tables differ would be read, but was not written
    induction i using Nat.strong_induction_on with
    | _ i ih =>
        intro hi
        cases hbad : part.isGood i with
        | true => exact hgood i hi hbad
        | false =>
            rw [Bool.eq_false_iff]
            intro hread
            apply not_forall_block hsize (idx, p + i)
              (block erasesize 0xff image (c + part.goodCount i))
            intro contents
            rw [← untouched_block hpre hbad contents]
            exact block_of_reads (fun l hl => ih l hl (Nat.lt_trans hl hi)) hread
              (Nat.lt_of_not_le fun hle => absurd (Part.le_of_goodCount_le hends hle) (by omega))
              (by omega) (hreads contents)
  · intro hsame
    refine ⟨fun i hi hgood => (hsame i hi).trans hgood, fun contents => ?_⟩
    have hlen : (((part.goods J).map (p + ·)).map (idx, ·)).length = part.goodCount J := by
      rw [List.length_map, List.length_map, Part.length_goods]
    rw [show part.size - p = J + (part.size - p - J) by omega, ← List.range'_append_1,
      List.filter_append, filter_range'_eq hsame, List.map_append, List.take_left' hlen,
      List.map_map]
    exact map_goods_block (after erasesize pre contents) J

end Finished

section Straight

variable {p n J f k b : Nat} {part : Part} {rest : List Part}

theorem straight_finished (hreached : part.Reached p J)
    (hends : J = 0 ∨ part.isGood (J - 1) = true) (hcount : part.goodCount J = n) :
    Straight p (part :: rest) n ↔ ∀ i, i < J → part.isGood (p + i) = part.isGood i := by
  constructor
  · rintro (⟨J', hfits⟩ | ⟨f, hf, hleft, -⟩)
    · have hle : J ≤ J' :=
        Part.le_of_goodCount_le hends (Nat.le_of_eq (hcount.trans hfits.count.symm))
      exact fun i hi => hfits.same i (Nat.lt_of_lt_of_le hi hle)
    · have hlt : f < J := by
        have := part.goodCount_le J
        omega
      have := hreached f hlt (hleft.good f (Nat.le_refl f))
      rw [hleft.fails] at this
      exact nomatch this
  · intro hsame
    exact .inl ⟨J, hcount, hsame, hreached⟩

theorem straight_left (hgood : ∀ i, i ≤ f → part.isGood i = true) (hreached : part.Reached p f)
    (hfails : part.erases (p + f) = false) (hlt : f < n) :
    Straight p (part :: rest) n ↔
      (∀ i, i < f → part.isGood (p + i) = true) ∧ Straight p rest (n - f) := by
  have herased : ∀ i, i < f → part.erases (p + i) = true :=
    fun i hi => hreached i hi (hgood i (Nat.le_of_lt hi))
  constructor
  · rintro (⟨J', hfits⟩ | ⟨f', -, hleft, hrest⟩)
    · have hJ : f < J' := by
        have := part.goodCount_le J'
        have := hfits.count
        omega
      have := hfits.erased f hJ (hgood f (Nat.le_refl f))
      rw [hfails] at this
      exact nomatch this
    · have heq : f' = f := by
        rcases Nat.lt_trichotomy f' f with hlt' | heq | hlt'
        · have := herased f' hlt'
          rw [hleft.fails] at this
          exact nomatch this
        · exact heq
        · have := hleft.erased f hlt'
          rw [hfails] at this
          exact nomatch this
      subst heq
      exact ⟨hleft.same, hrest⟩
  · rintro ⟨hsame, hrest⟩
    exact .inr ⟨f, hlt, ⟨hgood, hsame, herased, hfails⟩, hrest⟩

theorem not_straight_broken (hgood : part.isGood k = true) (hb : b < k)
    (hbad : part.isGood b = false) (hreached : part.Reached p k)
    (hfails : part.erases (p + k) = false) (hcount : part.goodCount k < n) :
    ¬ Straight p (part :: rest) n := by
  rintro (⟨J', hfits⟩ | ⟨f', -, hleft, -⟩)
  · have hJ : k < J' := by
      by_contra hle
      have hmono : part.goodCount J' ≤ part.goodCount k := Nat.count_monotone _ (by omega)
      have := hfits.count
      omega
    have := hfits.erased k hJ hgood
    rw [hfails] at this
    exact nomatch this
  · have hlt : f' < b := by
      by_contra hle
      have := hleft.good b (Nat.le_of_not_lt hle)
      rw [hbad] at this
      exact nomatch this
    have := hreached f' (Nat.lt_trans hlt hb) (hleft.good f' (Nat.le_refl f'))
    rw [hleft.fails] at this
    exact nomatch this

end Straight

section Left

variable {erasesize p idx c f : Nat} {image : List UInt8} {part : Part} {rest : List Part}
  {parts : List Part} {pre ops : List FlashOp}

/-- The blocks of a partition that was left hold what was written there. -/
theorem map_block_left (erasesize p c : Nat) (image : List UInt8) (part : Part)
    (pre : List FlashOp) (hops : ∀ op ∈ ops, idx + 1 ≤ op.part) (contents : Contents) :
    (((part.goods f).map (p + ·)).map (idx, ·)).map
        ((after erasesize (pre ++ passOps erasesize p image idx part c f ++
          [.erase idx (p + f) false] ++ ops) contents).block erasesize) =
      (List.range' c (part.goodCount f)).map (block erasesize 0xff image) := by
  have hlater : ∀ k, ∀ op ∈ [.erase idx (p + f) false] ++ ops,
      ¬ op.Touches erasesize (idx, k) := by
    intro k op hop htouches
    rcases List.mem_append.mp hop with hop | hop
    · rw [List.mem_singleton.mp hop] at htouches
      exact nomatch htouches.1
    · have := hops op hop
      rw [touches_part htouches] at this
      exact absurd this (Nat.not_succ_le_self idx)
  rw [List.map_map, List.append_assoc (pre ++ _), after_append (pre ++ _), after_append pre]
  refine Eq.trans (List.map_congr_left fun k _ => after_block _ (hlater k)) ?_
  exact map_goods_block (after erasesize pre contents) f

/-- What is read before the partition was left is right, so that the rest decides. -/
theorem reads_left_iff (rest : List Part) {log : List FlashOp} {n : Nat}
    {F : Nat × Nat → List UInt8} {g : Nat → List UInt8}
    (hfails : ∀ k, .erase idx k false ∈ log ↔ k = p + f)
    (hroom : f = 0 ∨ p + f ≤ part.size) (hall : part.goodCount f = f)
    (hsame : ∀ i, i < f → part.isGood (p + i) = part.isGood i) (hn : f ≤ n)
    (hfirst : (((part.goods f).map (p + ·)).map (idx, ·)).map F = (List.range' c f).map g) :
    ((readBlocks p log idx (part :: rest)).take n).map F = (List.range' c n).map g ↔
      ((readBlocks p log (idx + 1) rest).take (n - f)).map F =
        (List.range' (c + f) (n - f)).map g := by
  have hlen : (((part.goods f).map (p + ·)).map ((idx, ·) : Nat → Nat × Nat)).length = f := by
    rw [List.length_map, List.length_map, Part.length_goods, hall]
  have hrange : List.range' c n = List.range' c f ++ List.range' (c + f) (n - f) := by
    rw [List.range'_append_1, Nat.add_sub_cancel' hn]
  rw [readBlocks_left hfails hroom, filter_range'_eq hsame, List.take_append, hlen,
    List.take_of_length_le (hlen.symm ▸ hn), List.map_append, hfirst, hrange, List.map_append,
    List.append_right_inj]

theorem placedFrom_left (hpart : parts[idx]? = some part) (hpre : ∀ op ∈ pre, op.part < idx)
    (hops : ∀ op ∈ ops, idx + 1 ≤ op.part) (hgood : ∀ i, i ≤ f → part.isGood i = true)
    (hreached : part.Reached p f) (hcount : c + f < blockCount erasesize image) :
    PlacedFrom erasesize p parts image idx (part :: rest) c pre
        (passOps erasesize p image idx part c f ++ .erase idx (p + f) false :: ops) ↔
      (∀ i, i < f → part.isGood (p + i) = true) ∧
        PlacedFrom erasesize p parts image (idx + 1) rest (c + f)
          (pre ++ passOps erasesize p image idx part c f ++ [.erase idx (p + f) false]) ops := by
  have hassoc : ∀ after, pre ++ (passOps erasesize p image idx part c f ++
      .erase idx (p + f) false :: after) =
      pre ++ passOps erasesize p image idx part c f ++ [.erase idx (p + f) false] ++ after := by
    intro after
    simp
  have hfails : ∀ k, .erase idx k false ∈ pre ++ passOps erasesize p image idx part c f ++
      [.erase idx (p + f) false] ++ ops ↔ k = p + f := by
    intro k
    constructor
    · intro hk
      rcases List.mem_append.mp hk with hk | hk
      · rcases List.mem_append.mp hk with hk | hk
        · rcases List.mem_append.mp hk with hk | hk
          · exact absurd (hpre _ hk) (Nat.lt_irrefl idx)
          · exact absurd hk not_fails_mem_passOps
        · simpa using hk
      · exact absurd (hops _ hk) (Nat.not_succ_le_self idx)
    · rintro rfl
      simp
  have hall : part.goodCount f = f :=
    Nat.count_iff_forall.mpr fun i hi => hgood i (Nat.le_of_lt hi)
  have hroom := hreached.add_le_size (.inr (hgood _ (Nat.sub_le f 1)))
  have hreads (hsame : ∀ i, i < f → part.isGood (p + i) = true) (contents : Contents) := by
    have hfirst := map_block_left erasesize p c image part pre hops contents (f := f)
    rw [hall] at hfirst
    have h := reads_left_iff rest hfails hroom hall
      (fun i hi => (hsame i hi).trans (hgood i (Nat.le_of_lt hi)).symm)
      (show f ≤ blockCount erasesize image - c by omega) hfirst
    rw [Nat.sub_sub] at h
    exact h
  rw [PlacedFrom, PlacedFrom, each_append, each_passOps hpart, each_cons]
  simp only [hassoc]
  constructor
  · rintro ⟨⟨hpass, -, hlater⟩, hall⟩
    have hsame : ∀ i, i < f → part.isGood (p + i) = true :=
      fun i hi => hpass i hi (hgood i (Nat.le_of_lt hi))
    exact ⟨hsame, hlater, fun contents => (hreads hsame contents).mp (hall contents)⟩
  · rintro ⟨hsame, hlater, hall⟩
    have hfailed : Sound erasesize parts (pre ++ (passOps erasesize p image idx part c f ++ []))
        (.erase idx (p + f) false) := fun h => absurd h Bool.false_ne_true
    refine ⟨⟨fun i hi _ => hsame i hi, hfailed, hlater⟩, fun contents => ?_⟩
    exact (hreads hsame contents).mpr (hall contents)

theorem not_placedFrom_broken {k q : Nat} {bytes : List UInt8}
    (hsize : 0 < erasesize) (hpre : ∀ op ∈ pre, op.part < idx) (hbytes : bytes ≠ [])
    (hq : ∀ i, i < k → part.isGood i = true → q ≠ p + i) {suffix : List Part} :
    ¬ PlacedFrom erasesize p parts image idx suffix c pre
        (passOps erasesize p image idx part c k ++
          .erase idx (p + k) false :: .write idx (q * erasesize) bytes :: ops) := by
  rintro ⟨heach, -⟩
  rw [each_append, each_cons, each_cons] at heach
  have htouches : (FlashOp.write idx (q * erasesize) bytes).Touches erasesize (idx, q) := by
    have hpos := List.length_pos_of_ne_nil hbytes
    refine ⟨rfl, ?_, ?_⟩
    · show q * erasesize < (q + 1) * erasesize
      rw [Nat.succ_mul]
      omega
    · simp only
      omega
  have hmem := (heach.2.2.1 q htouches).1
  rcases List.mem_append.mp hmem with hmem | hmem
  · exact Nat.lt_irrefl idx (hpre _ hmem)
  · rcases List.mem_append.mp hmem with hmem | hmem
    · obtain ⟨i, hi, hgood, hqi⟩ := erase_mem_passOps.mp hmem
      exact hq i hi hgood hqi
    · simp at hmem

end Left

section Runs

variable {erasesize p idx c : Nat} {image : List UInt8} {parts suffix : List Part}
  {pre ops log : List FlashOp}

/-- By induction on the trace, partition by partition. -/
theorem placedFrom_iff (hsize : 0 < erasesize) (htrace : Trace erasesize p image idx suffix c ops)
    (hsuffix : parts.drop idx = suffix) (hpre : ∀ op ∈ pre, op.part < idx) :
    PlacedFrom erasesize p parts image idx suffix c pre ops ↔
      Straight p suffix (blockCount erasesize image - c) := by
  induction htrace generalizing pre with
  | @finished idx c J part rest hreached hends hcount =>
      have hpart : parts[idx]? = some part := by
        rw [← List.head?_drop, hsuffix, List.head?_cons]
      rw [placedFrom_finished hsize hpart hpre hreached hends hcount,
        straight_finished hreached hends (by omega)]
  | @left idx c f part rest ops hgood hreached hfails hcount htail ih =>
      have hpart : parts[idx]? = some part := by
        rw [← List.head?_drop, hsuffix, List.head?_cons]
      have hrest : parts.drop (idx + 1) = rest := by
        rw [← List.drop_drop, hsuffix, List.drop_one, List.tail_cons]
      have hpre' : ∀ op ∈ pre ++ passOps erasesize p image idx part c f ++
          [.erase idx (p + f) false], op.part < idx + 1 := by
        intro op hop
        rcases List.mem_append.mp hop with hop | hop
        · rcases List.mem_append.mp hop with hop | hop
          · exact Nat.lt_succ_of_lt (hpre op hop)
          · exact Nat.lt_succ_of_le (Nat.le_of_eq (part_of_mem_passOps hop))
        · rw [List.mem_singleton.mp hop]
          exact Nat.lt_succ_self idx
      rw [placedFrom_left hpart hpre htail.part_le hgood hreached hcount, ih hrest hpre',
        straight_left hgood hreached hfails (by omega), Nat.sub_sub]
  | broken hops hgood hb hbad hreached hfails hcount hbytes hq =>
      apply iff_of_false
      · exact not_placedFrom_broken hsize hpre hbytes hq
      · exact not_straight_broken hgood hb hbad hreached hfails (by omega)

/-- The blocks that are read are compared one by one. -/
theorem placed_iff_placedFrom (hsize : 0 < erasesize) :
    Placed erasesize p parts image log ↔
      PlacedFrom erasesize p parts image 0 parts 0 [] log := by
  have hreads : ∀ contents : Contents,
      ((readBlocks p log 0 parts).flatMap
          ((after erasesize log contents).block erasesize)).take
          (blockCount erasesize image * erasesize) =
        image ++ List.replicate (blockCount erasesize image * erasesize - image.length) 0xff ↔
      ((readBlocks p log 0 parts).take (blockCount erasesize image)).map
          ((after erasesize log contents).block erasesize) =
        (List.range' 0 (blockCount erasesize image)).map (block erasesize 0xff image) := by
    intro contents
    rw [take_flatMap_of_length _ (fun b _ => Contents.length_block _ b),
      ← flatMap_block (le_blockCount_mul hsize image), ← List.range_eq_range',
      flatMap_eq_iff_of_length hsize (fun b _ => Contents.length_block _ b)
        (fun b _ => length_block ..)]
  constructor
  · rintro ⟨hsound, hall⟩
    exact ⟨hsound, fun contents => (hreads contents).mp (hall contents)⟩
  · rintro ⟨hsound, hall⟩
    exact ⟨hsound, fun contents => (hreads contents).mpr (hall contents)⟩

/-- When `mtd_write` returns and no `write` was cut short, the image is placed exactly if it
goes straight to the partitions. -/
theorem mtdWrite_placed_iff (hsize : 0 < erasesize) {held : Nat} (hheld : held ≤ erasesize)
    (heap : Mem) {st : WriteState}
    (hrun : mtdWrite erasesize (p * erasesize) parts held heap image = .returned st)
    (hcomplete : st.complete = true) :
    Placed erasesize p parts image st.log ↔ Straight p parts (blockCount erasesize image) := by
  obtain ⟨ops, hlog, htrace⟩ := mtdWriteFrom_trace hsize (feeds_start hheld heap image)
    (Nat.zero_le _) rfl rfl hrun hcomplete
  rw [show st.log = ops from hlog, placed_iff_placedFrom hsize,
    placedFrom_iff hsize htrace List.drop_zero (List.forall_mem_nil _), Nat.sub_zero]

/-- Block 1 of the first partition cannot be erased; block 0 of the second one is bad. -/
theorem mtdWrite_placed_two_parts :
    ∃ st, mtdWrite 2 0 [⟨2, false, fun _ => false, fun k => k == 1⟩,
        ⟨3, true, fun k => k == 0, fun _ => false⟩] 1 (fun _ => 0) [1, 2, 3] = .returned st ∧
      st.complete = true ∧
      Placed 2 0 [⟨2, false, fun _ => false, fun k => k == 1⟩,
        ⟨3, true, fun k => k == 0, fun _ => false⟩] [1, 2, 3] st.log := by
  refine ⟨_, rfl, rfl, ?_⟩
  refine (mtdWrite_placed_iff (p := 0) (by decide) (show 1 ≤ 2 by decide) (fun _ => 0) rfl
    rfl).mpr ?_
  refine .inr ⟨1, by decide, ⟨by decide, by decide, by decide, by decide⟩, .inl ⟨2, ?_⟩⟩
  refine ⟨by decide, fun i _ => by rw [Nat.zero_add], ?_⟩
  rw [Part.Reached]
  decide

/-- At an offset of one block, block 0 is asked for and is bad, so that block 1 is left out.
Where block 1 cannot be erased after block 0 was passed over, it is written nevertheless. -/
theorem mtdWrite_not_placed :
    (∃ st, mtdWrite 2 2 [⟨3, true, fun k => k == 0, fun _ => false⟩] 0 (fun _ => 0) [1, 2] =
        .returned st ∧ st.complete = true ∧
      ¬ Placed 2 1 [⟨3, true, fun k => k == 0, fun _ => false⟩] [1, 2] st.log) ∧
    ∃ st, mtdWrite 2 0 [⟨3, true, fun k => k == 0, fun k => k == 1⟩,
        ⟨3, true, fun _ => false, fun _ => false⟩] 0 (fun _ => 0) [1, 2] = .returned st ∧
      st.complete = true ∧
      ¬ Placed 2 0 [⟨3, true, fun k => k == 0, fun k => k == 1⟩,
        ⟨3, true, fun _ => false, fun _ => false⟩] [1, 2] st.log := by
  constructor
  · refine ⟨_, rfl, rfl, fun h => ?_⟩
    have hread := h.reads fun _ _ => 0
    exact absurd hread (by decide)
  · refine ⟨_, rfl, rfl, fun h => ?_⟩
    have herased := (h.sound [.erase 0 1 false] (.write 0 2 [1, 2]) _ rfl 1
      ⟨rfl, by decide, by decide⟩).1
    exact absurd herased (by decide)

end Runs

end Speedway.Mtd
