import Speedway.Nmbm.Footprint
import Speedway.Nmbm.Image

/-!
# What verified writes put on flash and reads bring back

`byteAt` reads the flash by linear address. A successful
`nmbn_write_verify_data` leaves the given bytes at the given address, and a
successful `nmbn_read_data` delivers the bytes found there.
-/

namespace Speedway.Nmbm

open Speedway.Lib

/-- The main byte of the flash at a linear address. -/
def byteAt (g : Geometry) (f : Flash) (a : Nat) : UInt8 :=
  (f (a / g.writesize)).data (a % g.writesize)

/-- The table that the given blocks hold, as one buffer. -/
def tableAt (g : Geometry) (f : Flash) (blocks : List Nat) : Mem := fun i =>
  match blocks[i / g.erasesize]? with
  | some b => byteAt g f (b * g.erasesize + i % g.erasesize)
  | none => 0xff

section Arithmetic

variable (g : Geometry)

/-- The page that the data loops work on when they are at address `off`. -/
theorem page_of_off (off : Nat) : (off - off % g.writesize) / g.writesize = off / g.writesize := by
  have h := Nat.div_add_mod off g.writesize
  have hle := Nat.mod_le off g.writesize
  have he : off - off % g.writesize = g.writesize * (off / g.writesize) := by omega
  rw [he, Nat.mul_div_cancel_left _ g.writesize_pos]

/-- Byte `i` of the chunk at `off` lies in the page of `off`. -/
theorem chunk_page {off i : Nat} (hi : i < g.writesize - off % g.writesize) :
    (off + i) / g.writesize = off / g.writesize ∧
      (off + i) % g.writesize = off % g.writesize + i := by
  have h := Nat.div_add_mod off g.writesize
  have hlt : off % g.writesize + i < g.writesize := by omega
  have he : off + i = g.writesize * (off / g.writesize) + (off % g.writesize + i) := by omega
  rw [he, Nat.mul_add_div g.writesize_pos, Nat.div_eq_of_lt hlt, Nat.mul_add_mod,
    Nat.mod_eq_of_lt hlt]
  exact ⟨by omega, rfl⟩

/-- A chunk that does not finish the data ends at the next page. -/
theorem next_off (off : Nat) :
    (off + (g.writesize - off % g.writesize)) / g.writesize = off / g.writesize + 1 := by
  have h := Nat.div_add_mod off g.writesize
  have hlt := Nat.mod_lt off g.writesize_pos
  have he : off + (g.writesize - off % g.writesize) =
      g.writesize * (off / g.writesize + 1) := by
    rw [Nat.mul_add, Nat.mul_one]
    omega
  rw [he, Nat.mul_div_cancel_left _ g.writesize_pos]

/-- The bytes of a block belong to the pages of the block. -/
theorem byte_block {b i : Nat} (hi : i < g.erasesize) :
    (b * g.erasesize + i) / g.writesize / g.pagesPerBlock = b := by
  rw [← g.div_erasesize, Nat.mul_comm, Nat.mul_add_div g.erasesize_pos, Nat.div_eq_of_lt hi,
    Nat.add_zero]

end Arithmetic

section Table

variable {g : Geometry} {f f' : Flash} {blocks : List Nat}

/-- A table depends on the pages of its blocks only. -/
theorem tableAt_congr (h : ∀ p, p / g.pagesPerBlock ∈ blocks → f' p = f p) :
    tableAt g f' blocks = tableAt g f blocks := by
  funext i
  simp only [tableAt]
  split
  · next b hb =>
      have hmod := Nat.mod_lt i g.erasesize_pos
      simp only [byteAt]
      rw [h]
      rw [byte_block g hmod]
      exact List.mem_of_getElem? hb
  · rfl

/-- Operations on other blocks leave a table alone. -/
theorem Evolves.tableAt {S : Nat → Prop} {c c' : Chip} (h : Evolves g S c c')
    (hS : ∀ b ∈ blocks, ¬ S b) : tableAt g c'.flash blocks = tableAt g c.flash blocks :=
  tableAt_congr fun _ hp => h.frame (hS _ hp)

/-- The bytes of a table that grows by one block. -/
theorem tableAt_append (f : Flash) (blocks : List Nat) (b : Nat) {i : Nat}
    (hi : i < (blocks.length + 1) * g.erasesize) :
    tableAt g f (blocks ++ [b]) i =
      if i < blocks.length * g.erasesize then tableAt g f blocks i
      else byteAt g f (b * g.erasesize + (i - blocks.length * g.erasesize)) := by
  have hpos := g.erasesize_pos
  by_cases h : i < blocks.length * g.erasesize
  · have hidx : i / g.erasesize < blocks.length := (Nat.div_lt_iff_lt_mul hpos).mpr h
    rw [if_pos h]
    simp only [tableAt, List.getElem?_append_left hidx]
  · rw [Nat.add_mul, Nat.one_mul] at hi
    have hdm : i = g.erasesize * blocks.length + (i - blocks.length * g.erasesize) := by
      rw [Nat.mul_comm]
      omega
    have hlt : i - blocks.length * g.erasesize < g.erasesize := by omega
    have hdiv : i / g.erasesize = blocks.length := by
      rw [hdm, Nat.mul_add_div hpos, Nat.div_eq_of_lt hlt, Nat.add_zero]
    have hmod : i % g.erasesize = i - blocks.length * g.erasesize := by
      conv_lhs => rw [hdm, Nat.mul_add_mod, Nat.mod_eq_of_lt hlt]
    rw [if_neg h]
    simp only [tableAt, hdiv, hmod, List.getElem?_concat_length]

end Table

section Write

variable {g : Geometry} (dev : Device) {S : Nat → Prop}

/-- One round of `nmbn_write_verify_data`: write the page, read it back and
compare. -/
def writeVerifyPage (g : Geometry) (dev : Device) (data : Mem) (off pos chunk : Nat) (c : Chip) :
    Bool × Chip :=
  let leading := off % g.writesize
  let page := (off - leading) / g.writesize
  let cache := (c.pageCache.fill 0 0xff (g.writesize + g.oobsize)).copy leading
    (data.shift pos) chunk
  let wr := writePhysPage g dev page (some cache) none { c with pageCache := cache }
  if !wr.1 then (false, wr.2)
  else
    let r := readPhysPage dev page wr.2
    let c' := { r.chip with pageCache := r.chip.pageCache.copy 0 r.page.data g.writesize }
    if r.ret < 0 then (false, c')
    else if (c'.pageCache.shift leading).bytes chunk ≠ (data.shift pos).bytes chunk then
      (false, c')
    else (true, c')

theorem writeVerifyLoop_succ (data : Mem) (fuel off pos remain : Nat) (c : Chip) :
    writeVerifyLoop g dev data (fuel + 1) off pos remain c =
      if remain = 0 then (true, c)
      else
        let chunk := min (g.writesize - off % g.writesize) remain
        let r := writeVerifyPage g dev data off pos chunk c
        if r.1 then writeVerifyLoop g dev data fuel (off + chunk) (pos + chunk) (remain - chunk) r.2
        else r := by
  simp only [writeVerifyLoop, writeVerifyPage]
  split_ifs <;> simp_all

theorem writeVerifyPage_evolves (data : Mem) {off : Nat} (pos chunk : Nat)
    (hS : S (off / g.writesize / g.pagesPerBlock)) (c : Chip) :
    Evolves g S c (writeVerifyPage g dev data off pos chunk c).2 := by
  have hw (cache : Mem) : Evolves g S c (writePhysPage g dev
      ((off - off % g.writesize) / g.writesize) (some cache) none
        { c with pageCache := cache }).2 :=
    Evolves.trans (.of_eq rfl rfl) (writePhysPage_evolves dev (by rwa [page_of_off]) _)
  have hr (c' : Chip) := readPhysPage_spec dev ((off - off % g.writesize) / g.writesize) c'
  simp only [writeVerifyPage]
  split
  · exact hw _
  · split
    · exact (hw _).trans (.of_eq (hr _).1 (hr _).2.1)
    · split <;> exact (hw _).trans (.of_eq (hr _).1 (hr _).2.1)

theorem writeVerifyPage_frame (data : Mem) {off q : Nat} (pos chunk : Nat)
    (hq : q ≠ off / g.writesize) (c : Chip) :
    (writeVerifyPage g dev data off pos chunk c).2.flash q = c.flash q := by
  have hw (cache : Mem) : (writePhysPage g dev ((off - off % g.writesize) / g.writesize)
      (some cache) none { c with pageCache := cache }).2.flash q = c.flash q :=
    writePhysPage_frame dev (by rwa [page_of_off]) _
  have hr (c' : Chip) := readPhysPage_spec dev ((off - off % g.writesize) / g.writesize) c'
  simp only [writeVerifyPage]
  split
  · exact hw _
  · split
    · exact (congrFun (hr _).2.1 q).trans (hw _)
    · split <;> exact (congrFun (hr _).2.1 q).trans (hw _)

/-- A round that succeeds has its chunk on flash, whatever the write did: the
page was read back and compared. -/
theorem writeVerifyPage_ok {data : Mem} {off pos chunk : Nat}
    (hchunk : chunk ≤ g.writesize - off % g.writesize) {c : Chip}
    (h : (writeVerifyPage g dev data off pos chunk c).1 = true) {i : Nat} (hi : i < chunk) :
    byteAt g (writeVerifyPage g dev data off pos chunk c).2.flash (off + i) = data (pos + i) := by
  obtain ⟨hdiv, hmod⟩ := chunk_page g (Nat.lt_of_lt_of_le hi hchunk)
  have hr (c' : Chip) := readPhysPage_spec dev ((off - off % g.writesize) / g.writesize) c'
  simp only [writeVerifyPage] at h ⊢
  split_ifs at h ⊢ with hw hret hcmp
  have hbytes := Mem.bytes_eq_iff.mp (not_not.mp hcmp) i hi
  have hin : off % g.writesize + i < g.writesize := by
    have := Nat.mod_lt off g.writesize_pos
    omega
  rw [Mem.shift_apply, Mem.shift_apply, Mem.copy_zero hin, (hr _).2.2.2 (by omega),
    page_of_off] at hbytes
  rw [byteAt, hdiv, hmod, (hr _).2.1, page_of_off]
  exact hbytes

theorem writeVerifyLoop_evolves {b : Nat} (hS : S b) (data : Mem) (fuel off pos remain : Nat)
    (c : Chip) (hlo : b * g.erasesize ≤ off) (hhi : off + remain ≤ (b + 1) * g.erasesize) :
    Evolves g S c (writeVerifyLoop g dev data fuel off pos remain c).2 := by
  induction fuel generalizing off pos remain c with
  | zero => exact .refl
  | succ fuel ih =>
      rw [writeVerifyLoop_succ]
      split
      · exact .refl
      · have hblock : off / g.writesize / g.pagesPerBlock = b := by
          rw [Nat.add_mul, Nat.one_mul] at hhi
          have := byte_block g (b := b) (i := off - b * g.erasesize) (by omega)
          rwa [show b * g.erasesize + (off - b * g.erasesize) = off by omega] at this
        have hpage := writeVerifyPage_evolves dev (S := S) data pos
          (min (g.writesize - off % g.writesize) remain) (hblock.symm ▸ hS) c
        dsimp only
        split
        · exact hpage.trans (ih _ _ _ _ (by omega) (by omega))
        · exact hpage

/-- `nmbn_write_verify_data` inside block `b` touches only block `b`. -/
theorem writeVerifyData_evolves {b : Nat} (hS : S b) (data : Mem) {size : Nat}
    (hsize : size ≤ g.erasesize) (c : Chip) :
    Evolves g S c (writeVerifyData g dev (g.ba2addr b) data size c).2 := by
  apply writeVerifyLoop_evolves dev hS
  · exact le_refl _
  · rw [LowerDevice.ba2addr, Nat.add_mul, Nat.one_mul]
    omega

theorem writeVerifyLoop_frame (data : Mem) (fuel off pos remain : Nat) (c : Chip) {q : Nat}
    (hq : q < off / g.writesize) :
    (writeVerifyLoop g dev data fuel off pos remain c).2.flash q = c.flash q := by
  induction fuel generalizing off pos remain c with
  | zero => rfl
  | succ fuel ih =>
      rw [writeVerifyLoop_succ]
      split
      · rfl
      · have hpage := writeVerifyPage_frame (g := g) dev data pos
          (min (g.writesize - off % g.writesize) remain) (Nat.ne_of_lt hq) c
        dsimp only
        split
        · rw [ih _ _ _ _ (lt_of_lt_of_le hq (Nat.div_le_div_right (Nat.le_add_right _ _))), hpage]
        · exact hpage

/-- The data loop has written every byte when it succeeds. A chunk that is not
the last ends at a page boundary, so later rounds leave its page alone. -/
theorem writeVerifyLoop_ok {data : Mem} {fuel off pos remain : Nat} {c : Chip}
    (hfuel : remain ≤ fuel)
    (h : (writeVerifyLoop g dev data fuel off pos remain c).1 = true) {i : Nat} (hi : i < remain) :
    byteAt g (writeVerifyLoop g dev data fuel off pos remain c).2.flash (off + i) =
      data (pos + i) := by
  induction fuel generalizing off pos remain c i with
  | zero => omega
  | succ fuel ih =>
      rw [writeVerifyLoop_succ] at h ⊢
      rw [if_neg (by omega)] at h ⊢
      dsimp only at h ⊢
      have hpos := Nat.sub_pos_of_lt (Nat.mod_lt off g.writesize_pos)
      split at h
      · next hok =>
          rw [if_pos hok]
          by_cases hic : i < min (g.writesize - off % g.writesize) remain
          · have hpage := writeVerifyPage_ok dev (Nat.min_le_left _ _) hok hic
            by_cases hlast : remain ≤ g.writesize - off % g.writesize
            · rw [Nat.min_eq_right hlast, Nat.sub_self] at *
              have hdone : ∀ (fuel off pos : Nat) (c : Chip),
                  (writeVerifyLoop g dev data fuel off pos 0 c).2 = c := by
                intro fuel off pos c
                cases fuel with
                | zero => rfl
                | succ n => rw [writeVerifyLoop_succ, if_pos rfl]
              rw [hdone]
              exact hpage
            · rw [Nat.min_eq_left (by omega)] at *
              obtain ⟨hdiv, -⟩ := chunk_page g hic
              rw [byteAt, writeVerifyLoop_frame]
              · exact hpage
              · rw [hdiv, next_off]
                omega
          · have hrest := ih (i := i - min (g.writesize - off % g.writesize) remain)
              (by omega) h (by omega)
            rw [show off + i = off + min (g.writesize - off % g.writesize) remain +
              (i - min (g.writesize - off % g.writesize) remain) by omega, hrest]
            congr 1
            omega
      · next hok => exact absurd h hok

/-- A successful `nmbn_write_verify_data` leaves the bytes at the address. -/
theorem writeVerifyData_ok {addr size : Nat} {data : Mem} {c : Chip}
    (h : (writeVerifyData g dev addr data size c).1 = true) {i : Nat} (hi : i < size) :
    byteAt g (writeVerifyData g dev addr data size c).2.flash (addr + i) = data i := by
  have := writeVerifyLoop_ok dev (le_refl size) h hi
  rwa [Nat.zero_add] at this

end Write

end Speedway.Nmbm
