import Speedway.Nmbm.Contents
import Speedway.Nmbm.Load

/-!
# Reading a table back

`nmbn_read_data` copies the bytes found on flash into its buffer, and the
block loop of `nmbm_try_load_info_table` fills the table cache from the good
blocks of a window of `size2blk` blocks.
-/

namespace Speedway.Nmbm

open Speedway.Lib

section Data

variable {g : Geometry} (dev : Device)

/-- The bytes of the flash from a linear address on. -/
def flashFrom (g : Geometry) (f : Flash) (addr : Nat) : Mem := fun j => byteAt g f (addr + j)

theorem flashFrom_shift (f : Flash) (addr a : Nat) :
    (flashFrom g f addr).shift a = flashFrom g f (addr + a) := by
  funext j
  simp only [flashFrom, Mem.shift_apply, Nat.add_assoc]

/-- One round of `nmbn_read_data`: read the page and copy its part. -/
def readChunk (g : Geometry) (dev : Device) (off pos chunk : Nat) (buf : Mem) (c : Chip) :
    BufferResult :=
  let leading := off % g.writesize
  let r := readPhysPage dev ((off - leading) / g.writesize) c
  if chunk = g.writesize then ⟨r.ret, buf.copy pos r.page.data g.writesize, r.chip⟩
  else
    let cache := r.chip.pageCache.copy 0 r.page.data g.writesize
    ⟨r.ret, if r.ret < 0 then buf else buf.copy pos (cache.shift leading) chunk,
      { r.chip with pageCache := cache }⟩

theorem readDataLoop_succ (fuel off pos remain : Nat) (buf : Mem) (c : Chip) :
    readDataLoop g dev (fuel + 1) off pos remain buf c =
      if remain = 0 then ⟨0, buf, c⟩
      else
        let chunk := min (g.writesize - off % g.writesize) remain
        let r := readChunk g dev off pos chunk buf c
        if r.ret < 0 then r
        else readDataLoop g dev fuel (off + chunk) (pos + chunk) (remain - chunk) r.buf r.chip := by
  simp only [readDataLoop, readChunk]
  split_ifs <;> simp_all

theorem readChunk_flash (off pos chunk : Nat) (buf : Mem) (c : Chip) :
    (readChunk g dev off pos chunk buf c).chip.flash = c.flash := by
  have hr := readPhysPage_spec dev ((off - off % g.writesize) / g.writesize) c
  simp only [readChunk]
  split
  · exact hr.2.1
  · exact hr.2.1

/-- A round that succeeds has copied its part of the flash. -/
theorem readChunk_ok {off pos chunk : Nat} (hchunk : chunk ≤ g.writesize - off % g.writesize)
    {buf : Mem} {c : Chip} (h : 0 ≤ (readChunk g dev off pos chunk buf c).ret) :
    (readChunk g dev off pos chunk buf c).buf = buf.copy pos (flashFrom g c.flash off) chunk := by
  have hr := readPhysPage_spec dev ((off - off % g.writesize) / g.writesize) c
  have hmod := Nat.mod_lt off g.writesize_pos
  have hret : 0 ≤ (readPhysPage dev ((off - off % g.writesize) / g.writesize) c).ret := by
    simp only [readChunk] at h
    split at h
    · exact h
    · exact h
  have hpage := hr.2.2.2 hret
  rw [page_of_off] at hpage hret
  -- the byte that lands at `pos + j` is the one at `off + j`
  have hbyte (j : Nat) (hj : j < chunk) :
      flashFrom g c.flash off j = (c.flash (off / g.writesize)).data (off % g.writesize + j) := by
    obtain ⟨hdiv, hmod'⟩ := chunk_page g (Nat.lt_of_lt_of_le hj hchunk)
    simp only [flashFrom, byteAt, hdiv, hmod']
  funext i
  simp only [readChunk, page_of_off]
  by_cases hwhole : chunk = g.writesize
  · subst hwhole
    have hzero : off % g.writesize = 0 := by omega
    rw [if_pos rfl, hpage]
    simp only [Mem.copy]
    split
    · rw [hbyte _ (by omega), hzero, Nat.zero_add]
    · rfl
  · rw [if_neg hwhole]
    dsimp only
    rw [if_neg (by omega), hpage]
    simp only [Mem.copy, Mem.shift_apply]
    split
    · rw [if_pos (by omega), hbyte _ (by omega)]
      rfl
    · rfl

theorem readDataLoop_flash (fuel off pos remain : Nat) (buf : Mem) (c : Chip) :
    (readDataLoop g dev fuel off pos remain buf c).chip.flash = c.flash := by
  induction fuel generalizing off pos remain buf c with
  | zero => rfl
  | succ fuel ih =>
      have hone := readChunk_flash (g := g) dev off pos
        (min (g.writesize - off % g.writesize) remain) buf c
      rw [readDataLoop_succ]
      split
      · rfl
      · dsimp only
        split
        · exact hone
        · rw [ih, hone]

/-- A successful read has filled the buffer from the flash. -/
theorem readDataLoop_ok {fuel off pos remain : Nat} {buf : Mem} {c : Chip} (hfuel : remain ≤ fuel)
    (h : 0 ≤ (readDataLoop g dev fuel off pos remain buf c).ret) :
    (readDataLoop g dev fuel off pos remain buf c).buf =
      buf.copy pos (flashFrom g c.flash off) remain := by
  have hnone (buf src : Mem) (pos : Nat) : buf.copy pos src 0 = buf := by
    funext i
    exact Mem.copy_outside (by omega)
  induction fuel generalizing off pos remain buf c with
  | zero =>
      have hzero : remain = 0 := by omega
      subst hzero
      exact (hnone _ _ _).symm
  | succ fuel ih =>
      have hpos := Nat.sub_pos_of_lt (Nat.mod_lt off g.writesize_pos)
      rw [readDataLoop_succ] at h ⊢
      split at h
      · next hzero =>
          subst hzero
          rw [if_pos rfl]
          exact (hnone _ _ _).symm
      · next hne =>
          rw [if_neg hne]
          dsimp only at h ⊢
          split at h
          · next hfail => omega
          · next hone =>
              rw [if_neg hone, ih (by omega) h, readChunk_flash,
                readChunk_ok dev (Nat.min_le_left _ _) (by omega), ← flashFrom_shift,
                Mem.copy_append]
              congr 1
              omega

/-- A read on a device that reads every page succeeds. -/
theorem readDataLoop_ret (hreads : ∀ t p, 0 ≤ (dev t (.readPage p)).ret)
    (fuel off pos remain : Nat) (buf : Mem) (c : Chip) :
    (readDataLoop g dev fuel off pos remain buf c).ret = 0 := by
  have hpage (p : Nat) (c : Chip) : 0 ≤ (readPhysPage dev p c).ret := by
    have hfirst : 0 ≤ (readPage dev p c).ret := hreads _ _
    simp only [readPhysPage, tryCount, readTries, if_pos hfirst]
    exact hfirst
  induction fuel generalizing off pos remain buf c with
  | zero => rfl
  | succ fuel ih =>
      rw [readDataLoop_succ]
      split
      · rfl
      · dsimp only
        rw [if_neg]
        · exact ih _ _ _ _ _
        · have := hpage ((off - off % g.writesize) / g.writesize) c
          simp only [readChunk]
          split <;> exact not_lt.mpr this

/-- `nmbn_read_data` leaves the flash alone. -/
theorem readData_flash (addr size : Nat) (buf : Mem) (pos : Nat) (c : Chip) :
    (readData g dev addr size buf pos c).chip.flash = c.flash :=
  readDataLoop_flash dev _ _ _ _ _ _

theorem readData_ok {addr size pos : Nat} {buf : Mem} {c : Chip}
    (h : 0 ≤ (readData g dev addr size buf pos c).ret) :
    (readData g dev addr size buf pos c).buf = buf.copy pos (flashFrom g c.flash addr) size :=
  readDataLoop_ok dev (le_refl _) h

end Data

/-- The device reads every page and reports none of the good blocks as bad. -/
structure FaithfulReads (g : Geometry) (dev : Device) (f : Flash) (bs : Bitmap) : Prop where
  reads : ∀ t p, 0 ≤ (dev t (.readPage p)).ret
  notBad : ∀ (b : Nat) (c : Chip), getBlockStateRaw bs b = stGood → c.flash = f →
    (checkBadPhysBlock g dev b c).1 = false

/-- The world after `nmbm_try_load_info_table` has read block `ba`. -/
def readBlock (g : Geometry) (dev : Device) (ba remain : Nat) (w : World) : World :=
  let b := checkBadPhysBlock g dev ba w.chip
  let r := readData g dev (g.ba2addr ba) (min remain g.erasesize) w.ni.infoTableCache
    (g.infoTableSize - remain) b.2
  { w with
    chip := r.chip
    ni := { w.ni with infoTableCache := r.buf } }

/-- The good blocks among the `n` from `ba` on. -/
def goodBlocks (bs : Bitmap) (ba n : Nat) : Nat :=
  (List.range' ba n).countP fun b => getBlockStateRaw bs b = stGood

section Table

variable {g : Geometry} {dev : Device} {f : Flash} {bs : Bitmap} {w : World}
  {n ba remain : Nat} {start : Option Nat}

theorem checkBadPhysBlock_flash (b : Nat) (c : Chip) :
    (checkBadPhysBlock g dev b c).2.flash = c.flash := by
  obtain ⟨new, -, hflash, hnone⟩ :=
    checkBadPhysBlock_evolves (g := g) dev (S := fun _ => False) b c
  rw [hflash]
  funext p
  exact Journal.replay_frame _ (fun op hop => (hnone op hop).elim) _

theorem readBlock_flash : (readBlock g dev ba remain w).chip.flash = w.chip.flash := by
  simp only [readBlock]
  rw [readData_flash, checkBadPhysBlock_flash]

theorem readBlock_cache (ba remain : Nat) (hF : FaithfulReads g dev f bs)
    (hf : w.chip.flash = f) :
    (readBlock g dev ba remain w).ni.infoTableCache = w.ni.infoTableCache.copy
      (g.infoTableSize - remain) (flashFrom g f (g.ba2addr ba)) (min remain g.erasesize) := by
  simp only [readBlock]
  rw [readData_ok dev (le_of_eq (readDataLoop_ret dev hF.reads _ _ _ _ _ _).symm),
    checkBadPhysBlock_flash, hf]

/-- A block that is not good is passed over. -/
theorem readTableLoop_skip (h : w.blockStateOf ba ≠ stGood) (h0 : remain ≠ 0) :
    readTableLoop g dev (n + 1) ba remain start w =
      readTableLoop g dev n (ba + 1) remain start w := by
  rw [readTableLoop, if_neg h0, if_pos h]

/-- A good block is read, and the first one must start with a table header. -/
theorem readTableLoop_good (hF : FaithfulReads g dev f bs) (hf : w.chip.flash = f)
    (hbs : w.ni.blockState = bs) (h : w.blockStateOf ba = stGood) (h0 : remain ≠ 0) :
    readTableLoop g dev (n + 1) ba remain start w =
      if start.isNone ∧ !checkInfoTableHeader g.toLowerDevice
          ((readBlock g dev ba remain w).ni.infoTableCache.shift (g.infoTableSize - remain)) then
        (none, readBlock g dev ba remain w)
      else readTableLoop g dev n (ba + 1) (remain - min remain g.erasesize)
        (some (start.getD ba)) (readBlock g dev ba remain w) := by
  have hbad : (checkBadPhysBlock g dev ba w.chip).1 = false :=
    hF.notBad ba w.chip (by rw [← hbs]; exact h) hf
  have hret := readDataLoop_ret (g := g) dev hF.reads (min remain g.erasesize) (g.ba2addr ba)
    (g.infoTableSize - remain) (min remain g.erasesize) w.ni.infoTableCache
    (checkBadPhysBlock g dev ba w.chip).2
  rw [readTableLoop, if_neg h0, if_neg (not_not.mpr h)]
  simp only [hbad, Bool.false_eq_true, if_false, readData, hret, lt_irrefl, readBlock]
  rfl

/-- A window can only deliver as much data as it has good blocks. -/
theorem readTableLoop_short (hF : FaithfulReads g dev f bs) (hf : w.chip.flash = f)
    (hbs : w.ni.blockState = bs) {stop first rest : Nat}
    (h : (readTableLoop g dev n ba remain start w).1 = some (stop, first, rest)) :
    remain ≤ goodBlocks bs ba n * g.erasesize + rest := by
  induction n generalizing ba remain start w with
  | zero =>
      simp only [readTableLoop, Option.some.injEq, Prod.mk.injEq] at h
      omega
  | succ n ih =>
      have hcount : goodBlocks bs ba (n + 1) = goodBlocks bs (ba + 1) n +
          if getBlockStateRaw bs ba = stGood then 1 else 0 := by
        simp only [goodBlocks, List.range'_succ, List.countP_cons, decide_eq_true_eq]
      by_cases h0 : remain = 0
      · omega
      · by_cases hgood : w.blockStateOf ba = stGood
        · rw [readTableLoop_good hF hf hbs hgood h0] at h
          have hstate : getBlockStateRaw bs ba = stGood := by
            rw [← hbs]
            exact hgood
          rw [hcount, if_pos hstate, Nat.add_mul, Nat.one_mul]
          split at h
          · exact absurd h (by simp)
          · have := ih (readBlock_flash.trans hf) hbs h
            omega
        · rw [readTableLoop_skip hgood h0] at h
          have := ih hf hbs h
          rw [hcount, Nat.add_mul]
          omega

/-- A window of good blocks delivers the bytes of its blocks. When `k` of `m`
blocks have been read, the cache starts with their bytes. -/
theorem readTableLoop_full (hF : FaithfulReads g dev f bs) {m k s : Nat} {old : Mem}
    (hlo : (m - 1) * g.erasesize < g.infoTableSize) (hhi : g.infoTableSize ≤ m * g.erasesize)
    (hkn : k + n = m) (hgood : ∀ b, s ≤ b → b < s + m → getBlockStateRaw bs b = stGood)
    (hf : w.chip.flash = f) (hbs : w.ni.blockState = bs)
    (hcache : w.ni.infoTableCache =
      old.copy 0 (flashFrom g f (g.ba2addr s)) (min (k * g.erasesize) g.infoTableSize)) :
    ∃ w', readTableLoop g dev n (s + k) (g.infoTableSize - k * g.erasesize) (some s) w =
        (some (s + m, s, 0), w') ∧
      w'.chip.flash = f ∧ w'.trace = w.trace ∧
      w'.ni = { w.ni with
        infoTableCache := old.copy 0 (flashFrom g f (g.ba2addr s)) g.infoTableSize } := by
  induction n generalizing k w with
  | zero =>
      have hk : k = m := by omega
      subst hk
      rw [Nat.min_eq_right hhi] at hcache
      refine ⟨w, ?_, hf, rfl, ?_⟩
      · simp only [readTableLoop, Option.getD_some, Nat.sub_eq_zero_of_le hhi]
      · rw [← hcache]
  | succ n ih =>
      have hk : k * g.erasesize ≤ (m - 1) * g.erasesize := Nat.mul_le_mul_right _ (by omega)
      have hk' : (k + 1) * g.erasesize = k * g.erasesize + g.erasesize := by
        rw [Nat.add_mul, Nat.one_mul]
      have h0 : g.infoTableSize - k * g.erasesize ≠ 0 := by omega
      have hb : w.blockStateOf (s + k) = stGood := by
        have := hgood (s + k) (by omega) (by omega)
        rw [← hbs] at this
        exact this
      have hpos : g.infoTableSize - (g.infoTableSize - k * g.erasesize) = k * g.erasesize := by
        omega
      rw [readTableLoop_good hF hf hbs hb h0, if_neg (by simp)]
      have hread := readBlock_cache (s + k) (g.infoTableSize - k * g.erasesize) hF hf
      rw [hpos, hcache, Nat.min_eq_left (by omega)] at hread
      have haddr : g.ba2addr (s + k) = g.ba2addr s + k * g.erasesize := by
        simp only [LowerDevice.ba2addr, Nat.add_mul]
      have hcopy := Mem.copy_append old (flashFrom g f (g.ba2addr s)) 0 (k * g.erasesize)
        (min (g.infoTableSize - k * g.erasesize) g.erasesize)
      rw [Nat.zero_add, flashFrom_shift, ← haddr] at hcopy
      rw [hcopy] at hread
      obtain ⟨w', hloop, hflash, htrace, hni⟩ := ih (k := k + 1)
        (w := readBlock g dev (s + k) (g.infoTableSize - k * g.erasesize) w) (by omega)
        (readBlock_flash.trans hf) hbs (by
          rw [hread]
          congr 1
          omega)
      refine ⟨w', ?_, hflash, htrace, hni⟩
      rw [← hloop, Option.getD_some, Nat.add_assoc]
      congr 1
      omega

end Table

end Speedway.Nmbm
