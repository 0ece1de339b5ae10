import Speedway.Nmbm.MtdData

/-!
# Exact pages

The pages handed down are those of the request unless the bytes after a
partial last page are stale in the data-only path, or the two streams of a
request with spare bytes end on different pages.
-/

namespace Speedway.Nmbm

open Speedway.Lib

section Panic

variable {g : Geometry} {dev : Device} {p : Paging} {base k len col toAddr wrlen : Nat}
  {buf : Mem} {m : Mtd}

/-- The variables of `nmbm_mtd_panic_write` before page `k`. -/
structure PanicAt (g : Geometry) (p : Paging) (base k len col toAddr wrlen : Nat) : Prop where
  len : len = p.len - p.consumed k
  col : p.consumed k < p.len → col = p.column k
  toAddr : toAddr = base + k * g.writesize
  wrlen : wrlen = p.consumed k

theorem PanicAt.next (hp : p.size = g.writesize) (hcol : p.col < p.size)
    (h : PanicAt g p base k len col toAddr wrlen) (hmore : p.consumed k < p.len) :
    min (g.writesize - col) len = p.chunk k ∧
      PanicAt g p base (k + 1) (len - p.chunk k) 0 (toAddr + g.writesize) (wrlen + p.chunk k) := by
  have hadd := Paging.consumed_add_chunk hcol k
  have hmul : (k + 1) * g.writesize = k * g.writesize + g.writesize := Nat.succ_mul _ _
  refine ⟨by rw [h.col hmore, h.len, Paging.chunk, hp], ?_, fun _ => rfl, ?_, ?_⟩
  · rw [h.len]
    omega
  · rw [h.toAddr]
    omega
  · rw [h.wrlen]
    exact hadd

theorem panicPage_shows (hp : p.size = g.writesize) (hcol : p.col < p.size) (cache : Mem) :
    p.Shows buf 0xff k (panicPage g cache buf (p.column k) (p.chunk k) (p.consumed k)) := by
  have hle := Paging.column_add_chunk_le hcol k
  refine Paging.shows_of_copy hcol (fun i h₁ h₂ => ?_) fun i hi hout => ?_
  · rw [panicPage, Mem.copy, if_pos ⟨h₁, h₂⟩]
    rfl
  · rw [panicPage, if_pos (by omega), Mem.copy_outside (by omega)]
    exact Mem.fill_inside (by omega)

/-- The log of the panic loop. -/
theorem panicWriteLoop_spec (hp : p.size = g.writesize) (hcol : p.col < p.size) {fuel : Nat}
    (h : PanicAt g p base k len col toAddr wrlen) {j : Nat} {t : PageTry}
    (ht : (panicWriteLoop g dev buf fuel len col toAddr wrlen m).tries[j]? = some t) :
    p.consumed (k + j) < p.len ∧ t.addr = base + (k + j) * g.writesize ∧ t.oob = none ∧
      ∃ page, t.data = some page ∧ p.Shows buf 0xff (k + j) page := by
  induction fuel generalizing k len col toAddr wrlen m j with
  | zero => simp [panicWriteLoop] at ht
  | succ fuel ih =>
      simp only [panicWriteLoop] at ht
      split at ht
      · simp at ht
      · next hne =>
          have hmore : p.consumed k < p.len := by
            have := h.len
            omega
          obtain ⟨hchunk, hnext⟩ := h.next hp hcol hmore
          have hfirst (ret : Int) : p.consumed (k + 0) < p.len ∧
              (panicTry g toAddr (panicPage g m.cache buf col (p.chunk k) wrlen) m.w ret).addr =
                base + (k + 0) * g.writesize ∧
              (panicTry g toAddr (panicPage g m.cache buf col (p.chunk k) wrlen) m.w ret).oob =
                none ∧
              ∃ page, (panicTry g toAddr (panicPage g m.cache buf col (p.chunk k) wrlen) m.w
                ret).data = some page ∧ p.Shows buf 0xff (k + 0) page := by
            refine ⟨hmore, h.toAddr, rfl, _, rfl, ?_⟩
            rw [h.col hmore, h.wrlen]
            exact panicPage_shows hp hcol _
          rw [hchunk] at ht
          split at ht
          · cases j with
            | zero =>
                simp only [List.getElem?_cons_zero, Option.some.injEq] at ht
                rw [← ht]
                exact hfirst _
            | succ j => simp at ht
          · cases j with
            | zero =>
                simp only [List.getElem?_cons_zero, Option.some.injEq] at ht
                rw [← ht]
                exact hfirst _
            | succ j =>
                rw [List.getElem?_cons_succ] at ht
                rw [show k + (j + 1) = k + 1 + j by omega]
                exact ih hnext ht

end Panic

section Requests

variable (g : Geometry) (info : MtdInfo g)

/-- The pages of a data-only request whose predecessors can be written have 0xff
in the page cache after their last requested byte. -/
def CleanRange (toAddr : Nat) (ops : OobOps) (w : World) : Prop :=
  let p := ((MtdWrite.oob toAddr ops).data g).1
  ∀ k, k < p.pages →
    (∀ u, u ≤ k → Writable g w ((MtdWrite.oob toAddr ops).pageAddr g u) = true) →
    ∀ i, p.column k + p.chunk k ≤ i → i < g.writesize →
      staleCache g ((MtdWrite.oob toAddr ops).data g).2 w.chip.pageCache p.col k i = 0xff

/-- No page of a request that can be reached is left by one of its streams and
not by the other, and pages are only reached if the address fits 32 bits. -/
def CleanStreams (toAddr : Nat) (ops : OobOps) (w : World) : Prop :=
  let pd := ((MtdWrite.oob toAddr ops).data g).1
  let po := ((MtdWrite.oob toAddr ops).spare g info).1
  ∀ k, k < pd.pages ∨ k < po.pages →
    (∀ u, u ≤ k → Usable g w (pageStart g toAddr + u * g.writesize)) →
    toAddr < 2 ^ 32 ∧ (ops.len ≠ 0 → k < pd.pages) ∧ (ops.ooblen ≠ 0 → k < po.pages)

/-- A panic write hands its first page to the lower device. -/
def PanicReaches (toAddr len : Nat) (w : World) : Prop :=
  len ≠ 0 ∧ w.ni.isProtected = false ∧ g.readOnly = false ∧ g.hasPanicWritePage = true ∧
    Usable g w (pageStart g toAddr)

/-- The condition for exact pages. -/
def MtdWrite.Clean (m : Mtd) : MtdWrite → Prop
  | .panic toAddr len _ => PanicReaches g toAddr len m.w → toAddr < 2 ^ 32
  | .oob toAddr ops =>
      (mtdWriteCheck g info toAddr ops).isSome = true ∨ m.w.ni.isProtected = true ∨
        g.readOnly = true ∨
        if ops.oobbuf.isNone then
          rangeFits g toAddr ops.len m.w = false ∨ CleanRange g toAddr ops m.w
        else CleanStreams g info toAddr ops m.w

/-- Every page handed to the lower device holds the requested bytes and 0xff. -/
def MtdWrite.Exact (m : Mtd) (req : MtdWrite) : Prop :=
  ∀ dev k t, (req.run g dev info m).tries[k]? = some t → t.passed = true →
    ExactPage g info req k t

end Requests

section Results

variable {g : Geometry} {info : MtdInfo g} {toAddr : Nat} {ops : OobOps} {m : Mtd} {dev : Device}

theorem data_col_lt (req : MtdWrite) :
    (req.data g).1.size = g.writesize ∧ (req.data g).1.col < (req.data g).1.size := by
  cases req with
  | oob toAddr ops => exact ⟨rfl, Nat.mod_lt _ g.writesize_pos⟩
  | panic toAddr len buf => exact ⟨rfl, Nat.mod_lt _ g.writesize_pos⟩

/-- The page loops start at the page of the request exactly when its address fits
32 bits. -/
theorem pageStart_eq_iff :
    pageStart g toAddr = toAddr - toAddr % g.writesize ↔ toAddr < 2 ^ 32 := by
  refine ⟨fun h => ?_, pageStart_of_lt⟩
  by_contra hge
  have hlow : pageStart g toAddr < 2 ^ 32 :=
    (Nat.sub_le ..).trans_lt (Nat.mod_lt _ (by decide))
  obtain ⟨c, hc⟩ := g.writesize_dvd
  have hquot : c ≤ toAddr / g.writesize := by
    rw [Nat.le_div_iff_mul_le g.writesize_pos, Nat.mul_comm, ← hc]
    omega
  have hhigh : 2 ^ 32 ≤ toAddr - toAddr % g.writesize :=
    calc
      2 ^ 32 = g.writesize * c := hc
      _ ≤ g.writesize * (toAddr / g.writesize) := Nat.mul_le_mul_left _ hquot
      _ = toAddr - toAddr % g.writesize := by
        have := Nat.div_add_mod toAddr g.writesize
        omega
  omega

theorem pageBase_mod (g : Geometry) (toAddr : Nat) :
    (toAddr - toAddr % g.writesize) % g.writesize = 0 :=
  Nat.sub_mod_eq_zero_of_mod_eq (Nat.mod_mod _ _).symm

/-- An empty stream requests nothing. -/
theorem not_requested_of_len {p : Paging} (h : p.len = 0) (k : Nat) :
    ¬ ∃ i, i < p.size ∧ p.Requested k i := by
  rintro ⟨i, -, h₁, h₂⟩
  omega

/-- A request with a spare buffer that passes the tests. -/
theorem streams_of_check (hcheck : mtdWriteCheck g info toAddr ops = none)
    (hoob : ops.oobbuf.isNone = false) :
    Streams g ops (info.oobAvail ops.mode) ((MtdWrite.oob toAddr ops).data g).1
      ((MtdWrite.oob toAddr ops).spare g info).1 := by
  have hoffs : ops.ooboffs < info.oobAvail ops.mode := by
    by_contra hge
    simp only [mtdWriteCheck, hoob, Bool.false_eq_true, false_and, if_false] at hcheck
    split at hcheck
    · exact absurd hcheck (by simp)
    · rw [if_pos (show info.oobAvail ops.mode ≤ ops.ooboffs by omega)] at hcheck
      split at hcheck <;> exact absurd hcheck (by simp)
  refine ⟨rfl, (data_col_lt _).2, rfl, rfl, hoffs, rfl, ?_⟩
  simp only [MtdInfo.oobAvail]
  split
  · exact info.oobavail_le
  · exact le_refl _

/-- The variables of `nmbm_write_range` at its start. -/
theorem rangeAt_start (toAddr : Nat) (ops : OobOps) (w : World) :
    RangeAt g ((MtdWrite.oob toAddr ops).data g).1 (toAddr - toAddr % g.writesize)
      ((MtdWrite.oob toAddr ops).data g).2 w 0 toAddr 0 ops.len w where
  pos := Paging.consumed_zero.symm
  remain := by
    rw [Paging.consumed_zero]
    rfl
  off := fun _ => by
    have := Nat.mod_le toAddr g.writesize
    show toAddr = toAddr - toAddr % g.writesize + 0 * g.writesize + toAddr % g.writesize
    omega
  ni := rfl
  cache := fun _ => by simp [staleCache]

/-- The variables of `nmbm_mtd_write_data` at its start. -/
theorem dataAt_start (info : MtdInfo g) (toAddr : Nat) (ops : OobOps) (m : Mtd) :
    DataAt g ((MtdWrite.oob toAddr ops).data g).1 ((MtdWrite.oob toAddr ops).spare g info).1
      (pageStart g toAddr) m.w 0
      { addr := pageStart g toAddr
        len := ops.len
        ooblen := ops.ooblen
        col := toAddr % g.writesize
        ooboffs := ops.ooboffs
        retlen := 0
        oobretlen := 0
        cache := m.cache
        w := m.w } where
  addr := by simp
  len := by simp [MtdWrite.data]
  retlen := Paging.consumed_zero.symm
  col := fun _ => rfl
  ooblen := by simp [MtdWrite.spare]
  oobretlen := Paging.consumed_zero.symm
  ooboffs := fun _ => rfl
  ni := rfl

theorem panicAt_start (toAddr len : Nat) (buf : Mem) :
    PanicAt g ((MtdWrite.panic toAddr len buf).data g).1 (pageStart g toAddr) 0 len
      (toAddr % g.writesize) (pageStart g toAddr) 0 where
  len := by simp [MtdWrite.data]
  col := fun _ => rfl
  toAddr := by simp
  wrlen := Paging.consumed_zero.symm

/-- The page writes of a request without spare bytes. -/
theorem mtdWriteOob_range (hcheck : mtdWriteCheck g info toAddr ops = none)
    (hoob : ops.oobbuf.isNone = true) :
    (mtdWriteOob g dev info toAddr ops m).tries =
      writeRangePages g dev toAddr ops.len ((MtdWrite.oob toAddr ops).data g).2 m.w := by
  rw [mtdWriteOob, hcheck]
  dsimp only
  rw [if_pos hoob]
  rfl

theorem mtdWriteOob_data (hcheck : mtdWriteCheck g info toAddr ops = none)
    (hoob : ops.oobbuf.isNone = false) :
    mtdWriteOob g dev info toAddr ops m = mtdWriteData g dev info toAddr ops m := by
  rw [mtdWriteOob, hcheck]
  dsimp only
  rw [if_neg (by rw [hoob]; exact Bool.false_ne_true)]

/-- Exact pages of the data-only path. -/
theorem exact_range_iff (hcheck : mtdWriteCheck g info toAddr ops = none)
    (hoob : ops.oobbuf.isNone = true) (hprot : m.w.ni.isProtected = false)
    (hro : g.readOnly = false) :
    (MtdWrite.oob toAddr ops).Exact g info m ↔
      rangeFits g toAddr ops.len m.w = false ∨ CleanRange g toAddr ops m.w := by
  obtain ⟨hp, hcol⟩ := data_col_lt (g := g) (.oob toAddr ops)
  have hbase := pageBase_mod g toAddr
  have hnoOob : ((MtdWrite.oob toAddr ops).spare g info).1.len = 0 :=
    ops.noOob (Option.isNone_iff_eq_none.mp hoob)
  cases hfits : rangeFits g toAddr ops.len m.w with
  | false =>
      simp only [true_or, iff_true]
      intro dev k t ht
      simp only [MtdWrite.run] at ht
      rw [mtdWriteOob_range hcheck hoob, writeRangePages] at ht
      simp [hprot, hro, hfits] at ht
  | true =>
      simp only [Bool.true_eq_false, false_or]
      have hpages (dev : Device) : ((MtdWrite.oob toAddr ops).run g dev info m).tries =
          writeRangeTries g dev ((MtdWrite.oob toAddr ops).data g).2 ops.len toAddr 0 ops.len
            m.w := by
        simp only [MtdWrite.run]
        rw [mtdWriteOob_range hcheck hoob, writeRangePages]
        simp only [hprot, hro, Bool.or_self, Bool.false_eq_true, if_false, hfits, Bool.not_true]
        split
        · next hzero => rw [hzero]; rfl
        · rfl
      constructor
      · intro hexact k hk hall
        rw [← Paging.consumed_lt_iff hcol] at hk
        obtain ⟨t, ht⟩ := writeRangeTries_reach hp hcol hbase hro (rangeAt_start toAddr ops m.w)
          (le_refl _) (j := k) (by rw [Nat.zero_add]; exact hk)
          fun u _ hu => hall u (by omega)
        obtain ⟨htry, -⟩ := writeRangeTries_spec hp hcol hbase (rangeAt_start toAddr ops m.w) ht
        rw [Nat.zero_add] at htry
        have hpage := hexact goodDevice k t (by rw [hpages]; exact ht) (by
          rw [htry.passed, hro]
          exact (Bool.and_true _).trans (hall k (le_refl _)))
        have hdata := hpage.data
        rw [htry.data] at hdata
        exact (rangePage_shows hp hcol _).mp hdata.2
      · intro hclean dev k t ht hpassed
        rw [hpages] at ht
        obtain ⟨htry, hall⟩ := writeRangeTries_spec hp hcol hbase (rangeAt_start toAddr ops m.w) ht
        rw [Nat.zero_add] at htry hall
        rw [htry.passed, Bool.and_eq_true] at hpassed
        have hk := htry.more
        refine ⟨htry.addr, ?_, ?_⟩
        · rw [htry.data]
          refine ⟨(Paging.exists_requested_iff hcol).mpr hk, (rangePage_shows hp hcol _).mpr ?_⟩
          refine hclean k ((Paging.consumed_lt_iff hcol).mp hk) fun u hu => ?_
          rcases Nat.eq_or_lt_of_le hu with rfl | hlt
          · exact hpassed.1
          · exact hall u (Nat.zero_le _) hlt
        · rw [htry.oob]
          exact not_requested_of_len hnoOob k

/-- A buffer carries page `k` of a stream exactly when bytes of it are left. -/
theorem carries_iff {p : Paging} (src : Mem) {k : Nat} {o : Option Mem} (hcol : p.col < p.size)
    (hsome : o.isSome = decide (p.len ≠ 0))
    (hshow : p.consumed k < p.len → ∀ page ∈ o, p.Shows src 0xff k page) :
    Carries (p, src) k o ↔ (p.len ≠ 0 → p.consumed k < p.len) := by
  cases o with
  | none =>
      have hzero : p.len = 0 := by simpa using hsome
      simp only [hzero, ne_eq, not_true, false_implies, iff_true]
      exact not_requested_of_len hzero k
  | some page =>
      have hne : p.len ≠ 0 := by simpa using hsome
      simp only [Carries, Paging.exists_requested_iff hcol]
      constructor
      · intro h _
        exact h.1
      · intro h
        exact ⟨h hne, hshow (h hne) page rfl⟩

/-- Exact pages of a request with spare bytes. -/
theorem exact_streams_iff (hcheck : mtdWriteCheck g info toAddr ops = none)
    (hoob : ops.oobbuf.isNone = false) (hprot : m.w.ni.isProtected = false)
    (hro : g.readOnly = false) :
    (MtdWrite.oob toAddr ops).Exact g info m ↔ CleanStreams g info toAddr ops m.w := by
  have hs := streams_of_check hcheck hoob
  have hstart := dataAt_start (g := g) info toAddr ops m
  have hpages (dev : Device) : ((MtdWrite.oob toAddr ops).run g dev info m).tries =
      (mtdWriteData g dev info toAddr ops m).tries := by
    simp only [MtdWrite.run]
    rw [mtdWriteOob_data hcheck hoob]
  -- a page that is written as requested has bytes of both streams
  have hpage {k : Nat} {t : PageTry} (htry : DataTry g ops (info.oobAvail ops.mode)
      ((MtdWrite.oob toAddr ops).data g).1 ((MtdWrite.oob toAddr ops).spare g info).1
      (pageStart g toAddr) m.w k t) :
      ExactPage g info (.oob toAddr ops) k t ↔ toAddr < 2 ^ 32 ∧
        (ops.len ≠ 0 → k < ((MtdWrite.oob toAddr ops).data g).1.pages) ∧
        (ops.ooblen ≠ 0 → k < ((MtdWrite.oob toAddr ops).spare g info).1.pages) := by
    rw [← Paging.consumed_lt_iff hs.col, ← Paging.consumed_lt_iff hs.ooboffs]
    have h₁ := carries_iff ((MtdWrite.oob toAddr ops).data g).2 hs.col htry.data
      htry.showsData
    have h₂ := carries_iff ((MtdWrite.oob toAddr ops).spare g info).2 hs.ooboffs htry.oob
      htry.showsOob
    have haddr : t.addr = (MtdWrite.oob toAddr ops).pageAddr g k ↔ toAddr < 2 ^ 32 := by
      rw [htry.addr, MtdWrite.pageAddr, Nat.add_right_cancel_iff, pageStart_eq_iff]
    constructor
    · intro h
      exact ⟨haddr.mp h.addr, h₁.mp h.data, h₂.mp h.oob⟩
    · rintro ⟨hlt, hd, ho⟩
      exact ⟨haddr.mpr hlt, h₁.mpr hd, h₂.mpr ho⟩
  constructor
  · intro hexact k hk hall
    rw [← Paging.consumed_lt_iff hs.col, ← Paging.consumed_lt_iff hs.ooboffs] at hk
    obtain ⟨t, ht⟩ := writeDataLoop_reach hs hro hprot hstart (le_refl _) (j := k)
      (by rw [Nat.zero_add]; exact hk) fun u _ hu => hall u (by omega)
    obtain ⟨htry, -⟩ := writeDataLoop_spec hs hstart ht
    rw [Nat.zero_add] at htry
    refine (hpage htry).mp (hexact goodDevice k t (by rw [hpages]; exact ht) ?_)
    exact htry.passed.mpr ⟨hprot, hro, hall k (le_refl _)⟩
  · intro hclean dev k t ht hpassed
    rw [hpages] at ht
    obtain ⟨htry, hall⟩ := writeDataLoop_spec hs hstart ht
    rw [Nat.zero_add] at htry hall
    have hmore := htry.more
    rw [Paging.consumed_lt_iff hs.col, Paging.consumed_lt_iff hs.ooboffs] at hmore
    refine (hpage htry).mpr (hclean k hmore fun u hu => ?_)
    rcases Nat.eq_or_lt_of_le hu with rfl | hlt
    · exact (htry.passed.mp hpassed).2.2
    · exact hall u (Nat.zero_le _) hlt

/-- A page that a panic write hands down comes after a first page handed down. -/
theorem panicReaches_of_passed {len k : Nat} {buf : Mem} {t : PageTry}
    (ht : (mtdPanicWrite g dev toAddr len buf m).tries[k]? = some t) (hpassed : t.passed = true) :
    PanicReaches g toAddr len m.w := by
  cases len with
  | zero => simp [mtdPanicWrite, panicWriteLoop] at ht
  | succ len =>
      simp only [mtdPanicWrite, panicWriteLoop, if_neg (Nat.succ_ne_zero len)] at ht
      have hfirst (page : Mem) (ret : Int)
          (h : (panicTry g (pageStart g toAddr) page m.w ret).passed = true) :
          PanicReaches g toAddr (len + 1) m.w := by
        simp only [panicTry, Bool.and_eq_true, Bool.not_eq_true', decide_eq_true_eq] at h
        obtain ⟨⟨⟨⟨hprot, hro⟩, hlt⟩, hpanic⟩, hw⟩ := h
        exact ⟨Nat.succ_ne_zero len, hprot, hro, hpanic, hlt, hw⟩
      split at ht
      · cases k with
        | zero =>
            rw [List.getElem?_cons_zero, Option.some.injEq] at ht
            rw [← ht] at hpassed
            exact hfirst _ _ hpassed
        | succ k => simp at ht
      next hok =>
        rw [ne_eq, not_not] at hok
        exact hfirst _ 0 (panicTry_passed_of_ok hok)

theorem exact_panic_iff (toAddr len : Nat) (buf : Mem) :
    (MtdWrite.panic toAddr len buf).Exact g info m ↔
      (PanicReaches g toAddr len m.w → toAddr < 2 ^ 32) := by
  obtain ⟨hp, hcol⟩ := data_col_lt (g := g) (.panic toAddr len buf)
  constructor
  · rintro hexact ⟨hne, hprot, hro, hpanic, hlt, hw⟩
    obtain ⟨n, rfl⟩ := Nat.exists_eq_succ_of_ne_zero hne
    obtain ⟨t, ht, hpassed⟩ : ∃ t, (mtdPanicWrite g goodDevice toAddr (n + 1) buf m).tries[0]? =
        some t ∧ t.passed = true := by
      simp only [mtdPanicWrite, panicWriteLoop, if_neg (Nat.succ_ne_zero n)]
      split <;> exact ⟨_, rfl, by simp [panicTry, hprot, hro, hpanic, hlt, hw]⟩
    obtain ⟨-, haddr, -⟩ := panicWriteLoop_spec hp hcol (panicAt_start toAddr (n + 1) buf) ht
    have hexactAddr := (hexact goodDevice 0 t ht hpassed).addr
    rw [haddr, Nat.zero_add, MtdWrite.pageAddr, Nat.add_right_cancel_iff,
      pageStart_eq_iff] at hexactAddr
    exact hexactAddr
  · intro hclean dev k t ht hpassed
    have hlt := hclean (panicReaches_of_passed ht hpassed)
    obtain ⟨hmore, haddr, hoob, page, hdata, hshow⟩ :=
      panicWriteLoop_spec hp hcol (panicAt_start toAddr len buf) ht
    rw [Nat.zero_add] at hmore haddr hshow
    refine ⟨?_, ?_, ?_⟩
    · rw [haddr, pageStart_of_lt hlt]
      rfl
    · rw [hdata]
      exact ⟨(Paging.exists_requested_iff hcol).mpr hmore, hshow⟩
    · rw [hoob]
      exact not_requested_of_len rfl k

/-- A refused request hands nothing down. -/
theorem exact_of_refused
    (h : m.w.ni.isProtected = true ∨ g.readOnly = true) :
    (MtdWrite.oob toAddr ops).Exact g info m := by
  intro dev k t ht hpassed
  simp only [MtdWrite.run] at ht
  cases hcheck : mtdWriteCheck g info toAddr ops with
  | some ret => simp [mtdWriteOob, hcheck] at ht
  | none =>
      cases hoob : ops.oobbuf.isNone with
      | true =>
          rw [mtdWriteOob_range hcheck hoob, writeRangePages, if_pos (by simpa using h)] at ht
          simp at ht
      | false =>
          rw [mtdWriteOob_data hcheck hoob] at ht
          obtain ⟨htry, -⟩ := writeDataLoop_spec (streams_of_check hcheck hoob)
            (dataAt_start info toAddr ops m) ht
          have := htry.passed.mp hpassed
          simp_all

/-- The pages handed down are exact, on every device, if and only if the request
is clean. -/
theorem mtdWrite_exact_iff (g : Geometry) (info : MtdInfo g) (req : MtdWrite) (m : Mtd) :
    req.Exact g info m ↔ req.Clean g info m := by
  cases req with
  | panic toAddr len buf => exact exact_panic_iff toAddr len buf
  | oob toAddr ops =>
      simp only [MtdWrite.Clean]
      cases hcheck : mtdWriteCheck g info toAddr ops with
      | some ret =>
          simp only [Option.isSome_some, true_or, iff_true]
          intro dev k t ht
          simp [MtdWrite.run, mtdWriteOob, hcheck] at ht
      | none =>
          cases hprot : m.w.ni.isProtected with
          | true => exact ⟨fun _ => .inr (.inl rfl), fun _ => exact_of_refused (.inl hprot)⟩
          | false =>
              cases hro : g.readOnly with
              | true =>
                  exact ⟨fun _ => .inr (.inr (.inl rfl)), fun _ => exact_of_refused (.inr hro)⟩
              | false =>
                  simp only [Option.isSome_none, Bool.false_eq_true, false_or]
                  split
                  · next hoob => exact exact_range_iff hcheck hoob hprot hro
                  · next hoob =>
                      exact exact_streams_iff hcheck (Bool.eq_false_iff.mpr hoob) hprot hro

/-- The MTD device on the small chip. -/
def smallInfo : MtdInfo (smallGeometry false) := ⟨4096, 1, by decide⟩

/-- A request without spare bytes. -/
def plainWrite (toAddr len : Nat) (byte : UInt8) : MtdWrite :=
  .oob toAddr ⟨.placeOob, some fun _ => byte, len, none, 0, 0, by simp, by simp⟩

/-- One data byte and the spare bytes of two pages. -/
def spareWrite : MtdWrite :=
  .oob 0 ⟨.placeOob, some fun _ => 0, 1, some fun _ => 0, 2, 0,
    fun h => absurd h (Option.some_ne_none _), fun h => absurd h (Option.some_ne_none _)⟩

def smallMtd : Mtd := ⟨smallWorld, fun _ => 0⟩

/-- The instance after twenty bytes were written to the second page. -/
def staleMtd : Mtd :=
  ((plainWrite 64 20 0x55).run (smallGeometry false) smallDevice smallInfo smallMtd).m

set_option maxRecDepth 100000 in
/-- A write of ten bytes programs bytes of the write before it, and a request whose
spare bytes go on after its data programs data on the second page. -/
theorem write_programs_stale_bytes :
    ((plainWrite 0 10 0).run (smallGeometry false) smallDevice smallInfo staleMtd).tries.map
        (fun t => (t.passed, t.data.map fun d => d 10)) = [(true, some 0x55)] ∧
      (spareWrite.run (smallGeometry false) smallDevice smallInfo smallMtd).tries.map
        (fun t => (t.passed, t.data.isSome)) = [(true, true), (true, true)] ∧
      ¬ (plainWrite 0 10 0).Exact (smallGeometry false) smallInfo staleMtd ∧
      ¬ spareWrite.Exact (smallGeometry false) smallInfo smallMtd := by
  obtain ⟨hplain, hspare⟩ : ((plainWrite 0 10 0).run (smallGeometry false) smallDevice smallInfo
        staleMtd).tries.map (fun t => (t.passed, t.data.map fun d => d 10)) =
          [(true, some 0x55)] ∧
      (spareWrite.run (smallGeometry false) smallDevice smallInfo smallMtd).tries.map
        (fun t => (t.passed, t.data.isSome)) = [(true, true), (true, true)] := by
    decide +kernel
  refine ⟨hplain, hspare, fun hexact => ?_, fun hexact => ?_⟩
  · have hpage := congrArg (fun l => l[0]?) hplain
    simp only [List.getElem?_map, List.getElem?_cons_zero, Option.map_eq_some_iff,
      Prod.mk.injEq] at hpage
    obtain ⟨t, ht, hpassed, d, hd, hbyte⟩ := hpage
    have hcarries := (hexact smallDevice 0 t ht hpassed).data
    rw [hd] at hcarries
    have hshow := hcarries.2 10 (by decide)
    rw [hbyte] at hshow
    revert hshow
    decide
  · have hpage := congrArg (fun l => l[1]?) hspare
    simp only [List.getElem?_map, List.getElem?_cons_succ, List.getElem?_cons_zero,
      Option.map_eq_some_iff, Prod.mk.injEq] at hpage
    obtain ⟨t, ht, hpassed, hsome⟩ := hpage
    have hcarries := (hexact smallDevice 1 t ht hpassed).data
    obtain ⟨d, hd⟩ := Option.isSome_iff_exists.mp hsome
    rw [hd] at hcarries
    obtain ⟨i, -, h₁, h₂⟩ := hcarries.1
    revert h₁ h₂
    simp [MtdWrite.data, spareWrite, smallGeometry]

end Results

end Speedway.Nmbm
