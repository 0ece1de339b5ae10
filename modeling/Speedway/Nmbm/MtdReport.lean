import Speedway.Nmbm.MtdExact

/-!
# Honest lengths

The data-only path reports the bytes on the pages that were programmed. The
other two loops count a page before they write it, the panic loop drops the
result of its page writes, and both cut the address of the request to 32 bits.
-/

namespace Speedway.Nmbm

open Speedway.Lib

/-- The requested bytes of a stream on programmed pages, the pages from `k` on. -/
def programmedFrom (p : Paging) : Nat → List PageTry → Nat
  | _, [] => 0
  | k, t :: ts =>
      (if t.ok then (List.range p.size).countP (fun i => p.Requested k i) else 0) +
        programmedFrom p (k + 1) ts

section Report

variable {g : Geometry} {dev : Device} {p : Paging} {base k off pos remain : Nat} {data : Mem}
  {w₀ w : World}

/-- The page with index `j` is programmed. -/
def Programmed (tries : List PageTry) (j : Nat) : Prop := ∃ t, tries[j]? = some t ∧ t.ok = true

/-- The pages a condition asks for, when one more page is written first. -/
theorem programmed_cons_iff {P : Nat → Prop} {t : PageTry} {ts : List PageTry} {k : Nat} :
    (∀ j, P (k + j) → Programmed (t :: ts) j) ↔
      (P k → t.ok = true) ∧ ∀ j, P (k + 1 + j) → Programmed ts j := by
  constructor
  · intro h
    refine ⟨fun hk => by simpa [Programmed] using h 0 hk, fun j hj => ?_⟩
    rw [show k + 1 + j = k + (j + 1) by omega] at hj
    simpa [Programmed] using h (j + 1) hj
  · rintro ⟨hfirst, hrest⟩ j hj
    cases j with
    | zero => simpa [Programmed] using hfirst hj
    | succ j =>
        rw [show k + (j + 1) = k + 1 + j by omega] at hj
        simpa [Programmed] using hrest j hj

/-- The same for the pages on which a write may fail. -/
theorem failed_cons_iff {P : Nat → Prop} {t₀ : PageTry} {ts : List PageTry} {k : Nat} :
    (∀ j t, (t₀ :: ts)[j]? = some t → t.ok = false → ¬ P (k + j)) ↔
      (t₀.ok = false → ¬ P k) ∧ ∀ j t, ts[j]? = some t → t.ok = false → ¬ P (k + 1 + j) := by
  constructor
  · intro h
    refine ⟨h 0 t₀ rfl, fun j t ht hfail => ?_⟩
    rw [show k + 1 + j = k + (j + 1) by omega]
    exact h (j + 1) t ht hfail
  · rintro ⟨hfirst, hrest⟩ j t ht hfail
    cases j with
    | zero =>
        rw [List.getElem?_cons_zero, Option.some.injEq] at ht
        exact hfirst (ht ▸ hfail)
    | succ j =>
        rw [show k + (j + 1) = k + 1 + j by omega]
        exact hrest j t ht hfail

/-- What `nmbm_write_range` reports. -/
theorem writeRangeLoop_report (dev : Device) (hp : p.size = g.writesize) (hcol : p.col < p.size)
    (hbase : base % g.writesize = 0) {fuel : Nat}
    (h : RangeAt g p base data w₀ k off pos remain w) (hfuel : remain ≤ fuel) :
    (writeRangeLoop g dev data fuel off pos remain w).2.1 ≤ p.len ∧
    p.len - (writeRangeLoop g dev data fuel off pos remain w).2.1 =
      p.consumed k + programmedFrom p k (writeRangeTries g dev data fuel off pos remain w) ∧
    ((writeRangeLoop g dev data fuel off pos remain w).1 = 0 →
      ∀ j, p.consumed (k + j) < p.len →
        Programmed (writeRangeTries g dev data fuel off pos remain w) j) := by
  induction fuel generalizing k off pos remain w with
  | zero =>
      have hremain := h.remain
      have hle := Paging.consumed_le (p := p) k
      simp only [writeRangeLoop, writeRangeTries, programmedFrom]
      exact ⟨by omega, by omega, fun _ j hj => absurd hj (Paging.not_consumed_lt (by omega) j)⟩
  | succ fuel ih =>
      have hremain := h.remain
      have hle := Paging.consumed_le (p := p) k
      simp only [writeRangeLoop, writeRangeTries]
      by_cases hzero : remain = 0
      · rw [if_pos hzero, if_pos hzero]
        simp only [programmedFrom]
        exact ⟨by omega, by omega, fun _ j hj => absurd hj (Paging.not_consumed_lt (by omega) j)⟩
      · rw [if_neg hzero, if_neg hzero]
        have hmore : p.consumed k < p.len := by omega
        have hpos := Paging.chunk_pos hcol hmore
        have hadd := Paging.consumed_add_chunk hcol k
        rw [(h.offsets hp hcol hbase hmore).2.2]
        by_cases hok : (writeChunk g dev data off pos (p.chunk k) w).1 = 0
        · have hnext := h.next hp hcol hbase hmore hok
          have hnextRemain := hnext.remain
          rw [if_neg (not_not.mpr hok), if_neg (not_not.mpr hok)]
          obtain ⟨h₁, h₂, h₃⟩ := ih hnext (by omega)
          refine ⟨h₁, ?_, fun hret => ?_⟩
          · simp only [programmedFrom, logicTry, hok, decide_true, if_true]
            rw [h₂, Paging.countP_requested hcol]
            omega
          · exact (programmed_cons_iff (P := fun i => p.consumed i < p.len)).mpr
              ⟨fun _ => by simp [logicTry, hok], h₃ hret⟩
        · rw [if_pos hok, if_pos hok]
          refine ⟨show remain ≤ p.len by omega, ?_, fun hret => absurd hret hok⟩
          show p.len - remain = _
          simp only [programmedFrom, logicTry, hok, decide_false, Bool.false_eq_true, if_false]
          omega

variable {pd po : Paging} {ops : OobOps} {maxooblen : Nat} {s : WriteState}

/-- What `nmbm_mtd_write_data` reports: a page that fails is counted. -/
theorem writeDataLoop_report (dev : Device) (hs : Streams g ops maxooblen pd po) {fuel : Nat}
    (h : DataAt g pd po base w₀ k s) (hfuel : s.len + s.ooblen ≤ fuel) :
    ((writeDataLoop g dev ops maxooblen fuel s).state.retlen =
        pd.consumed k + programmedFrom pd k (writeDataLoop g dev ops maxooblen fuel s).tries ↔
      ∀ j t, (writeDataLoop g dev ops maxooblen fuel s).tries[j]? = some t → t.ok = false →
        ¬ pd.consumed (k + j) < pd.len) ∧
    ((writeDataLoop g dev ops maxooblen fuel s).ret = 0 →
      ∀ j, pd.consumed (k + j) < pd.len ∨ po.consumed (k + j) < po.len →
        Programmed (writeDataLoop g dev ops maxooblen fuel s).tries j) := by
  -- nothing is left of either stream
  have hdone {k : Nat} {s : WriteState} (h : DataAt g pd po base w₀ k s)
      (hzero : s.len = 0 ∧ s.ooblen = 0) (j : Nat) :
      ¬ (pd.consumed (k + j) < pd.len ∨ po.consumed (k + j) < po.len) := by
    have hlen := h.len
    have hooblen := h.ooblen
    exact not_or.mpr ⟨Paging.not_consumed_lt (by omega) j, Paging.not_consumed_lt (by omega) j⟩
  induction fuel generalizing k s with
  | zero =>
      have hzero : s.len = 0 ∧ s.ooblen = 0 := by omega
      rw [writeDataLoop_done _ _ hzero]
      refine ⟨?_, fun _ j hj => absurd hj (hdone h hzero j)⟩
      simp [programmedFrom, h.retlen]
  | succ fuel ih =>
      by_cases hzero : s.len = 0 ∧ s.ooblen = 0
      · rw [writeDataLoop_done _ _ hzero]
        refine ⟨?_, fun _ j hj => absurd hj (hdone h hzero j)⟩
        simp [programmedFrom, h.retlen]
      · have hadd := Paging.consumed_add_chunk hs.col k
        rw [writeDataLoop_succ _ _ hzero]
        dsimp only
        by_cases hok : (pageResult g dev ops maxooblen s).1 = 0
        · obtain ⟨hnext, -⟩ := h.written hs hok
          have hshrinks := h.shrinks hs hnext hzero
          rw [if_neg (not_not.mpr hok)]
          obtain ⟨h₁, h₂⟩ := ih hnext (by omega)
          refine ⟨?_, fun hret => (programmed_cons_iff
            (P := fun i => pd.consumed i < pd.len ∨ po.consumed i < po.len)).mpr
            ⟨fun _ => by simp [dataTry, singleTry, hok], h₂ hret⟩⟩
          dsimp only
          rw [failed_cons_iff (P := fun i => pd.consumed i < pd.len), ← h₁]
          simp only [programmedFrom, dataTry, singleTry, hok, decide_true, if_true]
          rw [Paging.countP_requested hs.col, ← Nat.add_assoc, hadd]
          simp
        · rw [if_pos hok]
          refine ⟨?_, fun hret => absurd hret hok⟩
          have hret : (movePage g ops maxooblen s).retlen = pd.consumed (k + 1) :=
            (h.next hs (w := w₀) rfl).retlen
          dsimp only
          rw [failed_cons_iff (P := fun i => pd.consumed i < pd.len)]
          simp only [programmedFrom, dataTry, singleTry, hok, decide_false, Bool.false_eq_true,
            if_false]
          constructor
          · intro heq
            refine ⟨fun _ hlt => ?_, fun j t ht => absurd ht (by simp)⟩
            have := Paging.chunk_pos hs.col hlt
            omega
          · rintro ⟨hend, -⟩
            have hchunk : pd.chunk k = 0 := by
              have := hend trivial
              simp only [Paging.chunk]
              omega
            omega

theorem movePage_retlen (ops : OobOps) (maxooblen : Nat) (s : WriteState) :
    (movePage g ops maxooblen s).retlen + (movePage g ops maxooblen s).len = s.retlen + s.len ∧
      (movePage g ops maxooblen s).retlen =
        s.retlen + if s.len = 0 then 0 else min (g.writesize - s.col) s.len := by
  obtain ⟨hlen, hretlen, -⟩ := moveOob_main (g := g) maxooblen (ops.oobbuf.getD fun _ => 0)
    (Nmbm.moveData g (ops.datbuf.getD fun _ => 0) s)
  rw [movePage, hlen, hretlen]
  simp only [Nmbm.moveData]
  split
  · exact ⟨rfl, rfl⟩
  · refine ⟨?_, rfl⟩
    dsimp only
    omega

/-- The reported length never exceeds the request. -/
theorem writeDataLoop_retlen_le (dev : Device) (ops : OobOps) (maxooblen fuel : Nat)
    (s : WriteState) : s.retlen ≤ (writeDataLoop g dev ops maxooblen fuel s).state.retlen ∧
      (writeDataLoop g dev ops maxooblen fuel s).state.retlen ≤ s.retlen + s.len := by
  induction fuel generalizing s with
  | zero => exact ⟨le_refl _, Nat.le_add_right ..⟩
  | succ fuel ih =>
      by_cases hzero : s.len = 0 ∧ s.ooblen = 0
      · rw [writeDataLoop_done _ _ hzero]
        exact ⟨le_refl _, Nat.le_add_right ..⟩
      · obtain ⟨hsum, hmove⟩ := movePage_retlen (g := g) ops maxooblen s
        rw [writeDataLoop_succ _ _ hzero]
        dsimp only
        split
        · dsimp only
          omega
        · obtain ⟨h₁, h₂⟩ := ih (nextPage g dev ops maxooblen s)
          dsimp only [nextPage] at h₁ h₂ ⊢
          omega

/-- Data bytes are counted before their page is written. -/
theorem writeDataLoop_retlen_pos (dev : Device) (ops : OobOps) (maxooblen fuel : Nat)
    {s : WriteState} (hlen : s.len ≠ 0) (hcol : s.col < g.writesize) :
    0 < (writeDataLoop g dev ops maxooblen (fuel + 1) s).state.retlen := by
  have hmove := (movePage_retlen (g := g) ops maxooblen s).2
  rw [if_neg hlen] at hmove
  rw [writeDataLoop_succ _ _ fun h => hlen h.1]
  dsimp only
  split
  · dsimp only
    omega
  · have h := (writeDataLoop_retlen_le (g := g) dev ops maxooblen fuel
      (nextPage g dev ops maxooblen s)).1
    dsimp only [nextPage] at h ⊢
    omega

/-- The loop returns the result of the page that failed. -/
theorem writeDataLoop_ret_iff (dev : Device) (ops : OobOps) (maxooblen fuel : Nat)
    (s : WriteState) : (writeDataLoop g dev ops maxooblen fuel s).ret = 0 ↔
      false ∉ (writeDataLoop g dev ops maxooblen fuel s).tries.map PageTry.ok := by
  induction fuel generalizing s with
  | zero => simp [writeDataLoop]
  | succ fuel ih =>
      by_cases hzero : s.len = 0 ∧ s.ooblen = 0
      · simp [writeDataLoop_done _ _ hzero]
      · rw [writeDataLoop_succ _ _ hzero]
        dsimp only
        split
        next hfail => simp [dataTry, singleTry, hfail]
        next hok =>
          rw [ne_eq, not_not] at hok
          simp only [List.map_cons, dataTry, singleTry, hok, decide_true, List.mem_cons,
            Bool.false_eq_true, false_or]
          exact ih _

variable {len col toAddr wrlen : Nat} {buf : Mem} {m : Mtd}

/-- What `nmbm_mtd_panic_write` reports: always success. -/
theorem panicWriteLoop_report (dev : Device) (hp : p.size = g.writesize) (hcol : p.col < p.size)
    {fuel : Nat}
    (h : PanicAt g p base k len col toAddr wrlen) (hfuel : len ≤ fuel) :
    (panicWriteLoop g dev buf fuel len col toAddr wrlen m).ret = 0 ∧
    ((∀ t ∈ (panicWriteLoop g dev buf fuel len col toAddr wrlen m).tries, t.ok = true) →
      (panicWriteLoop g dev buf fuel len col toAddr wrlen m).retlen = p.consumed k +
        programmedFrom p k (panicWriteLoop g dev buf fuel len col toAddr wrlen m).tries ∧
      ∀ j, p.consumed (k + j) < p.len →
        Programmed (panicWriteLoop g dev buf fuel len col toAddr wrlen m).tries j) := by
  induction fuel generalizing k len col toAddr wrlen m with
  | zero =>
      have hlen := h.len
      refine ⟨rfl, fun _ => ⟨?_, fun j hj => absurd hj (Paging.not_consumed_lt (by omega) j)⟩⟩
      simp [panicWriteLoop, programmedFrom, h.wrlen]
  | succ fuel ih =>
      have hlen := h.len
      simp only [panicWriteLoop]
      by_cases hzero : len = 0
      · rw [if_pos hzero]
        refine ⟨rfl, fun _ => ⟨?_, fun j hj => absurd hj (Paging.not_consumed_lt (by omega) j)⟩⟩
        simp [programmedFrom, h.wrlen]
      · rw [if_neg hzero]
        have hmore : p.consumed k < p.len := by omega
        have hadd := Paging.consumed_add_chunk hcol k
        have hpos := Paging.chunk_pos hcol hmore
        obtain ⟨hchunk, hnext⟩ := h.next hp hcol hmore
        rw [hchunk]
        split
        · next hfail =>
            refine ⟨rfl, fun hall => ?_⟩
            have := hall _ (List.mem_singleton.mpr rfl)
            simp only [panicTry, decide_eq_true_eq] at this
            exact absurd this hfail
        · next hok =>
            rw [ne_eq, not_not] at hok
            have hlen' := hnext.len
            obtain ⟨h₁, h₂⟩ := ih (m := ⟨(panicWriteSinglePage g dev toAddr
              (panicPage g m.cache buf col (p.chunk k) wrlen) m.w).2,
              panicPage g m.cache buf col (p.chunk k) wrlen⟩) hnext (by omega)
            refine ⟨h₁, fun hall => ?_⟩
            obtain ⟨hret, hprog⟩ := h₂ fun t ht => hall t (List.mem_cons_of_mem _ ht)
            refine ⟨?_, (programmed_cons_iff (P := fun i => p.consumed i < p.len)).mpr
              ⟨fun _ => by simp [panicTry, hok], hprog⟩⟩
            simp only [programmedFrom, panicTry, hok, decide_true, if_true]
            rw [hret, Paging.countP_requested hcol]
            omega

end Report

section Requests

variable (g : Geometry) (info : MtdInfo g)

/-- Page `k` of the request has bytes. -/
def MtdWrite.Requests (req : MtdWrite) (k : Nat) : Prop :=
  (∃ i, i < (req.data g).1.size ∧ (req.data g).1.Requested k i) ∨
    ∃ i, i < (req.spare g info).1.size ∧ (req.spare g info).1.Requested k i

/-- The page writes of a request, where only one at the requested address counts as
programmed. -/
def MtdWrite.placed (req : MtdWrite) (tries : List PageTry) : List PageTry :=
  tries.mapIdx fun k t => { t with ok := t.ok && decide (t.addr = req.pageAddr g k) }

/-- The result of a write call is honest: success only if every page of the request
is programmed, and the length of the data on programmed pages. -/
structure MtdWrite.Honest (req : MtdWrite) (res : MtdResult) : Prop where
  complete : res.ret = 0 → ∀ k, req.Requests g info k → Programmed (req.placed g res.tries) k
  retlen : res.retlen = programmedFrom (req.data g).1 0 (req.placed g res.tries)

/-- The request goes through `nmbm_write_range`. -/
def MtdWrite.dataOnly : MtdWrite → Bool
  | .oob _ ops => ops.oobbuf.isNone
  | .panic _ _ _ => false

/-- The page cache when page `k` of a request is handed down. -/
def MtdWrite.image (k : Nat) (cache : Mem) (req : MtdWrite) : Mem :=
  let pd := (req.data g).1
  let po := (req.spare g info).1
  match req with
  | .panic _ _ buf => panicPage g cache buf (pd.column k) (pd.chunk k) (pd.consumed k)
  | .oob _ _ =>
      let main := if k < pd.pages then
          fillArea cache 0 g.writesize (pd.column k) ((req.data g).2.shift (pd.consumed k))
            (pd.chunk k)
        else cache
      if k < po.pages then
        fillArea main g.writesize g.oobsize (po.column k)
          ((req.spare g info).2.shift (po.consumed k)) (po.chunk k)
      else main

def MtdWrite.toAddr : MtdWrite → Nat
  | .oob toAddr _ | .panic toAddr _ _ => toAddr

/-- The lower layer writes page `k` of a request that goes through a page loop. -/
def MtdWrite.writePage (dev : Device) (req : MtdWrite) (k : Nat) (m : Mtd) : Int × Mtd :=
  let cache := req.image g info k m.cache
  let addr := pageStart g req.toAddr + k * g.writesize
  let r := match req with
    | .panic _ _ _ => panicWriteSinglePage g dev addr cache m.w
    | .oob _ ops => writeSinglePage g dev addr
        (if ops.len ≠ 0 then some cache else none)
        (if ops.ooblen ≠ 0 then some (cache.shift g.writesize) else none) m.w
  (r.1, ⟨r.2, cache⟩)

/-- Which pages from `k` on the lower layer programs, up to the first failure. -/
def pageLog (write : Nat → Mtd → Int × Mtd) : Nat → Nat → Mtd → List Bool
  | 0, _, _ => []
  | n + 1, k, m =>
      if (write k m).1 = 0 then true :: pageLog write n (k + 1) (write k m).2 else [false]

/-- The request passes the tests before the first page. -/
def MtdWrite.accepted : MtdWrite → Bool
  | .oob toAddr ops => (mtdWriteCheck g info toAddr ops).isNone
  | .panic _ _ _ => true

/-- What the lower layer does with the pages of a request, up to the first failure. -/
def MtdWrite.lowerLog (dev : Device) (m : Mtd) (req : MtdWrite) : List Bool :=
  pageLog (req.writePage g info dev) (max (req.data g).1.pages (req.spare g info).1.pages) 0 m

/-- The lower layer fails on a page of the request that has data. -/
def MtdWrite.DataFails (dev : Device) (m : Mtd) (req : MtdWrite) : Prop :=
  req.accepted g info = true ∧ ∃ k, k < (req.data g).1.pages ∧
    (req.lowerLog g info dev m)[k]? = some false

/-- The address of the request does not fit 32 bits, and bytes are reported as written
all the same: data always, spare bytes alone if no page fails. -/
def MtdWrite.Misplaced (dev : Device) (m : Mtd) (req : MtdWrite) : Prop :=
  req.accepted g info = true ∧ 2 ^ 32 ≤ req.toAddr ∧ ((req.data g).1.len ≠ 0 ∨
    (req.spare g info).1.len ≠ 0 ∧ false ∉ req.lowerLog g info dev m)

end Requests

section Results

variable {g : Geometry} {info : MtdInfo g} {toAddr : Nat} {ops : OobOps} {m : Mtd} {dev : Device}

/-- Pages at the requested addresses. -/
theorem placed_eq {req : MtdWrite} {tries : List PageTry}
    (h : ∀ k t, tries[k]? = some t → t.addr = req.pageAddr g k) : req.placed g tries = tries := by
  apply List.ext_getElem?
  intro k
  rw [MtdWrite.placed, List.getElem?_mapIdx]
  cases ht : tries[k]? with
  | none => rfl
  | some t =>
      have hok : (t.ok && decide (t.addr = req.pageAddr g k)) = t.ok := by
        rw [decide_eq_true (h k t ht), Bool.and_true]
      simp only [Option.map_some, hok]

theorem programmedFrom_of_failed {p : Paging} {k : Nat} {tries : List PageTry}
    (h : ∀ t ∈ tries, t.ok = false) : programmedFrom p k tries = 0 := by
  induction tries generalizing k with
  | nil => rfl
  | cons t tries ih =>
      rw [programmedFrom, h t List.mem_cons_self, ih fun t ht => h t (List.mem_cons_of_mem _ ht)]
      rfl

/-- Pages that a loop has put at other addresses than the requested ones. -/
theorem placed_failed {req : MtdWrite} {tries : List PageTry} (hge : 2 ^ 32 ≤ req.toAddr)
    (h : ∀ k t, tries[k]? = some t → t.addr = pageStart g req.toAddr + k * g.writesize) :
    ∀ t ∈ req.placed g tries, t.ok = false := by
  intro t' ht'
  obtain ⟨k, hk⟩ := List.getElem?_of_mem ht'
  rw [MtdWrite.placed, List.getElem?_mapIdx, Option.map_eq_some_iff] at hk
  obtain ⟨t, ht, rfl⟩ := hk
  have hne : t.addr ≠ req.pageAddr g k := by
    rw [h k t ht]
    have hstart : pageStart g req.toAddr ≠ req.toAddr - req.toAddr % g.writesize :=
      mt pageStart_eq_iff.mp (by omega)
    cases req with
    | oob toAddr ops =>
        rw [MtdWrite.pageAddr, Ne, Nat.add_right_cancel_iff]
        exact hstart
    | panic toAddr len buf =>
        rw [MtdWrite.pageAddr, Ne, Nat.add_right_cancel_iff]
        exact hstart
  simp [hne]

theorem programmed_of_placed {req : MtdWrite} {tries : List PageTry} {k : Nat}
    (h : Programmed (req.placed g tries) k) : Programmed tries k := by
  obtain ⟨t', ht', hok⟩ := h
  rw [MtdWrite.placed, List.getElem?_mapIdx, Option.map_eq_some_iff] at ht'
  obtain ⟨t, ht, rfl⟩ := ht'
  exact ⟨t, ht, (Bool.and_eq_true _ _ ▸ hok).1⟩

theorem not_programmed_of_failed {tries : List PageTry} (h : ∀ t ∈ tries, t.ok = false) (k : Nat) :
    ¬ Programmed tries k := by
  rintro ⟨t, ht, hok⟩
  rw [h t (List.mem_of_getElem? ht)] at hok
  exact absurd hok Bool.false_ne_true

/-- When all pages are at the requested addresses, their log tells what is honest. -/
theorem honest_iff_of_addr {req : MtdWrite} {res : MtdResult}
    (h : ∀ k t, res.tries[k]? = some t → t.addr = req.pageAddr g k) :
    req.Honest g info res ↔
      (res.ret = 0 → ∀ k, req.Requests g info k → Programmed res.tries k) ∧
        res.retlen = programmedFrom (req.data g).1 0 res.tries := by
  have hplaced := placed_eq h
  constructor
  · rintro ⟨hcomplete, hretlen⟩
    rw [hplaced] at hcomplete hretlen
    exact ⟨hcomplete, hretlen⟩
  · rintro ⟨hcomplete, hretlen⟩
    refine ⟨?_, ?_⟩
    · rw [hplaced]
      exact hcomplete
    · rw [hplaced]
      exact hretlen

/-- When the pages are at cut addresses, nothing may be reported. -/
theorem honest_iff_of_cut {req : MtdWrite} {res : MtdResult} (hge : 2 ^ 32 ≤ req.toAddr)
    (h : ∀ k t, res.tries[k]? = some t → t.addr = pageStart g req.toAddr + k * g.writesize) :
    req.Honest g info res ↔
      (res.ret = 0 → ∀ k, ¬ req.Requests g info k) ∧ res.retlen = 0 := by
  have hfailed := placed_failed hge h
  constructor
  · rintro ⟨hcomplete, hretlen⟩
    rw [programmedFrom_of_failed hfailed] at hretlen
    exact ⟨fun hret k hreq => not_programmed_of_failed hfailed k (hcomplete hret k hreq), hretlen⟩
  · rintro ⟨hcomplete, hretlen⟩
    refine ⟨fun hret k hreq => absurd hreq (hcomplete hret k), ?_⟩
    rw [programmedFrom_of_failed hfailed]
    exact hretlen

/-- `nmbm_mtd_write_oob` returns 0 without a page write only for an empty request. -/
theorem mtdWriteCheck_zero (h : mtdWriteCheck g info toAddr ops = some 0) :
    ops.len = 0 ∧ ops.ooblen = 0 := by
  simp only [mtdWriteCheck] at h
  split at h
  · next hnone =>
      exact ⟨ops.noData (by simpa using hnone.2), ops.noOob (by simpa using hnone.1)⟩
  · exfalso
    revert h
    repeat' split
    all_goals simp [eNotSupp, eInval]

/-- The data-only path reports honestly. -/
theorem honest_range (hcheck : mtdWriteCheck g info toAddr ops = none)
    (hoob : ops.oobbuf.isNone = true) :
    (MtdWrite.oob toAddr ops).Honest g info (mtdWriteOob g dev info toAddr ops m) := by
  obtain ⟨hp, hcol⟩ := data_col_lt (g := g) (.oob toAddr ops)
  have hnoOob : ((MtdWrite.oob toAddr ops).spare g info).1.len = 0 :=
    ops.noOob (Option.isNone_iff_eq_none.mp hoob)
  have hres : mtdWriteOob g dev info toAddr ops m =
      let data := ((MtdWrite.oob toAddr ops).data g).2
      let r := writeRange g dev toAddr ops.len data m.w
      ⟨r.1, r.2.1, { m with w := r.2.2 }, writeRangePages g dev toAddr ops.len data m.w⟩ := by
    rw [mtdWriteOob, hcheck]
    dsimp only
    rw [if_pos hoob]
    rfl
  rw [hres]
  simp only [writeRange, writeRangePages]
  split
  · exact ⟨fun hret => absurd hret (show ¬ -eRofs = 0 by decide), rfl⟩
  split
  · exact ⟨fun hret => absurd hret (show ¬ -eInval = 0 by decide), rfl⟩
  split
  · next hzero =>
      refine ⟨fun _ k hreq => ?_, rfl⟩
      rcases hreq with hreq | hreq
      · exact absurd hreq (not_requested_of_len hzero k)
      · exact absurd hreq (not_requested_of_len hnoOob k)
  · obtain ⟨-, hretlen, hcomplete⟩ := writeRangeLoop_report dev hp hcol
      (pageBase_mod g toAddr) (rangeAt_start toAddr ops m.w) (le_refl _)
    rw [Paging.consumed_zero, Nat.zero_add] at hretlen
    refine (honest_iff_of_addr fun k t ht => ?_).mpr ⟨fun hret k hreq => ?_, hretlen⟩
    · have htry := (writeRangeTries_spec hp hcol (pageBase_mod g toAddr)
        (rangeAt_start toAddr ops m.w) ht).1
      rw [Nat.zero_add] at htry
      exact htry.addr
    rcases hreq with hreq | hreq
    · rw [Paging.exists_requested_iff hcol] at hreq
      exact hcomplete hret k (by rw [Nat.zero_add]; exact hreq)
    · exact absurd hreq (not_requested_of_len hnoOob k)

/-- The log of the panic loop is that of the lower layer. -/
theorem panicWriteLoop_log (info : MtdInfo g) (dev : Device)
    {toAddr₀ len₀ k len col wrlen fuel : Nat} {buf : Mem}
    (h : PanicAt g ((MtdWrite.panic toAddr₀ len₀ buf).data g).1 (pageStart g toAddr₀)
      k len col toAddr wrlen) (hfuel : len ≤ fuel) :
    (panicWriteLoop g dev buf fuel len col toAddr wrlen m).tries.map PageTry.ok =
      pageLog ((MtdWrite.panic toAddr₀ len₀ buf).writePage g info dev)
        (((MtdWrite.panic toAddr₀ len₀ buf).data g).1.pages - k) k m := by
  obtain ⟨hp, hcol⟩ := data_col_lt (g := g) (.panic toAddr₀ len₀ buf)
  induction fuel generalizing k len col toAddr wrlen m with
  | zero =>
      have hlen := h.len
      have hpages := Paging.consumed_lt_iff hcol (k := k)
      rw [Nat.sub_eq_zero_of_le (by omega)]
      rfl
  | succ fuel ih =>
      have hlen := h.len
      have hpages := Paging.consumed_lt_iff hcol (k := k)
      simp only [panicWriteLoop]
      by_cases hzero : len = 0
      · rw [if_pos hzero, Nat.sub_eq_zero_of_le (by omega)]
        rfl
      · have hmore : ((MtdWrite.panic toAddr₀ len₀ buf).data g).1.consumed k <
            ((MtdWrite.panic toAddr₀ len₀ buf).data g).1.len := by omega
        have hpos := Paging.chunk_pos hcol hmore
        obtain ⟨hchunk, hnext⟩ := h.next hp hcol hmore
        have himage : panicPage g m.cache buf col
            (((MtdWrite.panic toAddr₀ len₀ buf).data g).1.chunk k) wrlen =
            ((MtdWrite.panic toAddr₀ len₀ buf).writePage g info dev k m).2.cache := by
          rw [h.col hmore, h.wrlen]
          rfl
        have hcall : panicWriteSinglePage g dev toAddr
            ((MtdWrite.panic toAddr₀ len₀ buf).writePage g info dev k m).2.cache m.w =
            (((MtdWrite.panic toAddr₀ len₀ buf).writePage g info dev k m).1,
              ((MtdWrite.panic toAddr₀ len₀ buf).writePage g info dev k m).2.w) := by
          rw [h.toAddr]
          rfl
        rw [if_neg hzero, hchunk, himage, hcall,
          show ((MtdWrite.panic toAddr₀ len₀ buf).data g).1.pages - k =
            ((MtdWrite.panic toAddr₀ len₀ buf).data g).1.pages - (k + 1) + 1 by omega]
        simp only [pageLog]
        by_cases hok : ((MtdWrite.panic toAddr₀ len₀ buf).writePage g info dev k m).1 = 0
        · rw [if_neg (not_not.mpr hok), if_pos hok, List.map_cons]
          simp only [panicTry, hok, decide_true]
          exact congrArg _ (ih hnext (by omega))
        · rw [if_pos hok, if_neg hok]
          simp [panicTry, hok]

/-- The page of a round of `nmbm_mtd_write_data`. -/
theorem DataAt.image {req : MtdWrite} (hreq : req = .oob toAddr ops) {k base : Nat} {w₀ : World}
    {s : WriteState}
    (hs : Streams g ops (info.oobAvail ops.mode) (req.data g).1 (req.spare g info).1)
    (h : DataAt g (req.data g).1 (req.spare g info).1 base w₀ k s) :
    (movePage g ops (info.oobAvail ops.mode) s).cache = req.image g info k s.cache := by
  obtain ⟨hooblen, hoobret, hooboffs⟩ := moveData_spare (g := g) (ops.datbuf.getD fun _ => 0) s
  rw [movePage, moveOob_cache _ hs.oobsize hs.ooboffs (hooblen.trans h.ooblen)
    (hoobret.trans h.oobretlen) (fun hlt => hooboffs.trans (h.ooboffs hlt)),
    h.moveData_cache _ hs.size hs.col]
  subst hreq
  rfl

/-- A round writes its page as the lower layer does. -/
theorem DataAt.writePage (dev : Device) {req : MtdWrite} (hreq : req = .oob toAddr ops) {k : Nat}
    {w₀ : World} {s : WriteState}
    (hs : Streams g ops (info.oobAvail ops.mode) (req.data g).1 (req.spare g info).1)
    (h : DataAt g (req.data g).1 (req.spare g info).1 (pageStart g toAddr) w₀ k s) :
    (pageResult g dev ops (info.oobAvail ops.mode) s).1 =
        (req.writePage g info dev k ⟨s.w, s.cache⟩).1 ∧
      ⟨(nextPage g dev ops (info.oobAvail ops.mode) s).w,
        (nextPage g dev ops (info.oobAvail ops.mode) s).cache⟩ =
        (req.writePage g info dev k ⟨s.w, s.cache⟩).2 := by
  obtain ⟨haddr, hw⟩ := movePage_frame (g := g) ops (info.oobAvail ops.mode) s
  simp only [nextPage, pageResult, pageData, pageOob, haddr, hw, h.addr, h.image hreq hs]
  subst hreq
  exact ⟨rfl, rfl⟩

/-- The log of `nmbm_mtd_write_data` is that of the lower layer. -/
theorem writeDataLoop_log (dev : Device) {req : MtdWrite} (hreq : req = .oob toAddr ops)
    {k fuel : Nat} {w₀ : World} {s : WriteState}
    (hs : Streams g ops (info.oobAvail ops.mode) (req.data g).1 (req.spare g info).1)
    (h : DataAt g (req.data g).1 (req.spare g info).1 (pageStart g toAddr) w₀ k s)
    (hfuel : s.len + s.ooblen ≤ fuel) :
    (writeDataLoop g dev ops (info.oobAvail ops.mode) fuel s).tries.map PageTry.ok =
      pageLog (req.writePage g info dev)
        (max (req.data g).1.pages (req.spare g info).1.pages - k) k ⟨s.w, s.cache⟩ := by
  induction fuel generalizing k s with
  | zero =>
      have hlen := h.len
      have hooblen := h.ooblen
      have hpages := Paging.consumed_lt_iff hs.col (k := k)
      have hoobpages := Paging.consumed_lt_iff hs.ooboffs (k := k)
      rw [Nat.sub_eq_zero_of_le (by omega)]
      rfl
  | succ fuel ih =>
      have hlen := h.len
      have hooblen := h.ooblen
      have hpages := Paging.consumed_lt_iff hs.col (k := k)
      have hoobpages := Paging.consumed_lt_iff hs.ooboffs (k := k)
      by_cases hzero : s.len = 0 ∧ s.ooblen = 0
      · rw [writeDataLoop_done _ _ hzero, Nat.sub_eq_zero_of_le (by omega)]
        rfl
      · obtain ⟨hcall, hworld⟩ := h.writePage dev hreq hs
        rw [writeDataLoop_succ _ _ hzero,
          show max (req.data g).1.pages (req.spare g info).1.pages - k =
            max (req.data g).1.pages (req.spare g info).1.pages - (k + 1) + 1 by omega, pageLog,
          ← hcall, ← hworld]
        dsimp only
        by_cases hok : (pageResult g dev ops (info.oobAvail ops.mode) s).1 = 0
        · obtain ⟨hnext, -⟩ := h.written hs hok
          have hshrinks := h.shrinks hs hnext hzero
          rw [if_neg (not_not.mpr hok), if_pos hok, List.map_cons, ih hnext (by omega)]
          simp only [dataTry, singleTry, hok, decide_true]
        · rw [if_pos hok, if_neg hok]
          simp [dataTry, singleTry, hok]

/-- A page of the log that the lower layer did not program. -/
theorem fails_of_log {tries : List PageTry} {log : List Bool} (h : tries.map PageTry.ok = log)
    {k : Nat} : log[k]? = some false ↔ ∃ t, tries[k]? = some t ∧ t.ok = false := by
  rw [← h, List.getElem?_map, Option.map_eq_some_iff]

/-- The panic loop reports honestly exactly when all its pages are programmed, at
the requested addresses. -/
theorem honest_panic_iff (toAddr len : Nat) (buf : Mem) :
    (MtdWrite.panic toAddr len buf).Honest g info
        ((MtdWrite.panic toAddr len buf).run g dev info m) ↔
      ¬ (MtdWrite.panic toAddr len buf).DataFails g info dev m ∧
        ¬ (MtdWrite.panic toAddr len buf).Misplaced g info dev m := by
  obtain ⟨hp, hcol⟩ := data_col_lt (g := g) (.panic toAddr len buf)
  obtain ⟨hret, hreport⟩ := panicWriteLoop_report (m := m) dev hp hcol
    (panicAt_start (g := g) toAddr len buf) (le_refl _)
  have hnoOob (k : Nat) := not_requested_of_len
    (show ((MtdWrite.panic toAddr len buf).spare g info).1.len = 0 from rfl) k
  have haddr (k : Nat) (t : PageTry)
      (ht : ((MtdWrite.panic toAddr len buf).run g dev info m).tries[k]? = some t) :
      t.addr = pageStart g toAddr + k * g.writesize := by
    have h := (panicWriteLoop_spec hp hcol (panicAt_start toAddr len buf) ht).2.1
    rwa [Nat.zero_add] at h
  have hlog : ((MtdWrite.panic toAddr len buf).run g dev info m).tries.map PageTry.ok =
      (MtdWrite.panic toAddr len buf).lowerLog g info dev m := by
    have hmax : max ((MtdWrite.panic toAddr len buf).data g).1.pages
        ((MtdWrite.panic toAddr len buf).spare g info).1.pages =
        ((MtdWrite.panic toAddr len buf).data g).1.pages - 0 := Nat.max_eq_left (Nat.zero_le _)
    rw [MtdWrite.lowerLog, hmax]
    exact panicWriteLoop_log (m := m) info dev (panicAt_start (g := g) toAddr len buf) (le_refl _)
  rcases Nat.lt_or_ge toAddr (2 ^ 32) with hlt | hge
  · have hplace : ¬ (MtdWrite.panic toAddr len buf).Misplaced g info dev m :=
      fun h => absurd h.2.1 (Nat.not_le.mpr hlt)
    rw [honest_iff_of_addr fun k t ht => by rw [haddr k t ht, pageStart_of_lt hlt]; rfl]
    constructor
    · rintro ⟨hcomplete, -⟩
      refine ⟨?_, hplace⟩
      rintro ⟨-, k, hk, hfalse⟩
      obtain ⟨t, ht, hfail⟩ := (fails_of_log hlog).mp hfalse
      rw [← Paging.consumed_lt_iff hcol, ← Paging.exists_requested_iff hcol] at hk
      obtain ⟨t', ht', hok⟩ := hcomplete hret k (.inl hk)
      rw [ht, Option.some.injEq] at ht'
      rw [← ht', hfail] at hok
      exact absurd hok Bool.false_ne_true
    · rintro ⟨hno, -⟩
      have hall : ∀ t ∈ ((MtdWrite.panic toAddr len buf).run g dev info m).tries,
          t.ok = true := by
        intro t ht
        obtain ⟨k, hk⟩ := List.getElem?_of_mem ht
        have hmore := (panicWriteLoop_spec hp hcol (panicAt_start toAddr len buf) hk).1
        rw [Nat.zero_add] at hmore
        by_contra hfail
        exact hno ⟨rfl, k, (Paging.consumed_lt_iff hcol).mp hmore,
          (fails_of_log hlog).mpr ⟨t, hk, by simpa using hfail⟩⟩
      obtain ⟨hretlen, hcomplete⟩ := hreport hall
      rw [Paging.consumed_zero, Nat.zero_add] at hretlen
      refine ⟨fun _ k hreq => ?_, hretlen⟩
      rcases hreq with hreq | hreq
      · rw [Paging.exists_requested_iff hcol] at hreq
        exact hcomplete k (by rw [Nat.zero_add]; exact hreq)
      · exact absurd hreq (hnoOob k)
  · have hcut : 2 ^ 32 ≤ (MtdWrite.panic toAddr len buf).toAddr := hge
    rw [honest_iff_of_cut hcut haddr]
    constructor
    · rintro ⟨hcomplete, -⟩
      have hzero : len = 0 := by
        by_contra hne
        refine hcomplete hret 0 (.inl ((Paging.exists_requested_iff hcol).mpr ?_))
        rw [Paging.consumed_zero]
        exact Nat.pos_of_ne_zero hne
      refine ⟨?_, ?_⟩
      · rintro ⟨-, k, hk, -⟩
        rw [← Paging.consumed_lt_iff hcol] at hk
        have hlen : ((MtdWrite.panic toAddr len buf).data g).1.len = 0 := hzero
        omega
      · rintro ⟨-, -, hdata | ⟨hspare, -⟩⟩
        · exact hdata hzero
        · exact hspare rfl
    · rintro ⟨-, hplace⟩
      have hzero : len = 0 := by
        by_contra hne
        exact hplace ⟨rfl, hge, .inl hne⟩
      subst hzero
      refine ⟨fun _ k hreq => ?_, rfl⟩
      rcases hreq with hreq | hreq
      · exact not_requested_of_len rfl k hreq
      · exact hnoOob k hreq

/-- The loop for requests with a spare buffer reports honestly exactly when no page
with data fails and the pages are at the requested addresses. -/
theorem honest_streams_iff (hcheck : mtdWriteCheck g info toAddr ops = none)
    (hoob : ops.oobbuf.isNone = false) :
    (MtdWrite.oob toAddr ops).Honest g info (mtdWriteOob g dev info toAddr ops m) ↔
      ¬ (MtdWrite.oob toAddr ops).DataFails g info dev m ∧
        ¬ (MtdWrite.oob toAddr ops).Misplaced g info dev m := by
  have hs := streams_of_check hcheck hoob
  have hstart := dataAt_start info toAddr ops m
  have haccepted : (MtdWrite.oob toAddr ops).accepted g info = true := by
    rw [MtdWrite.accepted, hcheck]
    rfl
  obtain ⟨hretlen, hcomplete⟩ := writeDataLoop_report dev hs hstart (le_refl _)
  simp only [Paging.consumed_zero, Nat.zero_add] at hretlen hcomplete
  have hlog : (mtdWriteData g dev info toAddr ops m).tries.map PageTry.ok =
      (MtdWrite.oob toAddr ops).lowerLog g info dev m :=
    writeDataLoop_log dev rfl hs hstart (le_refl _)
  have haddr (k : Nat) (t : PageTry)
      (ht : (mtdWriteData g dev info toAddr ops m).tries[k]? = some t) :
      t.addr = pageStart g toAddr + k * g.writesize := by
    have h := (writeDataLoop_spec hs hstart ht).1.addr
    rwa [Nat.zero_add] at h
  rw [mtdWriteOob_data hcheck hoob]
  rcases Nat.lt_or_ge toAddr (2 ^ 32) with hlt | hge
  · have hplace : ¬ (MtdWrite.oob toAddr ops).Misplaced g info dev m :=
      fun h => absurd h.2.1 (Nat.not_le.mpr hlt)
    rw [honest_iff_of_addr fun k t ht => by rw [haddr k t ht, pageStart_of_lt hlt]; rfl]
    constructor
    · rintro ⟨-, hhonest⟩
      refine ⟨?_, hplace⟩
      rintro ⟨-, k, hk, hfalse⟩
      obtain ⟨t, ht, hfail⟩ := (fails_of_log hlog).mp hfalse
      exact hretlen.mp hhonest k t ht hfail ((Paging.consumed_lt_iff hs.col).mpr hk)
    · rintro ⟨hno, -⟩
      refine ⟨fun hret k hreq => ?_, hretlen.mpr fun k t ht hfail hlt => ?_⟩
      · rw [MtdWrite.Requests, Paging.exists_requested_iff hs.col,
          Paging.exists_requested_iff hs.ooboffs] at hreq
        exact hcomplete hret k hreq
      · exact hno ⟨haccepted, k, (Paging.consumed_lt_iff hs.col).mp hlt,
          (fails_of_log hlog).mpr ⟨t, ht, hfail⟩⟩
  · have hcut : 2 ^ 32 ≤ (MtdWrite.oob toAddr ops).toAddr := hge
    have hret := writeDataLoop_ret_iff (g := g) dev ops (info.oobAvail ops.mode)
      (ops.len + ops.ooblen) ⟨pageStart g toAddr, ops.len, ops.ooblen, toAddr % g.writesize,
        ops.ooboffs, 0, 0, m.cache, m.w⟩
    rw [show (writeDataLoop g dev ops (info.oobAvail ops.mode) (ops.len + ops.ooblen) _).tries.map
      PageTry.ok = _ from hlog] at hret
    -- the two streams request bytes as long as they are not empty
    have hrequests : (∀ k, ¬ (MtdWrite.oob toAddr ops).Requests g info k) ↔
        ops.len = 0 ∧ ops.ooblen = 0 := by
      constructor
      · intro h
        have h0 := h 0
        rw [MtdWrite.Requests, Paging.exists_requested_iff hs.col,
          Paging.exists_requested_iff hs.ooboffs, Paging.consumed_zero, Paging.consumed_zero,
          not_or, Nat.not_lt, Nat.not_lt] at h0
        exact ⟨Nat.le_zero.mp h0.1, Nat.le_zero.mp h0.2⟩
      · rintro ⟨hlen, hooblen⟩ k (hreq | hreq)
        · exact not_requested_of_len hlen k hreq
        · exact not_requested_of_len hooblen k hreq
    rw [honest_iff_of_cut hcut haddr, hrequests]
    by_cases hlen : ops.len = 0
    · have hzero : (mtdWriteData g dev info toAddr ops m).retlen = 0 := by
        have h := (writeDataLoop_retlen_le (g := g) dev ops (info.oobAvail ops.mode)
          (ops.len + ops.ooblen) ⟨pageStart g toAddr, ops.len, ops.ooblen, toAddr % g.writesize,
            ops.ooboffs, 0, 0, m.cache, m.w⟩).2
        rw [hlen] at h
        rw [mtdWriteData, hlen]
        exact Nat.le_zero.mp h
      have hnoData : ¬ (MtdWrite.oob toAddr ops).DataFails g info dev m := by
        rintro ⟨-, k, hk, -⟩
        rw [← Paging.consumed_lt_iff hs.col] at hk
        have hdata : ((MtdWrite.oob toAddr ops).data g).1.len = 0 := hlen
        omega
      constructor
      · rintro ⟨hcomplete, -⟩
        refine ⟨hnoData, ?_⟩
        rintro ⟨-, -, hdata | ⟨hspare, hall⟩⟩
        · exact hdata hlen
        · exact hspare (hcomplete (hret.mpr hall)).2
      · rintro ⟨-, hplace⟩
        refine ⟨fun h0 => ⟨hlen, ?_⟩, hzero⟩
        by_contra hne
        exact hplace ⟨haccepted, hge, .inr ⟨hne, hret.mp h0⟩⟩
    · have hpos : 0 < (mtdWriteData g dev info toAddr ops m).retlen := by
        obtain ⟨n, hn⟩ := Nat.exists_eq_succ_of_ne_zero (show ops.len + ops.ooblen ≠ 0 by omega)
        rw [mtdWriteData, hn]
        exact writeDataLoop_retlen_pos dev ops _ n hlen (Nat.mod_lt _ g.writesize_pos)
      exact ⟨fun h => absurd h.2 (by omega),
        fun h => absurd ⟨haccepted, hge, .inl hlen⟩ h.2⟩

/-- A refused request reports honestly. -/
theorem honest_of_refused {ret : Int} (hcheck : mtdWriteCheck g info toAddr ops = some ret) :
    (MtdWrite.oob toAddr ops).Honest g info (mtdWriteOob g dev info toAddr ops m) := by
  rw [mtdWriteOob, hcheck]
  refine ⟨fun hret k hreq => ?_, rfl⟩
  obtain ⟨hlen, hooblen⟩ := mtdWriteCheck_zero (hcheck.trans (congrArg some hret))
  rcases hreq with hreq | hreq
  · exact absurd hreq (not_requested_of_len hlen k)
  · exact absurd hreq (not_requested_of_len hooblen k)

/-- A write call reports honestly if and only if it takes the data-only path, or the
lower layer programs every page with data that it is given and no page of the request
is programmed at a cut address and reported. -/
theorem mtdWrite_honest_iff (g : Geometry) (info : MtdInfo g) (dev : Device) (req : MtdWrite)
    (m : Mtd) : req.Honest g info (req.run g dev info m) ↔
      req.dataOnly = true ∨
        ¬ req.DataFails g info dev m ∧ ¬ req.Misplaced g info dev m := by
  cases req with
  | panic toAddr len buf =>
      simp only [MtdWrite.dataOnly, Bool.false_eq_true, false_or]
      exact honest_panic_iff toAddr len buf
  | oob toAddr ops =>
      simp only [MtdWrite.dataOnly, MtdWrite.run]
      cases hcheck : mtdWriteCheck g info toAddr ops with
      | some ret =>
          have hrefused : (MtdWrite.oob toAddr ops).accepted g info ≠ true := by
            rw [MtdWrite.accepted, hcheck]
            exact Bool.false_ne_true
          exact ⟨fun _ => .inr ⟨fun h => hrefused h.1, fun h => hrefused h.1⟩,
            fun _ => honest_of_refused hcheck⟩
      | none =>
          cases hoob : ops.oobbuf.isNone with
          | true => exact ⟨fun _ => .inl rfl, fun _ => honest_range hcheck hoob⟩
          | false =>
              simp only [Bool.false_eq_true, false_or]
              exact honest_streams_iff hcheck hoob

/-- A call that returns 0 after a failed first page is not honest. -/
theorem not_honest_of_log {req : MtdWrite} {res : MtdResult} (hreq : req.Requests g info 0)
    (hret : res.ret = 0) (hlog : res.tries.map PageTry.ok = [false]) : ¬ req.Honest g info res := by
  intro hhonest
  obtain ⟨t, ht, hok⟩ := programmed_of_placed (hhonest.complete hret 0 hreq)
  obtain ⟨t', ht', hfail⟩ := (fails_of_log hlog (k := 0)).mp rfl
  obtain rfl : t = t' := Option.some.inj (ht.symm.trans ht')
  exact Bool.false_ne_true (hfail.symm.trans hok)

set_option maxRecDepth 100000 in
/-- On a device that has failed, a panic write returns 0 and reports its first page. -/
theorem panicWrite_reports_failed_page :
    let req : MtdWrite := .panic 0 10 fun _ => 0
    let res := req.run (smallGeometry false) (sampleDevice [] fun _ _ => true) smallInfo smallMtd
    res.ret = 0 ∧ res.retlen = 10 ∧ res.tries.map PageTry.ok = [false] ∧
      ¬ req.Honest (smallGeometry false) smallInfo res := by
  obtain ⟨hret, hretlen, htries⟩ :
      let res := (MtdWrite.panic 0 10 fun _ => 0).run (smallGeometry false)
        (sampleDevice [] fun _ _ => true) smallInfo smallMtd
      res.ret = 0 ∧ res.retlen = 10 ∧ res.tries.map PageTry.ok = [false] := by
    decide +kernel
  exact ⟨hret, hretlen, htries,
    not_honest_of_log (.inl ⟨0, by decide, by decide, by decide⟩) hret htries⟩

end Results

end Speedway.Nmbm
