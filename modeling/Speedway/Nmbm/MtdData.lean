import Speedway.Nmbm.MtdWrites

/-!
# The page loops of `nmbm_mtd_write_data` and `nmbm_mtd_panic_write`

A page of `nmbm_mtd_write_data` is filled from two streams that may end on
different pages. The loop goes on with the buffers of both streams until both
have ended, so the shorter one hands down its last page again.
-/

namespace Speedway.Nmbm

open Speedway.Lib

section Area

variable {cache src : Mem} {base size col chunk i : Nat}

theorem fillArea_inside (h : col + chunk ≤ size) (hi : i < size) :
    fillArea cache base size col src chunk (base + i) =
      if col ≤ i ∧ i < col + chunk then src (i - col) else 0xff := by
  simp only [fillArea, Mem.fill, Mem.copy]
  split
  · rw [if_neg (by omega)]
  · split
    · rw [if_pos (by omega)]
      congr 1
      omega
    · rw [if_pos (by omega), if_neg (by omega)]

theorem fillArea_outside (h : col + chunk ≤ size) (hi : i < base ∨ base + size ≤ i) :
    fillArea cache base size col src chunk i = cache i := by
  simp only [fillArea, Mem.fill, Mem.copy]
  rw [if_neg (by omega), if_neg (by omega), if_neg (by omega)]

/-- An area filled with the bytes of page `k` of a stream. -/
theorem fillArea_shows (cache src : Mem) (base size : Nat) {p : Paging} (hcol : p.col < p.size)
    (hle : p.size ≤ size) (k : Nat) :
    p.Shows src 0xff k fun i =>
      fillArea cache base size (p.column k) (src.shift (p.consumed k)) (p.chunk k) (base + i) := by
  have hfit := Paging.column_add_chunk_le hcol k
  refine Paging.shows_of_copy hcol (fun i h₁ h₂ => ?_) fun i hi hout => ?_
  · rw [fillArea_inside (by omega) (by omega), if_pos ⟨h₁, h₂⟩]
    rfl
  · rw [fillArea_inside (by omega) (by omega), if_neg (by omega)]

end Area

section Data

variable (g : Geometry)

/-- The variables of `nmbm_mtd_write_data` before page `k`, for the data stream `pd`
and the spare stream `po`. -/
structure DataAt (pd po : Paging) (base : Nat) (w₀ : World) (k : Nat) (s : WriteState) : Prop where
  addr : s.addr = base + k * g.writesize
  len : s.len = pd.len - pd.consumed k
  retlen : s.retlen = pd.consumed k
  col : pd.consumed k < pd.len → s.col = pd.column k
  ooblen : s.ooblen = po.len - po.consumed k
  oobretlen : s.oobretlen = po.consumed k
  ooboffs : po.consumed k < po.len → s.ooboffs = po.column k
  ni : s.w.ni = w₀.ni

variable {g} {dev : Device} {pd po : Paging} {base k : Nat} {w₀ : World} {s : WriteState}
  {datbuf oobbuf : Mem}

/-- The data part of a round. -/
theorem DataAt.moveData (datbuf : Mem) (hd : pd.size = g.writesize) (hcol : pd.col < pd.size)
    (h : DataAt g pd po base w₀ k s) :
    (moveData g datbuf s).len = pd.len - pd.consumed (k + 1) ∧
      (moveData g datbuf s).retlen = pd.consumed (k + 1) ∧
      (pd.consumed (k + 1) < pd.len → (moveData g datbuf s).col = 0) ∧
      (pd.consumed k < pd.len → pd.Shows datbuf 0xff k (moveData g datbuf s).cache) := by
  have hadd := Paging.consumed_add_chunk hcol k
  have hle := Paging.consumed_le (p := pd) (k + 1)
  have hlen := h.len
  simp only [Nmbm.moveData]
  split
  · have hchunk : pd.chunk k = 0 := by
      simp only [Paging.chunk]
      omega
    have hret := h.retlen
    refine ⟨by omega, by omega, fun hlt => by omega, fun hlt => by omega⟩
  · next hne =>
      have hmore : pd.consumed k < pd.len := by omega
      have hchunk : min (g.writesize - s.col) s.len = pd.chunk k := by
        rw [h.col hmore, h.len, Paging.chunk, hd]
      rw [hchunk]
      refine ⟨by show s.len - pd.chunk k = _; omega, by rw [h.retlen]; exact hadd,
        fun _ => rfl, fun _ => ?_⟩
      have hshow := fillArea_shows s.cache datbuf 0 _ hcol hd.le k
      simp only [Nat.zero_add] at hshow
      rw [h.col hmore, h.retlen]
      exact hshow

/-- The spare part of a round; it leaves the main area as it is. -/
theorem DataAt.moveOob (oobbuf : Mem) {maxooblen : Nat} (ho : po.size = maxooblen)
    (hoffs : po.col < po.size) (hmax : maxooblen ≤ g.oobsize)
    (h₁ : s.ooblen = po.len - po.consumed k) (h₂ : s.oobretlen = po.consumed k)
    (h₃ : po.consumed k < po.len → s.ooboffs = po.column k) :
    (moveOob g maxooblen oobbuf s).ooblen = po.len - po.consumed (k + 1) ∧
      (moveOob g maxooblen oobbuf s).oobretlen = po.consumed (k + 1) ∧
      (po.consumed (k + 1) < po.len → (moveOob g maxooblen oobbuf s).ooboffs = 0) ∧
      (po.consumed k < po.len → po.Shows oobbuf 0xff k
        ((moveOob g maxooblen oobbuf s).cache.shift g.writesize)) ∧
      ∀ i, i < g.writesize → (moveOob g maxooblen oobbuf s).cache i = s.cache i := by
  have hadd := Paging.consumed_add_chunk hoffs k
  have hle := Paging.consumed_le (p := po) (k + 1)
  have hfit := Paging.column_add_chunk_le hoffs k
  simp only [Nmbm.moveOob]
  split
  · have hchunk : po.chunk k = 0 := by
      simp only [Paging.chunk]
      omega
    exact ⟨by omega, by omega, fun hlt => by omega, fun hlt => by omega, fun _ _ => rfl⟩
  · next hne =>
      have hmore : po.consumed k < po.len := by omega
      have hchunk : min (maxooblen - s.ooboffs) s.ooblen = po.chunk k := by
        rw [h₃ hmore, h₁, Paging.chunk, ho]
      rw [hchunk]
      refine ⟨by show s.ooblen - po.chunk k = _; omega, by rw [h₂]; exact hadd,
        fun _ => rfl, fun _ => ?_, fun i hi => ?_⟩
      · have hshow := fillArea_shows s.cache oobbuf g.writesize g.oobsize hoffs
          (by omega) k
        rw [h₃ hmore, h₂]
        exact hshow
      · exact fillArea_outside (by rw [h₃ hmore]; omega) (.inl hi)

/-- The main area of the page of a round. -/
theorem DataAt.moveData_cache (datbuf : Mem) (hd : pd.size = g.writesize) (hcol : pd.col < pd.size)
    (h : DataAt g pd po base w₀ k s) :
    (Nmbm.moveData g datbuf s).cache = if k < pd.pages then
        fillArea s.cache 0 g.writesize (pd.column k) (datbuf.shift (pd.consumed k)) (pd.chunk k)
      else s.cache := by
  have hlen := h.len
  have hpages := Paging.consumed_lt_iff hcol (k := k)
  simp only [Nmbm.moveData]
  split
  · rw [if_neg (by omega)]
  · have hmore : pd.consumed k < pd.len := by omega
    rw [if_pos (hpages.mp hmore), h.col hmore, h.retlen, hlen, Paging.chunk, hd]

/-- The spare area of the page. -/
theorem moveOob_cache (oobbuf : Mem) {maxooblen : Nat} (ho : po.size = maxooblen)
    (hoffs : po.col < po.size) (h₁ : s.ooblen = po.len - po.consumed k)
    (h₂ : s.oobretlen = po.consumed k) (h₃ : po.consumed k < po.len → s.ooboffs = po.column k) :
    (moveOob g maxooblen oobbuf s).cache = if k < po.pages then
        fillArea s.cache g.writesize g.oobsize (po.column k) (oobbuf.shift (po.consumed k))
          (po.chunk k)
      else s.cache := by
  have hpages := Paging.consumed_lt_iff hoffs (k := k)
  simp only [moveOob]
  split
  · rw [if_neg (by omega)]
  · have hmore : po.consumed k < po.len := by omega
    rw [if_pos (hpages.mp hmore), h₃ hmore, h₂, h₁, Paging.chunk, ho]

/-- The two streams of a request with a spare buffer. -/
structure Streams (g : Geometry) (ops : OobOps) (maxooblen : Nat) (pd po : Paging) : Prop where
  size : pd.size = g.writesize
  col : pd.col < pd.size
  len : pd.len = ops.len
  oobsize : po.size = maxooblen
  ooboffs : po.col < po.size
  ooblen : po.len = ops.ooblen
  fits : maxooblen ≤ g.oobsize

variable {ops : OobOps} {maxooblen : Nat}

/-- The variables of a round after both parts. -/
def movePage (g : Geometry) (ops : OobOps) (maxooblen : Nat) (s : WriteState) : WriteState :=
  Nmbm.moveOob g maxooblen (ops.oobbuf.getD fun _ => 0)
    (Nmbm.moveData g (ops.datbuf.getD fun _ => 0) s)

/-- The buffers that a round hands down. -/
def pageData (ops : OobOps) (s : WriteState) : Option Mem :=
  if ops.len ≠ 0 then some s.cache else none

def pageOob (g : Geometry) (ops : OobOps) (s : WriteState) : Option Mem :=
  if ops.ooblen ≠ 0 then some (s.cache.shift g.writesize) else none

/-- The lower layer writes the page of a round. -/
def pageResult (g : Geometry) (dev : Device) (ops : OobOps) (maxooblen : Nat) (s : WriteState) :
    Int × World :=
  let s₁ := movePage g ops maxooblen s
  writeSinglePage g dev s₁.addr (pageData ops s₁) (pageOob g ops s₁) s₁.w

/-- The variables of the next round. -/
def nextPage (g : Geometry) (dev : Device) (ops : OobOps) (maxooblen : Nat) (s : WriteState) :
    WriteState :=
  { movePage g ops maxooblen s with
    w := (pageResult g dev ops maxooblen s).2
    addr := (movePage g ops maxooblen s).addr + g.writesize }

/-- The log entry of a round. -/
def dataTry (g : Geometry) (dev : Device) (ops : OobOps) (maxooblen : Nat) (s : WriteState) :
    PageTry :=
  let s₁ := movePage g ops maxooblen s
  singleTry g s₁.addr (pageData ops s₁) (pageOob g ops s₁) s₁.w
    (pageResult g dev ops maxooblen s).1

theorem movePage_frame (ops : OobOps) (maxooblen : Nat) (s : WriteState) :
    (movePage g ops maxooblen s).addr = s.addr ∧ (movePage g ops maxooblen s).w = s.w := by
  simp only [movePage, Nmbm.moveOob, Nmbm.moveData]
  split <;> split <;> exact ⟨rfl, rfl⟩

theorem moveData_spare (datbuf : Mem) (s : WriteState) :
    (Nmbm.moveData g datbuf s).ooblen = s.ooblen ∧
      (Nmbm.moveData g datbuf s).oobretlen = s.oobretlen ∧
      (Nmbm.moveData g datbuf s).ooboffs = s.ooboffs := by
  simp only [Nmbm.moveData]
  split <;> exact ⟨rfl, rfl, rfl⟩

theorem moveOob_main (maxooblen : Nat) (oobbuf : Mem) (s : WriteState) :
    (Nmbm.moveOob g maxooblen oobbuf s).len = s.len ∧
      (Nmbm.moveOob g maxooblen oobbuf s).retlen = s.retlen ∧
      (Nmbm.moveOob g maxooblen oobbuf s).col = s.col := by
  simp only [Nmbm.moveOob]
  split <;> exact ⟨rfl, rfl, rfl⟩

/-- The page of a round holds the bytes of both streams that are left. -/
theorem DataAt.shows (hs : Streams g ops maxooblen pd po) (h : DataAt g pd po base w₀ k s) :
    (pd.consumed k < pd.len → pd.Shows (ops.datbuf.getD fun _ => 0) 0xff k
      (movePage g ops maxooblen s).cache) ∧
    (po.consumed k < po.len → po.Shows (ops.oobbuf.getD fun _ => 0) 0xff k
      ((movePage g ops maxooblen s).cache.shift g.writesize)) := by
  obtain ⟨hooblen, hoobret, hooboffs⟩ := moveData_spare (g := g) (ops.datbuf.getD fun _ => 0) s
  have hd := h.moveData (ops.datbuf.getD fun _ => 0) hs.size hs.col
  have ho := DataAt.moveOob (g := g) (k := k) (ops.oobbuf.getD fun _ => 0)
    hs.oobsize hs.ooboffs hs.fits
    (hooblen.trans h.ooblen) (hoobret.trans h.oobretlen) (fun hlt => hooboffs.trans (h.ooboffs hlt))
  refine ⟨fun hlt i hi => ?_, ho.2.2.2.1⟩
  rw [movePage, ho.2.2.2.2 i (by rw [← hs.size]; exact hi)]
  exact hd.2.2.2 hlt i hi

/-- The variables after a round. -/
theorem DataAt.next (hs : Streams g ops maxooblen pd po) (h : DataAt g pd po base w₀ k s)
    {w : World} (hw : w.ni = w₀.ni) :
    DataAt g pd po base w₀ (k + 1) { movePage g ops maxooblen s with
      w := w, addr := (movePage g ops maxooblen s).addr + g.writesize } := by
  obtain ⟨hooblen, hoobret, hooboffs⟩ := moveData_spare (g := g) (ops.datbuf.getD fun _ => 0) s
  have hd := h.moveData (ops.datbuf.getD fun _ => 0) hs.size hs.col
  have ho := DataAt.moveOob (g := g) (k := k) (ops.oobbuf.getD fun _ => 0)
    hs.oobsize hs.ooboffs hs.fits
    (hooblen.trans h.ooblen) (hoobret.trans h.oobretlen) (fun hlt => hooboffs.trans (h.ooboffs hlt))
  obtain ⟨hlen, hret, hcol⟩ := moveOob_main (g := g) maxooblen
    (ops.oobbuf.getD fun _ => 0) (Nmbm.moveData g (ops.datbuf.getD fun _ => 0) s)
  have hmul : (k + 1) * g.writesize = k * g.writesize + g.writesize := Nat.succ_mul _ _
  exact {
    addr := by
      show (movePage g ops maxooblen s).addr + g.writesize = _
      rw [(movePage_frame _ _ s).1, h.addr]
      omega
    len := hlen.trans hd.1
    retlen := hret.trans hd.2.1
    col := fun hlt => hcol.trans (hd.2.2.1 hlt)
    ooblen := ho.1
    oobretlen := ho.2.1
    ooboffs := ho.2.2.1
    ni := hw }

/-- The log entry of page `k`. -/
structure DataTry (g : Geometry) (ops : OobOps) (maxooblen : Nat) (pd po : Paging) (base : Nat)
    (w₀ : World) (k : Nat) (t : PageTry) : Prop where
  more : pd.consumed k < pd.len ∨ po.consumed k < po.len
  addr : t.addr = base + k * g.writesize
  data : t.data.isSome = decide (ops.len ≠ 0)
  oob : t.oob.isSome = decide (ops.ooblen ≠ 0)
  showsData : pd.consumed k < pd.len → ∀ d ∈ t.data,
    pd.Shows (ops.datbuf.getD fun _ => 0) 0xff k d
  showsOob : po.consumed k < po.len → ∀ o ∈ t.oob,
    po.Shows (ops.oobbuf.getD fun _ => 0) 0xff k o
  passed : t.passed = true ↔ w₀.ni.isProtected = false ∧ g.readOnly = false ∧
    Usable g w₀ (base + k * g.writesize)

theorem DataAt.dataTry (dev : Device) (hs : Streams g ops maxooblen pd po)
    (h : DataAt g pd po base w₀ k s) (hmore : ¬ (s.len = 0 ∧ s.ooblen = 0)) :
    DataTry g ops maxooblen pd po base w₀ k (dataTry g dev ops maxooblen s) := by
  obtain ⟨haddr, hw⟩ := movePage_frame (g := g) ops maxooblen s
  have hshows := h.shows hs
  refine ⟨?_, haddr.trans h.addr, ?_, ?_, fun hlt d hd => ?_, fun hlt o ho => ?_, ?_⟩
  · have h₁ := h.len
    have h₂ := h.ooblen
    omega
  · simp only [Nmbm.dataTry, singleTry, pageData]
    split <;> simp_all
  · simp only [Nmbm.dataTry, singleTry, pageOob]
    split <;> simp_all
  · simp only [Nmbm.dataTry, singleTry, pageData] at hd
    split at hd
    · cases hd
      exact hshows.1 hlt
    · exact absurd hd (by simp)
  · simp only [Nmbm.dataTry, singleTry, pageOob] at ho
    split at ho
    · cases ho
      exact hshows.2 hlt
    · exact absurd ho (by simp)
  · simp only [Nmbm.dataTry, singleTry, haddr, hw, h.addr, h.ni, writable_congr h.ni,
      Bool.and_eq_true, Bool.not_eq_true', decide_eq_true_eq, Usable, and_assoc]

/-- One round of the loop. -/
theorem writeDataLoop_succ (fuel : Nat) (s : WriteState) (hmore : ¬ (s.len = 0 ∧ s.ooblen = 0)) :
    writeDataLoop g dev ops maxooblen (fuel + 1) s =
      let r := pageResult g dev ops maxooblen s
      let t := dataTry g dev ops maxooblen s
      if r.1 ≠ 0 then ⟨r.1, { movePage g ops maxooblen s with w := r.2 }, [t]⟩
      else
        let rest := writeDataLoop g dev ops maxooblen fuel (nextPage g dev ops maxooblen s)
        { rest with tries := t :: rest.tries } := by
  rw [writeDataLoop, if_neg hmore]
  rfl

theorem writeDataLoop_done (fuel : Nat) (s : WriteState) (hdone : s.len = 0 ∧ s.ooblen = 0) :
    writeDataLoop g dev ops maxooblen fuel s = ⟨0, s, []⟩ := by
  cases fuel with
  | zero => rfl
  | succ fuel => rw [writeDataLoop, if_pos hdone]

/-- The state after a page that was programmed. -/
theorem DataAt.written (hs : Streams g ops maxooblen pd po) (h : DataAt g pd po base w₀ k s)
    (hok : (pageResult g dev ops maxooblen s).1 = 0) :
    DataAt g pd po base w₀ (k + 1) (nextPage g dev ops maxooblen s) ∧
      Usable g w₀ (base + k * g.writesize) := by
  obtain ⟨haddr, hw⟩ := movePage_frame (g := g) ops maxooblen s
  obtain ⟨hpage, husable, -⟩ := writeSinglePage_ok hok
  refine ⟨h.next hs ?_, ?_⟩
  · exact hpage.ni.trans (by rw [hw]; exact h.ni)
  · rw [haddr, hw, h.addr] at husable
    rw [Usable, h.ni, writable_congr h.ni] at husable
    exact husable

/-- A page takes bytes of the streams. -/
theorem DataAt.shrinks (hs : Streams g ops maxooblen pd po) (h : DataAt g pd po base w₀ k s)
    {s' : WriteState} (h' : DataAt g pd po base w₀ (k + 1) s')
    (hmore : ¬ (s.len = 0 ∧ s.ooblen = 0)) : s'.len + s'.ooblen < s.len + s.ooblen := by
  have hadd := Paging.consumed_add_chunk hs.col k
  have hadd' := Paging.consumed_add_chunk hs.ooboffs k
  have hpos := Paging.chunk_pos hs.col (k := k)
  have hpos' := Paging.chunk_pos hs.ooboffs (k := k)
  have hle := Paging.consumed_le (p := pd) (k + 1)
  have hle' := Paging.consumed_le (p := po) (k + 1)
  rw [h.len, h.ooblen] at hmore ⊢
  rw [h'.len, h'.ooblen]
  omega

/-- The log of the loop: page after page, each one after pages that were written. -/
theorem writeDataLoop_spec (hs : Streams g ops maxooblen pd po) {fuel : Nat}
    (h : DataAt g pd po base w₀ k s) {j : Nat} {t : PageTry}
    (ht : (writeDataLoop g dev ops maxooblen fuel s).tries[j]? = some t) :
    DataTry g ops maxooblen pd po base w₀ (k + j) t ∧
      ∀ u, k ≤ u → u < k + j → Usable g w₀ (base + u * g.writesize) := by
  induction fuel generalizing k s j with
  | zero => simp [writeDataLoop] at ht
  | succ fuel ih =>
      by_cases hdone : s.len = 0 ∧ s.ooblen = 0
      · simp [writeDataLoop_done _ _ hdone] at ht
      · rw [writeDataLoop_succ _ _ hdone] at ht
        dsimp only at ht
        split at ht
        · cases j with
          | zero =>
              simp only [List.getElem?_cons_zero, Option.some.injEq] at ht
              rw [← ht]
              exact ⟨h.dataTry dev hs hdone, fun u h₁ h₂ => by omega⟩
          | succ j => simp at ht
        · next hok =>
            rw [ne_eq, not_not] at hok
            obtain ⟨hnext, husable⟩ := h.written hs hok
            cases j with
            | zero =>
                simp only [List.getElem?_cons_zero, Option.some.injEq] at ht
                rw [← ht]
                exact ⟨h.dataTry dev hs hdone, fun u h₁ h₂ => by omega⟩
            | succ j =>
                rw [List.getElem?_cons_succ] at ht
                obtain ⟨htry, hall⟩ := ih hnext ht
                rw [show k + (j + 1) = k + 1 + j by omega]
                refine ⟨htry, fun u h₁ h₂ => ?_⟩
                rcases Nat.eq_or_lt_of_le h₁ with rfl | hlt
                · exact husable
                · exact hall u hlt h₂

/-- On a device without failures the loop comes to every page whose predecessors
can be written. -/
theorem writeDataLoop_reach (hs : Streams g ops maxooblen pd po) (hro : g.readOnly = false)
    (hprot : w₀.ni.isProtected = false) {fuel : Nat} (h : DataAt g pd po base w₀ k s)
    (hfuel : s.len + s.ooblen ≤ fuel) {j : Nat}
    (hj : pd.consumed (k + j) < pd.len ∨ po.consumed (k + j) < po.len)
    (hall : ∀ u, k ≤ u → u < k + j → Usable g w₀ (base + u * g.writesize)) :
    ∃ t, (writeDataLoop g goodDevice ops maxooblen fuel s).tries[j]? = some t := by
  have hlen := h.len
  have hooblen := h.ooblen
  have hmono₁ := Paging.consumed_mono (p := pd) (show k ≤ k + j by omega)
  have hmono₂ := Paging.consumed_mono (p := po) (show k ≤ k + j by omega)
  have hmore : ¬ (s.len = 0 ∧ s.ooblen = 0) := by omega
  induction j generalizing k s fuel with
  | zero =>
      cases fuel with
      | zero => omega
      | succ fuel =>
          rw [writeDataLoop_succ _ _ hmore]
          dsimp only
          split
          · exact ⟨_, rfl⟩
          · exact ⟨_, rfl⟩
  | succ j ih =>
      cases fuel with
      | zero => omega
      | succ fuel =>
          obtain ⟨haddr, hw⟩ := movePage_frame (g := g) ops maxooblen s
          have husable := hall k (le_refl _) (by omega)
          have hok : (pageResult g goodDevice ops maxooblen s).1 = 0 := by
            refine writeSinglePage_good ?_ hro ?_
            · rw [haddr, hw, h.addr, Usable, h.ni, writable_congr h.ni]
              exact husable
            · rw [hw, h.ni]
              exact hprot
          have hnext := (h.written hs hok).1
          have hshrinks := h.shrinks hs hnext hmore
          rw [writeDataLoop_succ _ _ hmore]
          dsimp only
          rw [if_neg (by rw [ne_eq, not_not]; exact hok), List.getElem?_cons_succ]
          have hlen' := hnext.len
          have hooblen' := hnext.ooblen
          have hsum : k + 1 + j = k + (j + 1) := by omega
          refine ih hnext (by omega) (by rw [hsum]; exact hj)
            (fun u h₁ h₂ => hall u (by omega) (by omega)) hlen' hooblen'
            (Paging.consumed_mono (by omega)) (Paging.consumed_mono (by omega)) ?_
          rw [hlen', hooblen']
          have hm₁ := Paging.consumed_mono (p := pd) (show k + 1 ≤ k + (j + 1) by omega)
          have hm₂ := Paging.consumed_mono (p := po) (show k + 1 ≤ k + (j + 1) by omega)
          omega

end Data

end Speedway.Nmbm
