import Speedway.Mtd.Pass

/-!
# Whole runs

Every run ends. A run that returns goes through the partitions one after the other, each
from a state where the counters agree, up to the first partition that is left after a bad
block was passed over.
-/

namespace Speedway.Mtd

open Speedway.Lib

section Ends

variable {erasesize partOffset idx : Nat} {part : Part}

def EraseEnd.All (P : WriteState → Prop) : EraseEnd → Prop
  | .failed st | .ready st => P st
  | _ => True

theorem EraseEnd.All.mono {P Q : WriteState → Prop} {r : EraseEnd} (h : r.All P)
    (hPQ : ∀ st, P st → Q st) : r.All Q := by
  cases r with
  | failed st => exact hPQ st h
  | ready st => exact hPQ st h
  | stuck => trivial
  | exit => trivial

def PartEnd.All (P : WriteState → Prop) : PartEnd → Prop
  | .next st | .returned st => P st
  | _ => True

/-- The log only grows, by operations from a partition on, and a `write` that was cut short
is not forgotten. -/
structure Grows (idx : Nat) (st st' : WriteState) : Prop where
  complete : st'.complete = true → st.complete = true
  log : ∃ ops, st'.log = st.log ++ ops ∧ ∀ op ∈ ops, idx ≤ op.part

theorem Grows.of_log {st st' : WriteState} (idx : Nat) (hcomplete : st'.complete = st.complete)
    (hlog : st'.log = st.log) : Grows idx st st' :=
  ⟨fun h => hcomplete ▸ h, [], by rw [hlog, List.append_nil], nofun⟩

theorem Grows.trans {a b c : WriteState} (h : Grows idx a b) (h' : Grows idx b c) :
    Grows idx a c := by
  obtain ⟨ops, hops, hpart⟩ := h.log
  obtain ⟨ops', hops', hpart'⟩ := h'.log
  refine ⟨fun hc => h.complete (h'.complete hc), ops ++ ops', ?_, ?_⟩
  · rw [hops', hops, List.append_assoc]
  · intro op hop
    rcases List.mem_append.mp hop with hop | hop
    · exact hpart op hop
    · exact hpart' op hop

theorem Grows.later {a b : WriteState} (h : Grows (idx + 1) a b) : Grows idx a b := by
  obtain ⟨ops, hops, hpart⟩ := h.log
  exact ⟨h.complete, ops, hops, fun op hop => Nat.le_of_succ_le (hpart op hop)⟩

theorem Grows.single {st st' : WriteState} {op : FlashOp}
    (hcomplete : st'.complete = true → st.complete = true) (hlog : st'.log = st.log ++ [op])
    (hop : op.part = idx) : Grows idx st st' := by
  refine ⟨hcomplete, [op], hlog, ?_⟩
  intro op' hop'
  rw [List.mem_singleton.mp hop', hop]

/-- What the erase loop leaves alone; `e` stays inside the partition. -/
structure Erasing (erasesize idx : Nat) (part : Part) (st st' : WriteState) : Prop where
  grows : Grows idx st st'
  buflen : st'.buflen = st.buflen
  image : st'.image = st.image
  inside : st'.e / erasesize ≤ part.size

theorem eraseLoop_erasing (hsize : 0 < erasesize) (partOffset idx fuel : Nat) (st : WriteState)
    (hin : st.e / erasesize ≤ part.size) :
    (eraseLoop erasesize partOffset idx part fuel st).All (Erasing erasesize idx part st) ∧
      (part.size + 1 < fuel + st.e / erasesize →
        eraseLoop erasesize partOffset idx part fuel st ≠ .stuck) := by
  induction fuel generalizing st with
  | zero => exact ⟨trivial, fun h => absurd h (by omega)⟩
  | succ fuel ih =>
      have hnext : (st.e + erasesize) / erasesize = st.e / erasesize + 1 :=
        Nat.add_div_right _ hsize
      simp only [eraseLoop]
      split
      · exact ⟨⟨.of_log idx rfl rfl, rfl, rfl, hin⟩, fun _ => EraseEnd.noConfusion⟩
      · cases hbad : part.blockIsBad (st.e / erasesize) with
        | none => exact ⟨trivial, fun _ => EraseEnd.noConfusion⟩
        | some bad =>
            cases bad with
            | true =>
                have hlt := Part.lt_size_of_blockIsBad hbad
                obtain ⟨hall, hfuel⟩ := ih
                  { st with
                    skipBadBlocks := st.skipBadBlocks + erasesize
                    e := st.e + erasesize
                    pos := part.lseek erasesize st.pos (st.pos + erasesize) }
                  (by rw [hnext]; exact hlt)
                refine ⟨hall.mono fun st' h => ?_, fun hf => hfuel (by rw [hnext]; omega)⟩
                exact ⟨⟨h.grows.complete, h.grows.log⟩, h.buflen, h.image, h.inside⟩
            | false =>
                have hlogged (ok : Bool) : Grows idx st
                    { st with log := st.log ++
                      [.erase idx ((st.e + partOffset) / erasesize) ok] } :=
                  .single id rfl rfl
                cases herases : part.erases ((st.e + partOffset) / erasesize) with
                | false => exact ⟨⟨hlogged false, rfl, rfl, hin⟩, fun _ => EraseEnd.noConfusion⟩
                | true =>
                    have hlt : st.e / erasesize < part.size :=
                      Nat.lt_of_le_of_lt (Nat.div_le_div_right (Nat.le_add_right ..))
                        (Part.lt_size_of_erases herases)
                    obtain ⟨hall, hfuel⟩ := ih
                      { st with
                        e := st.e + erasesize
                        log := st.log ++ [.erase idx ((st.e + partOffset) / erasesize) true] }
                      (by rw [hnext]; exact hlt)
                    refine ⟨hall.mono fun st' h => ?_, fun hf => hfuel (by rw [hnext]; omega)⟩
                    exact ⟨(hlogged true).trans ⟨h.grows.complete, h.grows.log⟩, h.buflen, h.image,
                      h.inside⟩

theorem write_grows (erasesize idx : Nat) (part : Part) (len : Nat) (st : WriteState) :
    Grows idx st (st.write erasesize idx part len) := by
  refine .single (fun h => ?_) rfl rfl
  simp only [WriteState.write, Bool.and_eq_true] at h
  exact h.1

theorem leave_grows (st : WriteState) : Grows idx st (st.leave erasesize idx part) := by
  simp only [WriteState.leave]
  split
  · have h := write_grows erasesize idx part (st.e - st.w) st
    exact ⟨h.complete, h.log⟩
  · exact .of_log idx rfl rfl

theorem PartEnd.All.mono {P Q : WriteState → Prop} {r : PartEnd} (h : r.All P)
    (hPQ : ∀ st, P st → Q st) : r.All Q := by
  cases r with
  | next st => exact hPQ st h
  | returned st => exact hPQ st h
  | stuck => trivial
  | exit => trivial

/-- The main loop ends, and what it has done stays in the log. -/
theorem writePart_grows (hsize : 0 < erasesize) (partOffset idx : Nat) (last : Bool) (fuel : Nat)
    (st : WriteState)
    (hin : st.e / erasesize ≤ part.size) :
    (writePart erasesize partOffset idx part last fuel st).All (Grows idx st) ∧
      (st.buflen + st.image.length < fuel →
        writePart erasesize partOffset idx part last fuel st ≠ .stuck) := by
  induction fuel generalizing st with
  | zero => exact ⟨trivial, fun h => absurd h (Nat.not_lt_zero _)⟩
  | succ fuel ih =>
      simp only [writePart]
      split
      · exact ⟨.of_log idx rfl rfl, fun _ => PartEnd.noConfusion⟩
      next hne =>
        have hfilled : Grows idx st ((st.fill erasesize).pad erasesize) := .of_log idx rfl rfl
        obtain ⟨hall, hfuel⟩ := eraseLoop_erasing hsize partOffset idx (part.size + 2)
          ((st.fill erasesize).pad erasesize) hin
        cases hloop : eraseLoop erasesize partOffset idx part (part.size + 2)
            ((st.fill erasesize).pad erasesize) with
        | stuck =>
            have hlt := Nat.lt_add_right
              (((st.fill erasesize).pad erasesize).e / erasesize) (Nat.lt_succ_self (part.size + 1))
            exact absurd hloop (hfuel hlt)
        | exit => exact ⟨trivial, fun _ => PartEnd.noConfusion⟩
        | failed st' =>
            rw [hloop] at hall
            simp only
            split
            · exact ⟨trivial, fun _ => PartEnd.noConfusion⟩
            · exact ⟨hfilled.trans (hall.grows.trans (leave_grows st')),
                fun _ => PartEnd.noConfusion⟩
        | ready st' =>
            rw [hloop] at hall
            simp only
            split
            · obtain ⟨hrest, hends⟩ := ih
                { st'.write erasesize idx part st'.buflen with
                  w := st'.w + st'.buflen, buflen := 0, offset := 0 } hall.inside
              have hwritten := write_grows erasesize idx part st'.buflen st'
              refine ⟨hrest.mono fun st'' h => ?_, fun hf => hends ?_⟩
              · exact (hfilled.trans hall.grows).trans
                  (hwritten.trans ⟨h.complete, h.log⟩)
              · -- the buffer is empty, and it was not before
                have himage : st'.image.length = st.image.length -
                    min (erasesize - st.buflen) st.image.length := by
                  rw [hall.image]
                  exact List.length_drop
                have hfill : (st.fill erasesize).buflen = st.buflen +
                    min (erasesize - st.buflen) st.image.length := rfl
                show 0 + st'.image.length < fuel
                omega
            · exact ⟨trivial, fun _ => PartEnd.noConfusion⟩

theorem mtdWriteFrom_grows (hsize : 0 < erasesize) (partOffset idx : Nat) (parts : List Part)
    (st : WriteState) :
    (mtdWriteFrom erasesize partOffset idx parts st).All (Grows idx st) ∧
      mtdWriteFrom erasesize partOffset idx parts st ≠ .stuck := by
  induction parts generalizing idx st with
  | nil => exact ⟨trivial, nofun⟩
  | cons part rest ih =>
      have hin : 0 / erasesize ≤ part.size := by
        rw [Nat.zero_div]
        exact Nat.zero_le _
      obtain ⟨hall, hfuel⟩ := writePart_grows hsize partOffset idx rest.isEmpty
        (st.buflen + st.image.length + 1)
        { st with w := 0, e := 0, pos := part.lseek erasesize 0 partOffset } hin
      simp only [mtdWriteFrom]
      cases hpart : writePart erasesize partOffset idx part rest.isEmpty
          (st.buflen + st.image.length + 1)
          { st with w := 0, e := 0, pos := part.lseek erasesize 0 partOffset } with
      | stuck => exact absurd hpart (hfuel (Nat.lt_succ_self _))
      | exit => exact ⟨trivial, nofun⟩
      | returned st' =>
          rw [hpart] at hall
          exact ⟨⟨hall.complete, hall.log⟩, nofun⟩
      | next st' =>
          rw [hpart] at hall
          obtain ⟨hrest, hends⟩ := ih (idx + 1) st'
          exact ⟨hrest.mono fun st'' h => Grows.trans ⟨hall.complete, hall.log⟩ h.later, hends⟩

theorem grows_of_returned (hsize : 0 < erasesize) {parts : List Part} {st st' : WriteState}
    (hrun : mtdWriteFrom erasesize partOffset idx parts st = .returned st') : Grows idx st st' := by
  have h := (mtdWriteFrom_grows hsize partOffset idx parts st).1
  rw [hrun] at h
  exact h

/-- Every run ends. -/
theorem mtdWrite_ends (hsize : 0 < erasesize) (partOffset : Nat) (parts : List Part) (held : Nat)
    (heap : Mem) (image : List UInt8) :
    mtdWrite erasesize partOffset parts held heap image ≠ .stuck :=
  (mtdWriteFrom_grows hsize partOffset 0 parts _).2

end Ends

section Trace

variable {erasesize p : Nat} {image : List UInt8}

/-- What is done by a run that returns, from a partition and a block of the image on. -/
inductive Trace (erasesize p : Nat) (image : List UInt8) :
    Nat → List Part → Nat → List FlashOp → Prop
  | finished {idx c J : Nat} {part : Part} {rest : List Part} (hreached : part.Reached p J)
      (hends : J = 0 ∨ part.isGood (J - 1) = true)
      (hcount : c + part.goodCount J = blockCount erasesize image) :
      Trace erasesize p image idx (part :: rest) c (passOps erasesize p image idx part c J)
  | left {idx c f : Nat} {part : Part} {rest : List Part} {ops : List FlashOp}
      (hgood : ∀ i, i ≤ f → part.isGood i = true) (hreached : part.Reached p f)
      (hfails : part.erases (p + f) = false) (hcount : c + f < blockCount erasesize image)
      (tail : Trace erasesize p image (idx + 1) rest (c + f) ops) :
      Trace erasesize p image idx (part :: rest) c
        (passOps erasesize p image idx part c f ++ .erase idx (p + f) false :: ops)
  | broken {idx c k b q : Nat} {part : Part} {rest : List Part} {bytes : List UInt8}
      {ops : List FlashOp} (hops : ∀ op ∈ ops, idx ≤ op.part) (hgood : part.isGood k = true)
      (hb : b < k) (hbad : part.isGood b = false) (hreached : part.Reached p k)
      (hfails : part.erases (p + k) = false)
      (hcount : c + part.goodCount k < blockCount erasesize image) (hbytes : bytes ≠ [])
      (hq : ∀ i, i < k → part.isGood i = true → q ≠ p + i) :
      Trace erasesize p image idx (part :: rest) c
        (passOps erasesize p image idx part c k ++
          .erase idx (p + k) false :: .write idx (q * erasesize) bytes :: ops)

theorem Part.lseek_start (hsize : 0 < erasesize) (part : Part) (p : Nat) :
    part.lseek erasesize 0 (p * erasesize) = part.posAt erasesize p 0 := by
  have hiff : p * erasesize ≤ part.size * erasesize ↔ p ≤ part.size :=
    Nat.mul_le_mul_right_iff hsize
  rw [lseek, posAt]
  by_cases hle : p ≤ part.size
  · rw [if_pos (hiff.mpr hle), if_pos hle, Nat.add_zero, Nat.min_eq_left hle]
  · rw [if_neg (mt hiff.mp hle), if_neg hle, Nat.zero_min, Nat.zero_mul]

/-- At the start of a partition the counters agree, if no block passed over before is still
counted. -/
theorem inPass_start (hsize : 0 < erasesize) (p idx : Nat) (part : Part) {c : Nat}
    {st : WriteState} (hfeeds : Feeds erasesize image c st)
    (hcount : c ≤ blockCount erasesize image) (hskip : st.skipBadBlocks = 0)
    (hoffset : st.offset = 0) :
    InPass erasesize p image idx part c st.log 0
      { st with w := 0, e := 0, pos := part.lseek erasesize 0 (p * erasesize) } := by
  have hzero : c + part.goodCount 0 = c := by
    rw [Part.goodCount, Nat.count_zero, Nat.add_zero]
  refine ⟨?_, ?_, ?_, hoffset, ?_, ?_, ?_, .inl rfl, ?_, ?_⟩
  · rw [Part.goodCount, Nat.count_zero, Nat.zero_mul]
  · rw [Nat.zero_mul]
  · rw [hskip]
  · exact part.lseek_start hsize p
  · exact (List.append_nil _).symm
  · exact fun i hi => absurd hi (Nat.not_lt_zero i)
  · rw [hzero]
    exact hfeeds.congr rfl rfl rfl
  · rw [hzero]
    exact hcount

/-- A run that returns, with no `write` cut short, leaves such a trace. -/
theorem mtdWriteFrom_trace (hsize : 0 < erasesize) {idx c : Nat} {parts : List Part}
    {st st' : WriteState} (hfeeds : Feeds erasesize image c st)
    (hcount : c ≤ blockCount erasesize image) (hskip : st.skipBadBlocks = 0)
    (hoffset : st.offset = 0)
    (hrun : mtdWriteFrom erasesize (p * erasesize) idx parts st = .returned st')
    (hcomplete : st'.complete = true) :
    ∃ ops, st'.log = st.log ++ ops ∧ Trace erasesize p image idx parts c ops := by
  induction parts generalizing idx c st with
  | nil => exact nomatch hrun
  | cons part rest ih =>
      have hpass := inPass_start hsize p idx part hfeeds hcount hskip hoffset
      have hend := writePart_pass hsize rest.isEmpty (st.buflen + st.image.length + 1) hpass rfl
      simp only [mtdWriteFrom] at hrun
      generalize writePart erasesize (p * erasesize) idx part rest.isEmpty
        (st.buflen + st.image.length + 1)
        { st with w := 0, e := 0, pos := part.lseek erasesize 0 (p * erasesize) } = r
        at hend hrun
      cases hend with
      | stuck => exact nomatch hrun
      | exit => exact nomatch hrun
      | returned hlog _ hreached hends hcount =>
          obtain rfl := PartEnd.returned.inj hrun
          exact ⟨_, hlog, .finished hreached hends hcount⟩
      | left _ hgood hreached hfails hlt hlog hfeeds' hskip' hoffset' _ =>
          obtain ⟨ops, hops, htrace⟩ := ih hfeeds' (Nat.le_of_lt hlt) hskip' hoffset' hrun
          refine ⟨_, ?_, .left hgood hreached hfails hlt htrace⟩
          rw [hops, hlog]
          simp only [List.append_assoc, List.cons_append, List.nil_append]
      | broken _ hgood hb hbad hreached hfails hlt hlog hwrites =>
          have hgrows := grows_of_returned hsize hrun
          obtain ⟨ops, hops, hpart⟩ := hgrows.later.log
          obtain ⟨hbytes, q, rfl, hq⟩ := hwrites (hgrows.complete hcomplete)
          refine ⟨_, ?_, .broken hpart hgood hb hbad hreached hfails hlt hbytes hq⟩
          rw [hops, hlog]
          simp only [List.append_assoc, List.cons_append, List.nil_append]

/-- In a single partition a run that returns is one pass: an erase that fails and a `write`
that is cut short end the program. -/
theorem mtdWrite_single (hsize : 0 < erasesize) {part : Part} {held : Nat}
    (hheld : held ≤ erasesize) {heap : Mem} {st : WriteState}
    (hrun : mtdWrite erasesize (p * erasesize) [part] held heap image = .returned st) :
    ∃ J, st.log = passOps erasesize p image 0 part 0 J ∧ part.Reached p J ∧
      (J = 0 ∨ part.isGood (J - 1) = true) ∧ part.goodCount J = blockCount erasesize image := by
  have hpass := inPass_start hsize p 0 part (feeds_start hheld heap image) (Nat.zero_le _) rfl rfl
  have hend := writePart_pass hsize true
    (min held image.length + (image.drop held).length + 1) hpass rfl
  simp only [mtdWrite, mtdWriteFrom, List.isEmpty_nil, WriteState.start] at hrun
  simp only [WriteState.start] at hend
  generalize writePart erasesize (p * erasesize) 0 part true _ _ = r at hend hrun
  cases hend with
  | stuck => exact nomatch hrun
  | exit => exact nomatch hrun
  | returned hlog _ hreached hends hcount =>
      obtain rfl := PartEnd.returned.inj hrun
      exact ⟨_, hlog, hreached, hends, by rwa [Nat.zero_add] at hcount⟩
  | left hlast => exact nomatch hlast
  | broken hlast => exact nomatch hlast

end Trace

end Speedway.Mtd
