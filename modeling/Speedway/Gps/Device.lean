import Speedway.Gps.Serial

/-!
# The device loop

`main` opens the device, reads bursts from it in a loop of its own, and is to open it again
when a read fails. A failed read only ends the burst, so the loop over the bursts is never
left and its `fclose` is never reached.
-/

namespace Speedway.Gps

open Speedway.Lib

section Model

/-- What comes of `fopen` and of setting the speed of the port. -/
inductive OpenResult where
  | failed
  | exits
  | opened
  deriving DecidableEq

/-- What the calls of one step return; a step only uses the results of the calls it makes. -/
structure DeviceInput where
  opened : OpenResult
  /-- The contents of `mgrTypStr`, which is not initialised. -/
  mgrTypStr : Mem
  /-- Nothing for a negative result of `fgetc`. -/
  char : Option SerialChar
  /-- `currentMillis` where it is kept. -/
  millis : Int

inductive DeviceEvent where
  | fopen (stream : Option Nat)
  | fgetc (stream : Nat) (char : Option UInt8)
  /-- A burst is handed to `parseGPSBuffer`. -/
  | burst (bytes : List UInt8)
  deriving DecidableEq

/-- The variables while a burst is read. -/
structure Reading where
  stream : Nat
  lastbursttime : Int
  scan : TypeScan
  prevresult : UInt8
  bytes : List UInt8

inductive DeviceStage where
  | opening
  | reading (r : Reading)
  | exited

structure DeviceState where
  stage : DeviceStage
  /-- The number of streams that were opened. -/
  streams : Nat
  log : List DeviceEvent

def DeviceState.initial : DeviceState := ⟨.opening, 0, []⟩

/-- The burst is over; the next one is read from the same stream. -/
def Reading.next (r : Reading) (scan : TypeScan) (millis : Int) : Reading :=
  { r with lastbursttime := millis, scan, prevresult := 0, bytes := [] }

/-- One call of `fgetc`, with what follows it up to the next call. -/
def Reading.step (r : Reading) (i : DeviceInput) : Reading × List DeviceEvent :=
  match i.char with
  | none => (r.next r.scan i.millis, [.fgetc r.stream none, .burst r.bytes])
  | some c =>
      let scan := r.scan.read c.char
      let bytes := r.bytes ++ [c.char]
      if burstEnds r.lastbursttime r.prevresult scan c ∨ bytes.length = gpsBuffSize then
        (r.next scan i.millis, [.fgetc r.stream (some c.char), .burst bytes])
      else ({ r with scan, bytes, prevresult := c.char }, [.fgetc r.stream (some c.char)])

/-- One call of `fopen` or of `fgetc`. -/
def DeviceState.step (st : DeviceState) (i : DeviceInput) : DeviceState :=
  match st.stage with
  | .opening =>
      match i.opened with
      | .failed => { st with log := st.log ++ [.fopen none] }
      | .exits => ⟨.exited, st.streams + 1, st.log ++ [.fopen (some st.streams)]⟩
      | .opened =>
          ⟨.reading ⟨st.streams, i.millis, .opened i.mgrTypStr, 0, []⟩, st.streams + 1,
            st.log ++ [.fopen (some st.streams)]⟩
  | .reading r => { st with stage := .reading (r.step i).1, log := st.log ++ (r.step i).2 }
  | .exited => st

/-- The state after some steps. -/
def deviceRun (env : Nat → DeviceInput) : Nat → DeviceState
  | 0 => .initial
  | n + 1 => (deviceRun env n).step (env n)

end Model

section Burst

variable {r : Reading} {i : DeviceInput} {c : SerialChar}

theorem step_none (h : i.char = none) :
    r.step i = (r.next r.scan i.millis, [.fgetc r.stream none, .burst r.bytes]) := by
  rw [Reading.step, h]

theorem step_last (h : i.char = some c)
    (hlast : burstEnds r.lastbursttime r.prevresult (r.scan.read c.char) c = true ∨
      (r.bytes ++ [c.char]).length = gpsBuffSize) :
    r.step i = (r.next (r.scan.read c.char) i.millis,
      [.fgetc r.stream (some c.char), .burst (r.bytes ++ [c.char])]) := by
  rw [Reading.step, h]
  exact if_pos hlast

theorem step_more (h : i.char = some c)
    (hlast : ¬ (burstEnds r.lastbursttime r.prevresult (r.scan.read c.char) c = true ∨
      (r.bytes ++ [c.char]).length = gpsBuffSize)) :
    r.step i = ({ r with
        scan := r.scan.read c.char, bytes := r.bytes ++ [c.char], prevresult := c.char },
      [.fgetc r.stream (some c.char)]) := by
  rw [Reading.step, h]
  exact if_neg hlast

/-- A stream is read on, with one result of `fgetc` for each step. -/
def readOn (millis : Int) (st : DeviceState) (results : List (Option SerialChar)) : DeviceState :=
  results.foldl (fun st char => st.step ⟨.failed, fun _ => 0, char, millis⟩) st

/-- The steps from the start of a burst to its end are `readBurst`: the results that are used
are those of the serial port, and one negative result if it has no more. -/
theorem readOn_readBurst (millis : Int) (serial : List SerialChar) {st : DeviceState} {room : Nat}
    (hst : st.stage = .reading r) (hroom : r.bytes.length + (room + 1) = gpsBuffSize) :
    ∃ results : List (Option SerialChar),
      results.reduceOption ++
          (readBurst r.lastbursttime (room + 1) r.prevresult r.scan serial).serial = serial ∧
        readOn millis st results =
          ⟨.reading (r.next (readBurst r.lastbursttime (room + 1) r.prevresult r.scan serial).scan
              millis), st.streams,
            st.log ++ results.map (fun char => .fgetc r.stream (char.map SerialChar.char)) ++
              [.burst (r.bytes ++
                (readBurst r.lastbursttime (room + 1) r.prevresult r.scan serial).bytes)]⟩ := by
  induction serial generalizing r st room with
  | nil =>
      refine ⟨[none], rfl, ?_⟩
      simp only [readOn, List.foldl_cons, List.foldl_nil, DeviceState.step, hst]
      rw [step_none rfl, readBurst]
      simp
  | cons c serial ih =>
      by_cases hends : burstEnds r.lastbursttime r.prevresult (r.scan.read c.char) c = true
      · refine ⟨[some c], ?_, ?_⟩
        · rw [readBurst_end hends]
          rfl
        · simp only [readOn, List.foldl_cons, List.foldl_nil, DeviceState.step, hst]
          rw [step_last rfl (.inl hends), readBurst_end hends]
          simp
      · have hlength : (r.bytes ++ [c.char]).length = r.bytes.length + 1 := List.length_append
        rw [readBurst_continue (Bool.eq_false_iff.mpr hends), BurstRead.after]
        cases room with
        | zero =>
            refine ⟨[some c], rfl, ?_⟩
            simp only [readOn, List.foldl_cons, List.foldl_nil, DeviceState.step, hst]
            rw [step_last rfl (.inr (by omega)), readBurst]
            simp
        | succ room =>
            have hmore : ¬ (burstEnds r.lastbursttime r.prevresult (r.scan.read c.char) c = true ∨
                (r.bytes ++ [c.char]).length = gpsBuffSize) := not_or.mpr ⟨hends, by omega⟩
            have hstep : (st.step ⟨.failed, fun _ => 0, some c, millis⟩).stage = .reading { r with
                scan := r.scan.read c.char
                bytes := r.bytes ++ [c.char]
                prevresult := c.char } := by
              simp only [DeviceState.step, hst]
              rw [step_more rfl hmore]
            have hroom' : (r.bytes ++ [c.char]).length + (room + 1) = gpsBuffSize := by omega
            obtain ⟨results, hserial, hrun⟩ := ih hstep hroom'
            refine ⟨some c :: results, ?_, ?_⟩
            · exact congrArg (c :: ·) hserial
            · rw [readOn, List.foldl_cons, ← readOn, hrun]
              simp only [DeviceState.step, hst]
              rw [step_more rfl hmore]
              simp [Reading.next]

/-- A step starts with its read, keeps the stream and reads no more. -/
theorem step_spec (r : Reading) (i : DeviceInput) :
    (r.step i).1.stream = r.stream ∧
      ∃ rest, (r.step i).2 = .fgetc r.stream (i.char.map SerialChar.char) :: rest ∧
        ∀ stream char, .fgetc stream char ∉ rest := by
  cases hchar : i.char with
  | none =>
      rw [step_none hchar]
      exact ⟨rfl, _, rfl, by simp⟩
  | some c =>
      by_cases hlast : burstEnds r.lastbursttime r.prevresult (r.scan.read c.char) c = true ∨
          (r.bytes ++ [c.char]).length = gpsBuffSize
      · rw [step_last hchar hlast]
        exact ⟨rfl, _, rfl, by simp⟩
      · rw [step_more hchar hlast]
        exact ⟨rfl, _, rfl, by simp⟩

end Burst

section Runs

variable {env : Nat → DeviceInput} {n k i : Nat} {r : Reading}

/-- After a failed read of a stream it is not read again, and what is read comes from a
stream that was opened later. -/
def Reopens (log : List DeviceEvent) : Prop :=
  ∀ before stream after, log = before ++ .fgetc stream none :: after →
    (∀ char, .fgetc stream char ∉ after) ∧
      ∀ between stream' char rest, after = between ++ .fgetc stream' char :: rest →
        .fopen (some stream') ∈ between

/-- The first `fopen` that does not fail is that of step `k`. -/
def FirstOpens (env : Nat → DeviceInput) (k : Nat) (result : OpenResult) : Prop :=
  (∀ j < k, (env j).opened = .failed) ∧ (env k).opened = result

theorem deviceRun_reading (h : (deviceRun env n).stage = .reading r) :
    (deviceRun env (n + 1)).stage = .reading (r.step (env n)).1 ∧
      (deviceRun env (n + 1)).log = (deviceRun env n).log ++ (r.step (env n)).2 := by
  rw [deviceRun, DeviceState.step, h]
  exact ⟨rfl, rfl⟩

theorem deviceRun_opening (h : ∀ j < k, (env j).opened = .failed) :
    (deviceRun env k).stage = .opening := by
  induction k with
  | zero => rfl
  | succ k ih =>
      rw [deviceRun, DeviceState.step, ih fun j hj => h j (Nat.lt_succ_of_lt hj),
        h k (Nat.lt_succ_self k)]

/-- Once the device is open, the loop stays with its stream. -/
theorem FirstOpens.reading (h : FirstOpens env k .opened) (hi : k < i) :
    ∃ r, (deviceRun env i).stage = .reading r ∧ r.stream = (deviceRun env k).streams := by
  induction i, hi using Nat.le_induction with
  | base =>
      rw [deviceRun, DeviceState.step, deviceRun_opening h.1, h.2]
      exact ⟨_, rfl, rfl⟩
  | succ i _ ih =>
      obtain ⟨r, hr, hstream⟩ := ih
      exact ⟨_, (deviceRun_reading hr).1, (step_spec r (env i)).1.trans hstream⟩

/-- Where the loop is says how the device was opened. -/
theorem deviceRun_stage (env : Nat → DeviceInput) (n : Nat) :
    ((deviceRun env n).stage = .opening ∧ ∀ j < n, (env j).opened = .failed) ∨
      (∃ r, (deviceRun env n).stage = .reading r) ∧ (∃ k < n, FirstOpens env k .opened) ∨
      (deviceRun env n).stage = .exited := by
  induction n with
  | zero => exact .inl ⟨rfl, fun j hj => absurd hj (Nat.not_lt_zero j)⟩
  | succ n ih =>
      rcases ih with ⟨hstage, hfailed⟩ | ⟨⟨r, hr⟩, k, hk, hopens⟩ | hstage
      · rw [deviceRun, DeviceState.step, hstage]
        cases hopened : (env n).opened with
        | failed =>
            refine .inl ⟨rfl, fun j hj => ?_⟩
            rcases Nat.eq_or_lt_of_le (Nat.le_of_lt_succ hj) with rfl | hlt
            · exact hopened
            · exact hfailed j hlt
        | exits => exact .inr (.inr rfl)
        | opened => exact .inr (.inl ⟨⟨_, rfl⟩, n, Nat.lt_succ_self n, hfailed, hopened⟩)
      · exact .inr (.inl ⟨⟨_, (deviceRun_reading hr).1⟩, k, Nat.lt_succ_of_lt hk, hopens⟩)
      · right
        right
        rw [deviceRun, DeviceState.step, hstage]
        exact hstage

/-- Without a failed read of an open device there is none in the log. -/
theorem failed_notMem_log (h : ∀ k i, FirstOpens env k .opened → k < i → (env i).char ≠ none)
    (n : Nat) (stream : Nat) : .fgetc stream none ∉ (deviceRun env n).log := by
  induction n with
  | zero => exact List.not_mem_nil
  | succ n ih =>
      rcases deviceRun_stage env n with ⟨hstage, -⟩ | ⟨⟨r, hr⟩, k, hk, hopens⟩ | hstage
      · rw [deviceRun, DeviceState.step, hstage]
        cases (env n).opened <;> simpa using ih
      · obtain ⟨-, rest, hrest, hnone⟩ := step_spec r (env n)
        obtain ⟨c, hc⟩ := Option.ne_none_iff_exists'.mp (h k n hopens hk)
        rw [(deviceRun_reading hr).2, hrest, hc, List.mem_append, List.mem_cons, not_or, not_or]
        exact ⟨ih, fun heq => (by cases heq), hnone stream none⟩
      · rw [deviceRun, DeviceState.step, hstage]
        exact ih

/-- A failed read is always followed by a read of the same stream. So the rule is kept
exactly if the device is never opened or no read of it fails. -/
theorem reopens_iff (env : Nat → DeviceInput) :
    (∀ n, Reopens (deviceRun env n).log) ↔
      ∀ k i, FirstOpens env k .opened → k < i → (env i).char ≠ none := by
  constructor
  · intro h k i hopens hi hnone
    obtain ⟨r, hr, -⟩ := hopens.reading hi
    obtain ⟨hstage, hlog⟩ := deviceRun_reading hr
    obtain ⟨hstream, rest, hrest, -⟩ := step_spec r (env i)
    obtain ⟨-, rest', hrest', -⟩ := step_spec (r.step (env i)).1 (env (i + 1))
    -- the log after two more steps, cut at the failed read
    have hcut : (deviceRun env (i + 2)).log = (deviceRun env i).log ++ .fgetc r.stream none ::
        (rest ++ .fgetc r.stream ((env (i + 1)).char.map SerialChar.char) :: rest') := by
      rw [(deviceRun_reading hstage).2, hlog, hrest, hrest', hstream, hnone, List.append_assoc]
      rfl
    exact (h (i + 2) _ _ _ hcut).1 _ (List.mem_append_right _ List.mem_cons_self)
  · intro h n before stream after hlog
    refine absurd ?_ (failed_notMem_log h n stream)
    rw [hlog]
    exact List.mem_append_right _ List.mem_cons_self

/-- The device is opened and its first read fails. -/
def lostDevice : DeviceInput := ⟨.opened, fun _ => 0, none, 0⟩

theorem lost_device_read_again :
    ∃ env : Nat → DeviceInput, (deviceRun env 3).log = [.fopen (some 0), .fgetc 0 none, .burst [],
      .fgetc 0 none, .burst []] ∧ ¬ Reopens (deviceRun env 3).log := by
  refine ⟨fun _ => lostDevice, rfl, fun h => ?_⟩
  obtain ⟨hagain, -⟩ := h [.fopen (some 0)] 0 [.burst [], .fgetc 0 none, .burst []] rfl
  exact hagain none (by decide)

end Runs

end Speedway.Gps
