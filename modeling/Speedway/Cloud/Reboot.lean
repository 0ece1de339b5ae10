import Speedway.Cloud.Counting

/-!
# A requested reboot

`handle_response` calls `reboot` before the sequence is counted and committed.
The command returns at once and the system goes down some time later, so that
what the script did since its last commit may be lost.
-/

namespace Speedway.Cloud

open Speedway.Lib

/-- Where the system goes down in an iteration with an answered poll: before the answer
is used, or after it was handled and before the commit. -/
inductive Moment where
  | answered
  | handled
  deriving DecidableEq

/-- The system goes down; files in `/tmp` are lost. -/
def State.down (s : State) : State := { s.gone with allConfig := none }

/-- The same where the poll was made at `t`: only the removal of a confirmed value was
not committed yet. -/
def State.downBeforeCommit (s t : State) : State :=
  { s.down with store := { s.store with
    actionSequencePending := t.store.actionSequencePending
    expectedVersion := t.store.expectedVersion } }

/-- The end of a part of an iteration, early or not. -/
def Flow.state : Flow → State
  | .ok s => s
  | .error s => s

/-- An iteration in which the system goes down. -/
def interrupted (noaction : Bool) (moment : Moment) (i : Input) (s : State) : State :=
  match beforePoll noaction i (s.start i) with
  | .error t => t.down
  | .ok t =>
      match poll noaction i t with
      | .error u => u.down
      | .ok (response, u) =>
          match moment with
          | .answered => u.downBeforeCommit t
          | .handled => (Flow.state (handleOutput i u response)).downBeforeCommit t

/-- An iteration of a device that may go down in it. -/
def deviceStep (noaction : Bool) (s : State) (step : Input × Option Moment) : State :=
  match step.2 with
  | none => iteration noaction s step.1
  | some moment => if s.halted then s else interrupted noaction moment step.1 s

/-- The sequence of the last poll that was answered, and the sequences of the actions for
which `reboot` was executed. -/
structure Reboots where
  reported : Nat := 0
  executed : List Nat := []

def Reboots.note (r : Reboots) : Event → Reboots
  | .poll sequence _ true => { r with reported := sequence }
  | .applied .rebootNow => { r with executed := r.reported :: r.executed }
  | _ => r

def reboots (events : List Event) : Reboots := events.foldl Reboots.note {}

/-- The reboot of an action is executed at most once. -/
def RebootsOnce (s : State) : Prop := (reboots s.events).executed.Nodup

instance : DecidablePred RebootsOnce := fun s =>
  inferInstanceAs (Decidable (reboots s.events).executed.Nodup)

theorem reboots_append (events : List Event) (e : Event) :
    reboots (events ++ [e]) = (reboots events).note e := by
  rw [reboots, List.foldl_append]
  rfl

theorem executed_of_ne {events : List Event} {e : Event} (he : e ≠ .applied .rebootNow) :
    (reboots (events ++ [e])).executed = (reboots events).executed := by
  rw [reboots_append]
  cases e with
  | poll v c answered => cases answered <;> rfl
  | applied a =>
      cases a with
      | rebootNow => exact absurd rfl he
      | _ => rfl
  | _ => rfl

/-- The sequences below `v`, of which an action may be the next. -/
def Below (events : List Event) (v : Nat) : Prop := ∀ k ∈ (reboots events).executed, k < v

theorem Below.of_ne {events : List Event} {e : Event} {v : Nat} (h : Below events v)
    (he : e ≠ .applied .rebootNow) : Below (events ++ [e]) v := by
  rw [Below, executed_of_ne he]
  exact h

theorem Below.mono {events : List Event} {v w : Nat} (h : Below events v) (hw : v ≤ w) :
    Below events w :=
  fun k hk => Nat.lt_of_lt_of_le (h k hk) hw

theorem ne_rebootNow_of_silent {e : Event} (he : e.silent = true) :
    e ≠ .applied .rebootNow := by
  rintro rfl
  exact nomatch he

/-- A reboot for the sequence just reported is a new one. -/
theorem executed_applied (events : List Event) (v : Nat) (c : Option Bool) (a : Action) :
    (reboots (events ++ [.poll v c true] ++ [.applied a])).executed = (reboots events).executed ∨
      (reboots (events ++ [.poll v c true] ++ [.applied a])).executed =
        v :: (reboots events).executed := by
  rw [reboots_append, reboots_append]
  cases a with
  | rebootNow => exact .inr rfl
  | _ => exact .inl rfl

/-- Reboots were executed for smaller sequences only. -/
def rebooting : SequenceRule where
  Ok events := (reboots events).executed.Nodup
  Next := Below
  Raised := Below
  ok_silent he h := by
    rw [executed_of_ne (ne_rebootNow_of_silent he)]
    exact h
  next_silent he h := h.of_ne (ne_rebootNow_of_silent he)
  raised_silent he h := h.of_ne (ne_rebootNow_of_silent he)
  raise h := h.mono (Nat.le_succ _)
  ok_config h := by
    rw [executed_of_ne (e := .configApplied) nofun]
    exact h
  next_config h := (h.of_ne (e := .configApplied) nofun).mono (Nat.le_succ _)
  raised_config h := h.of_ne (e := .configApplied) nofun
  ok_poll {events v c} h _ := by
    rw [executed_of_ne (e := .poll v c true) nofun]
    exact h
  next_poll {events v c} h := (h.elim id And.right).of_ne (e := .poll v c true) nofun
  raised_poll {events v c} h := (h.elim id And.right).of_ne (e := .poll v c true) nofun
  ok_applied {events v c a} h hv := by
    have hbelow : Below events v := hv.elim id And.right
    rcases executed_applied events v c a with hsame | hnew
    · rw [hsame]
      exact h
    · rw [hnew, List.nodup_cons]
      exact ⟨fun hmem => Nat.lt_irrefl v (hbelow v hmem), h⟩
  next_applied {events v c a} hv := by
    have hbelow : Below events v := hv.elim id And.right
    intro k hk
    rcases executed_applied events v c a with hsame | hnew
    · rw [hsame] at hk
      exact Nat.lt_succ_of_lt (hbelow k hk)
    · rw [hnew] at hk
      rcases List.mem_cons.mp hk with rfl | hold
      · exact Nat.lt_succ_self k
      · exact Nat.lt_succ_of_lt (hbelow k hold)

variable {noaction : Bool} {moment : Moment} {i : Input} {s t u : State}

theorem Counted.down {R : SequenceRule} (h : Counted R s) : Counted R s.down :=
  h.left ⟨rfl, rfl, rfl, .inl rfl⟩

/-- What has happened when the system goes down: no reboot, and nothing was committed. -/
structure Uncommitted (s t : State) : Prop where
  executed : (reboots s.events).executed = (reboots t.events).executed
  actionSequence : s.store.actionSequence = t.store.actionSequence

theorem Uncommitted.counted (h : Uncommitted s t) (ht : Counted rebooting t) :
    Counted rebooting (s.downBeforeCommit t) := by
  have hsequence : (s.downBeforeCommit t).sequence = t.sequence :=
    congrArg (Option.getD · 0) h.actionSequence
  refine ⟨?_, fun hnone => ?_, fun _ => .inl rfl, fun p hp => ?_⟩
  · show (reboots s.events).executed.Nodup
    rw [h.executed]
    exact ht.ok
  · show Below s.events _
    rw [Below, h.executed, hsequence]
    exact ht.stored hnone
  · show Below s.events p
    rw [Below, h.executed]
    exact ht.pending p hp

theorem poll_uncommitted (noaction : Bool) (i : Input) (t : State) :
    Ends (fun r => i.response = some r.1 ∧ Uncommitted r.2 t) (fun _ => True)
      (poll noaction i t) := by
  apply poll_ends
  · exact fun _ => trivial
  · exact fun _ _ _ => trivial
  · intro response store commit hresponse _ hsequence _
    exact ⟨hresponse, executed_of_ne nofun, hsequence⟩

theorem handleOutput_uncommitted {response : Response} (h : Uncommitted u t)
    (hresponse : response ≠ .action .rebootNow) :
    Uncommitted (Flow.state (handleOutput i u response)) t := by
  have hflow {x : Flow} (hx : Ends (Uncommitted · t) (Uncommitted · t) x) :
      Uncommitted (Flow.state x) t := by
    cases x with
    | ok => exact hx
    | error => exact hx
  apply hflow
  apply handleOutput_ends
  · exact fun _ => h
  · exact fun _ _ => ⟨h.executed, h.actionSequence⟩
  · exact fun _ _ => ⟨h.executed, h.actionSequence⟩
  · exact fun _ _ => ⟨h.executed, h.actionSequence⟩
  · rintro a flags rfl -
    refine ⟨(executed_of_ne ?_).trans h.executed, h.actionSequence⟩
    rintro heq
    cases heq
    exact hresponse rfl

/-- The iteration is regular, and the system does not go down between a reboot and its
commit. -/
structure RegularDown (s : State) (step : Input × Option Moment) : Prop where
  regular : Regular s step.1
  committed : step.2 = some .handled → step.1.response ≠ some (.action .rebootNow)

theorem interrupted_counted (h : Counted rebooting s) (hi : RegularDown s (i, some moment)) :
    Counted rebooting (interrupted noaction moment i s) := by
  have hbefore := beforePoll_chosen noaction h hi.regular
  unfold interrupted
  cases hflow : beforePoll noaction i (s.start i) with
  | error t =>
      rw [hflow] at hbefore
      exact Counted.down hbefore
  | ok t =>
      rw [hflow] at hbefore
      obtain ⟨-, hchosen, -⟩ := hbefore
      have hpoll := poll_reported noaction hchosen hi.regular.uci
      have huncommitted := poll_uncommitted noaction i t
      simp only
      cases hanswer : poll noaction i t with
      | error u =>
          rw [hanswer] at hpoll
          exact Counted.down hpoll
      | ok r =>
          rw [hanswer] at huncommitted
          obtain ⟨hresponse, huncommitted⟩ := huncommitted
          cases moment with
          | answered => exact huncommitted.counted hchosen.counted
          | handled =>
              apply (handleOutput_uncommitted huncommitted ?_).counted hchosen.counted
              intro hreboot
              exact hi.committed rfl (hresponse.trans (congrArg some hreboot))

theorem deviceStep_counted {step : Input × Option Moment} (h : Counted rebooting s)
    (hi : RegularDown s step) : Counted rebooting (deviceStep noaction s step) := by
  obtain ⟨i, down⟩ := step
  cases down with
  | none => exact iteration_counted h hi.regular
  | some moment =>
      show Counted rebooting (if s.halted then s else interrupted noaction moment i s)
      split
      · exact h
      · exact interrupted_counted h hi

/-- In every run in which the system goes down only after the commit, each reboot is
executed once. -/
theorem reboots_once {store : Store} {steps : List (Input × Option Moment)}
    (hsteps : Meets (deviceStep noaction) RegularDown (started store) steps) :
    RebootsOnce (steps.foldl (deviceStep noaction) (started store)) :=
  have hstart : Counted rebooting (started store) :=
    started_counted List.nodup_nil (fun _ => nofun) fun _ => nofun
  (hsteps.invariant hstart fun _ _ hs hi => deviceStep_counted hs hi).ok

theorem Regular.of_settled (huci : ∀ site, i.uci site = true)
    (hpending : s.store.actionSequencePending = none) (hconfig : s.store.configUpdates = false) :
    Regular s i :=
  ⟨huci, fun _ _ h => absurd h.config (hconfig ▸ nofun), fun _ h => absurd h (hpending ▸ nofun),
    fun _ h => absurd h (hpending ▸ nofun)⟩

/-- After a restart the next poll reports the sequence of the action done. -/
theorem reboots_once_committed :
    (reboots ([(answered "on" (.action .rebootNow), none),
        ({ answered "on" .empty with restart := true }, some .answered)].foldl
          (deviceStep false) (started registered)).events).executed = [5] ∧
      RebootsOnce ([(answered "on" (.action .rebootNow), none),
        ({ answered "on" .empty with restart := true }, some .answered)].foldl
          (deviceStep false) (started registered)) :=
  ⟨by decide, reboots_once ⟨⟨.of_settled (fun _ => rfl) rfl rfl, nofun⟩,
    ⟨.of_settled (fun _ => rfl) rfl rfl, nofun⟩, trivial⟩⟩

/-- Without the commit the next poll reports the same sequence and gets the same answer. -/
theorem reboots_again :
    ¬ RebootsOnce ([(answered "on" (.action .rebootNow), some .handled),
      (answered "on" (.action .rebootNow), some .handled)].foldl
        (deviceStep false) (started registered)) := by
  decide

end Speedway.Cloud
