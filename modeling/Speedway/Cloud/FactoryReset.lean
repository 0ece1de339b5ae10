import Speedway.Cloud.Frame

/-!
# A requested factory reset

The reset is only noted when the answer is handled, and is due with the next poll
that is answered. The script runs `factory-reset.sh` there if `noaction` is set;
without it, it prints that it would.
-/

namespace Speedway.Cloud

open Speedway.Lib

/-- The sequence of the last answered poll, the sequence of a reset that was accepted and
is not confirmed, whether one was confirmed, and whether its poll reported the next
sequence. -/
structure Resets where
  reported : Nat := 0
  requested : Option Nat := none
  confirmed : Bool := false
  inOrder : Bool := true

def Resets.note (r : Resets) : Event → Resets
  | .poll sequence _ true =>
      match r.requested with
      | none => { r with reported := sequence }
      | some k =>
          { reported := sequence
            requested := none
            confirmed := true
            inOrder := r.inOrder && sequence == k + 1 }
  | .applied .factoryReset => { r with requested := some r.reported }
  | _ => r

def resets (events : List Event) : Resets := events.foldl Resets.note {}

/-- Without `noaction` the reset is run with the first answered poll after the one that
requested it, which reports the next sequence, and not before; with `noaction` never. -/
def ResetAsRequested (noaction : Bool) (s : State) : Prop :=
  if noaction then s.halted = false
  else s.halted = (resets s.events).confirmed ∧ (resets s.events).inOrder = true

instance (noaction : Bool) : DecidablePred (ResetAsRequested noaction) := fun s =>
  inferInstanceAs (Decidable (if noaction = true then s.halted = false
    else s.halted = (resets s.events).confirmed ∧ (resets s.events).inOrder = true))

theorem resets_append (events events' : List Event) :
    resets (events ++ events') = events'.foldl Resets.note (resets events) :=
  List.foldl_append

theorem Resets.note_minor {e : Event} (he : e.minor = true) (r : Resets) : r.note e = r := by
  cases e with
  | poll => exact nomatch he
  | applied => exact nomatch he
  | _ => rfl

theorem Resets.foldl_minor {minor : List Event} (h : ∀ e ∈ minor, e.minor = true) (r : Resets) :
    minor.foldl Resets.note r = r := by
  induction minor generalizing r with
  | nil => rfl
  | cons e minor ih =>
      rw [List.foldl_cons, note_minor (h e List.mem_cons_self)]
      exact ih (fun e' he' => h e' (List.mem_cons_of_mem e he')) r

variable {noaction : Bool} {i : Input} {s t : State}

theorem Frame.resets_eq (h : Frame s t) : resets t.events = resets s.events := by
  obtain ⟨minor, hminor, hevents⟩ := h.events
  rw [hevents, resets_append, Resets.foldl_minor hminor]

/-- The condition of a step: no poll is answered that confirms a reset (without `noaction`),
or that finds the reset noted (with it). -/
def ResetUnconfirmed (noaction : Bool) (s : State) (i : Input) : Prop :=
  ∀ t, Polls noaction s i t →
    if noaction then t.vars.flags.doFactoryReset = true → i.response = none
    else (resets t.events).requested.isSome = true → i.response = none

section Noaction

/-- With `noaction`: the reset is not run. -/
theorem running_framed : Framed (fun s => s.halted = false) :=
  ⟨fun hs ht => ht.halted.trans hs, id⟩

theorem iteration_running (hs : s.halted = false)
    (hi : ∀ t, Polls noaction s i t → t.vars.flags.doFactoryReset = true → i.response = none) :
    (iteration noaction s i).halted = false := by
  have hstart : (s.start i).halted = false := by
    rw [State.start]
    split
    · exact hs
    · exact hs
  obtain ⟨flags, last, reports, allConfig, hsetUp⟩ := setUp_eq i (s.start i)
  apply running_framed.iteration (A := fun t => t.halted = false)
    (B := fun t => t.halted = false ∧ (t.vars.flags.doFactoryReset = true → i.response = none))
    (C := fun t => t.halted = false) running_framed.frame id hs
  · rw [hsetUp]
    exact hstart
  · intro t ht hpolls
    have hends : Ends (fun u => u.halted = false ∧
          u.vars.flags.doFactoryReset = t.vars.flags.doFactoryReset)
        (fun u => u.halted = false) (report i t) :=
      report_ends (fun _ _ _ _ _ hflags => ⟨ht, hflags⟩) fun _ _ _ => ht
    refine hends.and_eq.imp fun u hu => ⟨hu.2.1, fun hreset => ?_⟩
    exact hi t (hpolls u hu.1) (hu.2.2 ▸ hreset)
  · rintro t ⟨ht, hresponse⟩
    apply poll_ends
    · exact fun _ => ht
    · intro hanswered hreset _
      rw [hresponse hreset] at hanswered
      cases hanswered
    · exact fun _ _ _ _ _ _ _ => ht
  · intro t response ht
    apply handleOutput_ends
    · exact fun _ => ht
    · exact fun _ _ => ht
    · exact fun _ _ => ht
    · exact fun _ _ => ht
    · exact fun _ _ _ _ => ht

end Noaction

section Action

/-- Without `noaction`: nothing is confirmed and nothing is run. -/
structure Waiting (s : State) : Prop where
  halted : s.halted = false
  confirmed : (resets s.events).confirmed = false
  inOrder : (resets s.events).inOrder = true

theorem waiting_framed : Framed Waiting := by
  refine ⟨fun hs ht => ?_, fun hs => ⟨hs.halted, hs.confirmed, hs.inOrder⟩⟩
  refine ⟨ht.halted.trans hs.halted, ?_, ?_⟩
  · rw [ht.resets_eq]
    exact hs.confirmed
  · rw [ht.resets_eq]
    exact hs.inOrder

theorem Waiting.poll_unanswered {v : Nat} {c : Option Bool} (h : Waiting s) :
    Waiting (s.log (.poll v c false)) := by
  refine ⟨h.halted, ?_, ?_⟩
  · rw [State.log, resets_append]
    exact h.confirmed
  · rw [State.log, resets_append]
    exact h.inOrder

theorem Waiting.poll_answered {v : Nat} {c : Option Bool} {store : Store} {vars : Vars}
    (h : Waiting s) (hnone : (resets s.events).requested = none) :
    Waiting { s.log (.poll v c true) with store, vars } := by
  have hnote : (resets s.events).note (.poll v c true) =
      { resets s.events with reported := v } := by
    simp only [Resets.note, hnone]
  refine ⟨h.halted, ?_, ?_⟩
  · show (resets (s.events ++ [.poll v c true])).confirmed = false
    rw [resets_append, List.foldl_cons, List.foldl_nil, hnote]
    exact h.confirmed
  · show (resets (s.events ++ [.poll v c true])).inOrder = true
    rw [resets_append, List.foldl_cons, List.foldl_nil, hnote]
    exact h.inOrder

theorem Waiting.applied {a : Action} {vars : Vars} (h : Waiting s) :
    Waiting { s.log (.applied a) with vars } := by
  have hnote : ((resets s.events).note (.applied a)).confirmed = false ∧
      ((resets s.events).note (.applied a)).inOrder = true := by
    cases a with
    | _ => exact ⟨h.confirmed, h.inOrder⟩
  refine ⟨h.halted, ?_, ?_⟩
  · show (resets (s.events ++ [.applied a])).confirmed = false
    rw [resets_append]
    exact hnote.1
  · show (resets (s.events ++ [.applied a])).inOrder = true
    rw [resets_append]
    exact hnote.2

theorem iteration_waiting (hs : Waiting s)
    (hi : ∀ t, Polls false s i t → (resets t.events).requested.isSome = true →
      i.response = none) :
    Waiting (iteration false s i) := by
  have hstart : Waiting (s.start i) := by
    rw [State.start]
    split
    · exact waiting_framed.gone hs
    · exact hs
  obtain ⟨flags, last, reports, allConfig, hsetUp⟩ := setUp_eq i (s.start i)
  apply waiting_framed.iteration (A := Waiting)
    (B := fun t => Waiting t ∧ ((resets t.events).requested.isSome = true → i.response = none))
    (C := Waiting) waiting_framed.frame id hs
  · rw [hsetUp]
    exact ⟨hstart.halted, hstart.confirmed, hstart.inOrder⟩
  · intro t ht hpolls
    have hends : Ends (fun u => Waiting u ∧ u.events = t.events) Waiting (report i t) :=
      report_ends (fun _ _ _ _ _ _ => ⟨⟨ht.halted, ht.confirmed, ht.inOrder⟩, rfl⟩)
        fun _ _ _ => ⟨ht.halted, ht.confirmed, ht.inOrder⟩
    refine hends.and_eq.imp fun u hu => ⟨hu.2.1, fun hreset => ?_⟩
    exact hi t (hpolls u hu.1) (hu.2.2 ▸ hreset)
  · rintro t ⟨ht, hresponse⟩
    apply poll_ends
    · exact fun _ => ht.poll_unanswered
    · exact fun _ _ hnoaction => absurd hnoaction Bool.false_ne_true
    · intro response store commit hanswered _ _ _
      apply ht.poll_answered
      by_contra hrequested
      rw [hresponse (Option.isSome_iff_ne_none.mpr hrequested)] at hanswered
      cases hanswered
  · intro t response ht
    apply handleOutput_ends
    · exact fun _ => ht
    · exact fun _ _ => ⟨ht.halted, ht.confirmed, ht.inOrder⟩
    · exact fun _ _ => ⟨ht.halted, ht.confirmed, ht.inOrder⟩
    · exact fun _ _ => ⟨ht.halted, ht.confirmed, ht.inOrder⟩
    · exact fun a flags _ _ => ht.applied

end Action

/-- In every run in which no reset is confirmed the script does as requested. -/
theorem reset_as_requested {store : Store} {inputs : List Input}
    (hinputs : Meets (iteration noaction) (ResetUnconfirmed noaction) (started store) inputs) :
    ResetAsRequested noaction (run noaction (started store) inputs) := by
  cases noaction with
  | true =>
      exact hinputs.invariant (I := fun s => s.halted = false) rfl
        fun s i hs hi => iteration_running hs hi
  | false =>
      have hwaiting := hinputs.invariant (I := Waiting) ⟨rfl, rfl, rfl⟩
        fun s i hs hi => iteration_waiting hs hi
      exact ⟨hwaiting.halted.trans hwaiting.confirmed.symm, hwaiting.inOrder⟩

/-- A request whose next poll is lost. -/
theorem reset_as_requested_lost :
    Event.applied .factoryReset ∈ (run false (started registered)
        [answered "on" (.action .factoryReset),
          { answered "on" .empty with response := none }]).events ∧
      ResetAsRequested false (run false (started registered)
        [answered "on" (.action .factoryReset),
          { answered "on" .empty with response := none }]) := by
  refine ⟨by decide, reset_as_requested ⟨?_, fun _ _ _ => rfl, trivial⟩⟩
  intro t hpolls hrequested
  have hnone : (resets t.events).requested = none :=
    hpolls.ends (P := fun t => (resets t.events).requested = none) rfl
  rw [hnone] at hrequested
  cases hrequested

/-- The test of `noaction` is the wrong way round: without it the confirmed reset is not
run, with it it is. -/
theorem reset_inverted :
    ¬ ResetAsRequested false (run false (started registered)
        [answered "on" (.action .factoryReset), answered "on" .empty]) ∧
      ¬ ResetAsRequested true (run true (started registered)
        [answered "on" (.action .factoryReset), answered "on" .empty]) := by
  decide

end Speedway.Cloud
