import Speedway.Cloud.Counting

/-!
# The action sequence

The ledger of a run compares the sequences of the polls that were answered with
the actions applied between them; an upgrade counts with the poll that confirms
the expected version.
-/

namespace Speedway.Cloud

open Speedway.Lib

/-- The last sequence that reached the cloud and the actions applied since. -/
structure Ledger where
  last : Option Nat := none
  applied : Nat := 0
  ok : Bool := true

def Ledger.note (l : Ledger) : Event → Ledger
  | .poll sequence confirms true =>
      { last := some sequence
        applied := 0
        ok := l.ok && l.last.all fun x =>
          x ≤ sequence && sequence ≤ x + l.applied + (if confirms = some true then 1 else 0) }
  | .applied _ | .configApplied => { l with applied := l.applied + 1 }
  | _ => l

def ledger (events : List Event) : Ledger := events.foldl Ledger.note {}

/-- The sequences of the answered polls never go back, and each is larger than the
one before by at most the number of actions applied in between. -/
def SequenceAdvances (s : State) : Prop := (ledger s.events).ok = true

instance : DecidablePred SequenceAdvances := fun s =>
  inferInstanceAs (Decidable ((ledger s.events).ok = true))

theorem ledger_append (events : List Event) (e : Event) :
    ledger (events ++ [e]) = (ledger events).note e := by
  rw [ledger, List.foldl_append]
  rfl

/-- `v` is a sequence that may be reported after `d` more actions. -/
def Ledger.Bounds (l : Ledger) (v d : Nat) : Prop := ∀ x ∈ l.last, x ≤ v ∧ v ≤ x + l.applied + d

/-- An answered poll with a sequence inside the bounds. -/
theorem Ledger.ok_note {l : Ledger} {v : Nat} {confirms : Option Bool} (h : l.ok = true)
    (hb : l.Bounds v (if confirms = some true then 1 else 0)) :
    (l.note (.poll v confirms true)).ok = true := by
  simp only [Ledger.note, h, Bool.true_and, Option.all_eq_true, Bool.and_eq_true, decide_eq_true_eq]
  exact hb

theorem Ledger.note_silent {e : Event} (he : e.silent = true) (l : Ledger) : l.note e = l := by
  cases e with
  | poll v c answered =>
      cases answered with
      | false => rfl
      | true => exact nomatch he
  | applied => exact nomatch he
  | configApplied => exact nomatch he
  | _ => rfl

theorem Ledger.Bounds.mono {l : Ledger} {v d d' : Nat} (h : l.Bounds v d) (hd : d ≤ d') :
    l.Bounds v d' := fun x hx => ⟨(h x hx).1, Nat.le_trans (h x hx).2 (Nat.add_le_add_left hd _)⟩

/-- One more action, one more sequence. -/
theorem Ledger.Bounds.next {l : Ledger} {v d : Nat} (h : l.Bounds v d) : l.Bounds (v + 1) (d + 1) :=
  fun x hx => ⟨Nat.le_succ_of_le (h x hx).1, Nat.succ_le_succ (h x hx).2⟩

/-- After an answered poll only its own sequence may be reported. -/
theorem Ledger.bounds_note (l : Ledger) (v d : Nat) (confirms : Option Bool) :
    (l.note (.poll v confirms true)).Bounds v d := by
  intro x hx
  obtain rfl := Option.mem_some_iff.mp hx
  exact ⟨Nat.le_refl _, Nat.le_add_right _ _⟩

/-- A sequence that may be reported is inside the bounds of the poll. -/
theorem Ledger.bounds_poll {l : Ledger} {v : Nat} {confirms : Option Bool}
    (h : l.Bounds v 0 ∨ confirms = some true ∧ l.Bounds v 1) :
    l.Bounds v (if confirms = some true then 1 else 0) := by
  rcases h with hnext | ⟨rfl, hraised⟩
  · exact hnext.mono (Nat.zero_le _)
  · exact hraised

/-- The rule of the ledger. -/
def advancing : SequenceRule where
  Ok events := (ledger events).ok = true
  Next events v := (ledger events).Bounds v 0
  Raised events p := (ledger events).Bounds p 1
  ok_silent he h := by
    rw [ledger_append, Ledger.note_silent he]
    exact h
  next_silent he h := by
    rw [ledger_append, Ledger.note_silent he]
    exact h
  raised_silent he h := by
    rw [ledger_append, Ledger.note_silent he]
    exact h
  raise h := h.next
  ok_config h := by
    rw [ledger_append]
    exact h
  next_config h := by
    rw [ledger_append]
    exact fun x hx => ⟨Nat.le_succ_of_le (h x hx).1, Nat.succ_le_succ (h x hx).2⟩
  raised_config h := by
    rw [ledger_append]
    exact fun x hx => ⟨(h x hx).1, Nat.le_succ_of_le (h x hx).2⟩
  ok_poll h hv := by
    rw [ledger_append]
    exact Ledger.ok_note h (Ledger.bounds_poll hv)
  next_poll _ := by
    rw [ledger_append]
    exact Ledger.bounds_note _ _ _ _
  raised_poll _ := by
    rw [ledger_append]
    exact Ledger.bounds_note _ _ _ _
  ok_applied h hv := by
    rw [ledger_append, ledger_append]
    exact Ledger.ok_note h (Ledger.bounds_poll hv)
  next_applied {events v c a} _ := by
    rw [ledger_append, ledger_append]
    intro x hx
    have hbounds := Ledger.bounds_note (ledger events) v 0 c x hx
    exact ⟨Nat.le_succ_of_le hbounds.1, Nat.succ_le_succ hbounds.2⟩

/-- In every run of regular iterations the sequences reported advance. -/
theorem sequence_advances {noaction : Bool} {store : Store} {inputs : List Input}
    (hinputs : Meets (iteration noaction) Regular (started store) inputs) :
    SequenceAdvances (run noaction (started store) inputs) :=
  have hstart : Counted advancing (started store) :=
    started_counted rfl (fun _ => nofun) fun _ => nofun
  (hinputs.invariant hstart fun _ _ hs hi => iteration_counted hs hi).ok

/-- A device after an upgrade to version 1. -/
def upgraded : Store :=
  { registered with
    actionSequencePending := some 6
    expectedVersion := "1"
    softwareUpdates := true }

/-- The poll that confirms the upgrade brings an action, and the next one reports it. -/
def confirmedThenApplied : List Input :=
  [answered "on" (.action (.ssid "net")), answered "on" .empty]

theorem sequence_advances_upgraded :
    Event.poll 6 (some true) true ∈ (run false (started upgraded) confirmedThenApplied).events ∧
      Event.poll 7 none true ∈ (run false (started upgraded) confirmedThenApplied).events ∧
      SequenceAdvances (run false (started upgraded) confirmedThenApplied) := by
  have hregular : Meets (iteration false) Regular (started upgraded) confirmedThenApplied := by
    refine ⟨⟨fun _ => rfl, nofun, fun _ _ => rfl, ?_⟩, ⟨fun _ => rfl, nofun, nofun, nofun⟩, trivial⟩
    intro _ _ response hresponse
    obtain rfl := Option.mem_some_iff.mp hresponse
    rfl
  exact ⟨by decide, by decide, sequence_advances hregular⟩

/-- The sequence goes back if a stored configuration is applied right after a restart,
and if the answer to the poll that confirms an upgrade is refused. -/
theorem sequence_goes_back :
    ¬ SequenceAdvances (run false (started registered)
        [{ answered "on" (.action .configurationUpdate) with autoConfig := "off" },
          { answered "on" .empty with restart := true }]) ∧
      ¬ SequenceAdvances (run false (started upgraded)
        [answered "on" .malformed, answered "on" .empty]) := by
  decide

end Speedway.Cloud
