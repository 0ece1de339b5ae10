import Speedway.Cloud.Stages

/-!
# Actions that are applied at once

A poll reports the sequence that is stored, so that the cloud repeats an action
until its number was stored as done. Without updates the stored sequence counts
the actions that were applied, whatever polls and answers are lost.
-/

namespace Speedway.Cloud

open Speedway.Lib

/-- The log, the sequence and the updates are the same. -/
structure Same (s t : State) : Prop where
  events : t.events = s.events
  actionSequence : t.store.actionSequence = s.store.actionSequence
  pending : t.store.actionSequencePending = s.store.actionSequencePending
  softwareUpdates : t.store.softwareUpdates = s.store.softwareUpdates
  configUpdates : t.store.configUpdates = s.store.configUpdates

/-- No update is stored or pending. -/
structure Idle (store : Store) : Prop where
  pending : store.actionSequencePending = none
  softwareUpdates : store.softwareUpdates = false
  configUpdates : store.configUpdates = false

section Same

variable {i : Input} {s t u : State} {noaction : Bool}

theorem Same.refl (s : State) : Same s s := ⟨rfl, rfl, rfl, rfl, rfl⟩

theorem Same.trans (h : Same s t) (h' : Same t u) : Same s u :=
  ⟨h'.events.trans h.events, h'.actionSequence.trans h.actionSequence, h'.pending.trans h.pending,
    h'.softwareUpdates.trans h.softwareUpdates, h'.configUpdates.trans h.configUpdates⟩

theorem Same.sequence (h : Same s t) : t.sequence = s.sequence :=
  congrArg (Option.getD · 0) h.actionSequence

theorem Same.idle (h : Same s t) (hs : Idle s.store) : Idle t.store :=
  ⟨h.pending.trans hs.pending, h.softwareUpdates.trans hs.softwareUpdates,
    h.configUpdates.trans hs.configUpdates⟩

/-- One more stage that leaves all this alone. -/
theorem Same.bind {x : Flow} {f : State → Flow} {Q : State → Prop}
    (hx : Ends (Same s) (Same s) x) (hf : ∀ t, Same s t → Ends Q (Same s) (f t)) :
    Ends Q (Same s) (x >>= f) :=
  Ends.bind hx hf

theorem Same.ends {x : Flow} (h : Same s t) (hx : Ends (Same t) (Same t) x) :
    Ends (Same s) (Same s) x :=
  hx.mono (fun _ ht => h.trans ht) fun _ ht => h.trans ht

theorem prepare_same : Ends (Same s) (Same s) (prepare i s) := by
  obtain ⟨flags, last, reports, allConfig, hsetUp⟩ := setUp_eq i s
  simp only [prepare, hsetUp]
  repeat' split
  all_goals exact ⟨rfl, rfl, rfl, rfl, rfl⟩

theorem readUuid_same : Ends (Same s) (Same s) (readUuid i s) := by
  simp only [readUuid]
  generalize (if i.uci .getCloudUuid = true then s.store.cloudUuid else "") = cloudUuid
  split
  · exact ⟨rfl, rfl, rfl, rfl, rfl⟩
  · apply command_bind_ends _ fun _ => ⟨rfl, rfl, rfl, rfl, rfl⟩
    intro _
    apply command_bind_ends _ fun _ => ⟨rfl, rfl, rfl, rfl, rfl⟩
    intro _
    apply command_bind_ends _ fun _ => ⟨rfl, rfl, rfl, rfl, rfl⟩
    intro _
    exact ⟨rfl, rfl, rfl, rfl, rfl⟩

theorem checkVersion_same (h : s.vars.actionSequencePending = none) :
    Ends (fun t => Same s t ∧ t.vars = s.vars) (Same s) (checkVersion i s) := by
  have hnone : ¬ s.vars.actionSequencePending.isSome = true := by
    rw [h]
    exact nofun
  simp only [checkVersion]
  rw [if_neg hnone]
  split
  · exact command_ends (fun _ => ⟨⟨rfl, rfl, rfl, rfl, rfl⟩, rfl⟩)
      fun _ => ⟨rfl, rfl, rfl, rfl, rfl⟩
  · exact ⟨.refl s, rfl⟩

theorem pendingUpdates_idle (h : Idle s.store) : pendingUpdates noaction i s = .ok s := by
  simp only [pendingUpdates, h.softwareUpdates, h.configUpdates]
  simp

theorem fetchUuid_same :
    Ends (fun t => Same s t ∧ t.vars.actionSequence = s.vars.actionSequence ∧
        t.vars.actionSequencePending = s.vars.actionSequencePending)
      (Same s) (fetchUuid i s) := by
  simp only [fetchUuid]
  repeat' split
  all_goals first | exact ⟨rfl, rfl, rfl, rfl, rfl⟩ | exact ⟨⟨rfl, rfl, rfl, rfl, rfl⟩, rfl, rfl⟩

theorem report_same :
    Ends (fun t => Same s t ∧ t.vars.actionSequence = s.vars.actionSequence ∧
        t.vars.actionSequencePending = s.vars.actionSequencePending)
      (Same s) (report i s) :=
  report_ends (fun _ _ _ _ _ _ => ⟨⟨rfl, rfl, rfl, rfl, rfl⟩, rfl, rfl⟩)
    fun _ _ _ => ⟨rfl, rfl, rfl, rfl, rfl⟩

/-- Without updates the stored sequence is the one that is reported. -/
theorem beforePoll_idle (noaction : Bool) (h : Idle s.store) (huci : ∀ site, i.uci site = true) :
    Ends (fun t => Same s t ∧ t.vars.actionSequence = some s.sequence ∧
        t.vars.actionSequencePending = none)
      (Same s) (beforePoll noaction i s) := by
  unfold beforePoll
  apply Same.bind prepare_same
  intro t₁ h₁
  apply Same.bind (h₁.ends readUuid_same)
  intro t₂ h₂
  have hpending : (readOptions i t₂).vars.actionSequencePending = none := by
    simp only [readOptions, huci, if_true]
    exact (h₂.idle h).pending
  refine Ends.bind ((checkVersion_same hpending).mono (fun _ ht => ht) fun t ht => ?_) ?_
  · exact h₂.trans ⟨ht.events, ht.actionSequence, ht.pending, ht.softwareUpdates, ht.configUpdates⟩
  rintro t₃ ⟨h₃, hvars⟩
  have h₃ : Same s t₃ := h₂.trans
    ⟨h₃.events, h₃.actionSequence, h₃.pending, h₃.softwareUpdates, h₃.configUpdates⟩
  rw [pendingUpdates_idle (h₃.idle h)]
  change Ends _ _ (fetchUuid i (selectSequence i t₃) >>= _)
  have hpending : t₃.vars.actionSequencePending = none := by
    rw [hvars]
    exact hpending
  have hselect : (selectSequence i t₃).vars.actionSequence = some s.sequence := by
    simp only [selectSequence, hpending, huci, if_true]
    exact congrArg some h₃.sequence
  have h₄ : Same s (selectSequence i t₃) := h₃.trans ⟨rfl, rfl, rfl, rfl, rfl⟩
  refine Ends.bind (fetchUuid_same.mono (fun _ ht => ht) fun _ ht => h₄.trans ht) ?_
  rintro t₅ ⟨h₅, hsequence, hnone⟩
  have hchoose : Same t₅ (chooseUuid t₅) :=
    ⟨chooseUuid_quiet.events, chooseUuid_quiet.actionSequence, chooseUuid_quiet.pending,
      chooseUuid_quiet.softwareUpdates, chooseUuid_quiet.configUpdates⟩
  have h₅ := (h₄.trans h₅).trans hchoose
  refine report_same.mono ?_ fun _ ht => h₅.trans ht
  rintro t₆ ⟨h₆, hsequence₆, hnone₆⟩
  refine ⟨h₅.trans h₆, ?_, ?_⟩
  · rw [hsequence₆, chooseUuid_quiet.sequence, hsequence, hselect]
  · rw [hnone₆, chooseUuid_pending, hnone]
    exact hpending

end Same

/-- The actions that `handle_response` applied, in this order. -/
def appliedActions (events : List Event) : List Action :=
  events.filterMap fun
    | .applied a => some a
    | _ => none

/-- A cloud with one action for each number, none of them an update. -/
structure DirectCloud where
  action : Nat → Action
  software : ∀ k, action k ≠ .softwareUpdate
  config : ∀ k, action k ≠ .configurationUpdate

/-- What an iteration may meet: `uci` works, and a poll that is answered gets nothing or
the action with the reported number. -/
structure Lossy (cloud : DirectCloud) (noaction : Bool) (s : State) (i : Input) : Prop where
  uci : ∀ site, i.uci site = true
  answer : ∀ t, beforePoll noaction i (s.start i) = .ok t → ∀ response ∈ i.response,
    response = .empty ∨ response = .action (cloud.action (t.vars.actionSequence.getD 0))

/-- The same as a test. -/
def answersNext (cloud : DirectCloud) (noaction : Bool) (s : State) (i : Input) : Bool :=
  match beforePoll noaction i (s.start i) with
  | .error _ => true
  | .ok t => i.response.all fun response => response == .empty ||
      response == .action (cloud.action (t.vars.actionSequence.getD 0))

theorem lossy_of_answersNext {cloud : DirectCloud} {noaction : Bool} {s : State} {i : Input}
    (huci : ∀ site, i.uci site = true) (h : answersNext cloud noaction s i = true) :
    Lossy cloud noaction s i := by
  refine ⟨huci, fun t ht response hresponse => ?_⟩
  rw [answersNext, ht, Option.mem_def.mp hresponse] at h
  simpa using h

/-- The actions from number `n` on were applied, and the stored sequence is the next one. -/
structure InOrder (cloud : DirectCloud) (n : Nat) (s : State) : Prop where
  idle : Idle s.store
  applied : ∃ m, appliedActions s.events = (List.range m).map (fun j => cloud.action (n + j)) ∧
    s.sequence = n + m

section InOrder

variable {cloud : DirectCloud} {n : Nat} {i : Input} {s t : State} {noaction : Bool}

theorem appliedActions_append (events : List Event) (e : Event) :
    appliedActions (events ++ [e]) = appliedActions events ++ appliedActions [e] :=
  List.filterMap_append

theorem InOrder.congr (h : InOrder cloud n s)
    (hevents : appliedActions t.events = appliedActions s.events)
    (hstore : t.store.actionSequence = s.store.actionSequence) (hidle : Idle t.store) :
    InOrder cloud n t := by
  obtain ⟨m, happlied, hsequence⟩ := h.applied
  refine ⟨hidle, m, hevents.trans happlied, ?_⟩
  rw [State.sequence, hstore]
  exact hsequence

theorem InOrder.same (h : InOrder cloud n s) (ht : Same s t) : InOrder cloud n t :=
  h.congr (congrArg appliedActions ht.events) ht.actionSequence (ht.idle h.idle)

/-- Between the answer and the commit: the variable is the sequence to be stored. -/
structure Applying (cloud : DirectCloud) (n : Nat) (s : State) : Prop where
  idle : Idle s.store
  applied : ∃ m, appliedActions s.events = (List.range m).map (fun j => cloud.action (n + j)) ∧
    s.vars.actionSequence = some (n + m) ∧ (s.vars.commit = true ∨ s.sequence = n + m)

theorem poll_inOrder (h : InOrder cloud n s) (hpending : s.vars.actionSequencePending = none) :
    Ends (fun t => i.response = some t.1 ∧ InOrder cloud n t.2 ∧
        t.2.vars.actionSequence = s.vars.actionSequence ∧
        t.2.store.actionSequence = s.store.actionSequence)
      (InOrder cloud n) (poll noaction i s) := by
  have hlog (answered : Bool) : InOrder cloud n
      (s.log (.poll (s.vars.actionSequence.getD 0) (confirms i s) answered)) := by
    refine h.congr ?_ rfl ⟨h.idle.pending, h.idle.softwareUpdates, h.idle.configUpdates⟩
    exact (appliedActions_append _ _).trans (List.append_nil _)
  have hnone : ¬ s.vars.actionSequencePending.isSome = true := by
    rw [hpending]
    exact nofun
  rw [poll]
  cases i.response with
  | none => exact hlog false
  | some response =>
      simp only [Option.isSome_some]
      split
      · have ht := hlog true
        exact ⟨ht.idle, ht.applied⟩
      · split
        next hsome => exact absurd hsome hnone
        · exact ⟨rfl, hlog true, rfl, rfl⟩

/-- An answer is either nothing, or the next action, which is applied or refused. -/
theorem handleOutput_applying {response : Response} (h : InOrder cloud n s)
    (hsequence : s.vars.actionSequence = some s.sequence)
    (hresponse : response = .empty ∨ response = .action (cloud.action s.sequence)) :
    Ends (Applying cloud n) (InOrder cloud n) (handleOutput i s response) := by
  obtain ⟨m, happlied, hm⟩ := h.applied
  apply handleOutput_ends
  · exact fun _ => ⟨h.idle, m, happlied, hm ▸ hsequence, .inr hm⟩
  · exact fun _ _ => ⟨h.idle, h.applied⟩
  · rintro rfl
    rcases hresponse with hempty | haction
    · exact nomatch hempty
    · exact absurd (Response.action.inj haction).symm (cloud.software _)
  · rintro rfl
    rcases hresponse with hempty | haction
    · exact nomatch hempty
    · exact absurd (Response.action.inj haction).symm (cloud.config _)
  · rintro a flags rfl -
    rcases hresponse with hempty | haction
    · exact nomatch hempty
    · obtain rfl := Response.action.inj haction
      refine ⟨h.idle, m + 1, ?_, ?_, .inl rfl⟩
      · calc
          appliedActions (s.events ++ [.applied (cloud.action s.sequence)]) =
              appliedActions s.events ++ [cloud.action s.sequence] := appliedActions_append _ _
          _ = (List.range m).map (fun j => cloud.action (n + j)) ++ [cloud.action (n + m)] := by
              rw [happlied, hm]
          _ = (List.range (m + 1)).map (fun j => cloud.action (n + j)) := by
              rw [List.range_succ, List.map_append, List.map_singleton]
      · show some (s.vars.actionSequence.getD 0 + 1) = some (n + (m + 1))
        rw [hsequence, hm]
        rfl

theorem commitPoll_inOrder (h : Applying cloud n s) (huci : ∀ site, i.uci site = true) :
    Ends (InOrder cloud n) (InOrder cloud n) (commitPoll i s) := by
  obtain ⟨m, happlied, hsequence, hstored⟩ := h.applied
  simp only [commitPoll, huci, if_true, hsequence, State.command]
  split
  · refine ⟨⟨h.idle.pending, h.idle.softwareUpdates, h.idle.configUpdates⟩, m, ?_, rfl⟩
    exact ((appliedActions_append _ _).trans (List.append_nil _)).trans happlied
  next hcommit => exact ⟨h.idle, m, happlied, hstored.resolve_left hcommit⟩

/-- Without updates nothing follows the commit. -/
theorem runUpdates_idle (h : InOrder cloud n s) :
    Ends (InOrder cloud n) (InOrder cloud n)
      (runSoftwareUpdate noaction i (cycle s) >>= fun s => .ok (runConfigUpdate i s)) := by
  have hsoftware : ¬ (cycle s).store.softwareUpdates = true :=
    Bool.eq_false_iff.mp h.idle.softwareUpdates
  have hconfig : ¬ ((cycle s).store.configUpdates = true ∧ (cycle s).vars.autoConfig = "on") :=
    fun hand => Bool.eq_false_iff.mp h.idle.configUpdates hand.1
  rw [runSoftwareUpdate, if_neg hsoftware]
  show InOrder cloud n (runConfigUpdate i (cycle s))
  rw [runConfigUpdate, if_neg hconfig]
  exact ⟨h.idle, h.applied⟩

/-- One iteration applies the next action or none. -/
theorem iteration_inOrder (h : InOrder cloud n s) (hi : Lossy cloud noaction s i) :
    InOrder cloud n (iteration noaction s i) := by
  refine iteration_of_body h fun _ => ?_
  have hstart : InOrder cloud n (s.start i) := by
    rw [State.start]
    split
    · exact ⟨h.idle, h.applied⟩
    · exact h
  rw [body_eq]
  have hbefore := beforePoll_idle noaction hstart.idle hi.uci
  cases hresult : beforePoll noaction i (s.start i) with
  | error t =>
      rw [hresult] at hbefore
      exact hstart.same hbefore
  | ok t =>
      rw [hresult] at hbefore
      obtain ⟨hsame, hsequence, hpending⟩ := hbefore
      have ht := hstart.same hsame
      rw [← hsame.sequence] at hsequence
      change Ends _ _ (poll noaction i t >>= afterPoll noaction i)
      refine Ends.bind (poll_inOrder ht hpending) ?_
      rintro ⟨response, u⟩ ⟨hresponse, hu, hvars, hstore⟩
      have hanswer := hi.answer t hresult response (Option.mem_def.mpr hresponse)
      rw [hsequence] at hanswer
      unfold afterPoll
      refine Ends.bind (handleOutput_applying hu ?_ ?_) fun t₇ h₇ => ?_
      · rw [hvars, hsequence, State.sequence, State.sequence, hstore]
      · rw [State.sequence, hstore]
        exact hanswer
      · exact Ends.bind (commitPoll_inOrder h₇ hi.uci) fun t₈ h₈ => runUpdates_idle h₈

/-- Whatever is lost, the actions with the numbers from the stored sequence on are applied
in this order, each of them once. -/
theorem direct_actions_in_order {store : Store} {inputs : List Input} (hidle : Idle store)
    (hinputs : Meets (iteration noaction) (Lossy cloud noaction) (started store) inputs) :
    ∃ m, appliedActions (run noaction (started store) inputs).events =
        (List.range m).map (fun j => cloud.action (store.actionSequence.getD 0 + j)) ∧
      (run noaction (started store) inputs).sequence = store.actionSequence.getD 0 + m := by
  have hstart : InOrder cloud (store.actionSequence.getD 0) (started store) :=
    ⟨hidle, 0, rfl, rfl⟩
  exact (hinputs.invariant hstart fun _ _ hs hi => iteration_inOrder hs hi).applied

end InOrder

/-- The cloud asks for a password reset and then for the modem status again and again. -/
def resetThenStatus : DirectCloud where
  action := fun k => if k = 0 then .passwordReset else .getModemStatus .now
  software := fun k => by split <;> exact nofun
  config := fun k => by split <;> exact nofun

/-- A device that was never polled for. -/
def unpolled : Store := { registered with actionSequence := none }

/-- The first answer is lost, the second arrives, the script is restarted, and the third
answer arrives. -/
def lossyInputs : List Input :=
  [{ answered "off" .empty with response := none },
    answered "off" (.action .passwordReset),
    { answered "off" (.action (.getModemStatus .now)) with restart := true }]

theorem direct_actions_in_order_lossy :
    ∃ m, appliedActions (run false (started unpolled) lossyInputs).events =
        (List.range m).map (fun j => resetThenStatus.action (unpolled.actionSequence.getD 0 + j)) ∧
      (run false (started unpolled) lossyInputs).sequence =
        unpolled.actionSequence.getD 0 + m := by
  refine direct_actions_in_order ⟨rfl, rfl, rfl⟩ ⟨?_, ?_, ?_, trivial⟩
  · exact lossy_of_answersNext (fun _ => rfl) (by decide)
  · exact lossy_of_answersNext (fun _ => rfl) (by decide)
  · exact lossy_of_answersNext (fun _ => rfl) (by decide)

example : appliedActions (run false (started unpolled) lossyInputs).events =
    [.passwordReset, .getModemStatus .now] := by
  decide

end Speedway.Cloud
