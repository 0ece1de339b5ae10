import Speedway.Cloud.Stages
import Speedway.Lib.Log

/-!
# The waits between polls

After an applied action the next poll is made at once, to confirm it; `get_poll` asks for
no wait while `confirm_action` is set. The flag is only cleared when everything for a poll
is known, so an iteration that ends before leaves it set.
-/

namespace Speedway.Cloud

open Speedway.Lib

section Agent

/-- The argument of `sleep`; for a text that is no number it fails at once. -/
inductive Delay where
  | seconds (n : Int)
  | text (s : String)
  deriving DecidableEq

/-- `get_poll`; an option that is not set is `none`. Both comparisons fail for a text that
is no number. -/
def getPoll (confirmAction : Bool) (overridePoll : Option Delay) (firstTime firstSuccess : Bool)
    (actionPoll : Option Delay) : Delay :=
  if confirmAction then .seconds 0
  else match overridePoll with
    | some poll => poll
    | none =>
        let poll := match actionPoll with
          | none => .seconds 86400
          | some (.seconds n) =>
              if 86400 < n then .seconds 86400 else if n < 60 then .seconds 60 else .seconds n
          | some (.text s) => .text s
        if !firstTime && !firstSuccess then
          match poll with
          | .seconds n => if 60 < n then .seconds 60 else .seconds n
          | .text s => .text s
        else poll

inductive WaitEvent where
  | wait (delay : Delay)
  /-- An action or a configuration is applied. -/
  | applied
  deriving DecidableEq

def Event.applies : Event → Bool
  | .applied _ | .configApplied => true
  | _ => false

/-- The script with its variable `first_success` and the log of its waits. -/
structure Agent where
  state : State
  firstSuccess : Bool := false
  log : List WaitEvent := []
  deriving DecidableEq

/-- Whether the iteration gets to `first_success=true`. -/
def succeeds (noaction : Bool) (i : Input) (s : State) : Bool :=
  Except.isOk (beforePoll noaction i s >>= fun s =>
    poll noaction i s >>= fun r => handleOutput i r.2 r.1)

/-- The variable `first_success` at the start of an iteration; it is not set in a script that
was just started. -/
def Agent.hadSuccess (a : Agent) (i : Input) : Bool :=
  a.firstSuccess && !(a.state.start i).vars.firstTime

/-- The wait of an iteration, with the option `action_poll` at its start. The first
iteration of a script waits for the delay of the start, which is not asked of `get_poll`. -/
def Agent.waits (overridePoll : Option Delay) (a : Agent) (x : Option Delay × Input) :
    List WaitEvent :=
  let s := a.state.start x.2
  if s.vars.firstTime then []
  else [.wait (getPoll s.vars.flags.confirmAction overridePoll false (a.hadSuccess x.2) x.1)]

/-- What was applied between two states. -/
def appliedSince (s t : State) : List Event :=
  (t.events.drop s.events.length).filter Event.applies

/-- One iteration. -/
def agentStep (noaction : Bool) (overridePoll : Option Delay) (a : Agent)
    (x : Option Delay × Input) : Agent :=
  if a.state.halted then a
  else
    let s := a.state.start x.2
    let t := iteration noaction a.state x.2
    { state := t
      firstSuccess := a.hadSuccess x.2 || succeeds noaction x.2 s
      log := a.log ++ a.waits overridePoll x ++ (appliedSince s t).map fun _ => .applied }

/-- The agent goes through the states of the script. -/
theorem agentStep_state (noaction : Bool) (overridePoll : Option Delay) (a : Agent)
    (x : Option Delay × Input) :
    (agentStep noaction overridePoll a x).state = iteration noaction a.state x.2 := by
  rw [agentStep]
  split
  next hhalted => rw [iteration, if_pos hhalted]
  · rfl

end Agent

section Property

/-- An action was applied since the last poll without a wait. -/
def Unconfirmed (log : List WaitEvent) : Prop :=
  ∃ before after, log = before ++ .applied :: after ∧ .wait (.seconds 0) ∉ after

/-- After each applied action at most one poll does not wait, and all others wait for a
minute or more. -/
structure Paced (log : List WaitEvent) : Prop where
  zero : ∀ before after, log = before ++ .wait (.seconds 0) :: after → Unconfirmed before
  other : ∀ delay, .wait delay ∈ log → delay ≠ .seconds 0 → ∃ n, delay = .seconds n ∧ 60 ≤ n

theorem Paced.nil : Paced [] := ⟨fun before after h => by simp at h, nofun⟩

theorem Paced.concat {log : List WaitEvent} {e : WaitEvent} (h : Paced log)
    (hzero : e = .wait (.seconds 0) → Unconfirmed log)
    (hother : ∀ delay, e = .wait delay → delay ≠ .seconds 0 → ∃ n, delay = .seconds n ∧ 60 ≤ n) :
    Paced (log ++ [e]) := by
  constructor
  · have hlog : Each (fun before e => e = .wait (.seconds 0) → Unconfirmed before) log := by
      rintro before e after heq rfl
      exact h.zero before after heq
    intro before after heq
    exact each_concat.mpr ⟨hlog, hzero⟩ before _ after heq rfl
  · intro delay hmem hne
    rcases List.mem_append.mp hmem with hmem | hmem
    · exact h.other delay hmem hne
    · exact hother delay (List.mem_singleton.mp hmem).symm hne

theorem Unconfirmed.applied (log : List WaitEvent) : Unconfirmed (log ++ [.applied]) :=
  ⟨log, [], rfl, List.not_mem_nil⟩

/-- Applied actions keep the pace. -/
theorem Paced.append_applied {log : List WaitEvent} (h : Paced log) (n : Nat) :
    Paced (log ++ List.replicate n .applied) := by
  induction n with
  | zero =>
      rw [List.replicate_zero, List.append_nil]
      exact h
  | succ n ih =>
      rw [List.replicate_succ', ← List.append_assoc]
      exact ih.concat nofun nofun

theorem Unconfirmed.append_applied (log : List WaitEvent) {n : Nat} (h : 0 < n) :
    Unconfirmed (log ++ List.replicate n .applied) := by
  obtain ⟨n, rfl⟩ := Nat.exists_eq_succ_of_ne_zero (Nat.ne_of_gt h)
  rw [List.replicate_succ', ← List.append_assoc]
  exact .applied _

end Property

section Flag

/-- Since `s` the log has only grown, and if `confirm_action` is set, something was
applied. -/
def Flagged (s t : State) : Prop :=
  ∃ new, t.events = s.events ++ new ∧
    (t.vars.flags.confirmAction = true → ∃ e ∈ new, e.applies = true)

/-- From `s` to `t` the log has only grown, and `confirm_action` was not set. -/
structure Steady (s t : State) : Prop where
  events : ∃ new, t.events = s.events ++ new
  confirm : t.vars.flags.confirmAction = true → s.vars.flags.confirmAction = true

variable {noaction late : Bool} {i : Input} {s t u : State}

theorem Steady.of_events (h : t.events = s.events)
    (hconfirm : t.vars.flags.confirmAction = s.vars.flags.confirmAction) : Steady s t :=
  ⟨⟨[], by rw [h, List.append_nil]⟩, fun ht => hconfirm ▸ ht⟩

theorem Steady.refl (s : State) : Steady s s := .of_events rfl rfl

theorem Steady.trans (h : Steady s t) (h' : Steady t u) : Steady s u := by
  obtain ⟨new, hnew⟩ := h.events
  obtain ⟨new', hnew'⟩ := h'.events
  refine ⟨⟨new ++ new', ?_⟩, fun hu => h.confirm (h'.confirm hu)⟩
  rw [hnew', hnew, List.append_assoc]

theorem Steady.log (h : Steady s t) (e : Event) : Steady s (t.log e) :=
  h.trans ⟨⟨[e], rfl⟩, id⟩

theorem Steady.gone (h : Steady s t) : Steady s t.gone :=
  ⟨h.events, fun hgone => nomatch hgone⟩

theorem Steady.command {ok : Bool} (h : Steady s t) : Ends (Steady s) (Steady s) (t.command ok) :=
  command_ends (fun _ => h) fun _ => h.gone

theorem Flagged.steady (h : Flagged s t) (h' : Steady t u) : Flagged s u := by
  obtain ⟨new, hnew, happlied⟩ := h
  obtain ⟨new', hnew'⟩ := h'.events
  refine ⟨new ++ new', by rw [hnew', hnew, List.append_assoc], ?_⟩
  intro hu
  obtain ⟨e, he, happlies⟩ := happlied (h'.confirm hu)
  exact ⟨e, List.mem_append_left _ he, happlies⟩

/-- An event that applies something may set the flag. -/
theorem Flagged.log (h : Flagged s t) {e : Event} (he : e.applies = true)
    (hu : ∃ new, u.events = t.events ++ e :: new) : Flagged s u := by
  obtain ⟨new, hnew, -⟩ := h
  obtain ⟨new', hnew'⟩ := hu
  refine ⟨new ++ e :: new', by rw [hnew', hnew, List.append_assoc], ?_⟩
  intro _
  exact ⟨e, by simp, he⟩

theorem Flagged.ends {x : Flow} (h : Flagged s t) (hx : Ends (Steady t) (Steady t) x) :
    Ends (Flagged s) (Flagged s) x :=
  hx.mono (fun _ hu => h.steady hu) fun _ hu => h.steady hu

theorem readUuid_steady : Ends (Steady s) (Steady s) (readUuid i s) := by
  simp only [readUuid]
  generalize (if i.uci .getCloudUuid = true then s.store.cloudUuid else "") = cloudUuid
  split
  · exact .of_events rfl rfl
  · apply command_bind_ends _ fun _ => (Steady.refl s).gone
    intro _
    refine command_bind_ends (fun _ => ?_) fun _ => Steady.gone ?_
    · refine command_bind_ends (fun _ => ?_) fun _ => Steady.gone ?_
      · exact .of_events rfl rfl
      · exact .of_events rfl rfl
    · exact .of_events rfl rfl

theorem checkVersion_steady : Ends (Steady s) (Steady s) (checkVersion i s) := by
  simp only [checkVersion]
  split
  · split
    · apply Steady.command
      exact ((Steady.refl s).log .mismatch).trans (.of_events rfl rfl)
    · exact .refl s
  · split
    · exact Steady.command (.of_events rfl rfl)
    · exact .refl s

theorem performSoftwareUpdate_steady :
    Ends (Steady s) (Steady s) (performSoftwareUpdate noaction late i s) := by
  have hstore : Steady s (storePending late i s) :=
    ((Steady.refl s).log _).trans (.of_events rfl rfl)
  have hcheck : Steady s (runUpdateCheck late i (storePending late i s)) :=
    (hstore.log _).trans (.of_events rfl rfl)
  have hroll : Steady s (rollBack late i (runUpdateCheck late i (storePending late i s))) := by
    rw [rollBack]
    split
    · exact hcheck.trans (.of_events rfl rfl)
    · exact hcheck
  exact performSoftwareUpdate_ends (fun _ => .refl s) (Steady.refl s).gone hstore.gone
    ⟨hcheck, hcheck.gone⟩ ⟨hroll, hroll.gone⟩

/-- A configuration that is applied is in the log. -/
theorem applyConfig_flagged (confirm : Bool) (h : Flagged s t) :
    Flagged s ((applyConfig late i t).setConfirm confirm) := by
  apply h.log (e := .configApplied) rfl
  simp only [applyConfig]
  split
  · refine ⟨[.commit (t.vars.actionSequence.getD 0 + 1) none], ?_⟩
    simp [State.setConfirm, State.log]
  · exact ⟨[], rfl⟩

theorem setConfirm_false_flagged (h : Flagged s t) : Flagged s (t.setConfirm false) :=
  h.steady ⟨⟨[], (List.append_nil _).symm⟩, fun hfalse => nomatch hfalse⟩

theorem pendingUpdates_flagged (h : Flagged s t) :
    Ends (Flagged s) (Flagged s) (pendingUpdates noaction i t) := by
  simp only [pendingUpdates]
  split
  · split
    · exact h
    · exact Ends.bind (h.ends performSoftwareUpdate_steady) fun _ hu => hu
  · split
    · split
      · exact h
      · cases happlies : i.jsonToUci false with
        | true =>
            simp only [performConfigUpdate, happlies]
            exact applyConfig_flagged true h
        | false =>
            simp only [performConfigUpdate, happlies]
            exact setConfirm_false_flagged h
    · exact h

theorem fetchUuid_steady : Ends (Steady s) (Steady s) (fetchUuid i s) := by
  simp only [fetchUuid]
  split
  · split
    · exact .refl s
    · split
      · exact .of_events rfl rfl
      · exact .of_events rfl rfl
  · exact .refl s

theorem chooseUuid_steady : Steady s (chooseUuid s) := by
  simp only [chooseUuid]
  repeat' split
  all_goals exact .of_events rfl rfl

theorem report_steady : Ends (Steady s) (Steady s) (report i s) := by
  have hmodem : Steady s (modemReport i s).2 := by
    simp only [modemReport]
    repeat' split
    all_goals exact .of_events rfl rfl
  have hconfig : Steady s (configReport i (modemReport i s).2).2 := by
    apply hmodem.trans
    simp only [configReport]
    split
    · exact .of_events rfl rfl
    · exact .refl _
  simp only [report]
  split
  · split
    · exact hconfig.gone
    · exact hconfig.trans (.of_events rfl rfl)
  · split
    · exact hconfig.trans (.of_events rfl rfl)
    · exact hconfig.trans (.of_events rfl rfl)

theorem poll_steady : Ends (fun r => Steady s r.2) (Steady s) (poll noaction i s) := by
  apply poll_ends
  · intro _
    exact (Steady.refl s).log _
  · intro _ _ _
    exact ((Steady.refl s).log _).trans (.of_events rfl rfl)
  · intro response store commit _ _ _ _
    exact ((Steady.refl s).log _).trans (.of_events rfl rfl)

theorem handleOutput_flagged {response : Response} (h : Flagged s t) :
    Ends (Flagged s) (Flagged s) (handleOutput i t response) := by
  cases response with
  | empty => exact h
  | malformed => exact h
  | noAction => exact h.steady (.of_events rfl rfl)
  | action a =>
      simp only [handleOutput, handleResponse]
      by_cases haccepted : a.accepted i.commandOk = true
      · rw [if_pos haccepted]
        cases a with
        | softwareUpdate => exact h.steady (.of_events rfl rfl)
        | configurationUpdate => exact h.steady (.of_events rfl rfl)
        | _ => exact h.log (e := .applied _) rfl ⟨[], rfl⟩
      · rw [if_neg haccepted]
        exact h.steady (.of_events rfl rfl)

theorem commitPoll_steady : Ends (Steady s) (Steady s) (commitPoll i s) := by
  simp only [commitPoll]
  split
  · split
    · split
      · exact Steady.command (.of_events rfl rfl)
      · split
        · apply Steady.command
          exact ((Steady.refl s).log _).trans (.of_events rfl rfl)
        · exact Steady.gone (.of_events rfl rfl)
    · exact (Steady.refl s).gone
  · exact .refl s

theorem runSoftwareUpdate_steady :
    Ends (Steady s) (Steady s) (runSoftwareUpdate noaction i s) := by
  rw [runSoftwareUpdate]
  split
  · exact performSoftwareUpdate_steady
  · exact .refl s

theorem runConfigUpdate_flagged (h : Flagged s t) : Flagged s (runConfigUpdate i t) := by
  simp only [runConfigUpdate, performConfigUpdate]
  split
  · split
    · exact applyConfig_flagged true h
    · exact setConfirm_false_flagged h
  · exact h

/-- The iteration gets past the exits before `confirm_action` is cleared, or ends the
script there. -/
structure Passes (i : Input) : Prop where
  host : i.host ≠ ""
  status : ∀ sleep ∈ i.statusSleeps, sleep = none
  identity : i.identity ≠ .unknown

/-- At the end of an iteration the flag is set for something that was applied in it, or it
was set before and the iteration ended early. -/
def Explained (i : Input) (s t : State) : Prop :=
  Flagged s t ∨ (t.events = s.events ∧ s.vars.flags.confirmAction = true ∧ ¬ Passes i)

theorem setUp_confirm : (setUp i s).events = s.events ∧
    (setUp i s).vars.flags.confirmAction = s.vars.flags.confirmAction := by
  simp only [setUp]
  repeat' split
  all_goals exact ⟨rfl, rfl⟩

theorem statusWait_error {sleeps : List (Option String)} {reason reason' : String}
    (h : statusWait sleeps reason = .error reason') : ¬ ∀ sleep ∈ sleeps, sleep = none := by
  induction sleeps generalizing reason with
  | nil => exact nomatch h
  | cons sleep sleeps ih =>
      intro hall
      rw [List.forall_mem_cons] at hall
      obtain ⟨rfl, hall⟩ := hall
      exact ih h hall

/-- An iteration that ends early before the flag is cleared leaves it as it was. -/
theorem Explained.early {t : State} (hevents : t.events = s.events)
    (hconfirm : t.vars.flags.confirmAction = s.vars.flags.confirmAction) (hpasses : ¬ Passes i) :
    Explained i s t := by
  cases hset : s.vars.flags.confirmAction with
  | true => exact .inr ⟨hevents, hset, hpasses⟩
  | false =>
      refine .inl ⟨[], by rw [hevents, List.append_nil], ?_⟩
      intro ht
      rw [hconfirm, hset] at ht
      exact nomatch ht

theorem prepare_explained : Ends (Flagged s) (Explained i s) (prepare i s) := by
  obtain ⟨hevents, hconfirm⟩ := setUp_confirm (i := i) (s := s)
  have hcleared {t : State} (ht : t.events = s.events)
      (hfalse : t.vars.flags.confirmAction = false) : Flagged s t := by
    refine ⟨[], by rw [ht, List.append_nil], ?_⟩
    intro htrue
    rw [hfalse] at htrue
    exact nomatch htrue
  simp only [prepare]
  split
  next hhost => exact .early hevents hconfirm fun hpasses => hpasses.host hhost
  · split
    next hstatus =>
      exact .early hevents hconfirm fun hpasses => statusWait_error hstatus hpasses.status
    · split
      next hid => exact .early hevents hconfirm fun hpasses => hpasses.identity hid
      · exact .inl (hcleared hevents rfl)
      · exact hcleared hevents rfl

/-- The flag at the end of an iteration. -/
theorem body_explained :
    Ends (Explained i s) (Explained i s) (body noaction i s) := by
  have hleft {x : Flow} (hx : Ends (Flagged s) (Flagged s) x) :
      Ends (Flagged s) (Explained i s) x :=
    hx.mono (fun _ ht => ht) fun _ ht => .inl ht
  have hgo {t u : State} (ht : Flagged s t) (h : u.events = t.events)
      (h' : u.vars.flags.confirmAction = t.vars.flags.confirmAction) : Flagged s u :=
    ht.steady (.of_events h h')
  refine Ends.bind prepare_explained fun t₁ h₁ => ?_
  refine Ends.bind (hleft (h₁.ends readUuid_steady)) fun t₂ h₂ => ?_
  have h₂' : Flagged s (readOptions i t₂) := hgo h₂ rfl rfl
  refine Ends.bind (hleft (h₂'.ends checkVersion_steady)) fun t₃ h₃ => ?_
  refine Ends.bind (hleft (pendingUpdates_flagged h₃)) fun t₄ h₄ => ?_
  have h₄' : Flagged s (selectSequence i t₄) := hgo h₄ rfl rfl
  refine Ends.bind (hleft (h₄'.ends fetchUuid_steady)) fun t₅ h₅ => ?_
  have h₅' : Flagged s (chooseUuid t₅) := h₅.steady chooseUuid_steady
  refine Ends.bind (hleft (h₅'.ends report_steady)) fun t₆ h₆ => ?_
  have hpoll : Ends (fun r => Flagged s r.2) (Explained i s) (poll noaction i t₆) :=
    poll_steady.mono (fun _ ht => h₆.steady ht) fun _ ht => .inl (h₆.steady ht)
  refine Ends.bind hpoll fun r h₇ => ?_
  refine Ends.bind (hleft (handleOutput_flagged h₇)) fun t₈ h₈ => ?_
  refine Ends.bind (hleft (h₈.ends commitPoll_steady)) fun t₉ h₉ => ?_
  have h₉' : Flagged s (cycle t₉) := hgo h₉ rfl rfl
  refine Ends.bind (hleft (h₉'.ends runSoftwareUpdate_steady)) fun t₁₀ h₁₀ => ?_
  exact .inl (runConfigUpdate_flagged h₁₀)

end Flag

section Runs

variable {noaction : Bool}

/-- Without `-p` a poll that confirms nothing waits for a minute or more, unless the option
is a text that is no number. -/
theorem getPoll_ge (firstTime firstSuccess : Bool) {actionPoll : Option Delay}
    (h : ∀ s, actionPoll ≠ some (.text s)) :
    ∃ n, getPoll false none firstTime firstSuccess actionPoll = .seconds n ∧ 60 ≤ n := by
  obtain ⟨n, hn, hle⟩ : ∃ n, (match actionPoll with
      | none => Delay.seconds 86400
      | some (.seconds n) =>
          if 86400 < n then .seconds 86400 else if n < 60 then .seconds 60 else .seconds n
      | some (.text s) => .text s) = .seconds n ∧ 60 ≤ n := by
    match actionPoll with
    | none => exact ⟨86400, rfl, by decide⟩
    | some (.text s) => exact absurd rfl (h s)
    | some (.seconds n) =>
        simp only
        split
        · exact ⟨86400, rfl, by decide⟩
        · split
          · exact ⟨60, rfl, by decide⟩
          next hge => exact ⟨n, rfl, by omega⟩
  simp only [getPoll, hn, Bool.false_eq_true, if_false]
  split
  · split
    · exact ⟨60, rfl, by decide⟩
    · exact ⟨n, rfl, hle⟩
  · exact ⟨n, rfl, hle⟩

/-- An iteration that starts with an action to confirm gets past the early exits, and
`action_poll` is not set or a number. -/
structure GetsThrough (a : Agent) (x : Option Delay × Input) : Prop where
  passes : (a.state.start x.2).vars.flags.confirmAction = true → Passes x.2
  actionPoll : ∀ s, x.1 ≠ some (.text s)

/-- The pace so far, and `confirm_action` is only set for something not yet confirmed. -/
structure Pacing (a : Agent) : Prop where
  paced : Paced a.log
  unconfirmed : a.state.vars.flags.confirmAction = true → Unconfirmed a.log

variable {a : Agent} {x : Option Delay × Input}

theorem iteration_explained (noaction : Bool) {i : Input} {s : State} (hrun : s.halted = false) :
    Explained i (s.start i) (iteration noaction s i) := by
  have hbody : Ends (Explained i (s.start i)) (Explained i (s.start i))
    (body noaction i (s.start i)) := body_explained
  rw [iteration, hrun]
  cases hflow : body noaction i (s.start i) with
  | ok t =>
      rw [hflow] at hbody
      exact hbody
  | error t =>
      rw [hflow] at hbody
      exact hbody

theorem start_confirm {i : Input} {s : State}
    (h : (s.start i).vars.flags.confirmAction = true) : s.vars.flags.confirmAction = true := by
  rw [State.start] at h
  split at h
  · cases h
  · exact h

theorem Flagged.appliedSince {s t : State} (h : Flagged s t)
    (hconfirm : t.vars.flags.confirmAction = true) : 0 < (appliedSince s t).length := by
  obtain ⟨new, hnew, happlied⟩ := h
  obtain ⟨e, he, happlies⟩ := happlied hconfirm
  rw [Cloud.appliedSince, hnew, List.drop_left]
  exact List.length_pos_of_mem (List.mem_filter.mpr ⟨he, happlies⟩)

/-- The wait of an iteration keeps the pace. -/
theorem Pacing.waits (h : Pacing a) (hx : GetsThrough a x) : Paced (a.log ++ a.waits none x) := by
  simp only [Agent.waits]
  split
  · rw [List.append_nil]
    exact h.paced
  · cases hconfirm : (a.state.start x.2).vars.flags.confirmAction with
    | true =>
        apply h.paced.concat
        · intro _
          exact h.unconfirmed (start_confirm hconfirm)
        · intro delay hdelay hne
          exact absurd (WaitEvent.wait.inj hdelay).symm hne
    | false =>
        obtain ⟨n, hn, hle⟩ := getPoll_ge false (a.hadSuccess x.2) hx.actionPoll
        rw [hn]
        apply h.paced.concat
        · intro hzero
          have := Delay.seconds.inj (WaitEvent.wait.inj hzero)
          omega
        · intro delay hdelay _
          exact ⟨n, (WaitEvent.wait.inj hdelay).symm, hle⟩

theorem agentStep_pacing (h : Pacing a) (hx : GetsThrough a x) :
    Pacing (agentStep noaction none a x) := by
  cases hrun : a.state.halted with
  | true =>
      rw [agentStep, if_pos hrun]
      exact h
  | false =>
      rw [agentStep, hrun, if_neg Bool.false_ne_true]
      constructor
      · simp only [List.map_const']
        exact (h.waits hx).append_applied _
      · intro hconfirm
        simp only [List.map_const'] at hconfirm ⊢
        rcases iteration_explained noaction hrun with hflagged | ⟨-, hset, hearly⟩
        · exact Unconfirmed.append_applied _ (hflagged.appliedSince hconfirm)
        · exact absurd (hx.passes hset) hearly

/-- The script is started. -/
def Agent.started (store : Store) : Agent := { state := Cloud.started store }

/-- In every run in which the iterations with an action to confirm get past the early
exits, there is at most one poll without a wait for each applied action, and all others
wait for a minute or more. -/
theorem polls_paced {store : Store} {inputs : List (Option Delay × Input)}
    (hinputs : Meets (agentStep noaction none) GetsThrough (.started store) inputs) :
    Paced (inputs.foldl (agentStep noaction none) (.started store)).log := by
  have hstart : Pacing (.started store) := ⟨.nil, nofun⟩
  exact (hinputs.invariant hstart fun _ _ ha hx => agentStep_pacing ha hx).paced

theorem GetsThrough.answered (a : Agent) (actionPoll : Option Delay) (autoFirmware : String)
    (response : Response) (h : ∀ s, actionPoll ≠ some (.text s)) :
    GetsThrough a (actionPoll, answered autoFirmware response) :=
  ⟨fun _ => ⟨show "host" ≠ "" by decide, nofun, nofun⟩, h⟩

/-- An action is confirmed at once, and the next poll waits for a day. -/
theorem polls_paced_confirmed :
    (([(none, answered "on" (.action (.influx "on"))), (none, answered "on" .empty),
        (none, answered "on" .empty)].foldl (agentStep false none) (.started registered)).log =
      [.applied, .wait (.seconds 0), .wait (.seconds 86400)]) ∧
    Paced ([(none, answered "on" (.action (.influx "on"))), (none, answered "on" .empty),
        (none, answered "on" .empty)].foldl (agentStep false none) (.started registered)).log :=
  ⟨by decide, polls_paced ⟨.answered _ _ _ _ nofun, .answered _ _ _ _ nofun,
    .answered _ _ _ _ nofun, trivial⟩⟩

/-- Without a host the script never waits after an action. -/
theorem polls_without_wait :
    (([(none, answered "on" (.action (.influx "on"))),
        (none, { answered "on" .empty with host := "" }),
        (none, { answered "on" .empty with host := "" })].foldl (agentStep false none)
          (.started registered)).log =
      [.applied, .wait (.seconds 0), .wait (.seconds 0)]) ∧
    ¬ Paced [.applied, .wait (.seconds 0), .wait (.seconds 0)] := by
  refine ⟨by decide, ?_⟩
  intro hpaced
  obtain ⟨before, after, heq, hafter⟩ := hpaced.zero [.applied, .wait (.seconds 0)] [] rfl
  cases before with
  | nil =>
      rw [← (List.cons.inj heq).2] at hafter
      exact hafter (List.mem_singleton_self _)
  | cons e before =>
      have hmem : .applied ∈ [WaitEvent.wait (.seconds 0)] := by
        rw [(List.cons.inj heq).2]
        exact List.mem_append_right _ (List.mem_cons_self ..)
      exact absurd hmem (by decide)

end Runs

end Speedway.Cloud
