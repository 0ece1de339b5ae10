import Speedway.Lib.Loop
import Speedway.Cloud.Script

/-!
# What the stages of an iteration do

The stages that have nothing to do with the action sequence leave it alone:
`Quiet` for a stage that goes on, `Left` for an iteration that ends there.
-/

namespace Speedway.Cloud

open Speedway.Lib

/-- Nothing happened to the sequence, the updates and the log. -/
structure Quiet (s t : State) : Prop where
  events : t.events = s.events
  actionSequence : t.store.actionSequence = s.store.actionSequence
  pending : t.store.actionSequencePending = s.store.actionSequencePending
  expectedVersion : t.store.expectedVersion = s.store.expectedVersion
  softwareUpdates : t.store.softwareUpdates = s.store.softwareUpdates
  configUpdates : t.store.configUpdates = s.store.configUpdates
  sequence : t.vars.actionSequence = s.vars.actionSequence

/-- The same at an early end, where the variables may be gone. -/
structure Left (s t : State) : Prop where
  events : t.events = s.events
  actionSequence : t.store.actionSequence = s.store.actionSequence
  pending : t.store.actionSequencePending = s.store.actionSequencePending
  sequence : t.vars.actionSequence = none ∨ t.vars.actionSequence = s.vars.actionSequence

theorem Quiet.left {s t : State} (h : Quiet s t) : Left s t :=
  ⟨h.events, h.actionSequence, h.pending, .inr h.sequence⟩

theorem Quiet.refl (s : State) : Quiet s s := ⟨rfl, rfl, rfl, rfl, rfl, rfl, rfl⟩

theorem Quiet.trans {s t u : State} (h : Quiet s t) (h' : Quiet t u) : Quiet s u :=
  ⟨h'.events.trans h.events, h'.actionSequence.trans h.actionSequence, h'.pending.trans h.pending,
    h'.expectedVersion.trans h.expectedVersion, h'.softwareUpdates.trans h.softwareUpdates,
    h'.configUpdates.trans h.configUpdates, h'.sequence.trans h.sequence⟩

theorem Quiet.trans_left {s t u : State} (h : Quiet s t) (h' : Left t u) : Left s u :=
  ⟨h'.events.trans h.events, h'.actionSequence.trans h.actionSequence, h'.pending.trans h.pending,
    h.sequence ▸ h'.sequence⟩

variable {i : Input} {s : State}

/-- The iteration gets to the sequence handling. -/
structure Ready (i : Input) : Prop where
  host : i.host ≠ ""
  status : ∀ sleep ∈ i.statusSleeps, sleep = none
  identity : i.identity = .known

/-- The wakeup reason that the iteration works with. -/
def reasonOf (i : Input) (s : State) : String :=
  if i.statusSleeps = [] then
    if s.vars.firstTime then s.vars.wakeupReason else sleepWait i.sleep
  else ""

theorem statusWait_ok {sleeps : List (Option String)} {reason reason' : String}
    (h : statusWait sleeps reason = .ok reason') :
    (∀ sleep ∈ sleeps, sleep = none) ∧ reason' = if sleeps = [] then reason else "" := by
  induction sleeps generalizing reason with
  | nil =>
      cases h
      simp
  | cons sleep sleeps ih =>
      cases sleep with
      | some r => exact nomatch h
      | none =>
          obtain ⟨hall, hreason⟩ := ih h
          refine ⟨List.forall_mem_cons.mpr ⟨rfl, hall⟩, ?_⟩
          rw [hreason]
          simp

/-- Nothing else changes when the script is set up. -/
theorem setUp_eq (i : Input) (s : State) : ∃ flags last reports allConfig,
    setUp i s =
      { s with
        vars := { s.vars with flags := flags, modemReportLast := last }
        reports := reports
        allConfig := allConfig } := by
  simp only [setUp]
  split
  · split
    · exact ⟨_, _, _, none, rfl⟩
    · exact ⟨_, _, _, none, rfl⟩
  · split
    · exact ⟨_, _, _, _, rfl⟩
    · exact ⟨_, _, _, _, rfl⟩

theorem prepare_ends :
    Ends (fun t => Quiet s t ∧ t.store = s.store ∧ t.vars.newUuid = s.vars.newUuid ∧
        t.vars.wakeupReason = reasonOf i s ∧ Ready i)
      (Left s) (prepare i s) := by
  obtain ⟨flags, last, reports, allConfig, hsetUp⟩ := setUp_eq i s
  simp only [prepare, hsetUp]
  split
  · exact ⟨rfl, rfl, rfl, .inr rfl⟩
  next hhost =>
    split
    · exact ⟨rfl, rfl, rfl, .inr rfl⟩
    next reason hstatus =>
      obtain ⟨hall, hreason⟩ := statusWait_ok hstatus
      split
      · exact ⟨rfl, rfl, rfl, .inr rfl⟩
      · exact ⟨rfl, rfl, rfl, .inl rfl⟩
      next hid => exact ⟨⟨rfl, rfl, rfl, rfl, rfl, rfl, rfl⟩, rfl, rfl, hreason, hhost, hall, hid⟩

theorem command_ends {ok : Bool} {Q R : State → Prop} (h : ok = true → Q s)
    (h' : ok = false → R s.gone) : Ends Q R (s.command ok) := by
  cases ok with
  | false => exact h' rfl
  | true => exact h rfl

theorem command_bind_ends {ok : Bool} {f : State → Flow} {Q R : State → Prop}
    (h : ok = true → Ends Q R (f s)) (h' : ok = false → R s.gone) :
    Ends Q R (s.command ok >>= f) := by
  cases ok with
  | false => exact h' rfl
  | true => exact h rfl

/-- The UUID read: none if an old one has to be thrown away. -/
theorem readUuid_ends :
    Ends (fun t => Quiet s t ∧ t.vars.newUuid = s.vars.newUuid ∧
        t.vars.wakeupReason = s.vars.wakeupReason ∧
        ((∀ site, i.uci site = true) →
          (t.vars.uuid = "" ↔ s.store.cloudUuid ≠ "" ∨ s.store.uuid = "")))
      (Left s) (readUuid i s) := by
  by_cases hcloud : (if i.uci .getCloudUuid then s.store.cloudUuid else "") = ""
  · simp only [readUuid]
    rw [if_pos hcloud]
    refine ⟨⟨rfl, rfl, rfl, rfl, rfl, rfl, rfl⟩, rfl, rfl, fun huci => ?_⟩
    simp only [huci, if_true] at hcloud ⊢
    exact (or_iff_right (not_not_intro hcloud)).symm
  · simp only [readUuid]
    rw [if_neg hcloud]
    apply command_bind_ends _ fun _ => ⟨rfl, rfl, rfl, .inl rfl⟩
    intro _
    apply command_bind_ends _ fun _ => ⟨rfl, rfl, rfl, .inl rfl⟩
    intro _
    apply command_bind_ends _ fun _ => ⟨rfl, rfl, rfl, .inl rfl⟩
    intro _
    refine ⟨⟨rfl, rfl, rfl, rfl, rfl, rfl, rfl⟩, rfl, rfl, fun huci => ?_⟩
    simp only [huci, if_true] at hcloud
    exact iff_of_true rfl (.inl hcloud)

theorem fetchUuid_ends :
    Ends (fun t => Quiet s t ∧ t.vars.actionSequencePending = s.vars.actionSequencePending ∧
        t.vars.updateSoftwareVersion = s.vars.updateSoftwareVersion ∧
        t.vars.autoConfig = s.vars.autoConfig ∧
        t.vars.wakeupReason = s.vars.wakeupReason ∧ (s.vars.uuid = "" → i.newUuid.getD "" ≠ ""))
      (Left s) (fetchUuid i s) := by
  simp only [fetchUuid]
  split
  · split
    · exact ⟨rfl, rfl, rfl, .inr rfl⟩
    next newUuid hnew =>
      split
      · exact ⟨rfl, rfl, rfl, .inr rfl⟩
      next hne =>
        refine ⟨⟨rfl, rfl, rfl, rfl, rfl, rfl, rfl⟩, rfl, rfl, rfl, rfl, fun _ => ?_⟩
        rw [hnew]
        exact hne
  next hne => exact ⟨.refl s, rfl, rfl, rfl, rfl, fun h => absurd h hne⟩

theorem chooseUuid_quiet : Quiet s (chooseUuid s) := by
  simp only [chooseUuid]
  repeat' split
  all_goals exact ⟨rfl, rfl, rfl, rfl, rfl, rfl, rfl⟩

@[simp] theorem chooseUuid_reason : (chooseUuid s).vars.wakeupReason = s.vars.wakeupReason := by
  simp only [chooseUuid]
  repeat' split
  all_goals rfl

@[simp] theorem chooseUuid_pending :
    (chooseUuid s).vars.actionSequencePending = s.vars.actionSequencePending := by
  simp only [chooseUuid]
  repeat' split
  all_goals rfl

/-- The ways the report of a poll can end; it is nothing to the sequence. -/
theorem report_ends {Q R : State → Prop}
    (hok : ∀ flags last reports sha256config allConfig,
      flags.doFactoryReset = s.vars.flags.doFactoryReset →
      Q { s with
        store := { s.store with sha256config }
        vars := { s.vars with flags := flags, modemReportLast := last }
        reports := reports
        allConfig := allConfig })
    (hexit : ∀ reports sha256config allConfig,
      R { s.gone with
        store := { s.store with sha256config }
        reports := reports
        allConfig := allConfig }) :
    Ends Q R (report i s) := by
  obtain ⟨flags, last, hmodem, hflags⟩ : ∃ flags last,
      (modemReport i s).2 =
          { s with vars := { s.vars with flags := flags, modemReportLast := last } } ∧
        flags.doFactoryReset = s.vars.flags.doFactoryReset := by
    simp only [modemReport]
    repeat' split
    all_goals exact ⟨_, _, rfl, rfl⟩
  obtain ⟨sha, config, hconfig⟩ : ∃ sha config, (configReport i (modemReport i s).2).2 =
      { (modemReport i s).2 with
        store := { (modemReport i s).2.store with sha256config := sha }
        allConfig := config } := by
    simp only [configReport]
    split
    · exact ⟨_, _, rfl⟩
    · exact ⟨_, _, rfl⟩
  rw [hmodem] at hconfig
  simp only [report, hmodem]
  rw [hconfig]
  split
  · split
    · exact hexit _ _ _
    · exact hok { flags with reportFullConfig := false } _ _ _ _ hflags
  · split
    · exact hok _ _ _ _ _ hflags
    · exact hok _ _ _ _ _ hflags

/-- What the later stages look at is as it was before the report. -/
theorem report_quiet :
    Ends (fun t => Quiet s t ∧ t.vars.actionSequencePending = s.vars.actionSequencePending ∧
        t.vars.updateSoftwareVersion = s.vars.updateSoftwareVersion ∧
        t.vars.wakeupReason = s.vars.wakeupReason)
      (Left s) (report i s) := by
  apply report_ends
  · intro flags last reports sha256config allConfig _
    exact ⟨⟨rfl, rfl, rfl, rfl, rfl, rfl, rfl⟩, rfl, rfl, rfl⟩
  · intro reports sha256config allConfig
    exact ⟨rfl, rfl, rfl, .inl rfl⟩

section ApplyConfig

variable {late : Bool}

@[simp] theorem applyConfig_pending :
    (applyConfig late i s).vars.actionSequencePending = s.vars.actionSequencePending := by
  simp only [applyConfig]
  split <;> rfl

@[simp] theorem applyConfig_uuid : (applyConfig late i s).vars.uuid = s.vars.uuid := by
  simp only [applyConfig]
  split <;> rfl

@[simp] theorem applyConfig_version :
    (applyConfig late i s).vars.updateSoftwareVersion = s.vars.updateSoftwareVersion := by
  simp only [applyConfig]
  split <;> rfl

@[simp] theorem applyConfig_store_pending :
    (applyConfig late i s).store.actionSequencePending = s.store.actionSequencePending := by
  simp only [applyConfig]
  split <;> rfl

@[simp] theorem applyConfig_softwareUpdates :
    (applyConfig late i s).store.softwareUpdates = s.store.softwareUpdates := by
  simp only [applyConfig]
  split <;> rfl

end ApplyConfig

def State.withFlags (s : State) (flags : Flags) : State := { s with vars := { s.vars with flags } }

/-- An answer that `handle_response` does not refuse. -/
def Response.handled (commandOk : Bool) : Response → Bool
  | .empty => true
  | .action a => a.accepted commandOk
  | _ => false

/-- An action that is applied and counted at once. -/
def applyAction (a : Action) (s : State) : State :=
  { s.log (.applied a) with vars := { s.vars with
    actionSequence := some (s.vars.actionSequence.getD 0 + 1)
    commit := true } }

/-- The ways an answer can be used. -/
theorem handleOutput_ends {response : Response} {Q R : State → Prop}
    (hempty : response = .empty → Q s)
    (hrefused : response.handled i.commandOk = false → ∀ flags, R (s.withFlags flags))
    (hsoftware : response = .action .softwareUpdate → ∀ flags,
      Q { s.withFlags flags with store := { s.store with softwareUpdates := true } })
    (hconfig : response = .action .configurationUpdate → ∀ flags,
      Q { s.withFlags flags with store := { s.store with configUpdates := true } })
    (hdirect : ∀ a flags, response = .action a → a ≠ .softwareUpdate →
      Q ((applyAction a s).withFlags flags)) :
    Ends Q R (handleOutput i s response) := by
  cases response with
  | empty => exact hempty rfl
  | malformed => exact hrefused rfl s.vars.flags
  | noAction => exact hrefused rfl _
  | action a =>
      simp only [handleOutput, handleResponse]
      by_cases haccepted : a.accepted i.commandOk = true
      · rw [if_pos haccepted]
        cases a with
        | softwareUpdate => exact hsoftware rfl _
        | configurationUpdate => exact hconfig rfl _
        | _ => exact hdirect _ _ rfl nofun
      · rw [if_neg haccepted]
        exact hrefused (Bool.eq_false_iff.mpr haccepted) _

@[simp] theorem chooseUuid_version :
    (chooseUuid s).vars.updateSoftwareVersion = s.vars.updateSoftwareVersion := by
  simp only [chooseUuid]
  repeat' split
  all_goals rfl

theorem start_store : (s.start i).store = s.store := by
  rw [State.start]
  split <;> rfl

/-- The sequence stored in UCI. -/
def State.sequence (s : State) : Nat := s.store.actionSequence.getD 0

/-- The shell copy of a pending sequence is right, and there is one only while the
expected version is running. -/
structure Consistent (i : Input) (s : State) : Prop where
  pending : s.vars.actionSequencePending = s.store.actionSequencePending
  version : s.vars.actionSequencePending.isSome = true →
    s.vars.updateSoftwareVersion = i.softwareVersion

section Consistent

variable {t : State}

theorem readOptions_consistent (huci : ∀ site, i.uci site = true)
    (h : s.store.actionSequencePending.isSome = true →
      s.store.expectedVersion = i.softwareVersion) :
    Consistent i (readOptions i s) := by
  refine ⟨?_, fun hsome => ?_⟩
  · simp only [readOptions, huci, if_true]
  · simp only [readOptions, huci, if_true] at hsome ⊢
    exact h hsome

theorem checkVersion_consistent (h : Consistent i s) (huci : ∀ site, i.uci site = true) :
    Ends (fun t => Consistent i t ∧ t.vars = s.vars ∧ t.events = s.events ∧
        t.store = { s.store with expectedVersion := t.store.expectedVersion })
      (fun _ => False) (checkVersion i s) := by
  simp only [checkVersion]
  split
  next hsome =>
    rw [if_neg (not_not_intro (h.version hsome))]
    exact ⟨h, rfl, rfl, rfl⟩
  · split
    · refine command_ends (fun _ => ⟨⟨h.pending, h.version⟩, rfl, rfl, rfl⟩) ?_
      rw [huci]
      exact fun hfalse => absurd hfalse (by decide)
    · exact ⟨h, rfl, rfl, rfl⟩

theorem Consistent.applyConfig {late : Bool} {confirm : Bool} (h : Consistent i s) :
    Consistent i ((applyConfig late i s).setConfirm confirm) := by
  refine ⟨?_, ?_⟩
  · simpa [State.setConfirm] using h.pending
  · simpa [State.setConfirm] using h.version

theorem Consistent.selectSequence (h : Consistent i s) (huci : ∀ site, i.uci site = true) :
    (selectSequence i s).vars.actionSequence =
      some (s.store.actionSequencePending.getD s.sequence) := by
  simp only [Cloud.selectSequence, h.pending, huci, if_true]
  cases s.store.actionSequencePending <;> rfl

theorem Consistent.quiet (h : Consistent i s) (ht : Quiet s t)
    (hpending : t.vars.actionSequencePending = s.vars.actionSequencePending)
    (hversion : t.vars.updateSoftwareVersion = s.vars.updateSoftwareVersion) : Consistent i t := by
  refine ⟨?_, ?_⟩
  · rw [hpending, ht.pending]
    exact h.pending
  · rw [hpending, hversion]
    exact h.version

theorem Consistent.confirms_eq (h : Consistent i s) :
    confirms i s = if s.store.actionSequencePending.isSome then some true else none := by
  rw [confirms, h.pending]
  split
  next hsome =>
    rw [← h.pending] at hsome
    rw [decide_eq_true (h.version hsome)]
  · rfl

end Consistent

/-- The ways an upgrade can end. -/
theorem performSoftwareUpdate_ends {noaction late : Bool} {Q R : State → Prop}
    (hno : noaction = true → Q s) (hset : R s.gone) (hstore : R (storePending late i s).gone)
    (hcheck : Q (runUpdateCheck late i (storePending late i s)) ∧
      R (runUpdateCheck late i (storePending late i s)).gone)
    (hroll : Q (rollBack late i (runUpdateCheck late i (storePending late i s))) ∧
      R (rollBack late i (runUpdateCheck late i (storePending late i s))).gone) :
    Ends Q R (performSoftwareUpdate noaction late i s) := by
  simp only [performSoftwareUpdate]
  split
  next h => exact hno h
  split
  · split
    · split
      · exact hcheck.2
      · exact hcheck.1
      · exact command_ends (fun _ => hroll.1) fun _ => hroll.2
    · exact hstore
  · exact hset

/-- The ends of a poll: no answer, a factory reset, an answer to handle. -/
theorem poll_ends {noaction : Bool} {Q : Response × State → Prop} {R : State → Prop}
    (hlost : i.response = none →
      R (s.log (.poll (s.vars.actionSequence.getD 0) (confirms i s) false)))
    (hreset : i.response.isSome = true → s.vars.flags.doFactoryReset = true → noaction = true →
      R { s.log (.poll (s.vars.actionSequence.getD 0) (confirms i s) true) with halted := true })
    (hanswer : ∀ response store commit, i.response = some response →
      ¬ (s.vars.flags.doFactoryReset = true ∧ noaction = true) →
      store.actionSequence = s.store.actionSequence →
      store.sha256config = s.store.sha256config →
      Q (response, { s.log (.poll (s.vars.actionSequence.getD 0) (confirms i s) true) with
        store := store
        vars := { s.vars with commit } })) :
    Ends Q R (poll noaction i s) := by
  cases hresponse : i.response with
  | none =>
      simp only [poll, hresponse]
      exact hlost hresponse
  | some response =>
      simp only [poll, hresponse, State.log]
      by_cases hboth : s.vars.flags.doFactoryReset = true ∧ noaction = true
      · rw [if_pos hboth]
        exact hreset (hresponse ▸ rfl) hboth.1 hboth.2
      · rw [if_neg hboth]
        split
        · exact hanswer response _ _ hresponse hboth rfl rfl
        · exact hanswer response s.store s.vars.commit hresponse hboth rfl rfl

/-- The part of an iteration before its poll. -/
def beforePoll (noaction : Bool) (i : Input) (s : State) : Flow := do
  let s ← prepare i s
  let s ← readUuid i s
  let s ← checkVersion i (readOptions i s)
  let s ← pendingUpdates noaction i s
  let s ← fetchUuid i (selectSequence i s)
  report i (chooseUuid s)

/-- The part of an iteration before the report of its poll is chosen. -/
def approach (noaction : Bool) (i : Input) (s : State) : Flow := do
  let s ← prepare i s
  let s ← readUuid i s
  let s ← checkVersion i (readOptions i s)
  let s ← pendingUpdates noaction i s
  let s ← fetchUuid i (selectSequence i s)
  .ok (chooseUuid s)

theorem beforePoll_eq (noaction : Bool) (i : Input) (s : State) :
    beforePoll noaction i s = approach noaction i s >>= report i := by
  simp only [beforePoll, approach, bind_assoc]
  rfl

/-- The iteration makes a poll, and `t` is the state in which its report is chosen. -/
structure Polls (noaction : Bool) (s : State) (i : Input) (t : State) : Prop where
  running : s.halted = false
  reached : approach noaction i (s.start i) = .ok t
  reported : ∃ u, report i t = .ok u

theorem Polls.ends {noaction : Bool} {t : State} {P : State → Prop} (h : Polls noaction s i t)
    (hP : Ends P (fun _ => True) (approach noaction i (s.start i))) : P t := by
  rw [h.reached] at hP
  exact hP

/-- The part of an iteration after the answer to its poll. -/
def afterPoll (noaction : Bool) (i : Input) (r : Response × State) : Flow := do
  let s ← handleOutput i r.2 r.1
  let s ← commitPoll i s
  let s ← runSoftwareUpdate noaction i (cycle s)
  .ok (runConfigUpdate i s)

theorem body_eq (noaction : Bool) (i : Input) (s : State) :
    body noaction i s =
      beforePoll noaction i s >>= fun s => poll noaction i s >>= afterPoll noaction i := by
  simp only [body, beforePoll, bind_assoc]
  rfl

/-- A property of the state that the body keeps is kept by an iteration. -/
theorem iteration_of_body {noaction : Bool} {P : State → Prop} (hs : P s)
    (h : s.halted = false → Ends P P (body noaction i (s.start i))) :
    P (iteration noaction s i) := by
  rw [iteration]
  split
  · exact hs
  next hrunning =>
    have h := h (Bool.not_eq_true _ ▸ hrunning)
    cases hbody : body noaction i (s.start i) with
    | ok t =>
        rw [hbody] at h
        exact h
    | error t =>
        rw [hbody] at h
        exact h

/-- The script is started. -/
def started (store : Store) : State := { store }

/-- A registered device without updates. -/
def registered : Store where
  actionSequence := some 5
  actionSequencePending := none
  expectedVersion := ""
  uuid := "id"
  cloudUuid := ""
  softwareUpdates := false
  configUpdates := false

/-- An iteration whose poll gets this answer; an upgrade fails. -/
def answered (autoFirmware : String) (response : Response) : Input where
  restart := false
  sleep := none
  host := "host"
  statusSleeps := []
  identity := .known
  softwareVersion := "1"
  autoFirmware := autoFirmware
  autoConfig := "on"
  uci := fun _ => true
  updateCheck := fun _ => ⟨.failed, "", true⟩
  jsonToUci := fun _ => true
  newUuid := none
  response := some response
  commandOk := true

end Speedway.Cloud
