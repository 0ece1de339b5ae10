import Speedway.Cloud.Stages

/-!
# What most stages leave alone

Only the start of the script, the choice of the report, the poll and the answer
touch the report log, the report files, the requests and the polls and actions of
the log. An invariant about these has to be looked at in those four places.
-/

namespace Speedway.Cloud

open Speedway.Lib

/-- The flags that are requests of the cloud. -/
def Flags.requests (f : Flags) : Flags :=
  { f with confirmAction := false, cycleWifi := false, cycleLan := false, sshRestart := false }

/-- The event is no poll and no action of an answer. -/
def Event.minor : Event → Bool
  | .poll _ _ _ | .applied _ => false
  | _ => true

/-- From `s` to `t` nothing of this was touched. -/
structure Frame (s t : State) : Prop where
  halted : t.halted = s.halted
  reports : t.reports = s.reports
  sha256config : t.store.sha256config = s.store.sha256config
  allConfig : t.allConfig = s.allConfig
  modemReportLast : t.vars.modemReportLast = s.vars.modemReportLast
  requests : t.vars.flags.requests = s.vars.flags.requests
  events : ∃ minor, (∀ e ∈ minor, e.minor = true) ∧ t.events = s.events ++ minor

/-- The same at an early end, where the variables may be gone. -/
def Leaves (s t : State) : Prop := ∃ u, Frame s u ∧ (t = u ∨ t = u.gone)

section Frame

variable {noaction late : Bool} {i : Input} {s t u : State}

theorem Frame.of_events (hhalted : t.halted = s.halted) (hreports : t.reports = s.reports)
    (hsha : t.store.sha256config = s.store.sha256config) (hall : t.allConfig = s.allConfig)
    (hlast : t.vars.modemReportLast = s.vars.modemReportLast)
    (hrequests : t.vars.flags.requests = s.vars.flags.requests) (hevents : t.events = s.events) :
    Frame s t :=
  ⟨hhalted, hreports, hsha, hall, hlast, hrequests, [], nofun,
    hevents.trans (List.append_nil _).symm⟩

theorem Frame.refl (s : State) : Frame s s := .of_events rfl rfl rfl rfl rfl rfl rfl

theorem Frame.trans (h : Frame s t) (h' : Frame t u) : Frame s u := by
  obtain ⟨minor, hminor, hevents⟩ := h.events
  obtain ⟨minor', hminor', hevents'⟩ := h'.events
  refine ⟨h'.halted.trans h.halted, h'.reports.trans h.reports,
    h'.sha256config.trans h.sha256config, h'.allConfig.trans h.allConfig,
    h'.modemReportLast.trans h.modemReportLast, h'.requests.trans h.requests,
    minor ++ minor', ?_, ?_⟩
  · intro e he
    rcases List.mem_append.mp he with he | he
    · exact hminor e he
    · exact hminor' e he
  · rw [hevents', hevents, List.append_assoc]

theorem Frame.log {e : Event} (h : Frame s t) (he : e.minor = true) : Frame s (t.log e) :=
  h.trans ⟨rfl, rfl, rfl, rfl, rfl, rfl, [e], fun _ hmem => List.mem_singleton.mp hmem ▸ he, rfl⟩

theorem Frame.leaves (h : Frame s t) : Leaves s t := ⟨t, h, .inl rfl⟩

theorem Frame.leaves_gone (h : Frame s t) : Leaves s t.gone := ⟨t, h, .inr rfl⟩

theorem Frame.command {ok : Bool} (h : Frame s t) : Ends (Frame s) (Leaves s) (t.command ok) :=
  command_ends (fun _ => h) fun _ => h.leaves_gone

theorem prepare_frame : Ends (Frame (setUp i s)) (Leaves (setUp i s)) (prepare i s) := by
  simp only [prepare]
  generalize setUp i s = s
  generalize (if s.vars.firstTime then s.vars.wakeupReason else sleepWait i.sleep) = reason
  split
  · exact Frame.leaves (.of_events rfl rfl rfl rfl rfl rfl rfl)
  · split
    · exact Frame.leaves (.of_events rfl rfl rfl rfl rfl rfl rfl)
    · split
      · exact Frame.leaves (.of_events rfl rfl rfl rfl rfl rfl rfl)
      · exact Frame.leaves_gone (.of_events rfl rfl rfl rfl rfl rfl rfl)
      · exact .of_events rfl rfl rfl rfl rfl rfl rfl

theorem Frame.store (s : State) {store : Store}
    (hsha : store.sha256config = s.store.sha256config) : Frame s { s with store } :=
  .of_events rfl rfl hsha rfl rfl rfl rfl

theorem readUuid_frame : Ends (Frame s) (Leaves s) (readUuid i s) := by
  simp only [readUuid]
  generalize (if i.uci .getCloudUuid = true then s.store.cloudUuid else "") = cloudUuid
  split
  · exact .of_events rfl rfl rfl rfl rfl rfl rfl
  · apply command_bind_ends _ fun _ => (Frame.refl s).leaves_gone
    intro _
    refine command_bind_ends (fun _ => ?_) fun _ => Frame.leaves_gone ?_
    · refine command_bind_ends (fun _ => ?_) fun _ => Frame.leaves_gone ?_
      · exact .of_events rfl rfl rfl rfl rfl rfl rfl
      · exact .store s rfl
    · exact .store s rfl

theorem checkVersion_frame : Ends (Frame s) (Leaves s) (checkVersion i s) := by
  simp only [checkVersion]
  split
  · split
    · apply Frame.command
      exact ((Frame.refl s).log rfl).trans (.store (s.log .mismatch) rfl)
    · exact .refl s
  · split
    · exact Frame.command (.store s rfl)
    · exact .refl s

theorem performSoftwareUpdate_frame :
    Ends (Frame s) (Leaves s) (performSoftwareUpdate noaction late i s) := by
  have hstore : Frame s (storePending late i s) :=
    ((Frame.refl s).log rfl).trans (.of_events rfl rfl rfl rfl rfl rfl rfl)
  have hcheck : Frame s (runUpdateCheck late i (storePending late i s)) :=
    (hstore.log rfl).trans (.of_events rfl rfl rfl rfl rfl rfl rfl)
  have hroll : Frame s (rollBack late i (runUpdateCheck late i (storePending late i s))) := by
    rw [rollBack]
    split
    · exact hcheck.trans (.of_events rfl rfl rfl rfl rfl rfl rfl)
    · exact hcheck
  exact performSoftwareUpdate_ends (fun _ => .refl s) (Frame.refl s).leaves_gone
    hstore.leaves_gone ⟨hcheck, hcheck.leaves_gone⟩ ⟨hroll, hroll.leaves_gone⟩

theorem performConfigUpdate_frame (late confirm : Bool) :
    Frame s ((performConfigUpdate late i s).2.setConfirm confirm) := by
  have hconfirm {t : State} (h : Frame s t) : Frame s (t.setConfirm confirm) :=
    h.trans (.of_events rfl rfl rfl rfl rfl rfl rfl)
  apply hconfirm
  rw [performConfigUpdate]
  split
  · have happlied : Frame s (s.log .configApplied) := (Frame.refl s).log rfl
    simp only [applyConfig]
    split
    · have hcounted := happlied.log (e := .commit (s.vars.actionSequence.getD 0 + 1) none) rfl
      exact hcounted.trans (.of_events rfl rfl rfl rfl rfl rfl rfl)
    · exact happlied.trans (.of_events rfl rfl rfl rfl rfl rfl rfl)
  · exact .refl s

theorem pendingUpdates_frame : Ends (Frame s) (Leaves s) (pendingUpdates noaction i s) := by
  simp only [pendingUpdates]
  split
  · split
    · exact (Frame.refl s).leaves
    · exact Ends.bind performSoftwareUpdate_frame fun t ht => ht.leaves
  · split
    · split
      · exact (Frame.refl s).leaves
      · have hframe := performConfigUpdate_frame (i := i) (s := s) false
        split
        next happlied =>
          have happ := hframe true
          rw [happlied] at happ
          exact happ
        next hrefused =>
          have happ := hframe false
          rw [hrefused] at happ
          exact happ.leaves
    · exact .refl s

theorem fetchUuid_frame : Ends (Frame s) (Leaves s) (fetchUuid i s) := by
  simp only [fetchUuid]
  split
  · split
    · exact (Frame.refl s).leaves
    · split
      · exact Frame.leaves (.of_events rfl rfl rfl rfl rfl rfl rfl)
      · exact .of_events rfl rfl rfl rfl rfl rfl rfl
  · exact .refl s

theorem chooseUuid_frame : Frame s (chooseUuid s) := by
  simp only [chooseUuid]
  repeat' split
  all_goals exact .of_events rfl rfl rfl rfl rfl rfl rfl

theorem commitPoll_frame : Ends (Frame s) (Leaves s) (commitPoll i s) := by
  have huuid : Frame s { s with store := { s.store with uuid := s.vars.uuid } } :=
    .of_events rfl rfl rfl rfl rfl rfl rfl
  simp only [commitPoll]
  split
  · split
    · split
      · exact huuid.command
      next sequence _ =>
        split
        · have hstored : Frame s (storeSequence i sequence
              { s with store := { s.store with uuid := s.vars.uuid } }) :=
            (huuid.log rfl).trans (.of_events rfl rfl rfl rfl rfl rfl rfl)
          exact hstored.command
        · exact huuid.leaves_gone
    · exact (Frame.refl s).leaves_gone
  · exact .refl s

theorem runSoftwareUpdate_frame :
    Ends (Frame s) (Leaves s) (runSoftwareUpdate noaction i s) := by
  rw [runSoftwareUpdate]
  split
  · exact performSoftwareUpdate_frame
  · exact .refl s

theorem runConfigUpdate_frame : Frame s (runConfigUpdate i s) := by
  simp only [runConfigUpdate]
  split
  · exact performConfigUpdate_frame true _
  · exact .refl s

end Frame

/-- An invariant that is not about the rest of the state. -/
structure Framed (I : State → Prop) : Prop where
  frame : ∀ {s t : State}, I s → Frame s t → I t
  gone : ∀ {s : State}, I s → I s.gone

section Framed

variable {noaction : Bool} {i : Input} {s : State} {I A B C : State → Prop}

theorem Framed.leaves {t : State} (hI : Framed I) (hs : I s) (h : Leaves s t) : I t := by
  obtain ⟨u, hu, rfl | rfl⟩ := h
  · exact hI.frame hs hu
  · exact hI.gone (hI.frame hs hu)

/-- A stage that leaves all this alone. -/
theorem Framed.ends {x : Flow} (hI : Framed I)
    (hA : ∀ {s t : State}, A s → Frame s t → A t) (hAI : ∀ {s : State}, A s → I s)
    (h : Ends (Frame s) (Leaves s) x) (hs : A s) : Ends A I x :=
  h.mono (fun _ ht => hA hs ht) fun _ ht => hI.leaves (hAI hs) ht

theorem Framed.approach (hI : Framed I)
    (hA : ∀ {s t : State}, A s → Frame s t → A t) (hAI : ∀ {s : State}, A s → I s)
    (hs : A (setUp i s)) : Ends A I (approach noaction i s) := by
  refine Ends.bind (hI.ends hA hAI prepare_frame hs) fun t₁ h₁ => ?_
  refine Ends.bind (hI.ends hA hAI readUuid_frame h₁) fun t₂ h₂ => ?_
  have h₂' : A (readOptions i t₂) := hA h₂ (.of_events rfl rfl rfl rfl rfl rfl rfl)
  refine Ends.bind (hI.ends hA hAI checkVersion_frame h₂') fun t₃ h₃ => ?_
  refine Ends.bind (hI.ends hA hAI pendingUpdates_frame h₃) fun t₄ h₄ => ?_
  have h₄' : A (selectSequence i t₄) := hA h₄ (.of_events rfl rfl rfl rfl rfl rfl rfl)
  exact Ends.bind (hI.ends hA hAI fetchUuid_frame h₄') fun t₅ h₅ => hA h₅ chooseUuid_frame

/-- The rule for an iteration: `A` holds up to the report, `B` up to the poll and `C` for
the answer. A report that is made is one of a poll. -/
theorem Framed.iteration (hI : Framed I)
    (hA : ∀ {s t : State}, A s → Frame s t → A t) (hAI : ∀ {s : State}, A s → I s) (hs : I s)
    (hsetUp : A (setUp i (s.start i)))
    (hreport : ∀ t, A t → (∀ u, report i t = .ok u → Polls noaction s i t) →
      Ends B I (report i t))
    (hpoll : ∀ t, B t → Ends (fun r => C r.2) I (poll noaction i t))
    (hhandle : ∀ t response, C t → Ends I I (handleOutput i t response)) :
    I (iteration noaction s i) := by
  have hframe {s t : State} (hs : I s) (ht : Frame s t) : I t := hI.frame hs ht
  refine iteration_of_body hs fun hrunning => ?_
  have hbefore : Ends B I (beforePoll noaction i (s.start i)) := by
    rw [beforePoll_eq]
    refine Ends.bind (hI.approach hA hAI hsetUp).and_eq fun t ht => ?_
    exact hreport t ht.2 fun u hu => ⟨hrunning, ht.1, u, hu⟩
  rw [body_eq]
  refine Ends.bind hbefore fun t₆ h₆ => ?_
  refine Ends.bind (hpoll t₆ h₆) fun r h₇ => ?_
  refine Ends.bind (hhandle r.2 r.1 h₇) fun t₈ h₈ => ?_
  refine Ends.bind (hI.ends hframe id commitPoll_frame h₈) fun t₉ h₉ => ?_
  have h₉' : I (cycle t₉) := hframe h₉ (.of_events rfl rfl rfl rfl rfl rfl rfl)
  refine Ends.bind (hI.ends hframe id runSoftwareUpdate_frame h₉') fun t₁₀ h₁₀ => ?_
  exact hframe h₁₀ runConfigUpdate_frame

end Framed

end Speedway.Cloud
