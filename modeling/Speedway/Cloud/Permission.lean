import Speedway.Cloud.Stages

/-!
# Upgrades need a permission

An upgrade that waits since an earlier iteration is run only with automatic
updates or on request. One that comes with the answer of a poll is run at once,
so the permission depends on what the cloud answers.
-/

namespace Speedway.Cloud

open Speedway.Lib

/-- An upgrade is run in an iteration that allows it. -/
def Permitted : Event → Prop
  | .updateCheck autoFirmware wakeupReason => autoFirmware = "on" ∨ wakeupReason = "upgrade"
  | _ => True

instance : DecidablePred Permitted
  | .updateCheck _ _ => inferInstanceAs (Decidable (_ ∨ _))
  | .attempt _ _ | .mismatch | .poll _ _ _ | .commit _ _ | .applied _ | .configApplied =>
      .isTrue trivial

/-- So far every upgrade was permitted. -/
def AllPermitted (s : State) : Prop := ∀ e ∈ s.events, Permitted e

instance : DecidablePred AllPermitted := fun s =>
  inferInstanceAs (Decidable (∀ e ∈ s.events, Permitted e))

/-- The same inside an iteration; `reason` is why the script is awake. -/
structure Orderly (reason : String) (s : State) : Prop where
  permitted : AllPermitted s
  reason : s.vars.wakeupReason = reason

variable {noaction late : Bool} {i : Input} {s : State} {reason : String}

theorem permitted_log (e : Event) (h : AllPermitted s) (he : Permitted e) :
    AllPermitted (s.log e) := by
  intro e' he'
  rcases List.mem_append.mp he' with h' | h'
  · exact h e' h'
  · rwa [List.mem_singleton.mp h']

theorem performSoftwareUpdate_orderly (h : Orderly reason s)
    (hallowed : i.autoFirmware = "on" ∨ reason = "upgrade") :
    Ends (Orderly reason) AllPermitted
      (performSoftwareUpdate noaction late i s) := by
  have hstore : Orderly reason (storePending late i s) :=
    ⟨permitted_log _ h.permitted trivial, h.reason⟩
  have hcheck : Orderly reason (runUpdateCheck late i (storePending late i s)) := by
    refine ⟨permitted_log _ hstore.permitted ?_, hstore.reason⟩
    show _ ∨ (storePending late i s).vars.wakeupReason = "upgrade"
    rwa [hstore.reason]
  have hroll : Orderly reason
      (rollBack late i (runUpdateCheck late i (storePending late i s))) := by
    rw [rollBack]
    split
    · exact ⟨hcheck.permitted, hcheck.reason⟩
    · exact hcheck
  exact performSoftwareUpdate_ends (fun _ => h) h.permitted hstore.permitted
    ⟨hcheck, hcheck.permitted⟩ ⟨hroll, hroll.permitted⟩

theorem applyConfig_orderly (h : Orderly reason s) : Orderly reason (applyConfig late i s) := by
  have hconfig := permitted_log .configApplied h.permitted trivial
  simp only [applyConfig]
  split
  · exact ⟨permitted_log _ hconfig trivial, h.reason⟩
  · exact ⟨hconfig, h.reason⟩

theorem checkVersion_orderly (h : Orderly reason s) :
    Ends (fun t => Orderly reason t ∧ t.vars.autoFirmware = s.vars.autoFirmware)
      AllPermitted (checkVersion i s) := by
  have hlog := permitted_log .mismatch h.permitted trivial
  simp only [checkVersion]
  split
  · split
    · exact command_ends (fun _ => ⟨⟨hlog, h.reason⟩, rfl⟩) fun _ => hlog
    · exact ⟨h, rfl⟩
  · split
    · exact command_ends (fun _ => ⟨⟨h.permitted, h.reason⟩, rfl⟩) fun _ => h.permitted
    · exact ⟨h, rfl⟩

/-- Past the stored updates there is no upgrade left that was not tried already. -/
theorem pendingUpdates_orderly (h : Orderly reason s)
    (hauto : s.vars.autoFirmware = "on" → i.autoFirmware = "on") :
    Ends (fun t => Orderly reason t ∧
        (t.vars.actionSequencePending.isSome = true ∨ t.store.softwareUpdates = false))
      AllPermitted (pendingUpdates noaction i s) := by
  simp only [pendingUpdates]
  split
  next hupgrade =>
    split
    · exact h.permitted
    next hallowed =>
      apply Ends.bind (performSoftwareUpdate_orderly h ?_)
      · exact fun t ht => ht.permitted
      · rw [← h.reason]
        by_contra hnot
        push Not at hnot
        exact hallowed ⟨fun hon => hnot.1 (hauto hon), hnot.2⟩
  next hnone =>
    have hleft : s.vars.actionSequencePending.isSome = true ∨ s.store.softwareUpdates = false := by
      by_contra hnot
      push Not at hnot
      exact hnone ⟨by simpa using hnot.1, by simpa using hnot.2⟩
    split
    · split
      · exact h.permitted
      · simp only [performConfigUpdate]
        by_cases hjson : i.jsonToUci false = true
        · rw [if_pos hjson]
          refine ⟨⟨(applyConfig_orderly h).permitted, (applyConfig_orderly h).reason⟩, ?_⟩
          simpa [State.setConfirm] using hleft
        · rw [if_neg hjson]
          exact h.permitted
    · exact ⟨h, hleft⟩

theorem poll_orderly (h : Orderly reason s)
    (hleft : s.vars.actionSequencePending.isSome = true ∨ s.store.softwareUpdates = false) :
    Ends (fun t => i.response = some t.1 ∧ Orderly reason t.2 ∧ t.2.store.softwareUpdates = false)
      AllPermitted (poll noaction i s) := by
  have hlog := permitted_log
    (.poll (s.vars.actionSequence.getD 0) (confirms i s) i.response.isSome) h.permitted trivial
  simp only [poll]
  split
  · exact hlog
  next response hresponse =>
    split
    · exact hlog
    · split
      · exact ⟨hresponse, ⟨hlog, h.reason⟩, rfl⟩
      next hpending => exact ⟨hresponse, ⟨hlog, h.reason⟩, hleft.resolve_left hpending⟩

/-- Only an answer brings an upgrade now. -/
theorem handleOutput_orderly {response : Response} (h : Orderly reason s)
    (hno : s.store.softwareUpdates = false) :
    Ends (fun t => Orderly reason t ∧
        (t.store.softwareUpdates = true → response = .action .softwareUpdate))
      AllPermitted (handleOutput i s response) := by
  have hnone : s.store.softwareUpdates = true → response = .action .softwareUpdate := by
    intro htrue
    exact absurd htrue (by simp [hno])
  apply handleOutput_ends
  · exact fun _ => ⟨h, hnone⟩
  · exact fun _ _ => h.permitted
  · exact fun hresponse _ => ⟨⟨h.permitted, h.reason⟩, fun _ => hresponse⟩
  · exact fun _ _ => ⟨⟨h.permitted, h.reason⟩, hnone⟩
  · exact fun a _ _ _ => ⟨⟨permitted_log (.applied a) h.permitted trivial, h.reason⟩, hnone⟩

theorem commitPoll_orderly (h : Orderly reason s) :
    Ends (fun t => Orderly reason t ∧ t.store.softwareUpdates = s.store.softwareUpdates)
      AllPermitted (commitPoll i s) := by
  simp only [commitPoll]
  split
  · split
    · split
      · exact command_ends (fun _ => ⟨⟨h.permitted, h.reason⟩, rfl⟩) fun _ => h.permitted
      next sequence _ =>
        have hlog := permitted_log (.commit sequence (confirms i s)) h.permitted trivial
        split
        · exact command_ends (fun _ => ⟨⟨hlog, h.reason⟩, rfl⟩) fun _ => hlog
        · exact h.permitted
    · exact h.permitted
  · exact ⟨h, rfl⟩

theorem runSoftwareUpdate_orderly (h : Orderly reason s)
    (hallowed : s.store.softwareUpdates = true → i.autoFirmware = "on" ∨ reason = "upgrade") :
    Ends (Orderly reason) AllPermitted (runSoftwareUpdate noaction i s) := by
  rw [runSoftwareUpdate]
  split
  next hupgrade => exact performSoftwareUpdate_orderly h (hallowed hupgrade)
  · exact h

theorem runConfigUpdate_orderly (h : Orderly reason s) : AllPermitted (runConfigUpdate i s) := by
  simp only [runConfigUpdate, performConfigUpdate]
  split
  · by_cases hjson : i.jsonToUci true = true
    · rw [if_pos hjson]
      exact (applyConfig_orderly h).permitted
    · rw [if_neg hjson]
      exact h.permitted
  · exact h.permitted

/-- The iteration may run an upgrade. -/
def Allowed (s : State) (i : Input) : Prop :=
  i.autoFirmware = "on" ∨ reasonOf i (s.start i) = "upgrade"

theorem AllPermitted.left {t : State} (h : AllPermitted s) (ht : Left s t) : AllPermitted t := by
  intro e he
  exact h e (ht.events ▸ he)

/-- Where a poll is made no upgrade is left that was not tried already. -/
theorem approach_orderly (h : AllPermitted s) :
    Ends (fun t => Orderly (reasonOf i s) t ∧
        (t.vars.actionSequencePending.isSome = true ∨ t.store.softwareUpdates = false))
      AllPermitted (approach noaction i s) := by
  refine Ends.bind (prepare_ends.mono (fun _ ht => ht) fun t ht => h.left ht) fun t₁ h₁ => ?_
  obtain ⟨hquiet, -, -, hreason, -⟩ := h₁
  have ho : Orderly (reasonOf i s) t₁ := ⟨h.left hquiet.left, hreason⟩
  refine Ends.bind (readUuid_ends.mono (fun _ ht => ht) fun t ht => ho.permitted.left ht)
    fun t₂ h₂ => ?_
  obtain ⟨hquiet, -, hreason, -⟩ := h₂
  have ho : Orderly (reasonOf i s) (readOptions i t₂) :=
    ⟨show AllPermitted t₂ from ho.permitted.left hquiet.left, hreason.trans ho.reason⟩
  refine Ends.bind (checkVersion_orderly ho) fun t₃ h₃ => ?_
  obtain ⟨ho, hauto⟩ := h₃
  have hauto' : t₃.vars.autoFirmware = "on" → i.autoFirmware = "on" := by
    intro hon
    rw [hauto] at hon
    simp only [readOptions] at hon
    split at hon
    · exact hon
    · exact absurd hon (by decide)
  refine Ends.bind (pendingUpdates_orderly ho hauto') fun t₄ h₄ => ?_
  obtain ⟨ho, hleft⟩ := h₄
  have ho : Orderly (reasonOf i s) (selectSequence i t₄) := ⟨ho.permitted, ho.reason⟩
  refine Ends.bind (fetchUuid_ends.mono (fun _ ht => ht) fun t ht => ho.permitted.left ht)
    fun t₅ h₅ => ?_
  obtain ⟨hquiet, hpending, -, -, hreason, -⟩ := h₅
  refine ⟨⟨ho.permitted.left (hquiet.trans chooseUuid_quiet).left,
    chooseUuid_reason.trans (hreason.trans ho.reason)⟩, ?_⟩
  rw [chooseUuid_pending, hpending, (hquiet.trans chooseUuid_quiet).softwareUpdates]
  exact hleft

/-- The same with the report, and that the poll is made. -/
theorem beforePoll_orderly (h : AllPermitted (s.start i)) (hrunning : s.halted = false) :
    Ends (fun t => (∃ u, Polls noaction s i u) ∧ Orderly (reasonOf i (s.start i)) t ∧
        (t.vars.actionSequencePending.isSome = true ∨ t.store.softwareUpdates = false))
      AllPermitted (beforePoll noaction i (s.start i)) := by
  rw [beforePoll_eq]
  refine Ends.bind (approach_orderly h).and_eq ?_
  rintro u ⟨hreached, ho, hleft⟩
  apply report_quiet.and_eq.mono _ fun t ht => ho.permitted.left ht
  rintro t ⟨hreported, hquiet, hpending, -, hreason⟩
  refine ⟨⟨u, hrunning, hreached, t, hreported⟩,
    ⟨ho.permitted.left hquiet.left, hreason.trans ho.reason⟩, ?_⟩
  rw [hpending, hquiet.softwareUpdates]
  exact hleft

/-- The condition of an iteration: an upgrade that the answer to its poll brings is allowed. -/
def AnswerAllowed (noaction : Bool) (s : State) (i : Input) : Prop :=
  ∀ t, Polls noaction s i t → i.response = some (.action .softwareUpdate) → Allowed s i

theorem iteration_permitted (h : AllPermitted s) (hi : AnswerAllowed noaction s i) :
    AllPermitted (iteration noaction s i) := by
  refine iteration_of_body h fun hrunning => ?_
  have hstart : AllPermitted (s.start i) := by
    rw [State.start]
    split <;> exact h
  rw [body_eq]
  refine Ends.bind (beforePoll_orderly hstart hrunning) ?_
  rintro t₅ ⟨⟨u, hpolls⟩, ho, hleft⟩
  refine Ends.bind (poll_orderly ho hleft) fun t₆ h₆ => ?_
  obtain ⟨hresponse, ho, hno⟩ := h₆
  refine Ends.bind (handleOutput_orderly ho hno) fun t₇ h₇ => ?_
  obtain ⟨ho, hbrought⟩ := h₇
  refine Ends.bind (commitPoll_orderly ho) fun t₈ h₈ => ?_
  obtain ⟨ho, hsame⟩ := h₈
  have hallowed : (cycle t₈).store.softwareUpdates = true → Allowed s i := by
    intro hupgrade
    apply hi u hpolls
    rw [hresponse, hbrought (hsame ▸ hupgrade)]
  exact Ends.bind (runSoftwareUpdate_orderly ⟨ho.permitted, ho.reason⟩ hallowed)
    fun t₉ h₉ => runConfigUpdate_orderly h₉

/-- In a run in which the cloud brings an upgrade only to iterations that may run
one, every upgrade is permitted. -/
theorem upgrades_permitted {inputs : List Input} (h : AllPermitted s)
    (hanswers : Meets (iteration false) (AnswerAllowed false) s inputs) :
    AllPermitted (run false s inputs) :=
  hanswers.invariant h fun _ _ hs hi => iteration_permitted hs hi

theorem upgrades_permitted_on :
    Event.updateCheck "on" "" ∈
        (run false (started registered) [answered "on" (.action .softwareUpdate)]).events ∧
      AllPermitted (run false (started registered) [answered "on" (.action .softwareUpdate)]) :=
  ⟨by decide, upgrades_permitted (by decide) ⟨fun _ _ _ => .inl rfl, trivial⟩⟩

/-- Without automatic updates and without a request the upgrade of an answer is run. -/
theorem upgrade_not_permitted :
    ¬ AllPermitted (run false (started registered) [answered "off" (.action .softwareUpdate)]) := by
  decide

end Speedway.Cloud
