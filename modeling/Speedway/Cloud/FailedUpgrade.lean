import Speedway.Cloud.Stages

/-!
# A failed upgrade

After an upgrade the pending sequence may be reported and stored only while the
expected version is running. The script clears the stored value on a mismatch
but goes on with its shell copy, so such an iteration must not get to the poll.
-/

namespace Speedway.Cloud

open Speedway.Lib

/-- The sequence stored before the last attempt, until another action is applied,
and whether its version was found to be wrong. -/
structure Audit where
  attempt : Option Nat := none
  failed : Bool := false
  ok : Bool := true

def Audit.note (l : Audit) : Event → Audit
  | .attempt _ committed => { l with attempt := some committed, failed := false }
  | .mismatch => { l with failed := true }
  | .applied _ | .configApplied => { l with attempt := none }
  | .poll sequence confirms _ =>
      { l with ok := l.ok && confirms != some false &&
        (!l.failed || l.attempt.all fun committed => committed == sequence) }
  | .commit _ confirms => { l with ok := l.ok && confirms != some false }
  | .updateCheck _ _ => l

def audit (events : List Event) : Audit := events.foldl Audit.note {}

/-- A pending sequence is reported and stored only in iterations that run the
expected version; after a mismatch the sequence reported is the one stored before
the attempt. -/
def FailuresUnconfirmed (s : State) : Prop := (audit s.events).ok = true

instance : DecidablePred FailuresUnconfirmed := fun s =>
  inferInstanceAs (Decidable ((audit s.events).ok = true))

theorem audit_append (events : List Event) (e : Event) :
    audit (events ++ [e]) = (audit events).note e := by
  rw [audit, List.foldl_append]
  rfl

/-- The invariant between iterations. -/
structure Sound (s : State) : Prop where
  ok : FailuresUnconfirmed s
  pending : s.store.actionSequencePending.isSome = true → (audit s.events).failed = false
  committed : s.store.actionSequencePending.isSome = true ∨ (audit s.events).failed = true →
    ∀ c ∈ (audit s.events).attempt, s.sequence = c

variable {noaction late : Bool} {i : Input} {s t : State}

theorem Sound.congr (h : Sound s) (haudit : audit t.events = audit s.events)
    (hstored : t.store.actionSequence = s.store.actionSequence)
    (hpending : t.store.actionSequencePending = s.store.actionSequencePending) : Sound t := by
  have hsequence : t.sequence = s.sequence := congrArg (Option.getD · 0) hstored
  refine ⟨?_, ?_, ?_⟩
  · rw [FailuresUnconfirmed, haudit]
    exact h.ok
  · rw [hpending, haudit]
    exact h.pending
  · rw [hpending, haudit, hsequence]
    exact h.committed

theorem Sound.left (h : Sound s) (ht : Left s t) : Sound t :=
  h.congr (congrArg audit ht.events) ht.actionSequence ht.pending

theorem Sound.gone (h : Sound s) : Sound s.gone := h.congr rfl rfl rfl

theorem performSoftwareUpdate_sound (h : Sound s) (huci : ∀ site, i.uci site = true) :
    Ends Sound Sound (performSoftwareUpdate noaction late i s) := by
  have hstore : Sound (storePending late i s) := by
    have haudit : audit (storePending late i s).events =
        { audit s.events with attempt := some s.sequence, failed := false } := audit_append _ _
    refine ⟨?_, fun _ => ?_, fun _ c hc => ?_⟩
    · rw [FailuresUnconfirmed, haudit]
      exact h.ok
    · rw [haudit]
    · rw [haudit] at hc
      exact Option.mem_some_iff.mp hc
  have hcheck : Sound (runUpdateCheck late i (storePending late i s)) :=
    hstore.congr (audit_append _ _) rfl rfl
  have hroll : Sound (rollBack late i (runUpdateCheck late i (storePending late i s))) := by
    rw [rollBack, huci, if_pos rfl]
    refine ⟨hcheck.ok, nofun, ?_⟩
    rintro (hsome | hfailed)
    · exact nomatch hsome
    · exact absurd (hcheck.pending rfl) (by rw [hfailed]; decide)
  exact performSoftwareUpdate_ends (fun _ => h) h.gone hstore.gone ⟨hcheck, hcheck.gone⟩
    ⟨hroll, hroll.gone⟩

/-- After a configuration was applied there is nothing to compare with. -/
theorem applyConfig_sound (h : Sound s) : Sound (applyConfig late i s) := by
  have hconfig : audit (s.log .configApplied).events =
      { audit s.events with attempt := none } := audit_append _ _
  have haudit : audit (applyConfig late i s).events = { audit s.events with attempt := none } := by
    simp only [applyConfig]
    split
    · refine (audit_append _ _).trans ?_
      show (audit (s.log .configApplied).events).note _ = _
      rw [hconfig]
      simp [Audit.note]
    · exact hconfig
  refine ⟨?_, ?_, ?_⟩
  · rw [FailuresUnconfirmed, haudit]
    exact h.ok
  · rw [haudit, applyConfig_store_pending]
    exact h.pending
  · rw [haudit]
    intro _ c hc
    cases hc

/-- The iteration ends before its poll: a stored configuration has to wait or cannot
be applied, or there is no UUID. -/
def EndsEarly (s : State) (i : Input) : Prop :=
  s.store.configUpdates = true ∧
      ((i.autoConfig ≠ "on" ∧ reasonOf i (s.start i) ≠ "config") ∨ i.jsonToUci false = false) ∨
    (s.store.cloudUuid ≠ "" ∨ s.store.uuid = "") ∧ i.newUuid.getD "" = ""

/-- `uci` does its work, and an iteration that finds another version than the
expected one does not get to its poll. -/
structure Cautious (s : State) (i : Input) : Prop where
  uci : ∀ site, i.uci site = true
  mismatch : Ready i → s.store.actionSequencePending.isSome = true →
    s.store.expectedVersion ≠ i.softwareVersion → EndsEarly s i

/-- The stages after a mismatch, up to the UUID. -/
theorem pendingUpdates_mismatch (h : Sound s) (hsome : s.vars.actionSequencePending.isSome = true)
    (hends : s.store.configUpdates = true ∧
        ((s.vars.autoConfig ≠ "on" ∧ s.vars.wakeupReason ≠ "config") ∨ i.jsonToUci false = false) ∨
      s.vars.uuid = "" ∧ i.newUuid.getD "" = "") :
    Ends (fun t => Sound t ∧ t.vars.uuid = "" ∧ i.newUuid.getD "" = "") Sound
      (pendingUpdates noaction i s) := by
  simp only [pendingUpdates]
  split
  next hnone =>
    exact absurd hsome (by simpa using hnone.1)
  · split
    next hconfig =>
      split
      · exact h
      next hallowed =>
        simp only [performConfigUpdate]
        by_cases hjson : i.jsonToUci false = true
        · rw [if_pos hjson]
          have huuid : s.vars.uuid = "" ∧ i.newUuid.getD "" = "" := by
            rcases hends with ⟨-, hwait | hfail⟩ | huuid
            · exact absurd hwait hallowed
            · exact absurd hjson (by rw [hfail]; decide)
            · exact huuid
          exact ⟨(applyConfig_sound h).congr rfl rfl rfl, applyConfig_uuid.trans huuid.1, huuid.2⟩
        · rw [if_neg hjson]
          exact h.congr rfl rfl rfl
    next hconfig => exact ⟨h, (hends.resolve_left fun hc => hconfig hc.1)⟩

theorem pendingUpdates_sound (h : Sound s) (hc : Consistent i s)
    (huci : ∀ site, i.uci site = true) :
    Ends (fun t => Sound t ∧ Consistent i t) Sound (pendingUpdates noaction i s) := by
  simp only [pendingUpdates]
  split
  · split
    · exact h
    · exact Ends.bind (performSoftwareUpdate_sound h huci) fun t ht => ht
  · split
    · split
      · exact h
      · simp only [performConfigUpdate]
        by_cases hjson : i.jsonToUci false = true
        · rw [if_pos hjson]
          exact ⟨(applyConfig_sound h).congr rfl rfl rfl, hc.applyConfig⟩
        · rw [if_neg hjson]
          exact h.congr rfl rfl rfl
    · exact ⟨h, hc⟩

/-- A poll that reports the pending sequence of a version that runs, or the stored
sequence, is in order. -/
theorem poll_ok (h : Sound s) (hc : Consistent i s)
    (hsequence : s.vars.actionSequence = some (s.store.actionSequencePending.getD s.sequence))
    (answered : Bool) :
    audit (s.log (.poll (s.vars.actionSequence.getD 0) (confirms i s) answered)).events =
      audit s.events := by
  have hok : (audit s.events).ok = true := h.ok
  have hconfirms : (confirms i s != some false) = true := by
    rw [hc.confirms_eq]
    split <;> rfl
  have hvalue : (!(audit s.events).failed || (audit s.events).attempt.all fun committed =>
      committed == s.vars.actionSequence.getD 0) = true := by
    cases hfailed : (audit s.events).failed with
    | false => rfl
    | true =>
        cases hpending : s.store.actionSequencePending with
        | some p => exact absurd (h.pending (hpending ▸ rfl)) (by rw [hfailed]; decide)
        | none =>
            simp only [Bool.not_true, Bool.false_or, Option.all_eq_true, beq_iff_eq]
            intro c hmem
            rw [hsequence, hpending]
            exact (h.committed (.inr hfailed) c hmem).symm
  rw [State.log, audit_append, Audit.note, hok, hconfirms, hvalue]
  simp [← hok]

/-- After an answered poll: the sequence that is going to be stored is not the one of
a failed upgrade. -/
structure Confirming (i : Input) (s : State) : Prop where
  ok : FailuresUnconfirmed s
  settled : s.store.actionSequencePending = none
  confirms : confirms i s ≠ some false
  committed : (audit s.events).failed = true →
    ∀ c ∈ (audit s.events).attempt, s.sequence = c ∧ s.vars.actionSequence = some c

theorem Confirming.sound (h : Confirming i s) (ht : audit t.events = audit s.events)
    (hstored : (audit s.events).failed = true →
      ∀ c ∈ (audit s.events).attempt, t.sequence = c)
    (hpending : t.store.actionSequencePending = none) : Sound t := by
  refine ⟨?_, fun hsome => ?_, fun hor => ?_⟩
  · rw [FailuresUnconfirmed, ht]
    exact h.ok
  · rw [hpending] at hsome
    exact nomatch hsome
  · rw [ht] at hor ⊢
    rcases hor with hsome | hfailed
    · rw [hpending] at hsome
      exact nomatch hsome
    · exact hstored hfailed

theorem poll_sound (h : Sound s) (hc : Consistent i s) (huci : ∀ site, i.uci site = true)
    (hsequence : s.vars.actionSequence = some (s.store.actionSequencePending.getD s.sequence)) :
    Ends (fun t => Confirming i t.2) Sound (poll noaction i s) := by
  have haudit := poll_ok h hc hsequence i.response.isSome
  have hlog : Sound (s.log (.poll (s.vars.actionSequence.getD 0) (confirms i s)
      i.response.isSome)) := h.congr haudit rfl rfl
  have hconfirms : confirms i s ≠ some false := by
    rw [hc.confirms_eq]
    split <;> simp
  simp only [poll, huci, if_true]
  split
  · exact hlog
  · split
    · exact hlog.congr rfl rfl rfl
    · split
      next hsome =>
        refine ⟨hlog.ok, rfl, hconfirms, fun hfailed => ?_⟩
        have hpending : s.store.actionSequencePending.isSome = true := hc.pending ▸ hsome
        exact absurd (hlog.pending hpending) (by rw [show _ = true from hfailed]; decide)
      next hnone =>
        have hpending : s.store.actionSequencePending = none :=
          hc.pending ▸ Option.not_isSome_iff_eq_none.mp hnone
        refine ⟨hlog.ok, hpending, hconfirms, fun hfailed c hmem => ?_⟩
        have hcommitted := hlog.committed (.inr hfailed) c hmem
        refine ⟨hcommitted, ?_⟩
        show s.vars.actionSequence = some c
        rw [hsequence, hpending]
        exact congrArg some hcommitted

theorem handleOutput_confirming {response : Response} (h : Confirming i s) :
    Ends (Confirming i) Sound (handleOutput i s response) := by
  apply handleOutput_ends
  · exact fun _ => h
  · exact fun _ flags =>
      h.sound rfl (fun hfailed c hmem => (h.committed hfailed c hmem).1) h.settled
  · exact fun _ _ => ⟨h.ok, h.settled, h.confirms, h.committed⟩
  · exact fun _ _ => ⟨h.ok, h.settled, h.confirms, h.committed⟩
  · intro a flags _ _
    have haudit : audit ((applyAction a s).withFlags flags).events =
        { audit s.events with attempt := none } := audit_append _ _
    refine ⟨?_, h.settled, h.confirms, fun _ c hmem => ?_⟩
    · rw [FailuresUnconfirmed, haudit]
      exact h.ok
    · rw [haudit] at hmem
      exact nomatch hmem

theorem commitPoll_sound (h : Confirming i s) (huci : ∀ site, i.uci site = true) :
    Ends Sound (fun _ => False) (commitPoll i s) := by
  have hkept : Sound s :=
    h.sound rfl (fun hfailed c hmem => (h.committed hfailed c hmem).1) h.settled
  simp only [commitPoll, huci, if_true, State.command]
  split
  · split
    · exact hkept.congr rfl rfl rfl
    next sequence hsequence =>
      have hconfirms : (confirms i s != some false) = true := by simpa using h.confirms
      have hok : (audit s.events).ok = true := h.ok
      have haudit : audit (s.log (.commit sequence (confirms i s))).events = audit s.events := by
        rw [State.log, audit_append, Audit.note, hok, hconfirms]
        simp [← hok]
      refine h.sound haudit (fun hfailed c hmem => ?_) h.settled
      have hset := (h.committed hfailed c hmem).2
      rw [show s.vars.actionSequence = some sequence from hsequence] at hset
      exact Option.some.inj hset
  · exact hkept

theorem runSoftwareUpdate_sound (h : Sound s) (huci : ∀ site, i.uci site = true) :
    Ends Sound Sound (runSoftwareUpdate noaction i s) := by
  rw [runSoftwareUpdate]
  split
  · exact performSoftwareUpdate_sound h huci
  · exact h

theorem runConfigUpdate_sound (h : Sound s) : Sound (runConfigUpdate i s) := by
  simp only [runConfigUpdate, performConfigUpdate]
  split
  · by_cases hjson : i.jsonToUci true = true
    · rw [if_pos hjson]
      exact (applyConfig_sound h).congr rfl rfl rfl
    · rw [if_neg hjson]
      exact h.congr rfl rfl rfl
  · exact h

theorem checkVersion_mismatch (h : Sound s)
    (hpending : s.vars.actionSequencePending = s.store.actionSequencePending)
    (hsome : s.vars.actionSequencePending.isSome = true)
    (hne : s.vars.updateSoftwareVersion ≠ i.softwareVersion)
    (huci : ∀ site, i.uci site = true) :
    Ends (fun t => Sound t ∧ t.vars = s.vars ∧ t.store.configUpdates = s.store.configUpdates)
      (fun _ => False) (checkVersion i s) := by
  simp only [checkVersion, huci, if_true, State.command]
  rw [if_pos hsome, if_pos hne]
  have haudit : audit (s.log .mismatch).events = { audit s.events with failed := true } :=
    audit_append _ _
  refine ⟨⟨?_, fun hnone => absurd hnone Bool.false_ne_true, fun _ c hmem => ?_⟩, rfl, rfl⟩
  · exact (congrArg Audit.ok haudit).trans h.ok
  · have hmem' : c ∈ (audit s.events).attempt := by
      rw [show audit _ = _ from haudit] at hmem
      exact hmem
    exact h.committed (.inl (hpending ▸ hsome)) c hmem'

theorem iteration_sound (h : Sound s) (hi : Cautious s i) : Sound (iteration noaction s i) := by
  refine iteration_of_body h fun _ => ?_
  have huci := hi.uci
  have hstart : Sound (s.start i) := by
    rw [State.start]
    split
    · exact h.gone
    · exact h
  unfold body
  refine Ends.bind (prepare_ends.mono (fun _ ht => ht) fun t ht => hstart.left ht) fun t₁ h₁ => ?_
  obtain ⟨hquiet₁, hstore₁, -, hreason₁, hready⟩ := h₁
  have hsound := hstart.left hquiet₁.left
  refine Ends.bind (readUuid_ends.mono (fun _ ht => ht) fun t ht => hsound.left ht) fun t₂ h₂ => ?_
  obtain ⟨hquiet₂, -, hreason₂, huuid⟩ := h₂
  have hquiet := hquiet₁.trans hquiet₂
  have hsound : Sound (readOptions i t₂) := (hsound.left hquiet₂.left).congr rfl rfl rfl
  have hpending : (readOptions i t₂).vars.actionSequencePending =
      s.store.actionSequencePending := by
    simp only [readOptions, huci, if_true]
    rw [hquiet.pending, start_store]
  have hversion : (readOptions i t₂).vars.updateSoftwareVersion = s.store.expectedVersion := by
    simp only [readOptions, huci, if_true]
    rw [hquiet.expectedVersion, start_store]
  by_cases hmismatch : s.store.actionSequencePending.isSome = true ∧
      s.store.expectedVersion ≠ i.softwareVersion
  · -- the iteration leaves at the configuration or at the UUID
    have hends := hi.mismatch hready hmismatch.1 hmismatch.2
    refine Ends.bind ((checkVersion_mismatch hsound ?_ ?_ ?_ huci).mono (fun _ ht => ht)
      fun _ ht => ht.elim) fun t₃ h₃ => ?_
    · simp only [readOptions, huci, if_true]
    · rw [hpending]
      exact hmismatch.1
    · rw [hversion]
      exact hmismatch.2
    obtain ⟨hsound, hvars, hconfig⟩ := h₃
    refine Ends.bind (pendingUpdates_mismatch hsound ?_ ?_) fun t₄ h₄ => ?_
    · rw [hvars, hpending]
      exact hmismatch.1
    · rw [hvars, hconfig]
      rcases hends with hconf | hno
      · refine .inl ⟨?_, ?_⟩
        · show t₂.store.configUpdates = true
          rw [hquiet.configUpdates, start_store]
          exact hconf.1
        · simp only [readOptions, huci, if_true]
          rw [hreason₂, hreason₁]
          exact hconf.2
      · refine .inr ⟨(huuid huci).mpr ?_, hno.2⟩
        rw [hstore₁, start_store]
        exact hno.1
    obtain ⟨hsound, hempty, hnew⟩ := h₄
    have hsound : Sound (selectSequence i t₄) := hsound.congr rfl rfl rfl
    refine Ends.bind (fetchUuid_ends.mono (fun _ ht => ht) fun t ht => hsound.left ht)
      fun t₅ h₅ => ?_
    obtain ⟨-, -, -, -, -, hfetched⟩ := h₅
    exact absurd hnew (hfetched hempty)
  · have hconsistent : Consistent i (readOptions i t₂) := by
      apply readOptions_consistent huci
      rw [hquiet.pending, hquiet.expectedVersion, start_store]
      intro hsome
      by_contra hne
      exact hmismatch ⟨hsome, hne⟩
    refine Ends.bind ((checkVersion_consistent hconsistent huci).mono (fun _ ht => ht)
      fun _ ht => ht.elim) fun t₃ h₃ => ?_
    obtain ⟨hconsistent, -, hevents, hstore⟩ := h₃
    have hsound : Sound t₃ := by
      apply hsound.congr (congrArg audit hevents)
      · rw [hstore]
      · rw [hstore]
    refine Ends.bind (pendingUpdates_sound hsound hconsistent huci) fun t₄ h₄ => ?_
    obtain ⟨hsound, hconsistent⟩ := h₄
    have hsequence := hconsistent.selectSequence huci
    have hconsistent : Consistent i (selectSequence i t₄) :=
      ⟨hconsistent.pending, hconsistent.version⟩
    have hsound : Sound (selectSequence i t₄) := hsound.congr rfl rfl rfl
    refine Ends.bind (fetchUuid_ends.mono (fun _ ht => ht) fun t ht => hsound.left ht)
      fun t₅ h₅ => ?_
    obtain ⟨hquiet₅, hpending₅, hversion₅, -⟩ := h₅
    have hquiet₅ := hquiet₅.trans chooseUuid_quiet
    have hconsistent := hconsistent.quiet hquiet₅ (chooseUuid_pending.trans hpending₅)
      (chooseUuid_version.trans hversion₅)
    refine Ends.bind (report_quiet.mono (fun _ ht => ht) fun t ht =>
      hsound.left (hquiet₅.trans_left ht)) fun t₅' h₅' => ?_
    obtain ⟨hquiet₅', hpending₅', hversion₅', -⟩ := h₅'
    have hconsistent := hconsistent.quiet hquiet₅' hpending₅' hversion₅'
    have hquiet₅ := hquiet₅.trans hquiet₅'
    refine Ends.bind (poll_sound (hsound.left hquiet₅.left) hconsistent huci ?_) fun t₆ h₆ => ?_
    · rw [hquiet₅.sequence, hsequence, hquiet₅.pending, State.sequence, State.sequence,
        hquiet₅.actionSequence]
      rfl
    refine Ends.bind (handleOutput_confirming h₆) fun t₇ h₇ => ?_
    refine Ends.bind ((commitPoll_sound h₇ huci).mono (fun _ ht => ht) fun _ ht => ht.elim)
      fun t₈ h₈ => ?_
    have hsound : Sound (cycle t₈) := h₈.congr rfl rfl rfl
    exact Ends.bind (runSoftwareUpdate_sound hsound huci) fun t₉ h₉ => runConfigUpdate_sound h₉

theorem started_sound (store : Store) : Sound (started store) :=
  ⟨rfl, fun _ => rfl, fun _ _ => nofun⟩

/-- In every run whose iterations end early after a mismatch no failed upgrade is
confirmed. -/
theorem failures_unconfirmed {store : Store} {inputs : List Input}
    (hinputs : Meets (iteration noaction) Cautious (started store) inputs) :
    FailuresUnconfirmed (run noaction (started store) inputs) :=
  (hinputs.invariant (started_sound store) fun _ _ hs hi => iteration_sound hs hi).ok

/-- A device whose upgrade to version 2 did not work. -/
def notUpgraded : Store :=
  { registered with
    actionSequencePending := some 6
    expectedVersion := "2"
    softwareUpdates := true }

/-- The mismatch is found while a configuration has to wait, and the upgrade is tried
again in the next iteration. -/
theorem failures_unconfirmed_waiting :
    Event.mismatch ∈
        (run false (started { notUpgraded with configUpdates := true })
          [{ answered "on" .empty with autoConfig := "off" }, answered "on" .empty]).events ∧
      FailuresUnconfirmed
        (run false (started { notUpgraded with configUpdates := true })
          [{ answered "on" .empty with autoConfig := "off" }, answered "on" .empty]) := by
  refine ⟨by decide, failures_unconfirmed ⟨⟨fun _ => rfl, fun _ _ _ => ?_⟩, ⟨fun _ => rfl, ?_⟩,
    trivial⟩⟩
  · exact .inl ⟨rfl, .inl ⟨by decide, by decide⟩⟩
  · intro _ hsome
    exact absurd hsome (by decide)

/-- The failed upgrade is reported with its pending sequence and stored. -/
theorem failure_confirmed :
    Event.poll 6 (some false) true ∈
        (run false (started notUpgraded) [answered "on" .empty]).events ∧
      (run false (started notUpgraded) [answered "on" .empty]).store.actionSequence = some 6 ∧
      ¬ FailuresUnconfirmed (run false (started notUpgraded) [answered "on" .empty]) := by
  decide

end Speedway.Cloud
