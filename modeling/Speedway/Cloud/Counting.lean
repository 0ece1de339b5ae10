import Speedway.Cloud.Stages

/-!
# Counting actions

The sequence is kept in a shell variable, in `action_sequence` and, during an
upgrade, in `action_sequence_pending`. What may be said about the sequences that
are reported is a rule about the log; an iteration that is regular keeps every
such rule.
-/

namespace Speedway.Cloud

open Speedway.Lib

/-- The event is no answered poll and no action. -/
def Event.silent : Event → Bool
  | .poll _ _ true | .applied _ | .configApplied => false
  | _ => true

/-- A rule about the log: `Next` are the sequences that may be reported, `Raised` those
that may confirm an upgrade. -/
structure SequenceRule where
  Ok : List Event → Prop
  Next : List Event → Nat → Prop
  Raised : List Event → Nat → Prop
  ok_silent : ∀ {events e}, e.silent = true → Ok events → Ok (events ++ [e])
  next_silent : ∀ {events e v}, e.silent = true → Next events v → Next (events ++ [e]) v
  raised_silent : ∀ {events e p}, e.silent = true → Raised events p → Raised (events ++ [e]) p
  raise : ∀ {events v}, Next events v → Raised events (v + 1)
  ok_config : ∀ {events}, Ok events → Ok (events ++ [.configApplied])
  next_config : ∀ {events v}, Next events v → Next (events ++ [.configApplied]) (v + 1)
  raised_config : ∀ {events p}, Raised events p → Raised (events ++ [.configApplied]) p
  ok_poll : ∀ {events v c}, Ok events → (Next events v ∨ c = some true ∧ Raised events v) →
    Ok (events ++ [.poll v c true])
  next_poll : ∀ {events v c}, (Next events v ∨ c = some true ∧ Raised events v) →
    Next (events ++ [.poll v c true]) v
  raised_poll : ∀ {events v c}, (Next events v ∨ c = some true ∧ Raised events v) →
    Raised (events ++ [.poll v c true]) v
  ok_applied : ∀ {events v c a}, Ok events → (Next events v ∨ c = some true ∧ Raised events v) →
    Ok (events ++ [.poll v c true] ++ [.applied a])
  next_applied : ∀ {events v c a}, (Next events v ∨ c = some true ∧ Raised events v) →
    Next (events ++ [.poll v c true] ++ [.applied a]) (v + 1)

/-- The invariant between iterations: the sequence that is reported next keeps the rule,
and the shell variable agrees with the stored sequence. -/
structure Counted (R : SequenceRule) (s : State) : Prop where
  ok : R.Ok s.events
  stored : s.store.actionSequencePending = none → R.Next s.events s.sequence
  shell : s.store.actionSequencePending = none →
    s.vars.actionSequence = none ∨ s.vars.actionSequence = some s.sequence
  pending : ∀ p ∈ s.store.actionSequencePending, R.Raised s.events p

variable {R : SequenceRule} {noaction late : Bool} {i : Input} {s t : State}

theorem Counted.left (h : Counted R s) (ht : Left s t) : Counted R t := by
  have hsequence : t.sequence = s.sequence := congrArg (Option.getD · 0) ht.actionSequence
  refine ⟨?_, ?_, fun hnone => ?_, ?_⟩
  · rw [ht.events]
    exact h.ok
  · rw [ht.pending, ht.events, hsequence]
    exact h.stored
  · rw [ht.pending] at hnone
    rcases ht.sequence with hgone | hsame
    · exact .inl hgone
    · rw [hsame, hsequence]
      exact h.shell hnone
  · rw [ht.pending, ht.events]
    exact h.pending

theorem Counted.log {e : Event} (h : Counted R s) (he : e.silent = true) :
    Counted R (s.log e) :=
  ⟨R.ok_silent he h.ok, fun hnone => R.next_silent he (h.stored hnone), h.shell,
    fun p hp => R.raised_silent he (h.pending p hp)⟩

theorem Counted.gone (h : Counted R s) : Counted R s.gone := h.left ⟨rfl, rfl, rfl, .inl rfl⟩

theorem Counted.start (h : Counted R s) : Counted R (s.start i) := by
  rw [State.start]
  split
  · exact h.gone
  · exact h

/-- Before an upgrade the next sequence is stored as pending. -/
theorem storePending_counted (late : Bool) (h : Counted R s)
    (hnone : s.store.actionSequencePending = none)
    (huci : ∀ site, i.uci site = true) : Counted R (storePending late i s) := by
  have hbase : (s.vars.actionSequence.or
      (if i.uci (.upgradeSequence late) then s.store.actionSequence else none)).getD 0 =
        s.sequence := by
    rw [huci, if_pos rfl]
    rcases h.shell hnone with hempty | hset
    · rw [hempty, Option.none_or]
      rfl
    · rw [hset]
      rfl
  refine ⟨R.ok_silent rfl h.ok, nofun, nofun, fun p hp => ?_⟩
  obtain rfl := Option.mem_some_iff.mp hp
  rw [hbase]
  exact R.raised_silent rfl (R.raise (h.stored hnone))

theorem performSoftwareUpdate_counted (h : Counted R s)
    (hnone : s.store.actionSequencePending = none) (huci : ∀ site, i.uci site = true) :
    Ends (fun t => Counted R t ∧ t.vars.actionSequence = s.vars.actionSequence ∧
        t.store.actionSequence = s.store.actionSequence)
      (Counted R) (performSoftwareUpdate noaction late i s) := by
  have hstore := storePending_counted late h hnone huci
  have hcheck : Counted R (runUpdateCheck late i (storePending late i s)) :=
    ⟨R.ok_silent rfl hstore.ok, nofun, nofun, fun p hp => R.raised_silent rfl (hstore.pending p hp)⟩
  have hroll : Counted R (rollBack late i (runUpdateCheck late i (storePending late i s))) := by
    rw [rollBack, huci, if_pos rfl]
    refine ⟨hcheck.ok, fun _ => ?_, fun _ => h.shell hnone, nofun⟩
    exact R.next_silent rfl (R.next_silent rfl (h.stored hnone))
  refine performSoftwareUpdate_ends (fun _ => ⟨h, rfl, rfl⟩) h.gone hstore.gone
    ⟨⟨hcheck, rfl, rfl⟩, hcheck.gone⟩ ⟨⟨hroll, ?_, ?_⟩, hroll.gone⟩
  · rw [rollBack, huci, if_pos rfl]
    rfl
  · rw [rollBack, huci, if_pos rfl]
    rfl

/-- A configuration is counted from the shell variable. -/
theorem applyConfig_counted (h : Counted R s) (huci : ∀ site, i.uci site = true)
    (hshell : s.store.actionSequencePending = none →
      s.vars.actionSequence.getD 0 = s.sequence) :
    Counted R (applyConfig late i s) := by
  have happly : applyConfig late i s =
      { (s.log .configApplied).log (.commit (s.vars.actionSequence.getD 0 + 1) none) with
        vars := { s.vars with actionSequence := some (s.vars.actionSequence.getD 0 + 1) }
        store := { s.store with
          actionSequence := some (s.vars.actionSequence.getD 0 + 1)
          configUpdates := false } } := by
    simp only [applyConfig, huci, if_true]
    rfl
  rw [happly]
  refine ⟨R.ok_silent rfl (R.ok_config h.ok), fun hnone => ?_, fun hnone => .inr rfl,
    fun p hp => R.raised_silent rfl (R.raised_config (h.pending p hp))⟩
  have hnext := h.stored hnone
  rw [← hshell hnone] at hnext
  exact R.next_silent rfl (R.next_config hnext)

/-- The iteration applies a configuration that an earlier one stored. -/
structure AppliesConfig (s : State) (i : Input) : Prop where
  software : s.store.softwareUpdates = false
  config : s.store.configUpdates = true
  allowed : i.autoConfig = "on" ∨ reasonOf i (s.start i) = "config"
  json : i.jsonToUci false = true

/-- What may happen in an iteration for the sequence to advance. -/
structure Regular (s : State) (i : Input) : Prop where
  /-- `uci` does its work. -/
  uci : ∀ site, i.uci site = true
  /-- A configuration is not applied before the sequence was read. -/
  config : Ready i → s.store.actionSequencePending = none → AppliesConfig s i →
    (s.start i).vars.actionSequence = none → s.sequence = 0
  /-- The version after an upgrade is the expected one. -/
  version : Ready i → s.store.actionSequencePending.isSome = true →
    s.store.expectedVersion = i.softwareVersion
  /-- The answer to the poll that confirms an upgrade is handled. -/
  handled : Ready i → s.store.actionSequencePending.isSome = true →
    ∀ response ∈ i.response, response.handled i.commandOk = true

/-- The same inside an iteration, up to the choice of the sequence. -/
structure Reading (R : SequenceRule) (i : Input) (s : State) : Prop extends Consistent i s where
  counted : Counted R s

theorem pendingUpdates_reading (h : Reading R i s) (huci : ∀ site, i.uci site = true)
    (hshell : s.store.actionSequencePending = none → s.store.softwareUpdates = false →
      s.store.configUpdates = true → (s.vars.autoConfig = "on" ∨ s.vars.wakeupReason = "config") →
      i.jsonToUci false = true → s.vars.actionSequence.getD 0 = s.sequence) :
    Ends (fun t => Reading R i t ∧ t.vars.actionSequencePending = s.vars.actionSequencePending)
      (Counted R) (pendingUpdates noaction i s) := by
  simp only [pendingUpdates]
  split
  next hupgrade =>
    split
    · exact h.counted
    · have hnone : s.store.actionSequencePending = none := by
        rw [← h.pending]
        simpa using hupgrade.1
      exact Ends.bind (performSoftwareUpdate_counted h.counted hnone huci) fun t ht => ht.1
  next hno =>
    split
    next hconfig =>
      split
      · exact h.counted
      next hallowed =>
        simp only [performConfigUpdate]
        by_cases hjson : i.jsonToUci false = true
        · rw [if_pos hjson]
          have hcounted : Counted R (applyConfig false i s) := by
            apply applyConfig_counted h.counted huci
            intro hnone
            apply hshell hnone _ hconfig _ hjson
            · by_contra hsoftware
              exact hno ⟨by rw [h.pending, hnone]; rfl, by simpa using hsoftware⟩
            · by_contra hnot
              push Not at hnot
              exact hallowed hnot
          exact ⟨⟨h.applyConfig, hcounted.left ⟨rfl, rfl, rfl, .inr rfl⟩⟩, applyConfig_pending⟩
        · rw [if_neg hjson]
          exact h.counted.left ⟨rfl, rfl, rfl, .inr rfl⟩
    · exact ⟨h, rfl⟩

/-- The sequence chosen for the poll. -/
structure Chosen (R : SequenceRule) (i : Input) (s : State) : Prop extends Reading R i s where
  sequence : s.vars.actionSequence = some (s.store.actionSequencePending.getD s.sequence)

theorem selectSequence_chosen (h : Reading R i s) (huci : ∀ site, i.uci site = true) :
    Chosen R i (selectSequence i s) := by
  have hsequence := h.selectSequence huci
  refine ⟨⟨⟨h.pending, h.version⟩, h.counted.ok, h.counted.stored, fun hnone => .inr ?_,
    h.counted.pending⟩, hsequence⟩
  have hnone' : s.store.actionSequencePending = none := hnone
  rw [hsequence, hnone']
  rfl

theorem Chosen.quiet (h : Chosen R i s) (ht : Quiet s t)
    (hpending : t.vars.actionSequencePending = s.vars.actionSequencePending)
    (hversion : t.vars.updateSoftwareVersion = s.vars.updateSoftwareVersion) : Chosen R i t := by
  refine ⟨⟨h.toConsistent.quiet ht hpending hversion, h.counted.left ht.left⟩, ?_⟩
  rw [ht.sequence, h.sequence, ht.pending, State.sequence, State.sequence, ht.actionSequence]

/-- The poll was answered: `v` is known to the cloud. -/
structure Reported (R : SequenceRule) (v : Nat) (s : State) : Prop where
  logged : ∃ events c, s.events = events ++ [.poll v c true] ∧ R.Ok events ∧
    (R.Next events v ∨ c = some true ∧ R.Raised events v)
  sequence : s.vars.actionSequence = some v
  settled : s.store.actionSequencePending = none
  stored : s.vars.actionSequencePending = none → s.sequence = v
  commit : s.vars.actionSequencePending.isSome = true → s.vars.commit = true

/-- The sequence that is reported keeps the rule. -/
theorem Chosen.reportable (h : Chosen R i s) :
    R.Next s.events (s.vars.actionSequence.getD 0) ∨
      confirms i s = some true ∧ R.Raised s.events (s.vars.actionSequence.getD 0) := by
  rw [h.sequence, h.confirms_eq]
  cases hpending : s.store.actionSequencePending with
  | none => exact .inl (h.counted.stored hpending)
  | some p => exact .inr ⟨rfl, h.counted.pending p hpending⟩

theorem poll_reported (noaction : Bool) (h : Chosen R i s) (huci : ∀ site, i.uci site = true) :
    Ends (fun t => i.response = some t.1 ∧
        t.2.vars.actionSequencePending = s.vars.actionSequencePending ∧
        Reported R (s.vars.actionSequence.getD 0) t.2)
      (Counted R) (poll noaction i s) := by
  have hsequence : s.vars.actionSequence = some (s.vars.actionSequence.getD 0) := by
    rw [h.sequence]
    rfl
  have hreportable := h.reportable
  rw [poll]
  cases hresponse : i.response with
  | none => exact h.counted.log rfl
  | some response =>
      simp only [Option.isSome_some, huci, if_true]
      split
      · -- the state before a factory reset
        refine ⟨R.ok_poll h.counted.ok hreportable, fun hnone => ?_, h.counted.shell,
          fun p hp => ?_⟩
        · have hnext := R.next_poll hreportable
          have hnone' : s.store.actionSequencePending = none := hnone
          have hvalue : s.vars.actionSequence.getD 0 = s.sequence := by
            rw [h.sequence, hnone']
            rfl
          rw [hvalue] at hnext ⊢
          exact hnext
        · have hraised := R.raised_poll hreportable
          have hp' : s.store.actionSequencePending = some p := hp
          have hvalue : s.vars.actionSequence.getD 0 = p := by
            rw [h.sequence, hp']
            rfl
          rw [hvalue] at hraised ⊢
          exact hraised
      · have hlogged : ∃ events c, s.events ++
            [.poll (s.vars.actionSequence.getD 0) (confirms i s) true] =
            events ++ [.poll (s.vars.actionSequence.getD 0) c true] ∧ R.Ok events ∧
            (R.Next events (s.vars.actionSequence.getD 0) ∨
              c = some true ∧ R.Raised events (s.vars.actionSequence.getD 0)) :=
          ⟨s.events, confirms i s, rfl, h.counted.ok, hreportable⟩
        split
        next hsome =>
          exact ⟨rfl, rfl, hlogged, hsequence, rfl,
            fun hnone => absurd hnone (Option.isSome_iff_ne_none.mp hsome), fun _ => rfl⟩
        next hnone =>
          have hvars : s.vars.actionSequencePending = none :=
            Option.not_isSome_iff_eq_none.mp hnone
          have hstore : s.store.actionSequencePending = none := h.pending ▸ hvars
          refine ⟨rfl, rfl, hlogged, hsequence, hstore, fun _ => ?_,
            fun hsome => absurd hsome hnone⟩
          rw [h.sequence, hstore]
          rfl

/-- The answer was handled: the shell variable is the sequence to store. -/
structure Settling (R : SequenceRule) (s : State) (w : Nat) : Prop where
  ok : R.Ok s.events
  next : R.Next s.events w
  sequence : s.vars.actionSequence = some w
  settled : s.store.actionSequencePending = none
  stored : s.vars.commit = true ∨ s.sequence = w

theorem handleOutput_settling {v : Nat} {response : Response} (h : Reported R v s)
    (hrefused : response.handled i.commandOk = false → s.vars.actionSequencePending = none) :
    Ends (fun t => ∃ w, Settling R t w) (Counted R) (handleOutput i s response) := by
  have hstored : s.vars.commit = true ∨ s.sequence = v := by
    cases hpending : s.vars.actionSequencePending with
    | none => exact .inr (h.stored hpending)
    | some p => exact .inl (h.commit (hpending ▸ rfl))
  obtain ⟨events, c, hevents, hok, hreportable⟩ := h.logged
  have hok' : R.Ok s.events := hevents ▸ R.ok_poll hok hreportable
  have hnext : R.Next s.events v := hevents ▸ R.next_poll hreportable
  apply handleOutput_ends
  · exact fun _ => ⟨v, hok', hnext, h.sequence, h.settled, hstored⟩
  · intro hrefuse flags
    have hsame := h.stored (hrefused hrefuse)
    refine ⟨hok', fun _ => ?_, fun _ => .inr ?_, fun p hp => ?_⟩
    · show R.Next s.events s.sequence
      rw [hsame]
      exact hnext
    · exact h.sequence.trans (congrArg some hsame.symm)
    · rw [show (s.withFlags flags).store.actionSequencePending = none from h.settled] at hp
      exact nomatch hp
  · exact fun _ _ => ⟨v, hok', hnext, h.sequence, h.settled, hstored⟩
  · exact fun _ _ => ⟨v, hok', hnext, h.sequence, h.settled, hstored⟩
  · intro a flags _ _
    refine ⟨v + 1, ?_, ?_, ?_, h.settled, .inl rfl⟩
    · show R.Ok (s.events ++ [.applied a])
      rw [hevents]
      exact R.ok_applied hok hreportable
    · show R.Next (s.events ++ [.applied a]) (v + 1)
      rw [hevents]
      exact R.next_applied hreportable
    · show some (s.vars.actionSequence.getD 0 + 1) = some (v + 1)
      rw [h.sequence]
      rfl

/-- At the end of an iteration all copies agree. -/
structure Stored (R : SequenceRule) (s : State) : Prop where
  counted : Counted R s
  settled : s.store.actionSequencePending = none
  sequence : s.vars.actionSequence = some s.sequence

theorem Settling.store {w : Nat} (h : Settling R s w) (hw : s.sequence = w) : Stored R s := by
  subst hw
  refine ⟨⟨h.ok, fun _ => h.next, fun _ => .inr h.sequence, fun p hp => ?_⟩, h.settled, h.sequence⟩
  rw [h.settled] at hp
  exact nomatch hp

theorem commitPoll_stored {w : Nat} (h : Settling R s w) (huci : ∀ site, i.uci site = true) :
    Ends (Stored R) (fun _ => False) (commitPoll i s) := by
  simp only [commitPoll, huci, if_true, h.sequence, State.command]
  split
  · apply Settling.store (w := w) _ rfl
    exact ⟨R.ok_silent rfl h.ok, R.next_silent rfl h.next, h.sequence, h.settled, .inr rfl⟩
  next hcommit => exact h.store (h.stored.resolve_left hcommit)

theorem runSoftwareUpdate_counted (h : Stored R s) (huci : ∀ site, i.uci site = true) :
    Ends (fun t => Counted R t ∧ t.vars.actionSequence.getD 0 = t.sequence) (Counted R)
      (runSoftwareUpdate noaction i s) := by
  rw [runSoftwareUpdate]
  split
  · apply (performSoftwareUpdate_counted h.counted h.settled huci).mono _ fun _ ht => ht
    rintro t ⟨hcounted, hshell, hstore⟩
    refine ⟨hcounted, ?_⟩
    rw [hshell, h.sequence, State.sequence, State.sequence, hstore]
    rfl
  · refine ⟨h.counted, ?_⟩
    rw [h.sequence]
    rfl

theorem runConfigUpdate_counted (h : Counted R s) (huci : ∀ site, i.uci site = true)
    (hshell : s.vars.actionSequence.getD 0 = s.sequence) : Counted R (runConfigUpdate i s) := by
  simp only [runConfigUpdate, performConfigUpdate]
  split
  · by_cases hjson : i.jsonToUci true = true
    · rw [if_pos hjson]
      exact (applyConfig_counted h huci fun _ => hshell).left ⟨rfl, rfl, rfl, .inr rfl⟩
    · rw [if_neg hjson]
      exact h.left ⟨rfl, rfl, rfl, .inr rfl⟩
  · exact h

/-- Up to the poll the rule is kept, and the sequence to report is chosen. -/
theorem beforePoll_chosen (noaction : Bool) (h : Counted R s) (hi : Regular s i) :
    Ends (fun t => Ready i ∧ Chosen R i t ∧
        t.vars.actionSequencePending = s.store.actionSequencePending)
      (Counted R) (beforePoll noaction i (s.start i)) := by
  have hstart : Counted R (s.start i) := h.start
  have huci := hi.uci
  unfold beforePoll
  refine Ends.bind (prepare_ends.mono (fun _ ht => ht) fun t ht => hstart.left ht) fun t₁ h₁ => ?_
  obtain ⟨hquiet₁, -, -, hreason₁, hready⟩ := h₁
  have hcounted := hstart.left hquiet₁.left
  refine Ends.bind (readUuid_ends.mono (fun _ ht => ht) fun t ht => hcounted.left ht)
    fun t₂ h₂ => ?_
  obtain ⟨hquiet₂, -, hreason₂, -⟩ := h₂
  have hquiet := hquiet₁.trans hquiet₂
  have hcounted := (hcounted.left hquiet₂.left).left (t := readOptions i t₂)
    ⟨rfl, rfl, rfl, .inr rfl⟩
  have hpending : (readOptions i t₂).vars.actionSequencePending =
      s.store.actionSequencePending := by
    simp only [readOptions, huci, if_true]
    rw [hquiet.pending, start_store]
  have hconsistent : Consistent i (readOptions i t₂) := by
    apply readOptions_consistent huci
    rw [hquiet.pending, hquiet.expectedVersion, start_store]
    exact hi.version hready
  refine Ends.bind ((checkVersion_consistent hconsistent huci).mono (fun _ ht => ht)
    fun _ ht => ht.elim) fun t₃ h₃ => ?_
  obtain ⟨hconsistent, hvars, hevents, hstore⟩ := h₃
  have hreading : Reading R i t₃ := by
    refine ⟨hconsistent, hcounted.left ⟨hevents, ?_, ?_, .inr ?_⟩⟩
    · rw [hstore]
    · rw [hstore]
    · rw [hvars]
  have hsequence : t₃.sequence = s.sequence := by
    rw [State.sequence, hstore]
    show t₂.store.actionSequence.getD 0 = _
    rw [hquiet.actionSequence, start_store]
    rfl
  refine Ends.bind (pendingUpdates_reading hreading huci ?_) fun t₄ h₄ => ?_
  · -- the variable is the stored sequence unless the script has just started
    intro hnone hsoftware hconfig hallowed hjson
    rcases hreading.counted.shell hnone with hempty | hset
    · rw [hempty, hsequence]
      refine (hi.config hready ?_ ⟨?_, ?_, ?_, hjson⟩ ?_).symm
      · rw [← hpending, ← hvars, hreading.pending]
        exact hnone
      · rw [hstore] at hsoftware
        rw [← hsoftware, ← start_store (i := i), ← hquiet.softwareUpdates]
        rfl
      · rw [hstore] at hconfig
        rw [← hconfig, ← start_store (i := i), ← hquiet.configUpdates]
        rfl
      · rw [hvars] at hallowed
        simp only [readOptions, huci, if_true] at hallowed
        rwa [hreason₂, hreason₁] at hallowed
      · rw [hvars] at hempty
        rw [← hquiet.sequence]
        exact hempty
    · rw [hset]
      rfl
  obtain ⟨hreading, hpending₄⟩ := h₄
  have hchosen := selectSequence_chosen hreading huci
  refine Ends.bind (fetchUuid_ends.mono (fun _ ht => ht) fun t ht => hchosen.counted.left ht)
    fun t₅ h₅ => ?_
  obtain ⟨hquiet₅, hpending₅, hversion₅, -⟩ := h₅
  have hchosen := (hchosen.quiet hquiet₅ hpending₅ hversion₅).quiet chooseUuid_quiet
    chooseUuid_pending chooseUuid_version
  apply report_quiet.mono _ fun t ht => hchosen.counted.left ht
  rintro t₆ ⟨hquiet₆, hpending₆, hversion₆, -⟩
  refine ⟨hready, hchosen.quiet hquiet₆ hpending₆ hversion₆, ?_⟩
  calc t₆.vars.actionSequencePending
      = t₅.vars.actionSequencePending := hpending₆.trans chooseUuid_pending
    _ = t₄.vars.actionSequencePending := hpending₅
    _ = (readOptions i t₂).vars.actionSequencePending := hpending₄.trans (by rw [hvars])
    _ = s.store.actionSequencePending := hpending

theorem afterPoll_counted {v : Nat} {response : Response} (h : Reported R v s)
    (huci : ∀ site, i.uci site = true)
    (hrefused : response.handled i.commandOk = false → s.vars.actionSequencePending = none) :
    Ends (Counted R) (Counted R) (afterPoll noaction i (response, s)) := by
  refine Ends.bind (handleOutput_settling h hrefused) ?_
  rintro t ⟨w, hsettling⟩
  refine Ends.bind ((commitPoll_stored hsettling huci).mono (fun _ ht => ht) fun _ ht => ht.elim) ?_
  intro t ht
  have hstored : Stored R (cycle t) :=
    ⟨ht.counted.left ⟨rfl, rfl, rfl, .inr rfl⟩, ht.settled, ht.sequence⟩
  refine Ends.bind (runSoftwareUpdate_counted hstored huci) ?_
  rintro t ⟨hcounted, hshell⟩
  exact runConfigUpdate_counted hcounted huci hshell

theorem iteration_counted (h : Counted R s) (hi : Regular s i) :
    Counted R (iteration noaction s i) := by
  refine iteration_of_body h fun _ => ?_
  rw [body_eq]
  refine Ends.bind (beforePoll_chosen noaction h hi) ?_
  rintro t ⟨hready, hchosen, hpending⟩
  refine Ends.bind (poll_reported noaction hchosen hi.uci) ?_
  rintro ⟨response, u⟩ ⟨hresponse, hsame, hreported⟩
  apply afterPoll_counted hreported hi.uci
  intro hrefused
  by_contra hsome
  rw [hsame, hpending] at hsome
  have hhandled := hi.handled hready (Option.isSome_iff_ne_none.mpr hsome) response hresponse
  rw [hrefused] at hhandled
  exact nomatch hhandled

theorem started_counted {store : Store} (hok : R.Ok []) (hnext : ∀ v, R.Next [] v)
    (hraised : ∀ p, R.Raised [] p) : Counted R (started store) :=
  ⟨hok, fun _ => hnext _, fun _ => .inl rfl, fun p _ => hraised p⟩

end Speedway.Cloud
