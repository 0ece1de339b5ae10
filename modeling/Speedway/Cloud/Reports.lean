import Speedway.Cloud.Frame

/-!
# What a poll reports

A poll carries the full configuration, or the modem status, or neither. The modem
status has a timer, which the script sets with every poll that was not asked for
the status at once. The configuration has a file and a saved hash, which are written
with the poll that finds no saved hash, and not again.
-/

namespace Speedway.Cloud

open Speedway.Lib

variable {noaction : Bool} {i : Input} {s t : State} {period : Int}

def Content.isFull : Content → Bool
  | .fullConfig _ => true
  | _ => false

/-- The cloud asked for the configuration, or `config_report` is on. -/
def Asked (i : Input) (s : State) : Prop :=
  s.vars.flags.reportFullConfig = true ∨ i.reportsConfig = true

/-- What the poll carries, by the state before the choice. -/
def Carries (i : Input) (s : State) : Content → Prop
  | .fullConfig config =>
      s.store.sha256config = none ∧ config = i.config ∨
        s.store.sha256config.isSome = true ∧ Asked i s ∧ s.allConfig = some config
  | .modemStatus => s.store.sha256config.isSome = true ∧ ¬ Asked i s ∧ (modemReport i s).1 = true
  | .plain => s.store.sha256config.isSome = true ∧ ¬ Asked i s ∧ (modemReport i s).1 = false

/-- The timer has nothing to do with the configuration. -/
theorem modemReport_config :
    (modemReport i s).2.store.sha256config = s.store.sha256config ∧
      (modemReport i s).2.allConfig = s.allConfig ∧
      (modemReport i s).2.reports = s.reports ∧
      (modemReport i s).2.vars.flags.reportFullConfig = s.vars.flags.reportFullConfig := by
  simp only [modemReport]
  repeat' split
  all_goals exact ⟨rfl, rfl, rfl, rfl⟩

/-- A report was made: it is logged with what the poll carries, and the file and the hash are
written if no hash was saved. -/
structure ReportMade (i : Input) (s t : State) : Prop where
  last : t.vars.modemReportLast = (modemReport i s).2.vars.modemReportLast
  logged : ∃ content, Carries i s content ∧
    t.reports = s.reports ++ [.report (newReport i s content)]
  hash : t.store.sha256config = some (s.store.sha256config.getD i.configHash)
  file : t.allConfig = if s.store.sha256config.isNone then some i.config else s.allConfig

/-- The script ended because there was no file. -/
structure ReportFailed (s t : State) : Prop where
  last : t.vars.modemReportLast = none
  reports : t.reports = s.reports
  hash : t.store.sha256config = s.store.sha256config
  file : t.allConfig = s.allConfig

theorem report_logs : Ends (ReportMade i s) (ReportFailed s) (report i s) := by
  obtain ⟨hsha, hall, hreports, hflag⟩ := modemReport_config (i := i) (s := s)
  simp only [report, configReport, hsha]
  cases hsaved : s.store.sha256config with
  | none =>
      simp only [Option.isNone_none, if_true, State.report, hreports]
      refine ⟨rfl, ⟨.fullConfig i.config, .inl ⟨hsaved, rfl⟩, rfl⟩, ?_, ?_⟩
      · rw [hsaved]
        rfl
      · rw [hsaved]
        rfl
  | some hash =>
      have hsome : s.store.sha256config.isSome = true := hsaved ▸ rfl
      have hhash : s.store.sha256config = some (s.store.sha256config.getD i.configHash) := by
        rw [hsaved, Option.getD_some]
      have hfile : s.allConfig =
          if s.store.sha256config.isNone then some i.config else s.allConfig := by
        rw [hsaved, Option.isNone_some, if_neg Bool.false_ne_true]
      by_cases hasked : Asked i s
      · have hfull :
            ((modemReport i s).2.vars.flags.reportFullConfig || i.reportsConfig) = true := by
          rw [hflag]
          exact Bool.or_eq_true _ _ ▸ hasked
        simp only [Option.isNone_some, Bool.false_eq_true, if_false, hfull, if_true, hall]
        cases hconfig : s.allConfig with
        | none => exact ⟨rfl, hreports, hsha, hall⟩
        | some config =>
            refine ⟨rfl, ⟨.fullConfig config, .inr ⟨hsome, hasked, hconfig⟩, ?_⟩,
              hsha.trans hhash, hconfig.symm.trans hfile⟩
            simp only [State.report, hreports]
      · have hfull :
            ((modemReport i s).2.vars.flags.reportFullConfig || i.reportsConfig) = false := by
          rw [hflag, ← Bool.not_eq_true, Bool.or_eq_true]
          exact hasked
        simp only [Option.isNone_some, Bool.false_eq_true, if_false, hfull]
        cases hdue : (modemReport i s).1 with
        | true =>
            refine ⟨rfl, ⟨.modemStatus, ⟨hsome, hasked, hdue⟩, ?_⟩,
              hsha.trans hhash, hall.trans hfile⟩
            simp only [State.report, hreports]
        | false =>
            refine ⟨rfl, ⟨.plain, ⟨hsome, hasked, hdue⟩, ?_⟩, hsha.trans hhash, hall.trans hfile⟩
            simp only [State.report, hreports]

/-- From `s` to `t` the reports, their files and the timer are the same, or the timer is gone. -/
structure SameReports (s t : State) : Prop where
  last : t.vars.modemReportLast = none ∨ t.vars.modemReportLast = s.vars.modemReportLast
  reports : t.reports = s.reports
  hash : t.store.sha256config = s.store.sha256config
  file : t.allConfig = s.allConfig

theorem Frame.sameReports (h : Frame s t) : SameReports s t :=
  ⟨.inr h.modemReportLast, h.reports, h.sha256config, h.allConfig⟩

theorem ReportFailed.sameReports (h : ReportFailed s t) : SameReports s t :=
  ⟨.inl h.last, h.reports, h.hash, h.file⟩

theorem start_sameReports : SameReports s (s.start i) := by
  rw [State.start]
  split
  · exact ⟨.inl rfl, rfl, rfl, rfl⟩
  · exact ⟨.inr rfl, rfl, rfl, rfl⟩

/-- The rule for an iteration where the invariant is about the reports: the choice of the
report keeps it. -/
theorem iteration_reports {I A : State → Prop}
    (hI : ∀ {s t : State}, I s → SameReports s t → I t)
    (hA : ∀ {s t : State}, A s → Frame s t → A t) (hAI : ∀ {s : State}, A s → I s) (hs : I s)
    (hsetUp : A (setUp i (s.start i)))
    (hreport : ∀ t u, A t → Polls noaction s i t → ReportMade i t u → I u) :
    I (iteration noaction s i) := by
  have hframed : Framed I :=
    ⟨fun hs ht => hI hs ht.sameReports, fun hs => hI hs ⟨.inl rfl, rfl, rfl, rfl⟩⟩
  apply hframed.iteration hA hAI hs hsetUp (B := I) (C := I)
  · intro t ht hpolls
    apply report_logs.and_eq.mono
    · exact fun u hu => hreport t u ht (hpolls u hu.1) hu.2
    · exact fun u hu => hI (hAI ht) hu.sameReports
  · intro t ht
    apply poll_ends
    · exact fun _ => hI ht ⟨.inr rfl, rfl, rfl, rfl⟩
    · exact fun _ _ _ => hI ht ⟨.inr rfl, rfl, rfl, rfl⟩
    · exact fun _ _ _ _ _ _ hsha => hI ht ⟨.inr rfl, rfl, hsha, rfl⟩
  · intro t response ht
    apply handleOutput_ends
    · exact fun _ => ht
    · exact fun _ _ => hI ht ⟨.inr rfl, rfl, rfl, rfl⟩
    · exact fun _ _ => hI ht ⟨.inr rfl, rfl, rfl, rfl⟩
    · exact fun _ _ => hI ht ⟨.inr rfl, rfl, rfl, rfl⟩
    · exact fun _ _ _ _ => hI ht ⟨.inr rfl, rfl, rfl, rfl⟩

section ModemStatus

/-- The last poll that carried the modem status, the last poll that was not asked for it
at once, each or the start of the script, and whether the reports were on time. -/
structure Timer where
  carried : Int := 0
  polled : Int := 0
  ok : Bool := true

def Timer.note (period : Int) (l : Timer) : ReportEvent → Timer
  | .start time => { l with carried := time, polled := time }
  | .report r =>
      { carried := if r.content = .modemStatus then r.now else l.carried
        polled := if r.modemNow then l.polled else r.now
        ok := l.ok &&
          if period ≤ r.now - l.carried then decide (r.content = .modemStatus)
          else decide (r.content = .modemStatus → r.modemNow = true) }

def timer (period : Int) (reports : List ReportEvent) : Timer :=
  reports.foldl (Timer.note period) {}

/-- The poll has this period and does not carry the full configuration. -/
def ReportEvent.Periodic (period : Int) : ReportEvent → Prop
  | .start _ => True
  | .report r => r.period = some period ∧ r.content.isFull = false

instance (period : Int) : DecidablePred (ReportEvent.Periodic period)
  | .start _ => inferInstanceAs (Decidable True)
  | .report r => inferInstanceAs (Decidable (r.period = some period ∧ r.content.isFull = false))

/-- If the period is constant and no full configuration is reported, the modem status is
carried when it is due and, unless it was asked for at once, only then. -/
def ModemOnTime (period : Int) (s : State) : Prop :=
  (∀ e ∈ s.reports, e.Periodic period) → (timer period s.reports).ok = true

theorem timer_append (reports : List ReportEvent) (e : ReportEvent) :
    timer period (reports ++ [e]) = (timer period reports).note period e := by
  rw [timer, List.foldl_append]
  rfl

/-- The status is due by the last report exactly if it is due by the last poll. -/
def DueAlike (period : Int) (i : Input) (t : State) : Prop :=
  t.vars.flags.modemReportPeriod ≠ .now →
    (period ≤ i.now - (timer period t.reports).polled ↔
      period ≤ i.now - (timer period t.reports).carried)

/-- The condition of an iteration that makes a poll. -/
def SameDue (period : Int) (noaction : Bool) (s : State) (i : Input) : Prop :=
  ∀ t, Polls noaction s i t → DueAlike period i t

/-- The variable of the script is the time of the last poll. -/
structure Timed (period : Int) (s : State) : Prop where
  ok : (timer period s.reports).ok = true
  last : s.vars.modemReportLast = none ∨
    s.vars.modemReportLast = some (timer period s.reports).polled

/-- The same after the start of an iteration. -/
structure Due (period : Int) (s : State) : Prop where
  ok : (timer period s.reports).ok = true
  last : s.vars.modemReportLast = some (timer period s.reports).polled

theorem Due.timed (h : Due period s) : Timed period s := ⟨h.ok, .inr h.last⟩

theorem Due.frame (h : Due period s) (ht : Frame s t) : Due period t := by
  constructor
  · rw [ht.reports]
    exact h.ok
  · rw [ht.reports, ht.modemReportLast]
    exact h.last

theorem setUp_reports {e : ReportEvent} (he : e ∈ s.reports) : e ∈ (setUp i s).reports := by
  simp only [setUp]
  repeat' split
  all_goals first | exact he | exact List.mem_append_left _ he

theorem setUp_reports_report {r : Report} (hr : .report r ∈ (setUp i s).reports) :
    .report r ∈ s.reports := by
  simp only [setUp] at hr
  revert hr
  repeat' split
  all_goals intro hr
  all_goals simpa using hr

/-- The start of the script resets the timer; otherwise it is as it was. -/
theorem setUp_timed (h : Timed period s) : Due period (setUp i s) := by
  have hfiles {s : State} (h : Timed period s) :
      Timed period (if i.tmpLost then { s with allConfig := none } else s) := by
    split
    · exact ⟨h.ok, h.last⟩
    · exact h
  rw [setUp]
  generalize hs' : (if i.tmpLost then { s with allConfig := none } else s) = s'
  have h' : Timed period s' := hs' ▸ hfiles h
  simp only
  split
  · constructor
    · rw [timer_append]
      exact h'.ok
    · rw [timer_append]
      rfl
  next hsome => exact ⟨h'.ok, h'.last.resolve_left fun hnone => hsome (hnone ▸ rfl)⟩

theorem modemReport_now (h : s.vars.flags.modemReportPeriod = .now) :
    (modemReport i s).1 = true ∧
      (modemReport i s).2.vars.modemReportLast = s.vars.modemReportLast := by
  rw [modemReport, if_pos h]
  exact ⟨rfl, rfl⟩

theorem modemReport_period (hperiod : 0 < period)
    (hconfig : s.vars.flags.configModemReport = some period)
    (h : s.vars.flags.modemReportPeriod ≠ .now) :
    (modemReport i s).1 = decide (period ≤ i.now - s.vars.modemReportLast.getD i.started) ∧
      (modemReport i s).2.vars.modemReportLast = some i.now := by
  rw [modemReport, if_neg h, hconfig]
  dsimp only
  rw [if_neg (Int.ne_of_gt hperiod)]
  exact ⟨rfl, rfl⟩

/-- A report that is carried when it is due, or when it was asked for, keeps the timer. -/
theorem Timer.ok_note {l : Timer} {r : Report} (h : l.ok = true)
    (hdue : r.modemNow = false →
      (r.content = .modemStatus ↔ period ≤ r.now - l.carried))
    (hnow : r.modemNow = true → r.content = .modemStatus) :
    (l.note period (.report r)).ok = true := by
  simp only [Timer.note, h, Bool.true_and]
  cases hasked : r.modemNow with
  | true => simp [hnow hasked]
  | false =>
      by_cases hlong : period ≤ r.now - l.carried
      · rw [if_pos hlong]
        exact decide_eq_true ((hdue hasked).mpr hlong)
      · rw [if_neg hlong]
        exact decide_eq_true fun hcontent => absurd ((hdue hasked).mp hcontent) hlong

/-- The report of an iteration keeps the timer. -/
theorem report_timed (hperiod : 0 < period) (h : Due period s) (hsame : DueAlike period i s)
    {content : Content} (hcarries : Carries i s content)
    (hreport : (ReportEvent.report (newReport i s content)).Periodic period)
    (hreports : t.reports = s.reports ++ [.report (newReport i s content)])
    (hlast : t.vars.modemReportLast = (modemReport i s).2.vars.modemReportLast) :
    Timed period t := by
  obtain ⟨hconstant, hnotFull⟩ := hreport
  have hconfig : s.vars.flags.configModemReport = some period := hconstant
  -- without a full configuration only the timer decides
  have hstatus : content = .modemStatus ↔ (modemReport i s).1 = true := by
    cases content with
    | plain => exact iff_of_false nofun (by rw [hcarries.2.2]; exact nofun)
    | modemStatus => exact iff_of_true rfl hcarries.2.2
    | fullConfig config => exact nomatch hnotFull
  by_cases hnow : s.vars.flags.modemReportPeriod = .now
  · have hmodemNow : (newReport i s content).modemNow = true := decide_eq_true hnow
    obtain ⟨hdue, hkept⟩ := modemReport_now (i := i) hnow
    refine ⟨?_, .inr ?_⟩
    · rw [hreports, timer_append]
      apply Timer.ok_note h.ok
      · intro hnot
        rw [hmodemNow] at hnot
        exact nomatch hnot
      · exact fun _ => hstatus.mpr hdue
    · rw [hlast, hkept, h.last, hreports, timer_append]
      simp only [Timer.note, hmodemNow, if_true]
  · have hmodemNow : (newReport i s content).modemNow = false := decide_eq_false hnow
    obtain ⟨hdue, htime⟩ := modemReport_period (i := i) hperiod hconfig hnow
    rw [h.last, Option.getD_some] at hdue
    refine ⟨?_, .inr ?_⟩
    · rw [hreports, timer_append]
      apply Timer.ok_note h.ok
      · intro _
        refine hstatus.trans ?_
        rw [hdue, decide_eq_true_iff]
        exact hsame hnow
      · intro hasked
        rw [hmodemNow] at hasked
        exact nomatch hasked
    · rw [hlast, htime, hreports, timer_append]
      simp only [Timer.note, hmodemNow, Bool.false_eq_true, if_false]
      rfl

theorem iteration_timed (hperiod : 0 < period)
    (hs : (∀ e ∈ s.reports, e.Periodic period) → Timed period s)
    (hi : SameDue period noaction s i) :
    (∀ e ∈ (iteration noaction s i).reports, e.Periodic period) →
      Timed period (iteration noaction s i) := by
  have hlike {s t : State} (hs : (∀ e ∈ s.reports, e.Periodic period) → Timed period s)
      (ht : SameReports s t) : (∀ e ∈ t.reports, e.Periodic period) → Timed period t := by
    intro hall
    rw [ht.reports] at hall
    refine ⟨ht.reports ▸ (hs hall).ok, ?_⟩
    rcases ht.last with hnone | hsame
    · exact .inl hnone
    · rw [hsame, ht.reports]
      exact (hs hall).last
  apply iteration_reports (I := fun t => (∀ e ∈ t.reports, e.Periodic period) → Timed period t)
    (A := fun t => (∀ e ∈ t.reports, e.Periodic period) → Due period t) hlike
    (fun ht hframe hall => (ht (hframe.reports ▸ hall)).frame hframe)
    (fun ht hall => (ht hall).timed) hs
  · intro hall
    exact setUp_timed (hlike hs start_sameReports fun e he => hall e (setUp_reports he))
  · intro t u ht hpolls hreported hall
    obtain ⟨content, hcarries, hreports⟩ := hreported.logged
    rw [hreports] at hall
    exact report_timed hperiod (ht fun e he => hall e (List.mem_append_left _ he)) (hi t hpolls)
      hcarries (hall _ (List.mem_append_right _ List.mem_cons_self)) hreports hreported.last

/-- In every run in which the last report and the last poll agree about what is due, the
modem status is on time. -/
theorem modem_on_time (hperiod : 0 < period) {store : Store} {inputs : List Input}
    (hinputs : Meets (iteration noaction) (SameDue period noaction) (started store) inputs) :
    ModemOnTime period (run noaction (started store) inputs) := by
  intro hall
  have htimed := hinputs.invariant
    (I := fun s => (∀ e ∈ s.reports, e.Periodic period) → Timed period s)
    (fun _ => ⟨rfl, .inl rfl⟩) fun s i hs hi => iteration_timed hperiod hs hi
  exact (htimed hall).ok

/-- A device that has reported its configuration. -/
def reported : Store := { registered with sha256config := some "hash" }

/-- A poll of a script started at time 0 with period 100. -/
def polledAt (now : Int) : Input :=
  { answered "on" .empty with now := now, modemReport := some 100 }

/-- Three polls, of which the second is not due. -/
theorem modem_on_time_due :
    (timer 100 (run false (started reported)
        [polledAt 150, polledAt 200, polledAt 310]).reports).carried = 310 ∧
      (timer 100 (run false (started reported)
        [polledAt 150, polledAt 200, polledAt 310]).reports).ok = true := by
  refine ⟨by decide, modem_on_time (by decide) ⟨fun t ht => ?_, fun t ht => ?_, fun t ht => ?_,
    trivial⟩ (@of_decide_eq_true _ (List.decidableBAll _ _) rfl)⟩
  · exact ht.ends (P := DueAlike 100 (polledAt 150)) fun _ => by decide
  · exact ht.ends (P := DueAlike 100 (polledAt 200)) fun _ => by decide
  · exact ht.ends (P := DueAlike 100 (polledAt 310)) fun _ => by decide

/-- Every poll starts the timer again, so that with shorter polls the status is never
due. -/
theorem modem_never_due :
    ¬ ModemOnTime 100 (run false (started reported) [polledAt 60, polledAt 120]) := by
  intro htime
  have hok := htime (@of_decide_eq_true _ (List.decidableBAll _ _) rfl)
  exact absurd hok (by decide)

end ModemStatus

section Configuration

/-- The configuration that is carried is the one at that time; with `config_report` on and
no request it is carried exactly if its hash is not the saved one. -/
structure Report.Current (r : Report) : Prop where
  config : ∀ config, r.content = .fullConfig config → config = r.config
  changed : r.configReport = true → r.explicit = false →
    (r.content.isFull = true ↔ r.saved ≠ some r.configHash)

def ReportsCurrent (s : State) : Prop := ∀ r, .report r ∈ s.reports → r.Current

/-- The report of a poll without a saved hash, with which the file and the hash are written. -/
def ReportEvent.writes : ReportEvent → Option Report
  | .start _ => none
  | .report r => if r.saved.isNone then some r else none

/-- The last of these reports. -/
def written (reports : List ReportEvent) : Option Report :=
  (reports.filterMap ReportEvent.writes).getLast?

theorem written_append (reports : List ReportEvent) (e : ReportEvent) :
    written (reports ++ [e]) = e.writes.or (written reports) := by
  rw [written, List.filterMap_append, List.getLast?_append]
  congr 1
  rw [List.filterMap_cons, List.filterMap_nil]
  cases e.writes with
  | none => rfl
  | some r => rfl

/-- The hash and the file are those of the last report without a saved hash. Before it the
hash is the stored one; the file may be lost. -/
structure FileOf (store : Store) (s : State) : Prop where
  hash : s.store.sha256config =
    ((written s.reports).map Report.configHash).or store.sha256config
  file : ∀ config ∈ s.allConfig, ∃ r ∈ written s.reports, config = r.config

variable {store : Store}

theorem FileOf.same (h : FileOf store s) (ht : SameReports s t) : FileOf store t := by
  constructor
  · rw [ht.hash, ht.reports]
    exact h.hash
  · rw [ht.file, ht.reports]
    exact h.file

theorem FileOf.setUp (h : FileOf store s) : FileOf store (setUp i s) := by
  have hfiles : FileOf store (if i.tmpLost then { s with allConfig := none } else s) := by
    split
    · exact ⟨h.hash, nofun⟩
    · exact h
  simp only [Cloud.setUp]
  generalize (if i.tmpLost then { s with allConfig := none } else s) = s' at hfiles ⊢
  split
  · refine ⟨?_, ?_⟩
    · rw [written_append]
      exact hfiles.hash
    · rw [written_append]
      exact hfiles.file
  · exact hfiles

/-- The report of a poll keeps this: it writes both exactly if no hash was saved. -/
theorem FileOf.report (h : FileOf store s) (hreport : ReportMade i s t) : FileOf store t := by
  obtain ⟨content, -, hreports⟩ := hreport.logged
  have hwritten : written t.reports =
      if s.store.sha256config.isNone then some (newReport i s content)
      else written s.reports := by
    rw [hreports, written_append]
    show (if s.store.sha256config.isNone then some (newReport i s content) else none).or _ = _
    split
    · rfl
    · rfl
  have hfile := hreport.file
  have hhash := hreport.hash
  cases hsaved : s.store.sha256config with
  | none =>
      rw [hsaved, Option.isNone_none, if_pos rfl] at hwritten hfile
      rw [hsaved] at hhash
      constructor
      · rw [hhash, hwritten]
        rfl
      · intro config hconfig
        rw [hfile] at hconfig
        exact ⟨_, hwritten, (Option.mem_some_iff.mp hconfig).symm⟩
  | some hash =>
      rw [hsaved, Option.isNone_some, if_neg Bool.false_ne_true] at hwritten hfile
      rw [hsaved, Option.getD_some, ← hsaved] at hhash
      constructor
      · rw [hhash, hwritten]
        exact h.hash
      · rw [hfile, hwritten]
        exact h.file

/-- The configuration of the file is asked for only by a request of the cloud, and only as
long as it has not changed since the file was written. -/
def RequestedUnchanged (i : Input) (t : State) : Prop :=
  ∀ r ∈ written t.reports,
    (i.reportsConfig = true → t.vars.flags.reportFullConfig = true) ∧
      (t.vars.flags.reportFullConfig = true → i.config = r.config)

/-- The condition of an iteration that makes a poll. -/
def FileCurrent (noaction : Bool) (s : State) (i : Input) : Prop :=
  ∀ t, Polls noaction s i t → RequestedUnchanged i t

theorem newReport_current {content : Content} (h : FileOf store s)
    (hi : RequestedUnchanged i s) (hcarries : Carries i s content) :
    (newReport i s content).Current := by
  cases content with
  | fullConfig config =>
      rcases hcarries with ⟨hnone, hconfig⟩ | ⟨-, hasked, hfile⟩
      · refine ⟨fun c hc => ?_, fun _ _ => iff_of_true rfl ?_⟩
        · cases hc
          exact hconfig
        · show s.store.sha256config ≠ _
          rw [hnone]
          exact nofun
      · obtain ⟨r, hr, rfl⟩ := h.file config hfile
        obtain ⟨hrequest, hunchanged⟩ := hi r hr
        have hexplicit : s.vars.flags.reportFullConfig = true := hasked.elim id hrequest
        refine ⟨fun c hc => ?_, fun _ hnot => ?_⟩
        · cases hc
          exact (hunchanged hexplicit).symm
        · exact absurd (hexplicit.symm.trans hnot) (by decide)
  | modemStatus => exact ⟨nofun, fun hreports _ => absurd (.inr hreports) hcarries.2.1⟩
  | plain => exact ⟨nofun, fun hreports _ => absurd (.inr hreports) hcarries.2.1⟩

/-- One iteration keeps the file and the hash in step with the reports, and under its
condition the reports current. -/
theorem iteration_current (hs : FileOf store s) :
    FileOf store (iteration noaction s i) ∧
      (FileCurrent noaction s i → ReportsCurrent s → ReportsCurrent (iteration noaction s i)) := by
  have hlike {u t : State} (hu : FileOf store u ∧
      (FileCurrent noaction s i → ReportsCurrent s → ReportsCurrent u)) (ht : SameReports u t) :
      FileOf store t ∧ (FileCurrent noaction s i → ReportsCurrent s → ReportsCurrent t) := by
    refine ⟨hu.1.same ht, fun hi hcurrent => ?_⟩
    rw [ReportsCurrent, ht.reports]
    exact hu.2 hi hcurrent
  apply iteration_reports (A := fun t => FileOf store t ∧
      (FileCurrent noaction s i → ReportsCurrent s → ReportsCurrent t)) hlike
    (fun ht hframe => hlike ht hframe.sameReports) id ⟨hs, fun _ => id⟩
  · refine ⟨(hs.same start_sameReports).setUp, fun _ hcurrent r hr => hcurrent r ?_⟩
    rw [← (start_sameReports (i := i)).reports]
    exact setUp_reports_report hr
  · rintro t u ⟨hfile, hbefore⟩ hpolls hreport
    refine ⟨hfile.report hreport, fun hi hcurrent r hr => ?_⟩
    obtain ⟨content, hcarries, hreports⟩ := hreport.logged
    rw [hreports] at hr
    rcases List.mem_append.mp hr with hold | hnew
    · exact hbefore hi hcurrent r hold
    · cases List.mem_singleton.mp hnew
      exact newReport_current hfile (hi t hpolls) hcarries

/-- In every run the hash and the file are those of the last poll that found no saved hash. -/
theorem run_fileOf (inputs : List Input) : FileOf store (run noaction (started store) inputs) :=
  List.foldlRecOn inputs (iteration noaction) ⟨rfl, nofun⟩ fun _ hs _ _ => (iteration_current hs).1

/-- In every run in which the configuration is asked for only by requests, and only as long as
it is the one that was written, the reports are current. -/
theorem reports_current {inputs : List Input}
    (hinputs : Meets (iteration noaction) (FileCurrent noaction) (started store) inputs) :
    ReportsCurrent (run noaction (started store) inputs) ∧
      FileOf store (run noaction (started store) inputs) := by
  refine ⟨?_, run_fileOf inputs⟩
  have hboth := hinputs.invariant (I := fun s => FileOf store s ∧ ReportsCurrent s)
    ⟨⟨rfl, nofun⟩, nofun⟩ fun s i hs hi =>
      ⟨(iteration_current hs.1).1, (iteration_current hs.1).2 hi hs.2⟩
  exact hboth.2

/-- A poll with `config_report` on. -/
def reporting (config configHash : String) : Input :=
  { answered "on" .empty with configReport := "on", config, configHash }

/-- The first poll writes the configuration and is answered with a request for it, the
second one carries it, and it changes before the third one. -/
def requestedOnce : List Input :=
  [{ reporting "a" "1" with response := some (.action (.configReport "" "now")) },
    { reporting "a" "1" with configReport := "off" },
    { reporting "b" "2" with configReport := "off" }]

theorem reports_current_requested :
    (run false (started registered) requestedOnce).reports.length = 4 ∧
      (run false (started registered) requestedOnce).allConfig = some "a" ∧
      ReportsCurrent (run false (started registered) requestedOnce) := by
  have hmeets : Meets (iteration false) (FileCurrent false) (started registered)
      requestedOnce := by
    refine ⟨fun t ht => ht.ends (P := RequestedUnchanged _) fun r hr => ?_,
      fun t ht => ht.ends (P := RequestedUnchanged _) fun r hr => ?_,
      fun t ht => ht.ends (P := RequestedUnchanged _) fun r hr => ⟨?_, ?_⟩, trivial⟩
    · cases hr
    · obtain rfl := Option.mem_some_iff.mp hr
      exact ⟨nofun, fun _ => rfl⟩
    · exact fun hon => absurd hon (by decide)
    · exact fun hasked => absurd hasked (by decide)
  exact ⟨by decide, by decide, (reports_current hmeets).1⟩

/-- The report of a second poll, after one for `a` with hash `1`. -/
def secondReport (config configHash : String) : Report where
  now := 0
  period := none
  modemNow := false
  explicit := false
  configReport := true
  config := config
  configHash := configHash
  saved := some "1"
  content := .fullConfig "a"

/-- The second poll reports the configuration although it did not change, and if it did
change, the old one. -/
theorem reports_stale :
    ¬ ReportsCurrent (run false (started registered) [reporting "a" "1", reporting "a" "1"]) ∧
      ¬ ReportsCurrent (run false (started registered)
        [reporting "a" "1", reporting "b" "2"]) := by
  constructor
  · intro hcurrent
    have hchanged := (hcurrent (secondReport "a" "1") (by decide)).changed rfl rfl
    exact hchanged.mp rfl rfl
  · intro hcurrent
    have hconfig := (hcurrent (secondReport "b" "2") (by decide)).config "a" rfl
    exact absurd hconfig (by decide)

end Configuration

end Speedway.Cloud
