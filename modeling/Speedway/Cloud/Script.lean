import Speedway.Cloud.Response

/-!
# The main loop of `cloud-check.sh`

One iteration waits, checks a pending upgrade, applies stored updates, polls
the cloud with the action sequence and handles the answer. The script runs with
`-e`: a failing command outside of a condition ends it. What other programs do
is an input of the iteration.
-/

namespace Speedway.Cloud

/-- The UCI options of the script and the files in `/etc/awc`; an option that is
not set has an empty text. -/
structure Store where
  actionSequence : Option Nat
  actionSequencePending : Option Nat
  expectedVersion : String
  uuid : String
  cloudUuid : String
  softwareUpdates : Bool
  configUpdates : Bool
  sha256config : Option String := none
  deriving DecidableEq

/-- The shell variables, with their values at the start of the script. -/
structure Vars where
  firstTime : Bool := true
  wakeupReason : String := ""
  uuid : String := ""
  newUuid : String := ""
  actionSequencePending : Option Nat := none
  updateSoftwareVersion : String := ""
  autoFirmware : String := ""
  autoConfig : String := ""
  actionSequence : Option Nat := none
  commit : Bool := false
  flags : Flags := {}
  /-- Set when the script starts. -/
  modemReportLast : Option Int := none
  deriving DecidableEq

/-- What an iteration does, in order. -/
inductive Event where
  /-- `/sbin/update-check.sh -e` runs, with the option and the reason of this iteration. -/
  | updateCheck (autoFirmware wakeupReason : String)
  /-- `action_sequence_pending` is stored; `committed` is the sequence before. -/
  | attempt (pending committed : Nat)
  /-- The version after an upgrade is not the expected one. -/
  | mismatch
  /-- A poll; if it confirms an upgrade, whether the expected version is running. -/
  | poll (sequence : Nat) (confirms : Option Bool) (answered : Bool)
  /-- `action_sequence` is stored. -/
  | commit (sequence : Nat) (confirms : Option Bool)
  | applied (a : Action)
  | configApplied
  deriving DecidableEq

/-- What a poll carries besides the sequence. -/
inductive Content where
  | plain
  | modemStatus
  | fullConfig (config : String)
  deriving DecidableEq

/-- A poll as far as reports go: its time, the period of the modem status, what was
requested, the configuration at that time with its hash, the hash saved before, and what
is carried. -/
structure Report where
  now : Int
  period : Option Int
  modemNow : Bool
  explicit : Bool
  configReport : Bool
  config : String
  configHash : String
  saved : Option String
  content : Content
  deriving DecidableEq

inductive ReportEvent where
  /-- The script starts. -/
  | start (time : Int)
  | report (r : Report)
  deriving DecidableEq

structure State where
  store : Store
  vars : Vars := {}
  events : List Event := []
  halted : Bool := false
  reports : List ReportEvent := []
  /-- The file `/tmp/nextivity/all-config.json`. -/
  allConfig : Option String := none
  deriving DecidableEq

/-- The calls of `uci`; a function that is called twice in an iteration has its
calls twice. -/
inductive Site where
  | getUuid
  | getCloudUuid
  | deleteCloudUuid
  | deleteUuid
  | commitUuid
  | getPending
  | getAutoFirmware
  | getAutoConfig
  | getExpected
  | resetPending
  | resetExpected
  | commitReset
  | deleteLeftOver
  | commitLeftOver
  | getSequence
  | forgetPending
  | forgetExpected
  | setUuid
  | setSequence
  | commitPoll
  | upgradeSequence (late : Bool)
  | setPending (late : Bool)
  | commitPending (late : Bool)
  | rollBack (late : Bool)
  | commitRollBack (late : Bool)
  | configSequence (late : Bool)
  | getConfigReport
  deriving DecidableEq

inductive UpgradeResult where
  | failed
  | returned
  | rebooted
  deriving DecidableEq

/-- A run of `update-check.sh`: it may set `expected_version` and remove the file. -/
structure UpdateCheck where
  result : UpgradeResult
  expectedVersion : String
  keepsFile : Bool

inductive Identity where
  | known
  | unknown
  | noSerial
  deriving DecidableEq

/-- What happens to the script in one iteration. -/
structure Input where
  /-- The script was started again before this iteration. -/
  restart : Bool
  /-- The sleep between polls: slept through or woken up with a reason. -/
  sleep : Option String
  host : String
  /-- The sleeps until the status file is there. -/
  statusSleeps : List (Option String)
  identity : Identity
  softwareVersion : String
  autoFirmware : String
  autoConfig : String
  uci : Site → Bool
  updateCheck : Bool → UpdateCheck
  jsonToUci : Bool → Bool
  /-- The UUID fetched: nothing unless the answer was 200. -/
  newUuid : Option String
  /-- The output of the poll: nothing unless the answer was 200. -/
  response : Option Response
  commandOk : Bool
  /-- The time at which the script was started. -/
  started : Int := 0
  /-- The time of the poll. -/
  now : Int := 0
  /-- `modem_report` when the script was started. -/
  modemReport : Option Int := none
  configReport : String := ""
  /-- What `ucitojson.sh` would write, and its hash. -/
  config : String := ""
  configHash : String := ""
  /-- The files in `/tmp` were lost since the last iteration. -/
  tmpLost : Bool := false

/-- The end of an iteration, early or at its last command. -/
abbrev Flow := Except State State

/-- `continue`. -/
def State.next (s : State) : Flow := .error s

/-- Nothing is left of the variables of a script that ended. -/
def State.gone (s : State) : State := { s with vars := {} }

def State.exit (s : State) : Flow := .error s.gone

def State.log (s : State) (e : Event) : State := { s with events := s.events ++ [e] }

/-- A command outside of a condition. -/
def State.command (s : State) (ok : Bool) : Flow := if ok then .ok s else s.exit

def sleepWait : Option String → String
  | none => ""
  | some reason => reason

/-- The loop that waits for the status file; the reason of the last sleep. -/
def statusWait : List (Option String) → String → Except String String
  | [], reason => .ok reason
  | none :: sleeps, _ => statusWait sleeps ""
  | some reason :: _, _ => .error reason

/-- What is set before the loop, when the script was started. -/
def setUp (i : Input) (s : State) : State :=
  let s := if i.tmpLost then { s with allConfig := none } else s
  if s.vars.modemReportLast.isNone then
    { s with
      vars := { s.vars with
        modemReportLast := some i.started
        flags := { s.vars.flags with configModemReport := i.modemReport } }
      reports := s.reports ++ [.start i.started] }
  else s

/-- From the start of an iteration until everything for a poll is known. -/
def prepare (i : Input) (s : State) : Flow :=
  let s := setUp i s
  let reason := if s.vars.firstTime then s.vars.wakeupReason else sleepWait i.sleep
  let s := { s with vars := { s.vars with firstTime := false, wakeupReason := reason } }
  if i.host = "" then s.next
  else
    match statusWait i.statusSleeps reason with
    | .error reason => State.next { s with vars := { s.vars with wakeupReason := reason } }
    | .ok reason =>
        match i.identity with
        | .unknown => State.next { s with vars := { s.vars with wakeupReason := reason } }
        -- the misspelt command that reports it is not found
        | .noSerial => s.exit
        | .known =>
            .ok { s with vars := { s.vars with
              wakeupReason := reason
              flags := { s.vars.flags with confirmAction := false } } }

def readUuid (i : Input) (s : State) : Flow :=
  let uuid := if i.uci .getUuid then s.store.uuid else ""
  let cloudUuid := if i.uci .getCloudUuid then s.store.cloudUuid else ""
  if cloudUuid = "" then .ok { s with vars := { s.vars with uuid } }
  else do
    let s ← s.command (i.uci .deleteCloudUuid)
    let s ← State.command { s with store := { s.store with cloudUuid := "" } } (i.uci .deleteUuid)
    let s ← State.command { s with store := { s.store with uuid := "" } } (i.uci .commitUuid)
    .ok { s with vars := { s.vars with uuid := "" } }

/-- The values read at the start of the sequence handling. -/
def readOptions (i : Input) (s : State) : State :=
  { s with vars := { s.vars with
    actionSequencePending := if i.uci .getPending then s.store.actionSequencePending else none
    autoFirmware := if i.uci .getAutoFirmware then i.autoFirmware else ""
    autoConfig := if i.uci .getAutoConfig then i.autoConfig else ""
    updateSoftwareVersion := if i.uci .getExpected then s.store.expectedVersion else "" } }

def checkVersion (i : Input) (s : State) : Flow :=
  if s.vars.actionSequencePending.isSome then
    if s.vars.updateSoftwareVersion ≠ i.softwareVersion then
      let s := s.log .mismatch
      State.command
        { s with store := { s.store with
          actionSequencePending :=
            if i.uci .resetPending then none else s.store.actionSequencePending
          expectedVersion := if i.uci .resetExpected then "" else s.store.expectedVersion } }
        (i.uci .commitReset)
    else .ok s
  else if s.vars.updateSoftwareVersion ≠ "" then
    State.command
      { s with store := { s.store with
        expectedVersion := if i.uci .deleteLeftOver then "" else s.store.expectedVersion } }
      (i.uci .commitLeftOver)
  else .ok s

/-- `action_sequence_pending` is stored before an upgrade. -/
def storePending (late : Bool) (i : Input) (s : State) : State :=
  let updateActionSequence := s.vars.actionSequence.or
    (if i.uci (.upgradeSequence late) then s.store.actionSequence else none)
  let pending := updateActionSequence.getD 0 + 1
  { s.log (.attempt pending (s.store.actionSequence.getD 0)) with
    store := { s.store with actionSequencePending := some pending } }

/-- `/sbin/update-check.sh -e`. -/
def runUpdateCheck (late : Bool) (i : Input) (s : State) : State :=
  { s.log (.updateCheck i.autoFirmware s.vars.wakeupReason) with
    store := { s.store with
      expectedVersion := (i.updateCheck late).expectedVersion
      softwareUpdates := s.store.softwareUpdates && (i.updateCheck late).keepsFile } }

def rollBack (late : Bool) (i : Input) (s : State) : State :=
  if i.uci (.rollBack late) then
    { s with store := { s.store with actionSequencePending := none } }
  else s

def performSoftwareUpdate (noaction late : Bool) (i : Input) (s : State) : Flow :=
  if noaction then .ok s
  else if i.uci (.setPending late) then
    let s := storePending late i s
    if i.uci (.commitPending late) then
      let s := runUpdateCheck late i s
      match (i.updateCheck late).result with
      | .rebooted => s.exit
      | .returned => .ok s
      | .failed => (rollBack late i s).command (i.uci (.commitRollBack late))
    else s.exit
  else s.exit

/-- The configuration is applied and counted. -/
def applyConfig (late : Bool) (i : Input) (s : State) : State :=
  let sequence := s.vars.actionSequence.getD 0 + 1
  let s := s.log .configApplied
  let s := { s with
    vars := { s.vars with actionSequence := some sequence }
    store := { s.store with configUpdates := false } }
  if i.uci (.configSequence late) then
    { s.log (.commit sequence none) with
      store := { s.store with actionSequence := some sequence } }
  else s

/-- `perform_config_update` and its result; it runs inside a condition. -/
def performConfigUpdate (late : Bool) (i : Input) (s : State) : Bool × State :=
  if i.jsonToUci late then (true, applyConfig late i s) else (false, s)

def State.setConfirm (s : State) (confirmAction : Bool) : State :=
  { s with vars := { s.vars with flags := { s.vars.flags with confirmAction } } }

/-- The updates stored by an earlier iteration. -/
def pendingUpdates (noaction : Bool) (i : Input) (s : State) : Flow :=
  if s.vars.actionSequencePending.isNone ∧ s.store.softwareUpdates then
    if s.vars.autoFirmware ≠ "on" ∧ s.vars.wakeupReason ≠ "upgrade" then s.next
    else do
      let s ← performSoftwareUpdate noaction false i s
      s.next
  else if s.store.configUpdates then
    if s.vars.autoConfig ≠ "on" ∧ s.vars.wakeupReason ≠ "config" then s.next
    else
      match performConfigUpdate false i s with
      | (true, s) => .ok (s.setConfirm true)
      | (false, s) => (s.setConfirm false).next
  else .ok s

/-- The sequence that is reported. -/
def selectSequence (i : Input) (s : State) : State :=
  { s with vars := { s.vars with
    actionSequence := match s.vars.actionSequencePending with
      | some pending => some pending
      | none => some ((if i.uci .getSequence then s.store.actionSequence else none).getD 0) } }

def fetchUuid (i : Input) (s : State) : Flow :=
  if s.vars.uuid = "" then
    match i.newUuid with
    | none => s.next
    | some newUuid =>
        let s := { s with vars := { s.vars with newUuid } }
        if newUuid = "" then s.next else .ok s
  else .ok s

/-- The UUID to use and whether it has to be stored. -/
def chooseUuid (s : State) : State :=
  if s.vars.newUuid = "" then { s with vars := { s.vars with commit := false } }
  else if s.vars.uuid = "" then
    { s with vars := { s.vars with commit := true, uuid := s.vars.newUuid } }
  else { s with vars := { s.vars with commit := decide (s.vars.uuid ≠ s.vars.newUuid) } }

/-- The modem report timer: whether the status is due. -/
def modemReport (i : Input) (s : State) : Bool × State :=
  if s.vars.flags.modemReportPeriod = .now then
    (true, { s with vars := { s.vars with
      flags := { s.vars.flags with modemReportPeriod := .seconds 0 } } })
  else
    match s.vars.flags.configModemReport with
    | none => (false, s)
    | some seconds =>
        if seconds = 0 then (false, s)
        else
          (decide (seconds ≤ i.now - s.vars.modemReportLast.getD i.started),
            { s with vars := { s.vars with
              modemReportLast := some i.now
              flags := { s.vars.flags with modemReportPeriod := .seconds seconds } } })

/-- `config_report` is on. -/
def Input.reportsConfig (i : Input) : Bool := i.uci .getConfigReport && i.configReport == "on"

/-- Whether the full configuration is reported. The test `[ $report_full_config ]` is true
for every text, so that only the saved hash decides about a new file. -/
def configReport (i : Input) (s : State) : Bool × State :=
  if s.store.sha256config.isNone then
    (true, { s with
      store := { s.store with sha256config := some i.configHash }
      allConfig := some i.config })
  else (s.vars.flags.reportFullConfig || i.reportsConfig, s)

def State.report (s : State) (r : Report) : State := { s with reports := s.reports ++ [.report r] }

/-- The report of an iteration, before its content is known. -/
def newReport (i : Input) (s : State) (content : Content) : Report where
  now := i.now
  period := s.vars.flags.configModemReport
  modemNow := decide (s.vars.flags.modemReportPeriod = .now)
  explicit := s.vars.flags.reportFullConfig
  configReport := i.reportsConfig
  config := i.config
  configHash := i.configHash
  saved := s.store.sha256config
  content := content

/-- The choice of what the poll carries. The line that should write the file again
only expands a variable of that name. -/
def report (i : Input) (s : State) : Flow :=
  let doReport := (modemReport i s).1
  let reportFullConfig := (configReport i (modemReport i s).2).1
  let t := (configReport i (modemReport i s).2).2
  if reportFullConfig then
    match t.allConfig with
    | none => t.exit
    | some config =>
        .ok (State.report
          { t with vars := { t.vars with
            flags := { t.vars.flags with reportFullConfig := false } } }
          (newReport i s (.fullConfig config)))
  else if doReport then .ok (t.report (newReport i s .modemStatus))
  else .ok (t.report (newReport i s .plain))

/-- Whether the iteration confirms an upgrade, and to the expected version. -/
def confirms (i : Input) (s : State) : Option Bool :=
  if s.vars.actionSequencePending.isSome then
    some (decide (s.vars.updateSoftwareVersion = i.softwareVersion))
  else none

/-- The poll, up to the removal of a value that was confirmed. -/
def poll (noaction : Bool) (i : Input) (s : State) : Except State (Response × State) :=
  let s := s.log
    (.poll (s.vars.actionSequence.getD 0) (confirms i s) i.response.isSome)
  match i.response with
  | none => .error s
  | some response =>
      if s.vars.flags.doFactoryReset ∧ noaction then .error { s with halted := true }
      else if s.vars.actionSequencePending.isSome then
        .ok (response, { s with
          store := { s.store with
            actionSequencePending :=
              if i.uci .forgetPending then none else s.store.actionSequencePending
            expectedVersion := if i.uci .forgetExpected then "" else s.store.expectedVersion
            softwareUpdates := false }
          vars := { s.vars with commit := true } })
      else .ok (response, s)

/-- `handle_response` and its result. -/
def handleResponse (i : Input) (a : Action) (s : State) : Bool × State :=
  let s := { s with vars := { s.vars with
    flags := { s.vars.flags with reportFullConfig := false } } }
  if a.accepted i.commandOk then
    match a with
    | .softwareUpdate => (true, { s with store := { s.store with softwareUpdates := true } })
    | .configurationUpdate => (true, { s with store := { s.store with configUpdates := true } })
    | a =>
        (true, { s.log (.applied a) with vars := { s.vars with
          flags := a.flags s.vars.flags
          actionSequence := some (s.vars.actionSequence.getD 0 + 1)
          commit := true } })
  else (false, s)

/-- The use made of the output of a poll. -/
def handleOutput (i : Input) (s : State) : Response → Flow
  | .empty => .ok s
  | .malformed => s.next
  | .noAction =>
      State.next { s with vars := { s.vars with
        flags := { s.vars.flags with reportFullConfig := false } } }
  | .action a =>
      match handleResponse i a s with
      | (true, s) => .ok s
      | (false, s) => s.next

def storeSequence (i : Input) (sequence : Nat) (s : State) : State :=
  { s.log (.commit sequence (confirms i s)) with
    store := { s.store with actionSequence := some sequence } }

/-- The UUID and the sequence are stored. -/
def commitPoll (i : Input) (s : State) : Flow :=
  if s.vars.commit then
    if i.uci .setUuid then
      let s := { s with store := { s.store with uuid := s.vars.uuid } }
      match s.vars.actionSequence with
      | none => s.command (i.uci .commitPoll)
      | some sequence =>
          if i.uci .setSequence then (storeSequence i sequence s).command (i.uci .commitPoll)
          else s.exit
    else s.exit
  else .ok s

/-- The interfaces that an action wants to be started again. -/
def cycle (s : State) : State :=
  { s with vars := { s.vars with
    flags := { s.vars.flags with cycleLan := false, cycleWifi := false, sshRestart := false } } }

/-- An upgrade that this poll brought. -/
def runSoftwareUpdate (noaction : Bool) (i : Input) (s : State) : Flow :=
  if s.store.softwareUpdates then performSoftwareUpdate noaction true i s else .ok s

/-- A configuration that this poll brought. -/
def runConfigUpdate (i : Input) (s : State) : State :=
  if s.store.configUpdates ∧ s.vars.autoConfig = "on" then
    match performConfigUpdate true i s with
    | (ok, s) => s.setConfirm ok
  else s

/-- The body of the loop. -/
def body (noaction : Bool) (i : Input) (s : State) : Flow := do
  let s ← prepare i s
  let s ← readUuid i s
  let s ← checkVersion i (readOptions i s)
  let s ← pendingUpdates noaction i s
  let s ← fetchUuid i (selectSequence i s)
  let s ← report i (chooseUuid s)
  let (response, s) ← poll noaction i s
  let s ← handleOutput i s response
  let s ← commitPoll i s
  let s ← runSoftwareUpdate noaction i (cycle s)
  .ok (runConfigUpdate i s)

/-- The state at the start of an iteration. -/
def State.start (i : Input) (s : State) : State := if i.restart then s.gone else s

/-- One iteration. -/
def iteration (noaction : Bool) (s : State) (i : Input) : State :=
  if s.halted then s
  else
    match body noaction i (s.start i) with
    | .ok s => s
    | .error s => s

/-- A run of the script. -/
def run (noaction : Bool) (s : State) (inputs : List Input) : State :=
  inputs.foldl (iteration noaction) s

end Speedway.Cloud
