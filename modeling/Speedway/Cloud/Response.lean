import Mathlib.Tactic.Common

/-!
# Answers of the cloud

A poll is answered with nothing, with a text that is not understood, or with
one action. Updates are only stored by `handle_response`; every other action is
applied at once.
-/

namespace Speedway.Cloud

/-- The value of `get_modem_status`. -/
inductive Period where
  | now
  | seconds (n : Int)
  | other
  deriving DecidableEq

/-- The programs whose interface can be switched. -/
inductive Api where
  | status
  | powerCycle
  | reboot
  deriving DecidableEq

/-- The action of an answer, by the first of its members that the script tries. -/
inductive Action where
  | softwareUpdate
  | configurationUpdate
  | passwordSet (password : String)
  | passwordReset
  | rebootNow
  | factoryReset
  | influx (state : String)
  | getModemStatus (period : Period)
  | api (name : Option Api) (state : String)
  | configReport (report state : String)
  | ssid (name : String)
  | lanip (ipaddress : Option String) (netmask : String)
  | ssh (enabled interface port : String)
  | vpnEnable
  | unsupported
  deriving DecidableEq

/-- The output of a successful poll. -/
inductive Response where
  | empty
  | malformed
  | noAction
  | action (a : Action)
  deriving DecidableEq

/-- The flags of the script that an action sets. -/
structure Flags where
  confirmAction : Bool := false
  doFactoryReset : Bool := false
  reportFullConfig : Bool := false
  modemReportPeriod : Period := .seconds 0
  configModemReport : Option Int := none
  cycleWifi : Bool := false
  cycleLan : Bool := false
  sshRestart : Bool := false
  deriving DecidableEq

/-- Whether an action is carried out; `commandOk` is the result of the programs
it runs. -/
def Action.accepted (commandOk : Bool) : Action → Bool
  | .softwareUpdate | .configurationUpdate => true
  | .passwordSet password => password == "" || commandOk
  | .passwordReset | .rebootNow | .factoryReset => true
  | .influx state => state == "on" || state == "off"
  | .getModemStatus .now => true
  | .getModemStatus (.seconds n) => decide (0 ≤ n)
  | .getModemStatus .other => false
  | .api name state => name.isSome && (state == "on" || state == "off")
  | .configReport report state =>
      report == "on" || state == "enable" || report == "off" || state == "disable" ||
        report == "" || state == "now"
  | .ssid _ => commandOk
  | .lanip ipaddress _ => ipaddress.isSome
  | .ssh enabled interface _ =>
      (enabled == "on" || enabled == "off") && (interface == "lan" || interface == "wwan")
  | .vpnEnable => true
  | .unsupported => false

/-- The flags after an action was carried out. -/
def Action.flags : Action → Flags → Flags
  | .factoryReset, f => { f with doFactoryReset := true }
  | .influx _, f => { f with confirmAction := true }
  | .getModemStatus period, f =>
      { f with
        confirmAction := true
        modemReportPeriod := period
        configModemReport := match period with
          | .seconds n => some n
          | _ => f.configModemReport }
  | .api _ _, f => { f with confirmAction := true }
  | .configReport report state, f =>
      { f with
        confirmAction := true
        reportFullConfig :=
          if report == "on" || state == "enable" then true
          else if report == "off" || state == "disable" then f.reportFullConfig
          else true }
  | .ssid _, f => { f with cycleWifi := true, confirmAction := true }
  | .lanip _ _, f => { f with cycleLan := true, confirmAction := true }
  | .ssh _ _ _, f => { f with sshRestart := true, confirmAction := true }
  | _, f => f

end Speedway.Cloud
