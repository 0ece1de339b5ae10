import Speedway.Gps.Options
import Speedway.Lib.Memory
import Speedway.Mcu.Upgrade

/-!
# The commands of the MCU tool

Each command of `stm-i2c-tool` fills the packet in `txdata`, which keeps what earlier
commands left there, sends it through the netlink socket and reads the answer into
`rxdata`. The results of the socket calls are parameters.
-/

namespace Speedway.Mcu

open Speedway.Lib
open Speedway.Gps (ascii isSpace isDigit decimal)

section Packets

/-- `STMI2C_TxHeader_TD`. -/
structure TxHeader where
  event : UInt8
  state : UInt8
  ckm : UInt8
  txlen : UInt8
  noHigh : UInt8
  noLow : UInt8
  body : UInt8
  rxlen : UInt8
  deriving DecidableEq

/-- `STMI2C_TxBuffer_TD`; the payload has `payloadLen` bytes. -/
structure TxBuffer where
  header : TxHeader
  payload : Mem

def eventVersion : UInt8 := 0x01

def eventRtcGet : UInt8 := 0x03

def eventRtcSet : UInt8 := 0x04

def eventVstSet : UInt8 := 0x13

def eventStdbyCd : UInt8 := 0x14

def eventCycPowerCpu : UInt8 := 0x32

/-- The number of bytes in `STMI2C_RTC_TD`. -/
def rtcLen : Nat := 24

/-- How `recvmsg` ends; the socket is blocking. -/
inductive RecvResult where
  | fails
  | hangs
  | answer (data : Mem)

/-- The results of the socket calls for one packet. -/
structure NlResult where
  sendmsg : Bool
  recv : RecvResult

/-- The members of `STMI2C_Tool_TD` that the commands use, and the packets that were
sent. -/
structure CmdTool where
  nlready : Bool
  txdata : TxBuffer
  rxdata : Mem
  rtc : Mem
  stdbycd : UInt32
  sent : List TxBuffer

/-- The tool when it starts. -/
def CmdTool.fresh : CmdTool where
  nlready := false
  txdata := ⟨⟨0, 0, 0, 0, 0, 0, 0, 0⟩, fun _ => 0⟩
  rxdata := fun _ => 0
  rtc := fun _ => 0
  stdbycd := 0
  sent := []

end Packets

section Calls

/-- A status and the tool; no status if a call does not return. -/
abbrev CmdResult := Option Stat × CmdTool

/-- `if(stat) return stat;` between two calls. -/
def CmdResult.andThen (r : CmdResult) (next : CmdTool → CmdResult) : CmdResult :=
  if r.1 = some .ok then next r.2 else r

/-- `_stm_i2cnl_open`. -/
def nlOpen (netlink : Bool) (t : CmdTool) : CmdResult :=
  if t.nlready then (some .ok, t)
  else if netlink then (some .ok, { t with nlready := true })
  else (some .error, t)

/-- `_stm_i2cnl_write` of the packet in `txdata`. -/
def nlWrite (x : NlResult) (t : CmdTool) : CmdResult :=
  if x.sendmsg then (some .ok, { t with sent := t.sent ++ [t.txdata] }) else (some .error, t)

/-- `_stm_i2cnl_read` into `rxdata`. -/
def nlRead (x : NlResult) (len : Nat) (t : CmdTool) : CmdResult :=
  if len = 0 then (some .ok, t)
  else match x.recv with
    | .fails => (some .error, t)
    | .hangs => (none, t)
    | .answer data => (some .ok, { t with rxdata := t.rxdata.copy 0 data len })

theorem CmdResult.andThen_ok (t : CmdTool) (next : CmdTool → CmdResult) :
    CmdResult.andThen (some .ok, t) next = next t :=
  rfl

theorem nlOpen_of_ready {netlink : Bool} {t : CmdTool} (h : t.nlready = true) :
    nlOpen netlink t = (some .ok, t) := by
  simp [nlOpen, h]

theorem nlOpen_true (t : CmdTool) : nlOpen true t = (some .ok, { t with nlready := true }) := by
  obtain ⟨nlready, _⟩ := t
  cases nlready <;> rfl

/-- Reading the answer sends nothing. -/
theorem nlRead_sent (x : NlResult) (len : Nat) (t : CmdTool) :
    (nlRead x len t).2.sent = t.sent := by
  simp only [nlRead]
  split
  · rfl
  · cases x.recv <;> rfl

/-- What was sent after a packet and its answer. -/
theorem nlWrite_read_sent (x : NlResult) (len : Nat) (t : CmdTool) :
    ((nlWrite x t).andThen (nlRead x len)).2.sent =
      if x.sendmsg then t.sent ++ [t.txdata] else t.sent := by
  cases hsend : x.sendmsg with
  | false => simp [nlWrite, hsend, CmdResult.andThen]
  | true =>
      simp only [nlWrite, hsend, if_true, CmdResult.andThen_ok, nlRead_sent]

/-- The packet gets an event and lengths. -/
def CmdTool.setHeader (t : CmdTool) (event : UInt8) (txlen : Option UInt8) (rxlen : UInt8) :
    CmdTool :=
  let header := t.txdata.header
  let header := { header with event, txlen := txlen.getD header.txlen, rxlen }
  { t with txdata := { t.txdata with header } }

/-- The number that `sscanf` reads for `%d`. -/
def scanNumber (text : List UInt8) : Option Int :=
  let number (digits : List UInt8) : Option Nat :=
    if digits.takeWhile isDigit = [] then none else some (decimal (digits.takeWhile isDigit))
  match text.dropWhile isSpace with
  | 0x2d :: digits => (number digits).map fun n : Nat => -(n : Int)
  | 0x2b :: digits => (number digits).map Int.ofNat
  | digits => (number digits).map Int.ofNat

/-- `sscanf` with `%hhd` into a byte that is 0. -/
def scanByte (text : List UInt8) : UInt8 :=
  match scanNumber text with
  | some n => UInt8.ofNat (n % 256).toNat
  | none => 0

/-- `sscanf` with `%d` into a number that is 0. -/
def scanWord (text : List UInt8) : UInt32 :=
  match scanNumber text with
  | some n => UInt32.ofNat (n % 2 ^ 32).toNat
  | none => 0

/-- A field of the record is set if its argument is given. -/
def setField (payload : Mem) (i : Nat) : Option (List UInt8) → Mem
  | none => payload
  | some text => Function.update payload i (scanByte text)

end Calls

section Commands

/-- The results of the socket calls of a command; `second` is for the packet that sets
the clock, after the one that reads it. -/
structure Session where
  netlink : Bool
  first : NlResult
  second : NlResult

variable (session : Session)

/-- `_stm_i2cnl_version`. -/
def version (t : CmdTool) : CmdResult :=
  (nlOpen session.netlink t).andThen fun t =>
    let t := { t with rxdata := t.rxdata.fill 0 0xff packetLen }
    let t := t.setHeader eventVersion (some (UInt8.ofNat headerLen)) 1
    (nlWrite session.first t).andThen (nlRead session.first 1)

/-- `_stm_i2cnl_rtc_get`. -/
def rtcGet (t : CmdTool) : CmdResult :=
  (nlOpen session.netlink t).andThen fun t =>
    let t := t.setHeader eventRtcGet (some (UInt8.ofNat headerLen)) (UInt8.ofNat rtcLen)
    ((nlWrite session.first t).andThen (nlRead session.first rtcLen)).andThen fun t =>
      (some .ok, { t with rtc := t.rtc.copy 0 t.rxdata rtcLen })

/-- `_stm_i2cnl_rtc_set`; an argument that is not given is the null pointer. -/
def rtcSet (hour min sec date month year : Option (List UInt8)) (t : CmdTool) : CmdResult :=
  (nlOpen session.netlink t).andThen fun t => (rtcGet session t).andThen fun t =>
    let t := t.setHeader eventRtcSet (some (UInt8.ofNat (rtcLen + headerLen)))
      (UInt8.ofNat rtcLen)
    let payload := t.txdata.payload.copy 0 t.rtc rtcLen
    let payload := setField (setField (setField payload 0 hour) 1 min) 2 sec
    let payload := setField (setField (setField payload 21 month) 22 date) 23 year
    let t := { t with txdata := { t.txdata with payload } }
    (nlWrite session.second t).andThen (nlRead session.second rtcLen)

/-- The four assignments of `_stm_i2cnl_vst_set`; each of them is to the first byte. -/
def vstPayload (vvst : UInt32) (payload : Mem) : Mem :=
  let payload := Function.update payload 0 (vvst &&& 0x000000ff).toUInt8
  let payload := Function.update payload 0 ((vvst &&& 0x0000ff00) >>> 8).toUInt8
  let payload := Function.update payload 0 ((vvst &&& 0x00ff0000) >>> 16).toUInt8
  Function.update payload 0 ((vvst &&& 0xff000000) >>> 24).toUInt8

/-- `_stm_i2cnl_vst_set`. -/
def vstSet (vst : List UInt8) (t : CmdTool) : CmdResult :=
  (nlOpen session.netlink t).andThen fun t =>
    let t := t.setHeader eventVstSet none 0xff
    let payload := vstPayload (scanWord vst) t.txdata.payload
    let t := { t with txdata := { t.txdata with payload } }
    (nlWrite session.first t).andThen (nlRead session.first 16)

/-- `_stm_i2cnl_stdbycd_get`. -/
def stdbycdGet (t : CmdTool) : CmdResult :=
  (nlOpen session.netlink t).andThen fun t =>
    let t := { t with rxdata := t.rxdata.fill 0 0xff 64 }
    let t := t.setHeader eventStdbyCd none 0x10
    ((nlWrite session.first t).andThen (nlRead session.first packetLen)).andThen fun t =>
      let countdown := t.rxdata 0 ||| t.rxdata 1 ||| t.rxdata 2 ||| t.rxdata 3
      (some .ok, { t with stdbycd := t.stdbycd ||| countdown.toUInt32 })

/-- `_stm_i2cnl_cpu_reset`. -/
def cpuReset (t : CmdTool) : CmdResult :=
  (nlOpen session.netlink t).andThen fun t =>
    nlWrite session.first (t.setHeader eventCycPowerCpu none 0xff)

/-- The commands with their arguments. -/
inductive Command where
  | version
  | rtcGet
  | rtcSet (hour min sec date month year : Option (List UInt8))
  | vstSet (vst : List UInt8)
  | stdbycdGet
  | cpuReset
  deriving DecidableEq

def Command.run : Command → CmdTool → CmdResult
  | .version => Speedway.Mcu.version session
  | .rtcGet => Speedway.Mcu.rtcGet session
  | .rtcSet hour min sec date month year =>
      Speedway.Mcu.rtcSet session hour min sec date month year
  | .vstSet vst => Speedway.Mcu.vstSet session vst
  | .stdbycdGet => Speedway.Mcu.stdbycdGet session
  | .cpuReset => Speedway.Mcu.cpuReset session

/-- What `main` does: it prints something, runs a command or the upgrade, or reads
through the null pointer. -/
inductive Invocation where
  | message
  | command (c : Command)
  | upgrade
  | crash
  deriving DecidableEq

/-- `main`. The arguments after the last one are the null pointer. -/
def main (argv : List (List UInt8)) : Invocation :=
  match argv[1]? with
  | none => .message
  | some arg =>
      if arg = ascii "--help" then .message
      else if arg = ascii "--version" then .command .version
      else if arg = ascii "--rtc-get-time" then .command .rtcGet
      else if arg = ascii "--rtc-get-date" then .command .rtcGet
      else if arg = ascii "--rtc-set-time" then
        if argv.length ≠ 5 then .message
        else .command (.rtcSet argv[3]? argv[4]? argv[5]? none none none)
      else if arg = ascii "--rtc-set-date" then
        if argv.length ≠ 5 then .message
        else .command (.rtcSet none none none argv[3]? argv[4]? argv[5]?)
      else if arg = ascii "--upgrade" then .upgrade
      else if arg = ascii "--vst-set" then
        if argv.length ≠ 3 then .message
        else match argv[3]? with
          | none => .crash
          | some vst => .command (.vstSet vst)
      else match argv[2]? with
        | none => .crash
        | some arg2 =>
            if arg2 = ascii "--stdby-cd" then .command .stdbycdGet
            else if arg = ascii "--cpu-reset" then .command .cpuReset
            else .message

end Commands

end Speedway.Mcu
