import Mathlib.Algebra.Group.Nat.Defs
import Speedway.Lib.StopWait

/-!
# The MCU upgrade

`stm-i2c-tool` reads the firmware file in pieces of 56 bytes and sends one
packet after the other through a netlink socket to the kernel module
`stm-i2c-link`, which passes it on with `i2c_master_send` and answers. The
results of the netlink and I2C calls are parameters.
-/

namespace Speedway.Mcu

open Speedway.Lib

/-- The `STMI2C_` status codes. -/
inductive Stat where
  | ok
  | error
  | reset
  | erase
  | write
  | busy
  | cmpt
  | timeout
  deriving DecidableEq

/-- `enum upgrade_stat`. -/
inductive UpgradeStat where
  | trigger
  | ing
  | checksum
  | finish
  | ckmFlag
  deriving DecidableEq

def UpgradeStat.code : UpgradeStat → UInt8
  | .trigger => 1
  | .ing => 2
  | .checksum => 3
  | .finish => 4
  | .ckmFlag => 5

/-- `I2C_PACKET_LEN`. -/
def packetLen : Nat := 64

/-- `I2C_HEADER_LEN`. -/
def headerLen : Nat := 8

/-- `I2C_PAYLOAD_LEN`. -/
def payloadLen : Nat := packetLen - headerLen

/-- `EVENT_UPGRADE`. -/
def eventUpgrade : UInt8 := 0x12

/-- The other events that the kernel module passes on. -/
def eventsWithReply : List UInt8 := [0x01, 0x03, 0x04, 0x13, 0x14]

/-- `STMI2C_UpdHeader_TD`, six bytes. -/
structure UpdHeader where
  event : UInt8
  state : UInt8
  ckm : UInt8
  txlen : UInt8
  noHigh : UInt8
  noLow : UInt8
  deriving DecidableEq

/-- `STMI2C_UpdateBuffer_TD`. -/
structure UpdateBuffer where
  updheader : UpdHeader
  payload : List UInt8
  deriving DecidableEq

/-- The members of `STMI2C_File_TD` that the upgrade reads. -/
structure FwFile where
  fsize : Nat
  cursorPos : Nat
  bytesLeft : Nat
  packetNum : Nat
  state : UpgradeStat
  deriving DecidableEq

/-- `_stm_i2cnl_open_binary` on a file that exists: the size is kept as `uint32_t`. -/
def openBinary (file : List UInt8) : FwFile where
  fsize := file.length % 2 ^ 32
  cursorPos := 0
  bytesLeft := file.length % 2 ^ 32
  packetNum := 0
  state := .trigger

/-- The loop that reads `n` bytes one by one; a failed `fread` leaves the byte of
the round before. -/
def freadLoop (file : List UInt8) : Nat → Nat → UInt8 → List UInt8
  | 0, _, _ => []
  | n + 1, pos, byte => file[pos]?.getD byte :: freadLoop file n (pos + 1) (file[pos]?.getD byte)

/-- The buffer after `memset`. -/
def clearBuffer : UpdateBuffer where
  updheader := ⟨0xff, 0xff, 0xff, 0xff, 0xff, 0xff⟩
  payload := List.replicate payloadLen 0xff

/-- The buffer with event, state and length of an upgrade packet. -/
def upgradeBuffer (st : UpgradeStat) : UpdateBuffer :=
  { clearBuffer with
    updheader := { clearBuffer.updheader with
      event := eventUpgrade
      state := st.code
      txlen := UInt8.ofNat packetLen } }

structure ReadResult where
  stat : Stat
  fwfile : FwFile
  upddata : UpdateBuffer

/-- `_stm_i2cnl_read_binary`. -/
def readBinary (file : List UInt8) (fw : FwFile) : ReadResult :=
  if fw.state = .trigger then
    ⟨.erase, { fw with state := .ing }, upgradeBuffer .trigger⟩
  else if fw.bytesLeft = 0 then
    ⟨.cmpt, { fw with state := .finish }, upgradeBuffer .finish⟩
  else
    let bleft := min payloadLen fw.bytesLeft
    let bytes := freadLoop file bleft fw.cursorPos 0xff
    let packetNum := (fw.packetNum + 1) % 2 ^ 32
    let buffer := upgradeBuffer .ing
    ⟨.write,
      { fw with
        bytesLeft := fw.bytesLeft - bleft
        cursorPos := (fw.cursorPos + bleft) % 2 ^ 32
        packetNum := packetNum },
      { updheader := { buffer.updheader with
          noHigh := UInt8.ofNat (packetNum / 256)
          noLow := UInt8.ofNat packetNum }
        payload := bytes ++ buffer.payload.drop bleft }⟩

/-- The results of the system calls for one packet: `sendmsg` did not fail, what
`i2c_master_send` and `i2c_master_recv` return, the answer could be allocated and
sent, `recvmsg` did not fail. -/
structure Exchange where
  sendmsg : Bool
  i2cSend : Int
  i2cRecv : Int
  replied : Bool
  recvmsg : Bool
  deriving DecidableEq

/-- `_stm_i2c_transfer`. -/
def transfer (x : Exchange) (rxlen : Nat) : Stat :=
  if x.i2cSend = -1 then .error
  else if rxlen = 0 then .ok
  else if x.i2cRecv = -1 then .error
  else .ok

/-- What the kernel module does with a message: the status of the transfer, length
and result of `i2c_master_send` if it was called, and whether it answers. -/
structure KernelResult where
  stat : Stat
  i2c : Option (Nat × Int)
  replies : Bool

/-- `_stm_i2c_netlink_recv_msg`. The status is not part of the answer. -/
def netlinkRecvMsg (x : Exchange) (nlmsgLen : Nat) (nldata : List UInt8) : KernelResult :=
  if nlmsgLen % 256 = packetLen then
    let txlen := (nldata.getD 3 0).toNat
    if nldata.getD 0 0 = eventUpgrade then ⟨transfer x 0, some (txlen, x.i2cSend), x.replied⟩
    else if nldata.getD 0 0 ∈ eventsWithReply then
      ⟨transfer x (nldata.getD 7 0).toNat, some (txlen, x.i2cSend), x.replied⟩
    else ⟨.error, none, x.replied⟩
  else ⟨.error, none, false⟩

/-- The packet as sent: `I2C_PACKET_LEN` bytes from `upddata` on, which is two bytes
shorter, so that they end with the first two bytes of `txdata`. -/
def UpdateBuffer.wire (b : UpdateBuffer) (txHead : UInt8 × UInt8) : List UInt8 :=
  [b.updheader.event, b.updheader.state, b.updheader.ckm, b.updheader.txlen, b.updheader.noHigh,
    b.updheader.noLow] ++ b.payload ++ [txHead.1, txHead.2]

/-- A packet handed to `sendmsg`, with length and result of its `i2c_master_send`. -/
structure Attempt where
  packet : UpdateBuffer
  i2c : Option (Nat × Int)
  deriving DecidableEq

/-- `_stm_i2cnl_write` and `_stm_i2cnl_read` for one packet. The socket is blocking:
without an answer `recvmsg` does not return. -/
def exchangePacket (txHead : UInt8 × UInt8) (x : Exchange) (b : UpdateBuffer) :
    Attempt × Answer :=
  if x.sendmsg then
    let kernel := netlinkRecvMsg x packetLen (b.wire txHead)
    (⟨b, kernel.i2c⟩,
      if !x.recvmsg then .fails else if kernel.replies then .next else .hangs)
  else (⟨b, none⟩, .fails)

/-- The members of `STMI2C_Tool_TD` that the upgrade uses, and the packets sent. -/
structure Tool where
  fwfile : FwFile
  txHead : UInt8 × UInt8
  status : Stat
  attempts : List Attempt

section Definitions

variable (file : List UInt8) (link : Nat → Exchange)

/-- Write a packet and read the answer; `none` if that never returns. -/
def sendPacket (b : UpdateBuffer) (t : Tool) : Option Stat × Tool :=
  let r := exchangePacket t.txHead (link t.attempts.length) b
  let t' := { t with attempts := t.attempts ++ [r.1] }
  match r.2 with
  | .next => (some .ok, t')
  | .fails => (some .error, { t' with status := .error })
  | .hangs => (none, t')

/-- `_stm_i2cnl_upgrade_process`. -/
def upgradeProcess (t : Tool) : Option Stat × Tool :=
  let r := readBinary file t.fwfile
  let t' := { t with fwfile := r.fwfile }
  let header := r.upddata.updheader
  match r.stat with
  | .erase =>
      sendPacket link { r.upddata with updheader := { header with ckm := 0 } }
        { t' with status := .erase }
  | .write =>
      sendPacket link { r.upddata with
        updheader := { header with ckm := UInt8.ofNat r.fwfile.packetNum } }
        { t' with status := .write }
  | .cmpt =>
      let s := sendPacket link r.upddata t'
      if s.1 = some .ok then (some .cmpt, { s.2 with status := .cmpt }) else s
  | stat => (some stat, t')

/-- How the worker thread ends: it posts the semaphore after its last status, or a
call never returns. -/
inductive ThreadEnd where
  | posted (stat : Stat)
  | blocked
  | running
  deriving DecidableEq

/-- `_stm_i2cnl_threadFunc`, for at most `fuel` rounds. -/
def threadFunc : Nat → Tool → ThreadEnd × Tool
  | 0, t => (.running, t)
  | fuel + 1, t =>
      match upgradeProcess file link t with
      | (none, t') => (.blocked, t')
      | (some .cmpt, t') => (.posted .cmpt, t')
      | (some .error, t') => (.posted .error, t')
      | (some _, t') => threadFunc fuel t'

end Definitions

/-- What `_stm_i2cnl_upgrade` finds: the socket and the semaphore can be opened, and
the firmware file. -/
structure Setup where
  netlink : Bool
  semaphore : Bool
  file : Option (List UInt8)
  txHead : UInt8 × UInt8

/-- The return value, if the call returns, the end of the thread, if it was started,
and the packets sent. -/
structure UpgradeResult where
  ret : Option Nat
  thread : Option ThreadEnd
  attempts : List Attempt

/-- The tool when the thread is started. -/
def startTool (file : List UInt8) (txHead : UInt8 × UInt8) : Tool :=
  ⟨openBinary file, txHead, .ok, []⟩

/-- `sem_wait` and the return value of `_stm_i2cnl_upgrade`. -/
def ThreadEnd.upgradeReturns : ThreadEnd → Option Nat
  | .posted _ => some 0
  | .blocked | .running => none

/-- `_stm_i2cnl_upgrade`. The semaphore is posted by the thread only; the status of
the thread is not looked at. -/
def upgrade (s : Setup) (link : Nat → Exchange) : UpgradeResult :=
  if !s.netlink then ⟨some 1, none, []⟩
  else if !s.semaphore then ⟨some 1, none, []⟩
  else
    match s.file with
    | none => ⟨some 1, none, []⟩
    | some file =>
        let r := threadFunc file link (file.length + 2) (startTool file s.txHead)
        ⟨r.1.upgradeReturns, some r.1, r.2.attempts⟩

end Speedway.Mcu
