import Speedway.Lib.Memory
import Speedway.Mcu.Upgrade

/-!
# The buffer of the netlink handler

`_stm_i2c_netlink_recv_msg` takes the lengths of the I2C transfer from two bytes of the
message, receives into a buffer of 64 bytes on its stack and copies the answer from
there. Here the handler is modelled with that memory; `netlinkRecvMsg` is what the
upgrade sees of it.
-/

namespace Speedway.Mcu

open Speedway.Lib

section Model

/-- The results of the calls for one message: what `i2c_master_send` and
`i2c_master_recv` return, the bytes that were received, and whether `nlmsg_new` finds
memory. -/
structure Bus where
  i2cSend : Int
  i2cRecv : Int
  received : List UInt8
  allocated : Bool

/-- An access to the payload of the message or to `i2crxdata`. -/
inductive BufferOp where
  | send (len : Nat)
  | receive (len : Nat)
  | copy (len : Nat)
  deriving DecidableEq

/-- `i2c_master_recv` into a buffer. -/
def Bus.receive (bus : Bus) (rxdata : Mem) (rxlen : Nat) : Mem :=
  let stored := bus.received.take rxlen
  rxdata.copy 0 (fun i => stored.getD i 0) stored.length

/-- The status, the buffer and the accesses of a transfer. -/
structure Transfer where
  stat : Stat
  rxdata : Mem
  ops : List BufferOp

/-- `_stm_i2c_transfer` with its buffer. -/
def Bus.transfer (bus : Bus) (rxdata : Mem) (txlen rxlen : Nat) : Transfer :=
  if bus.i2cSend = -1 then ⟨.error, rxdata, [.send txlen]⟩
  else if rxlen = 0 then ⟨.ok, rxdata, [.send txlen]⟩
  else
    ⟨if bus.i2cRecv = -1 then .error else .ok, bus.receive rxdata rxlen,
      [.send txlen, .receive rxlen]⟩

/-- What the handler does with a message; no answer if it is not accepted or there is
no memory. -/
structure Handled where
  stat : Stat
  ops : List BufferOp
  reply : Option (List UInt8)

/-- The length of the answer that is asked for. -/
def replyLen (nldata : Mem) : Nat :=
  if nldata 0 = eventUpgrade then 0
  else if nldata 0 ∈ eventsWithReply then (nldata 7).toNat
  else 0

/-- The length of an answer, which is never 0. -/
def answerLen (nldata : Mem) : Nat := if replyLen nldata = 0 then 16 else replyLen nldata

/-- The transfer for the event of a message. -/
def Bus.dispatch (bus : Bus) (i2crxdata nldata : Mem) : Transfer :=
  if nldata 0 = eventUpgrade ∨ nldata 0 ∈ eventsWithReply then
    bus.transfer i2crxdata (nldata 3).toNat (replyLen nldata)
  else ⟨.error, i2crxdata, []⟩

/-- `_stm_i2c_netlink_recv_msg` with the payload `nldata` and the memory from
`i2crxdata` on. Only eight bits of the length are compared. -/
def handleMsg (bus : Bus) (i2crxdata : Mem) (nlmsgLen : Nat) (nldata : Mem) : Handled :=
  if nlmsgLen % 256 = packetLen then
    let t := bus.dispatch i2crxdata nldata
    let rxlen := answerLen nldata
    if bus.allocated then ⟨t.stat, t.ops ++ [.copy rxlen], some (t.rxdata.bytes rxlen)⟩
    else ⟨t.stat, t.ops, none⟩
  else ⟨.error, [], none⟩

/-- What the upgrade sees of the calls. -/
def Bus.exchange (bus : Bus) : Exchange where
  sendmsg := true
  i2cSend := bus.i2cSend
  i2cRecv := bus.i2cRecv
  replied := bus.allocated
  recvmsg := true

/-- The length of the packet that was sent on. -/
def Handled.sent (h : Handled) : Option Nat :=
  h.ops.findSome? fun
    | .send len => some len
    | _ => none

theorem Bus.transfer_stat (bus : Bus) (rxdata : Mem) (txlen rxlen : Nat) :
    (bus.transfer rxdata txlen rxlen).stat = Speedway.Mcu.transfer bus.exchange rxlen := by
  rw [Bus.transfer, Speedway.Mcu.transfer]
  split_ifs <;> simp_all [Bus.exchange]

theorem Bus.transfer_ops (bus : Bus) (rxdata : Mem) (txlen rxlen : Nat) :
    (bus.transfer rxdata txlen rxlen).ops = .send txlen ::
      if bus.i2cSend = -1 ∨ rxlen = 0 then [] else [.receive rxlen] := by
  rw [Bus.transfer]
  split_ifs <;> simp_all

/-- The upgrade sees the status, the packet and whether there is an answer. -/
theorem handleMsg_refines (bus : Bus) (i2crxdata : Mem) (nlmsgLen : Nat) (nldata : Mem) :
    netlinkRecvMsg bus.exchange nlmsgLen (nldata.bytes 8) =
      ⟨(handleMsg bus i2crxdata nlmsgLen nldata).stat,
        (handleMsg bus i2crxdata nlmsgLen nldata).sent.map (·, bus.i2cSend),
        (handleMsg bus i2crxdata nlmsgLen nldata).reply.isSome⟩ := by
  have hevent : (nldata.bytes 8).getD 0 0 = nldata 0 := rfl
  have htxlen : (nldata.bytes 8).getD 3 0 = nldata 3 := rfl
  have hrxlen : (nldata.bytes 8).getD 7 0 = nldata 7 := rfl
  rw [netlinkRecvMsg, handleMsg, hevent, htxlen, hrxlen]
  by_cases hlen : nlmsgLen % 256 = packetLen
  · rw [if_pos hlen, if_pos hlen]
    by_cases hup : nldata 0 = eventUpgrade
    · cases hbus : bus.allocated <;>
        simp [hup, Bus.dispatch, replyLen, Bus.transfer_stat, Bus.transfer_ops, Handled.sent,
          Bus.exchange, hbus]
    · by_cases hreply : nldata 0 ∈ eventsWithReply
      · cases hbus : bus.allocated <;>
          simp [hup, hreply, Bus.dispatch, replyLen, Bus.transfer_stat, Bus.transfer_ops,
            Handled.sent, Bus.exchange, hbus]
      · cases hbus : bus.allocated <;>
          simp [hup, hreply, Bus.dispatch, Handled.sent, Bus.exchange, hbus]
  · rw [if_neg hlen, if_neg hlen]
    rfl

end Model

section Bounds

/-- `sizeof(i2crxdata)`. -/
def bufferLen : Nat := 64

/-- The netlink header in front of the payload. -/
def nlmsgHdrLen : Nat := 16

/-- An access that stays inside the payload and the buffer. -/
def BufferOp.InBounds (nlmsgLen : Nat) : BufferOp → Prop
  | .send len => len ≤ nlmsgLen - nlmsgHdrLen
  | .receive len => len ≤ bufferLen
  | .copy len => len ≤ bufferLen

/-- The lengths in a message of one of the events fit. -/
def LengthsFit (nlmsgLen : Nat) (nldata : Mem) : Prop :=
  nldata 0 = eventUpgrade ∨ nldata 0 ∈ eventsWithReply →
    (nldata 3).toNat ≤ nlmsgLen - nlmsgHdrLen ∧ replyLen nldata ≤ bufferLen

/-- The accesses for an accepted message. -/
theorem handleMsg_ops (bus : Bus) (i2crxdata : Mem) {nlmsgLen : Nat} (nldata : Mem)
    (hlen : nlmsgLen % 256 = packetLen) :
    (handleMsg bus i2crxdata nlmsgLen nldata).ops =
      (bus.dispatch i2crxdata nldata).ops ++
        if bus.allocated then [.copy (answerLen nldata)] else [] := by
  rw [handleMsg, if_pos hlen]
  split_ifs <;> simp

theorem dispatch_inBounds {nlmsgLen : Nat} {nldata : Mem} (hfit : LengthsFit nlmsgLen nldata)
    (bus : Bus) (i2crxdata : Mem) :
    ∀ op ∈ (bus.dispatch i2crxdata nldata).ops, op.InBounds nlmsgLen := by
  intro op hop
  rw [Bus.dispatch] at hop
  split_ifs at hop with hevent
  · obtain ⟨htx, hrx⟩ := hfit hevent
    rw [Bus.transfer_ops, List.mem_cons] at hop
    rcases hop with rfl | hop
    · exact htx
    · split_ifs at hop
      · exact nomatch hop
      · rw [List.mem_singleton.mp hop]
        exact hrx
  · exact nomatch hop

/-- Without one of the events no length is taken from the message. -/
theorem replyLen_eq_zero {nldata : Mem}
    (hevent : ¬ (nldata 0 = eventUpgrade ∨ nldata 0 ∈ eventsWithReply)) : replyLen nldata = 0 := by
  rw [replyLen, if_neg (mt Or.inl hevent), if_neg (mt Or.inr hevent)]

theorem replyLen_le_answerLen (nldata : Mem) : replyLen nldata ≤ answerLen nldata := by
  rw [answerLen]
  split_ifs <;> omega

theorem answerLen_le {nlmsgLen : Nat} {nldata : Mem} (hfit : LengthsFit nlmsgLen nldata) :
    answerLen nldata ≤ bufferLen := by
  rw [answerLen]
  split_ifs with hzero
  · decide
  · apply (hfit _).2
    by_contra hevent
    exact hzero (replyLen_eq_zero hevent)

/-- The handler stays inside the payload and its buffer, whatever the calls return,
exactly for the messages whose lengths fit. -/
theorem handleMsg_inBounds_iff (nlmsgLen : Nat) (nldata : Mem) :
    (∀ (bus : Bus) (i2crxdata : Mem), ∀ op ∈ (handleMsg bus i2crxdata nlmsgLen nldata).ops,
        op.InBounds nlmsgLen) ↔
      (nlmsgLen % 256 = packetLen → LengthsFit nlmsgLen nldata) := by
  constructor
  · intro h hlen hevent
    have hops := h ⟨0, 0, [], true⟩ (fun _ => 0)
    rw [handleMsg_ops _ _ _ hlen, Bus.dispatch, if_pos hevent, Bus.transfer_ops] at hops
    refine ⟨hops (.send (nldata 3).toNat) (by simp), ?_⟩
    have hcopy : answerLen nldata ≤ bufferLen := hops (.copy _) (by simp)
    exact (replyLen_le_answerLen nldata).trans hcopy
  · intro h bus i2crxdata op hop
    by_cases hlen : nlmsgLen % 256 = packetLen
    · rw [handleMsg_ops _ _ _ hlen, List.mem_append] at hop
      rcases hop with hop | hop
      · exact dispatch_inBounds (h hlen) bus i2crxdata op hop
      · split_ifs at hop with hbus
        · rw [List.mem_singleton.mp hop]
          exact answerLen_le (h hlen)
        · exact nomatch hop
    · rw [handleMsg, if_neg hlen] at hop
      exact nomatch hop

/-- A message with some first bytes. -/
def messageOf (bytes : List UInt8) : Mem := fun i => bytes.getD i 0

/-- The message of `_stm_i2cnl_vst_set` asks for 255 bytes, and an upgrade packet has 64
bytes to send where the payload ends after 48. -/
theorem handleMsg_out_of_bounds :
    (∃ op ∈ (handleMsg ⟨64, 255, [], true⟩ (fun _ => 0) 64
        (messageOf [0x13, 0, 0, 0, 0, 0, 0, 0xff])).ops,
      op = .receive 255 ∧ ¬ op.InBounds 64) ∧
    (∃ op ∈ (handleMsg ⟨64, 0, [], true⟩ (fun _ => 0) 64 (messageOf [0x12, 1, 0, 64])).ops,
      op = .send 64 ∧ ¬ op.InBounds 64) := by
  constructor
  · refine ⟨.receive 255, by decide, rfl, ?_⟩
    show ¬ 255 ≤ bufferLen
    decide
  · refine ⟨.send 64, by decide, rfl, ?_⟩
    show ¬ 64 ≤ 64 - nlmsgHdrLen
    decide

end Bounds

section Leak

variable {bus : Bus} {nldata : Mem}

/-- The number of bytes of the buffer that were received. -/
def Bus.filled (bus : Bus) (nldata : Mem) : Nat :=
  if bus.i2cSend = -1 then 0 else min (replyLen nldata) bus.received.length

theorem receive_apply (bus : Bus) (rxdata : Mem) (rxlen i : Nat) :
    bus.receive rxdata rxlen i =
      if i < min rxlen bus.received.length then bus.received.getD i 0 else rxdata i := by
  rw [Bus.receive, Mem.copy, List.length_take]
  by_cases hi : i < min rxlen bus.received.length
  · rw [if_pos (by omega), if_pos hi]
    have hlt : i < rxlen := by omega
    simp [List.getD_eq_getElem?_getD, hlt]
  · rw [if_neg (by omega), if_neg hi]

/-- The buffer after the transfer: what was received, and then what was there before. -/
theorem dispatch_rxdata (i2crxdata : Mem) (i : Nat) :
    (bus.dispatch i2crxdata nldata).rxdata i =
      if i < bus.filled nldata then bus.received.getD i 0 else i2crxdata i := by
  rw [Bus.dispatch, Bus.filled]
  by_cases hevent : nldata 0 = eventUpgrade ∨ nldata 0 ∈ eventsWithReply
  · rw [if_pos hevent, Bus.transfer]
    by_cases hsend : bus.i2cSend = -1
    · simp [hsend]
    · by_cases hzero : replyLen nldata = 0
      · simp [hsend, hzero]
      · rw [if_neg hsend, if_neg hzero, if_neg hsend]
        exact receive_apply bus i2crxdata (replyLen nldata) i
  · simp [hevent, replyLen_eq_zero hevent]

theorem handleMsg_reply (i2crxdata : Mem) {nlmsgLen : Nat} (nldata : Mem)
    (hlen : nlmsgLen % 256 = packetLen) (hbus : bus.allocated = true) :
    (handleMsg bus i2crxdata nlmsgLen nldata).reply =
      some ((bus.dispatch i2crxdata nldata).rxdata.bytes (answerLen nldata)) := by
  rw [handleMsg, if_pos hlen]
  simp only [hbus, if_true]

theorem handleMsg_no_reply (i2crxdata : Mem) {nlmsgLen : Nat} (nldata : Mem)
    (h : ¬ (nlmsgLen % 256 = packetLen ∧ bus.allocated = true)) :
    (handleMsg bus i2crxdata nlmsgLen nldata).reply = none := by
  rw [handleMsg]
  by_cases hlen : nlmsgLen % 256 = packetLen
  · rw [if_pos hlen, if_neg fun hbus => h ⟨hlen, hbus⟩]
  · rw [if_neg hlen]

/-- The answer is taken from the buffer, and has nothing of what was in memory before. -/
structure Independent (bus : Bus) (nlmsgLen : Nat) (nldata : Mem) : Prop where
  inside : ∀ before reply, (handleMsg bus before nlmsgLen nldata).reply = some reply →
    reply.length ≤ bufferLen
  same : ∀ before before' : Mem,
    (handleMsg bus before nlmsgLen nldata).reply = (handleMsg bus before' nlmsgLen nldata).reply

/-- All bytes of the answer lie in the buffer and were received. -/
def Bus.Fills (bus : Bus) (nldata : Mem) : Prop :=
  bus.i2cSend ≠ -1 ∧ 0 < replyLen nldata ∧ replyLen nldata ≤ bus.received.length ∧
    replyLen nldata ≤ bufferLen

theorem fills_iff : bus.Fills nldata ↔
    answerLen nldata ≤ bufferLen ∧ answerLen nldata ≤ bus.filled nldata := by
  rw [Bus.Fills, Bus.filled, answerLen, bufferLen]
  split_ifs <;> omega

/-- The answer depends on the message and the received bytes only, exactly if there is
no answer or all of it was received into the buffer. -/
theorem reply_independent_iff (bus : Bus) (nlmsgLen : Nat) (nldata : Mem) :
    Independent bus nlmsgLen nldata ↔
      (nlmsgLen % 256 = packetLen → bus.allocated = true → bus.Fills nldata) := by
  constructor
  · rintro ⟨hinside, hsame⟩ hlen hbus
    rw [fills_iff]
    refine ⟨?_, ?_⟩
    · have hlength := hinside (fun _ => 0) _ (handleMsg_reply _ _ hlen hbus)
      rwa [Mem.length_bytes] at hlength
    · -- Two memories that differ everywhere: a byte of the answer that was not received
      -- would differ.
      have hreply := hsame (fun _ => 1) (fun _ => 0)
      rw [handleMsg_reply _ _ hlen hbus, handleMsg_reply _ _ hlen hbus, Option.some_inj,
        Mem.bytes_eq_iff] at hreply
      by_contra hnot
      have hbyte := hreply (bus.filled nldata) (by omega)
      rw [dispatch_rxdata, dispatch_rxdata, if_neg (lt_irrefl _), if_neg (lt_irrefl _)] at hbyte
      exact absurd hbyte (by decide)
  · intro h
    by_cases hboth : nlmsgLen % 256 = packetLen ∧ bus.allocated = true
    · obtain ⟨hfits, hfilled⟩ := fills_iff.mp (h hboth.1 hboth.2)
      have hreply (before : Mem) := handleMsg_reply before nldata hboth.1 hboth.2
      refine ⟨fun before reply hsome => ?_, fun before before' => ?_⟩
      · rw [hreply, Option.some_inj] at hsome
        rwa [← hsome, Mem.length_bytes]
      · rw [hreply, hreply, Option.some_inj, Mem.bytes_eq_iff]
        intro i hi
        have hin : i < bus.filled nldata := Nat.lt_of_lt_of_le hi hfilled
        rw [dispatch_rxdata, dispatch_rxdata, if_pos hin, if_pos hin]
    · have hnone (before : Mem) := handleMsg_no_reply before nldata hboth
      refine ⟨fun before reply hsome => ?_, fun before before' => ?_⟩
      · rw [hnone] at hsome
        cases hsome
      · rw [hnone, hnone]

/-- The answer to an upgrade packet is 16 bytes of whatever was on the stack. -/
theorem reply_leaks_stack :
    (handleMsg ⟨64, 0, [], true⟩ (fun i => if i < bufferLen then 1 else 0) 64
        (messageOf [0x12, 1, 0, 64])).reply = some (List.replicate 16 1) ∧
      (handleMsg ⟨64, 0, [], true⟩ (fun _ => 0) 64 (messageOf [0x12, 1, 0, 64])).reply =
        some (List.replicate 16 0) ∧
      ¬ Independent ⟨64, 0, [], true⟩ 64 (messageOf [0x12, 1, 0, 64]) := by
  refine ⟨by decide, by decide, ?_⟩
  intro h
  have hsame := h.same (fun i => if i < bufferLen then 1 else 0) fun _ => 0
  exact absurd hsame (by decide)

end Leak

end Speedway.Mcu
