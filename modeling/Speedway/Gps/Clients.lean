import Speedway.Lib.Connection
import Speedway.Lib.Loop
import Speedway.Gps.Nmea

/-!
# Clients of the GPS daemon

`acceptServer` puts a new socket into a free slot, and `sendClients` writes the
newest GGA message and a line end to every slot. A write that fails closes the
socket and frees the slot. The abstract client is one connection on its own; the
table of slots does for each connection what its client does.
-/

namespace Speedway.Gps

open Speedway.Lib

def maxClients : Nat := 32

def crlf : List UInt8 := [0x0d, 0x0a]

/-- A connection and whether its socket is open. -/
structure GpsClient extends Connection UInt8 where
  isOpen : Bool := true

/-- What a client gets of one message. -/
def GpsClient.send (results : WriteResults) (k : GpsClient) (message : List UInt8) : GpsClient :=
  if k.isOpen then
    let r := writeAll (Connection.write results) message.length message k.toConnection
    if r.1 then
      let r' := r.2.write results crlf
      { toConnection := r'.2, isOpen := r'.1 == some 2 }
    else { toConnection := r.2, isOpen := false }
  else k

/-- A client that gets these messages. -/
def GpsClient.run (results : WriteResults) (messages : List (List UInt8)) : GpsClient :=
  messages.foldl (GpsClient.send results) {}

/-- The slots, the sockets by descriptor, and for each connection, by the order in which
they were accepted, what was delivered. The log has the messages that were sent; `joined` is
its length when a connection was put into a slot. -/
structure Clients where
  slots : List (Option Nat) := List.replicate maxClients none
  sockets : Nat → Option Nat := fun _ => none
  accepted : Nat := 0
  connections : Nat → Connection UInt8 := fun _ => {}
  messages : List (List UInt8) := []
  joined : Nat → Option Nat := fun _ => none

/-- `close`. -/
def Clients.close (s : Clients) (sock : Nat) : Clients :=
  { s with sockets := Function.update s.sockets sock none }

/-- `write`; without an open socket it is an error. -/
def Clients.write (results : Nat → WriteResults) (sock : Nat) (data : List UInt8) (s : Clients) :
    Option Nat × Clients :=
  match s.sockets sock with
  | none => (none, s)
  | some c =>
      let r := (s.connections c).write (results c) data
      (r.1, { s with connections := Function.update s.connections c r.2 })

/-- `acceptServer` with the result of `accept`. -/
def acceptServer (clientSocket : Option Nat) (s : Clients) : Clients :=
  match clientSocket with
  | none => s
  | some sock =>
      let s' := { s with
        sockets := Function.update s.sockets sock (some s.accepted)
        accepted := s.accepted + 1 }
      let num := s.slots.findIdx (·.isNone)
      if num < s.slots.length then
        { s' with
          slots := s.slots.set num (some sock)
          joined := Function.update s.joined s.accepted (some s.messages.length) }
      else s'.close sock

/-- `disconnectClient` for a slot with an open socket. -/
def disconnectClient (num sock : Nat) (s : Clients) : Clients :=
  { s.close sock with slots := s.slots.set num none }

/-- The part of `sendClients` for one slot. -/
def sendClient (results : Nat → WriteResults) (message : List UInt8) (s : Clients) (num : Nat) :
    Clients :=
  match s.slots.getD num none with
  | none => s
  | some sock =>
      let r := writeAll (Clients.write results sock) message.length message s
      if r.1 then
        let r' := r.2.write results sock crlf
        if r'.1 = some 2 then r'.2 else disconnectClient num sock r'.2
      else disconnectClient num sock r.2

/-- The newest GGA message, up to its end. -/
def ggaMessage (p : Parsed) : List UInt8 :=
  (p.gpsMsgArray p.idxOfNewestGGAMsg.toNat).message.takeWhile (· != 0)

/-- `sendClients`. -/
def sendClients (results : Nat → WriteResults) (p : Parsed) (s : Clients) : Clients :=
  if p.idxOfNewestGGAMsg = -1 then s
  else
    { (List.range maxClients).foldl (sendClient results (ggaMessage p)) s with
      messages := s.messages ++ [ggaMessage p] }

/-- What happens to the table; the server socket is there. -/
inductive ClientEvent where
  | accept (clientSocket : Option Nat)
  | send (p : Parsed)

def clientStep (results : Nat → WriteResults) (s : Clients) : ClientEvent → Clients
  | .accept clientSocket => acceptServer clientSocket s
  | .send p => sendClients results p s

/-- `accept` returns a descriptor that is not open. -/
def FreshSocket (s : Clients) (e : ClientEvent) : Prop :=
  ∀ sock, e = .accept (some sock) → s.sockets sock = none

section GpsClient

variable {results : WriteResults} {k : GpsClient} {message cut : List UInt8}
  {messages : List (List UInt8)}

/-- A part of the record of a message, and not all of it. -/
def CutRecord (message cut : List UInt8) : Prop :=
  cut <+: message ++ crlf ∧ cut ≠ message ++ crlf

/-- A client has whole records of the messages, in order, and then at most a part of one
more, with which it was closed. -/
def GpsClient.Whole (messages : List (List UInt8)) (k : GpsClient) : Prop :=
  ∃ records cut, k.bytes = (records.map (· ++ crlf)).flatten ++ cut ∧
    (k.isOpen = true → records = messages ∧ cut = []) ∧
    (k.isOpen = false → ∃ message rest, messages = records ++ message :: rest ∧
      CutRecord message cut)

theorem cutRecord_of_part (h : cut <+: message) : CutRecord message cut := by
  refine ⟨h.trans (List.prefix_append message crlf), ?_⟩
  intro hwhole
  have hlength := h.length_le
  rw [hwhole, List.length_append] at hlength
  exact absurd hlength (by simp [crlf])

theorem cutRecord_of_end {n : Nat} (h : n < 2) : CutRecord message (message ++ crlf.take n) := by
  refine ⟨List.prefix_append_right_inj message |>.mpr (List.take_prefix n crlf), ?_⟩
  intro hwhole
  have hlength := congrArg List.length hwhole
  simp [crlf] at hlength
  omega

/-- The number of characters that a write of the line end takes. -/
theorem write_crlf (results : WriteResults) (c : Connection UInt8) :
    (c.write results crlf).1 ≠ some 2 → (c.write results crlf).1.getD 0 < 2 := by
  rw [Connection.write]
  split
  · exact fun _ => Nat.zero_lt_two
  next n _ =>
    intro hne
    have hlt : n.val < 2 := n.isLt
    have hne' : n.val + 1 ≠ 2 := fun heq => hne (congrArg some heq)
    show n.val + 1 < 2
    omega

/-- One more message. -/
theorem GpsClient.Whole.send (h : k.Whole messages) (message : List UInt8) :
    (k.send results message).Whole (messages ++ [message]) := by
  obtain ⟨records, cut, hbytes, hopen, hclosed⟩ := h
  cases hk : k.isOpen with
  | false =>
      obtain ⟨next, rest, hmessages, hcut⟩ := hclosed hk
      rw [GpsClient.send, hk, if_neg Bool.false_ne_true]
      refine ⟨records, cut, hbytes, fun hopen' => ?_, fun _ => ⟨next, rest ++ [message], ?_, hcut⟩⟩
      · rw [hk] at hopen'
        exact nomatch hopen'
      · rw [hmessages, List.append_assoc, List.cons_append]
  | true =>
      obtain ⟨rfl, rfl⟩ := hopen hk
      rw [List.append_nil] at hbytes
      obtain ⟨sent, hsent, hpart, hall⟩ :=
        writeAll_delivers results (Nat.le_refl message.length) k.toConnection
      rw [GpsClient.send, hk, if_pos rfl]
      generalize writeAll (Connection.write results) message.length message k.toConnection = r
        at hsent hall
      cases hr : r.1 with
      | false =>
          simp only [hr, Bool.false_eq_true, if_false]
          refine ⟨records, sent, hsent.trans (by rw [hbytes]), nofun, fun _ => ?_⟩
          exact ⟨message, [], rfl, cutRecord_of_part hpart⟩
      | true =>
          obtain rfl := hall.mp hr
          have hend := r.2.write_bytes results crlf
          simp only [hr, if_true]
          by_cases htwo : (r.2.write results crlf).1 = some 2
          · refine ⟨records ++ [sent], [], ?_, fun _ => ⟨rfl, rfl⟩, fun hno => ?_⟩
            · rw [hend, htwo, hsent, hbytes]
              simp [crlf]
            · rw [htwo] at hno
              exact nomatch hno
          · refine ⟨records, sent ++ crlf.take ((r.2.write results crlf).1.getD 0), ?_,
              fun hyes => absurd (beq_iff_eq.mp hyes) htwo, fun _ => ?_⟩
            · rw [hend, hsent, hbytes, List.append_assoc]
            · exact ⟨sent, [], rfl, cutRecord_of_end (write_crlf results r.2 htwo)⟩

theorem GpsClient.run_whole (results : WriteResults) (messages : List (List UInt8)) :
    (GpsClient.run results messages).Whole messages := by
  induction messages using List.reverseRecOn with
  | nil => exact ⟨[], [], rfl, fun _ => ⟨rfl, rfl⟩, nofun⟩
  | append_singleton messages message ih =>
      rw [GpsClient.run, List.foldl_append]
      exact ih.send message

/-- Nothing is written to a client that was closed. -/
theorem GpsClient.foldl_closed (h : k.isOpen = false) (messages : List (List UInt8)) :
    messages.foldl (GpsClient.send results) k = k := by
  induction messages with
  | nil => rfl
  | cons message messages ih =>
      rw [List.foldl_cons, GpsClient.send, h, if_neg Bool.false_ne_true]
      exact ih

end GpsClient

end Speedway.Gps
