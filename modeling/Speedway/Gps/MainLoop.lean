import Speedway.Gps.Batch
import Speedway.Gps.Geohash
import Speedway.Gps.Taip

/-!
# The rounds of the main loop

Each round reads the clock, waits for a burst, writes the status file and then goes over
the hosts: a host without a socket is connected, a host with a rate is passed over until
its time is up, and the others are sent the data of the burst. What the system calls
return is given with the round. `latestTAIPSentence` is one variable for all hosts.
-/

namespace Speedway.Gps

open Speedway.Lib

section Hosts

/-- The messages of a burst and the values in them. -/
structure Messages where
  parsed : Parsed
  readings : Nat → Readings

/-- What `write` or `sendto` returns; an error may mean that the receiver is not ready
(`ENOENT`, `ECONNREFUSED`). -/
inductive SendResult where
  | sent (n : Nat)
  | failed (notReady : Bool)

/-- The conversion to `int`. -/
def toInt32 (n : Int) : Int := Int.bmod n (2 ^ 32)

/-- The loop of `sendData` with `len` bytes left, for at most `fuel` calls: its result, and
whether the socket is still open. -/
def sendLoop (connection : GpsConnection) (results : Nat → SendResult) :
    Nat → Nat → Nat → Nat → Int × Bool
  | 0, _, offset, _ => (offset, true)
  | fuel + 1, call, offset, len =>
      if len = 0 then (offset, true)
      else match connection, results call with
        | .disabled, _ => (-1, true)
        | .internal, .failed true => (len, true)
        | _, .failed _ => (-1, false)
        | _, .sent 0 => (offset, true)
        | _, .sent n =>
            let taken := min n len
            sendLoop connection results fuel (call + 1) (offset + taken) (len - taken)

/-- `sendData`; every call but the last takes at least one byte. -/
def sendData (connection : GpsConnection) (results : Nat → SendResult) (data : List UInt8) :
    Int × Bool :=
  sendLoop connection results (data.length + 1) 0 0 data.length

/-- `connectServer`: whether the host has a socket afterwards. -/
def connectServer (host : GpsHost) (connects : Bool) : Bool :=
  match host.connection with
  | .disabled => false
  | _ => connects

variable (conv : Conversions)

/-- The sentence for a host. -/
def Messages.taip (m : Messages) (host : GpsHost) : List UInt8 :=
  buildTAIPSentence conv m.readings m.parsed.idxOfNewestGGAMsg m.parsed.idxOfNewestVTGMsg host

/-- What `sendHostData` returns and leaves. -/
structure HostResult where
  success : Bool
  sock : Bool
  latestTAIPSentence : List UInt8

/-- `sendHostData`. An empty TAIP sentence is not sent, and that is a success. -/
def sendHostData (host : GpsHost) (sendToLuci : Bool) (m : Messages) (latest : List UInt8)
    (results : Nat → SendResult) : HostResult :=
  let latest := if host.output = .taip then m.taip conv host else latest
  match (hostData host sendToLuci m.parsed latest).data with
  | none => ⟨false, true, latest⟩
  | some data =>
      if host.output = .taip ∧ data = [] then ⟨true, true, latest⟩
      else
        let r := sendData host.connection results data
        ⟨decide (0 < r.1), r.2, latest⟩

end Hosts

section Status

/-- The values in the status file. -/
structure StatusFile where
  latitude : ℚ
  longitude : ℚ
  altitude : ℚ
  geohash : List UInt8
  nmea : List UInt8
  lastUpdate : Int

def geohashPrecision : Nat := 12

/-- The geohash in the status file. -/
def statusHash (latitude longitude : ℚ) : List UInt8 :=
  let r := geohashEncode latitude longitude (fun _ => 0) geohashPrecision
  if r.1 = false ∨ (|latitude| < 1 / 10000 ∧ |longitude| < 1 / 10000) then ascii "7zzzzzzzzzzz"
  else cText (r.2.bytes (geohashPrecision + 2))

/-- `writeGPSStatusFile`, for the first host; the file is written if there is a position and
it can be opened. -/
def writeGPSStatusFile (host : GpsHost) (m : Messages) (latest : List UInt8) (opens : Bool)
    (now : Int) : Option StatusFile :=
  if m.parsed.idxOfNewestGGAMsg < 0 ∨ opens = false then none
  else
    let gga := m.readings m.parsed.idxOfNewestGGAMsg.toNat
    some
      { latitude := gga.latitude
        longitude := gga.longitude
        altitude := gga.altitude
        geohash := statusHash gga.latitude gga.longitude
        nmea :=
          if host.output = .taip then latest else replaceStation host (ggaMessage m.parsed)
        lastUpdate := now }

end Status

section Rounds

/-- The members of a host that change in the loop. -/
structure HostLink where
  /-- There is a socket. -/
  sock : Bool
  lastSend : Int
  lastConnect : Int

/-- What the calls for one host return in a round. -/
structure Turn where
  connects : Bool
  /-- The time at which `sendHostData` is called. -/
  time : Int
  results : Nat → SendResult

/-- What a round depends on: the clock before the burst, the burst, what comes of opening
the status file, and the calls for the hosts. -/
structure Round where
  now : Int
  messages : Messages
  opens : Bool
  written : Int
  turns : Nat → Turn

inductive MainEvent where
  | status (messages : Messages) (file : StatusFile)
  | sent (hostNum : Nat) (messages : Messages) (time : Int) (success : Bool)

structure MainState where
  links : Nat → HostLink
  latestTAIPSentence : List UInt8
  log : List MainEvent

def MainState.initial : MainState := ⟨fun _ => ⟨false, 0, 0⟩, [], []⟩

/-- A host without a socket is connected, but not again within five seconds. -/
def HostLink.connect (link : HostLink) (host : GpsHost) (now : Int) (connects : Bool) : HostLink :=
  if link.sock then link
  else
    let diff := toInt32 (now - link.lastConnect)
    if 0 ≤ diff ∧ diff ≤ 5 then link
    else { link with lastConnect := now, sock := connectServer host connects }

/-- The time of a host is up. -/
def isDue (rate : Nat) (now lastSend : Int) : Bool :=
  if 0 < rate then
    let diff := toInt32 (now - lastSend)
    !(decide (0 ≤ diff) && decide (diff < toInt32 rate))
  else true

variable (conv : Conversions) (o : Options)

/-- One host in a round. -/
def hostTurn (r : Round) (st : MainState) (hostNum : Nat) : MainState :=
  let host := o.hosts hostNum
  let turn := r.turns hostNum
  let link := (st.links hostNum).connect host r.now turn.connects
  if link.sock = true ∧ isDue host.rate r.now link.lastSend = true then
    let s := sendHostData conv host (hostNum == 0) r.messages st.latestTAIPSentence turn.results
    { links := Function.update st.links hostNum
        { link with sock := s.sock, lastSend := if s.success then r.now else link.lastSend }
      latestTAIPSentence := s.latestTAIPSentence
      log := st.log ++ [.sent hostNum r.messages turn.time s.success] }
  else { st with links := Function.update st.links hostNum link }

/-- The status file in a round. -/
def statusStep (r : Round) (st : MainState) : MainState :=
  { st with
    log := st.log ++ ((writeGPSStatusFile (o.hosts 0) r.messages st.latestTAIPSentence r.opens
      r.written).map (.status r.messages)).toList }

def mainRound (st : MainState) (r : Round) : MainState :=
  (List.range o.numHosts).foldl (hostTurn conv o r) (statusStep o r st)

/-- The state after some rounds. -/
def mainRun (env : Nat → Round) : Nat → MainState
  | 0 => .initial
  | n + 1 => mainRound conv o (mainRun env n) (env n)

variable {conv o} {r : Round} {st : MainState} {hostNum k : Nat}

@[simp] theorem connect_lastSend (link : HostLink) (host : GpsHost) (now : Int) (connects : Bool) :
    (link.connect host now connects).lastSend = link.lastSend := by
  simp only [HostLink.connect]
  split_ifs <;> rfl

/-- `sendHostData` is called for a host. -/
def IsServed (o : Options) (r : Round) (st : MainState) (hostNum : Nat) : Prop :=
  ((st.links hostNum).connect (o.hosts hostNum) r.now (r.turns hostNum).connects).sock = true ∧
    isDue (o.hosts hostNum).rate r.now (st.links hostNum).lastSend = true

theorem sendHostData_latest (host : GpsHost) (sendToLuci : Bool) (m : Messages)
    (latest : List UInt8) (results : Nat → SendResult) :
    (sendHostData conv host sendToLuci m latest results).latestTAIPSentence =
      if host.output = .taip then m.taip conv host else latest := by
  rw [sendHostData]
  split
  · rfl
  · simp only
    split <;> rfl

/-- What a turn does: nothing but keeping the link, or one call of `sendHostData`. -/
theorem hostTurn_cases (conv : Conversions) (o : Options) (r : Round) (st : MainState)
    (hostNum : Nat) :
    (¬ IsServed o r st hostNum ∧
        ∃ link, link.lastSend = (st.links hostNum).lastSend ∧
          hostTurn conv o r st hostNum =
            { st with links := Function.update st.links hostNum link }) ∨
      IsServed o r st hostNum ∧
        ∃ link success,
          link.lastSend = (if success = true then r.now else (st.links hostNum).lastSend) ∧
          hostTurn conv o r st hostNum =
            { links := Function.update st.links hostNum link
              latestTAIPSentence :=
                if (o.hosts hostNum).output = .taip then r.messages.taip conv (o.hosts hostNum)
                else st.latestTAIPSentence
              log := st.log ++ [.sent hostNum r.messages (r.turns hostNum).time success] } := by
  have hconnect := connect_lastSend (st.links hostNum) (o.hosts hostNum) r.now
    (r.turns hostNum).connects
  by_cases hserved : IsServed o r st hostNum
  · have hcond := hserved
    rw [IsServed, ← hconnect] at hcond
    refine .inr ⟨hserved, ((hostTurn conv o r st hostNum).links hostNum),
      (sendHostData conv (o.hosts hostNum) (hostNum == 0) r.messages st.latestTAIPSentence
        (r.turns hostNum).results).success, ?_, ?_⟩
    · rw [hostTurn, if_pos hcond, ← hconnect]
      simp
    · rw [hostTurn, if_pos hcond]
      simp [sendHostData_latest]
  · have hcond := hserved
    rw [IsServed, ← hconnect] at hcond
    refine .inl ⟨hserved, _, hconnect, ?_⟩
    rw [hostTurn, if_neg hcond]

end Rounds

end Speedway.Gps
