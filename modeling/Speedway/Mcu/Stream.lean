import Speedway.Mcu.Upgrade

/-!
# The packets of an upgrade

The chunker is entered once for each packet and keeps its place in the file
state. The packets it produces are listed here, and the worker thread is the
stop-and-wait sender over that list.
-/

namespace Speedway.Mcu

open Speedway.Lib

section Packets

variable (file : List UInt8)

/-- The size that the tool works with. -/
def fileSize : Nat := file.length % 2 ^ 32

/-- The number of data packets. -/
def dataCount : Nat := (fileSize file + (payloadLen - 1)) / payloadLen

/-- The bytes of the file that data packet `k` carries, counted from 0. -/
def chunk (k : Nat) : List UInt8 :=
  ((file.take (fileSize file)).drop (payloadLen * k)).take payloadLen

def triggerPacket : UpdateBuffer :=
  let b := upgradeBuffer .trigger
  { b with updheader := { b.updheader with ckm := 0 } }

def dataPacket (k : Nat) : UpdateBuffer where
  updheader :=
    { (upgradeBuffer .ing).updheader with
      ckm := UInt8.ofNat (k + 1)
      noHigh := UInt8.ofNat ((k + 1) / 256)
      noLow := UInt8.ofNat (k + 1) }
  payload := chunk file k ++ List.replicate (payloadLen - (chunk file k).length) 0xff

def finishPacket : UpdateBuffer := upgradeBuffer .finish

/-- The packets from data packet `k` on. -/
def restOfStream (k : Nat) : List UpdateBuffer :=
  (List.range' k (dataCount file - k)).map (dataPacket file) ++ [finishPacket]

/-- All packets of an upgrade. -/
def stream : List UpdateBuffer := triggerPacket :: restOfStream file 0

variable {file}

theorem fileSize_le (file : List UInt8) : fileSize file ≤ file.length := Nat.mod_le _ _

theorem fileSize_lt (file : List UInt8) : fileSize file < 2 ^ 32 := Nat.mod_lt _ (by decide)

/-- There is a data packet for each started piece of the file. -/
theorem lt_dataCount {k : Nat} : k < dataCount file ↔ payloadLen * k < fileSize file := by
  simp only [dataCount, payloadLen, packetLen, headerLen]
  omega

theorem length_stream (file : List UInt8) : (stream file).length = dataCount file + 2 := by
  simp [stream, restOfStream]

theorem restOfStream_data {k : Nat} (h : k < dataCount file) :
    restOfStream file k = dataPacket file k :: restOfStream file (k + 1) := by
  obtain ⟨n, hn⟩ := Nat.exists_eq_add_of_lt h
  rw [restOfStream, restOfStream, show dataCount file - k = n + 1 by omega,
    show dataCount file - (k + 1) = n by omega, List.range'_succ, List.map_cons, List.cons_append]

theorem restOfStream_finish {k : Nat} (h : dataCount file ≤ k) :
    restOfStream file k = [finishPacket] := by
  rw [restOfStream, Nat.sub_eq_zero_of_le h]
  rfl

theorem length_chunk (file : List UInt8) (k : Nat) :
    (chunk file k).length = min payloadLen (fileSize file - payloadLen * k) := by
  have := fileSize_le file
  simp only [chunk, List.length_take, List.length_drop]
  omega

theorem getElem?_chunk {k i : Nat} (hi : i < (chunk file k).length) :
    (chunk file k)[i]? = file[payloadLen * k + i]? := by
  rw [length_chunk] at hi
  rw [chunk, List.getElem?_take_of_lt (by omega), List.getElem?_drop,
    List.getElem?_take_of_lt (by omega)]

/-- As long as the file lasts, the bytes read are those of the file. -/
theorem freadLoop_eq {n pos : Nat} (byte : UInt8) (h : pos + n ≤ file.length) :
    freadLoop file n pos byte = (file.drop pos).take n := by
  induction n generalizing pos byte with
  | zero => simp [freadLoop]
  | succ n ih =>
      have hpos : pos < file.length := by omega
      rw [freadLoop, List.getElem?_eq_getElem hpos, ih _ (by omega), List.drop_eq_getElem_cons hpos,
        List.take_succ_cons]
      rfl

/-- The file state before data packet `k`. -/
structure FwAt (file : List UInt8) (k : Nat) (fw : FwFile) : Prop where
  cursorPos : fw.cursorPos = min (payloadLen * k) (fileSize file)
  bytesLeft : fw.bytesLeft = fileSize file - payloadLen * k
  packetNum : fw.packetNum = k
  state : fw.state = .ing

/-- The chunker on a file that is not at its end. -/
theorem readBinary_data {k : Nat} {fw : FwFile} (h : FwAt file k fw) (hk : k < dataCount file) :
    (readBinary file fw).stat = .write ∧ FwAt file (k + 1) (readBinary file fw).fwfile ∧
      { (readBinary file fw).upddata with
        updheader := { (readBinary file fw).upddata.updheader with
          ckm := UInt8.ofNat (readBinary file fw).fwfile.packetNum } } = dataPacket file k := by
  have hlt := lt_dataCount.mp hk
  have hsize := fileSize_lt file
  have hle := fileSize_le file
  have hpay : payloadLen = 56 := rfl
  have hmul : payloadLen * k = 56 * k := rfl
  have hsucc : payloadLen * (k + 1) = payloadLen * k + payloadLen := Nat.mul_succ _ _
  have hleft : fw.bytesLeft ≠ 0 := by
    rw [h.bytesLeft]
    omega
  have hcursor : fw.cursorPos = payloadLen * k := by
    rw [h.cursorPos]
    omega
  have hnum : (fw.packetNum + 1) % 2 ^ 32 = k + 1 := by
    rw [h.packetNum]
    exact Nat.mod_eq_of_lt (by omega)
  have hlength := length_chunk file k
  have hbleft : min payloadLen fw.bytesLeft = (chunk file k).length := by
    rw [hlength, h.bytesLeft]
  have hread : freadLoop file (chunk file k).length fw.cursorPos 0xff = chunk file k := by
    rw [freadLoop_eq _ (by omega), hcursor, hlength, chunk, List.drop_take, List.take_take]
  have hres : readBinary file fw = ⟨.write,
      { fw with
        bytesLeft := fw.bytesLeft - (chunk file k).length
        cursorPos := (fw.cursorPos + (chunk file k).length) % 2 ^ 32
        packetNum := k + 1 },
      { updheader := { (upgradeBuffer .ing).updheader with
          noHigh := UInt8.ofNat ((k + 1) / 256)
          noLow := UInt8.ofNat (k + 1) }
        payload := chunk file k ++ (upgradeBuffer .ing).payload.drop (chunk file k).length }⟩ := by
    simp only [readBinary, h.state, hleft, hbleft, hread, hnum]
    rfl
  rw [hres]
  refine ⟨rfl, ⟨?_, ?_, rfl, h.state⟩, ?_⟩
  · show (fw.cursorPos + (chunk file k).length) % 2 ^ 32 = _
    rw [Nat.mod_eq_of_lt (by omega)]
    omega
  · show fw.bytesLeft - (chunk file k).length = _
    rw [h.bytesLeft]
    omega
  · simp only [dataPacket, upgradeBuffer, clearBuffer, List.drop_replicate]

/-- The chunker at the end of the file. -/
theorem readBinary_finish {k : Nat} {fw : FwFile} (h : FwAt file k fw)
    (hk : dataCount file ≤ k) :
    (readBinary file fw).stat = .cmpt ∧ (readBinary file fw).upddata = finishPacket := by
  have hge : ¬ payloadLen * k < fileSize file := fun hlt => by
    have := lt_dataCount.mpr hlt
    omega
  have hleft : fw.bytesLeft = 0 := by
    rw [h.bytesLeft]
    omega
  simp [readBinary, h.state, hleft, finishPacket]

end Packets

section Thread

variable {file : List UInt8} {link : Nat → Exchange} {t : Tool}

/-- The handler answers every packet, whatever became of the transfer. -/
theorem netlinkRecvMsg_replies (x : Exchange) (nldata : List UInt8) :
    (netlinkRecvMsg x packetLen nldata).replies = x.replied := by
  simp only [netlinkRecvMsg, packetLen]
  rw [if_pos (by decide)]
  split
  · rfl
  · split
    · rfl
    · rfl

/-- The exchanges of the sender. -/
def exchanges (txHead : UInt8 × UInt8) (link : Nat → Exchange) (k : Nat) (b : UpdateBuffer) :
    Attempt × Answer :=
  exchangePacket txHead (link k) b

/-- The end of the thread for an end of the sender. -/
def threadEnd : Ending → ThreadEnd
  | .done => .posted .cmpt
  | .failed => .posted .error
  | .hung => .blocked

/-- One round of the thread for a packet that is not the last one. -/
theorem threadFunc_packet {fuel : Nat} {b : UpdateBuffer} {t' : Tool}
    (h : upgradeProcess file link t = sendPacket link b t')
    (htx : t'.txHead = t.txHead) (hattempts : t'.attempts = t.attempts) :
    threadFunc file link (fuel + 1) t =
      match (exchanges t.txHead link t.attempts.length b).2 with
      | .next => threadFunc file link fuel { t' with
          attempts := t.attempts ++ [(exchanges t.txHead link t.attempts.length b).1] }
      | .fails => (.posted .error, { t' with
          attempts := t.attempts ++ [(exchanges t.txHead link t.attempts.length b).1]
          status := .error })
      | .hangs => (.blocked, { t' with
          attempts := t.attempts ++ [(exchanges t.txHead link t.attempts.length b).1] }) := by
  simp only [threadFunc, h, sendPacket, htx, hattempts, exchanges]
  cases (exchangePacket t.txHead (link t.attempts.length) b).2 <;> rfl

/-- The thread from data packet `k` on. -/
theorem threadFunc_rest {k fuel : Nat} (h : FwAt file k t.fwfile)
    (hfuel : dataCount file + 1 ≤ k + fuel) (hk : k ≤ dataCount file)
    (hlen : t.attempts.length = k + 1) :
    let r := stopWait (exchanges t.txHead link) (k + 1) (restOfStream file k)
    (threadFunc file link fuel t).1 = threadEnd r.2 ∧
      (threadFunc file link fuel t).2.attempts = t.attempts ++ r.1 := by
  induction fuel generalizing k t with
  | zero => omega
  | succ fuel ih =>
      intro r
      by_cases hmore : k < dataCount file
      · obtain ⟨hstat, hnext, hpacket⟩ := readBinary_data h hmore
        have hprocess : upgradeProcess file link t = sendPacket link (dataPacket file k)
            { t with fwfile := (readBinary file t.fwfile).fwfile, status := .write } := by
          simp only [upgradeProcess, hstat, hpacket]
        have hr : r = stopWait (exchanges t.txHead link) (k + 1)
            (dataPacket file k :: restOfStream file (k + 1)) := by
          rw [← restOfStream_data hmore]
        rw [hr, threadFunc_packet hprocess rfl rfl, hlen]
        simp only [stopWait]
        cases hanswer : (exchanges t.txHead link (k + 1) (dataPacket file k)).2 with
        | next =>
            have hrest := ih (t := { t with
                fwfile := (readBinary file t.fwfile).fwfile
                status := .write
                attempts := t.attempts ++
                  [(exchanges t.txHead link (k + 1) (dataPacket file k)).1] })
              hnext (by omega) hmore (by simp [hlen])
            refine ⟨hrest.1, hrest.2.trans ?_⟩
            rw [List.append_assoc]
            rfl
        | fails => exact ⟨rfl, rfl⟩
        | hangs => exact ⟨rfl, rfl⟩
      · obtain ⟨hstat, hpacket⟩ := readBinary_finish h (Nat.not_lt.mp hmore)
        have hr : r = stopWait (exchanges t.txHead link) (k + 1) [finishPacket] := by
          rw [← restOfStream_finish (Nat.not_lt.mp hmore)]
        rw [hr]
        simp only [threadFunc, upgradeProcess, hstat, hpacket, sendPacket, hlen, stopWait,
          exchanges]
        cases (exchangePacket t.txHead (link (k + 1)) finishPacket).2 with
        | next => exact ⟨rfl, rfl⟩
        | fails => exact ⟨rfl, rfl⟩
        | hangs => exact ⟨rfl, rfl⟩

/-- The worker thread is the stop-and-wait sender over the packets of the file. -/
theorem threadFunc_eq (file : List UInt8) (txHead : UInt8 × UInt8) (link : Nat → Exchange) :
    let r := stopWait (exchanges txHead link) 0 (stream file)
    let run := threadFunc file link (file.length + 2) (startTool file txHead)
    run.1 = threadEnd r.2 ∧ run.2.attempts = r.1 := by
  intro r run
  have hprocess : upgradeProcess file link (startTool file txHead) = sendPacket link triggerPacket
      { startTool file txHead with
        fwfile := { openBinary file with state := .ing }
        status := .erase } := rfl
  have hstart : FwAt file 0 { openBinary file with state := .ing } :=
    ⟨by simp [openBinary], by simp [openBinary, fileSize], rfl, rfl⟩
  have hcount : dataCount file ≤ file.length := by
    have := fileSize_le file
    simp only [dataCount, payloadLen, packetLen, headerLen]
    omega
  rw [show run = threadFunc file link (file.length + 1 + 1) (startTool file txHead) from rfl,
    threadFunc_packet hprocess rfl rfl,
    show r = stopWait (exchanges txHead link) 0 (triggerPacket :: restOfStream file 0) from rfl]
  simp only [stopWait]
  have hexchange : exchanges (startTool file txHead).txHead link
      (startTool file txHead).attempts.length triggerPacket =
      exchanges txHead link 0 triggerPacket := rfl
  rw [hexchange]
  cases hanswer : (exchanges txHead link 0 triggerPacket).2 with
  | next =>
      exact threadFunc_rest (t := ⟨{ openBinary file with state := .ing }, txHead, .erase,
        [(exchanges txHead link 0 triggerPacket).1]⟩) hstart (by omega) (Nat.zero_le _) rfl
  | fails => exact ⟨rfl, rfl⟩
  | hangs => exact ⟨rfl, rfl⟩

end Thread

end Speedway.Mcu
