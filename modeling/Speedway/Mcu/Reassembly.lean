import Speedway.Mcu.Stream

/-!
# Reassembling the file

A receiver stores the payload of each data packet at the place its number
gives. The number has 16 bits, so the image is the file as long as the file
needs no more than 65535 data packets; the tool accepts longer files too.
-/

namespace Speedway.Mcu

open Speedway.Lib

/-- All system calls for a packet succeed. -/
structure Exchange.Succeeds (x : Exchange) : Prop where
  sendmsg : x.sendmsg = true
  i2cSend : 0 ≤ x.i2cSend
  replied : x.replied = true
  recvmsg : x.recvmsg = true

/-- The memory of a receiver; `none` where nothing was stored. -/
abbrev Image := Int → Option UInt8

/-- The packet number of a header. -/
def packetNo (w : List UInt8) : Int := (w.getD 4 0).toNat * 256 + (w.getD 5 0).toNat

/-- The receiver stores the payload of data packet `p` at `56 * (p - 1)`. -/
def storeWire (img : Image) (w : List UInt8) : Image :=
  if w.getD 1 0 = UpgradeStat.ing.code then fun a =>
    if payloadLen * (packetNo w - 1) ≤ a ∧ a < payloadLen * (packetNo w - 1) + payloadLen then
      some (w.getD (6 + (a - payloadLen * (packetNo w - 1)).toNat) 0)
    else img a
  else img

/-- The memory after a list of packets. -/
def receive (ws : List (List UInt8)) : Image := ws.foldl storeWire fun _ => none

/-- The number of packets for `size` bytes. -/
def packetsFor (size : Nat) : Nat := (size + (payloadLen - 1)) / payloadLen

/-- The run ends with success after the packets of the file, in order, and the
receiver has the file, with 0xff up to the end of the last packet and nothing else. -/
structure Reassembles (file : List UInt8) (txHead : UInt8 × UInt8) (r : ThreadEnd × Tool) :
    Prop where
  ended : r.1 = .posted .cmpt
  order : r.2.attempts.map (fun a => a.packet.updheader.state) =
    UpgradeStat.trigger.code :: List.replicate (packetsFor file.length) UpgradeStat.ing.code ++
      [UpgradeStat.finish.code]
  image : ∀ a : Int, receive (r.2.attempts.map fun a => a.packet.wire txHead) a =
    if 0 ≤ a ∧ a < file.length then file[a.toNat]?
    else if 0 ≤ a ∧ a < payloadLen * packetsFor file.length then some 0xff
    else none

section Wire

variable {file : List UInt8} {txHead : UInt8 × UInt8}

theorem length_payload (file : List UInt8) (k : Nat) :
    (dataPacket file k).payload.length = payloadLen := by
  have := length_chunk file k
  simp only [dataPacket, List.length_append, List.length_replicate]
  omega

/-- The packet number is cut to 16 bits. -/
theorem packetNo_data (k : Nat) :
    packetNo ((dataPacket file k).wire txHead) = ((k + 1) % 65536 : Nat) := by
  show ((UInt8.ofNat ((k + 1) / 256)).toNat * 256 + (UInt8.ofNat (k + 1)).toNat : Int) = _
  rw [UInt8.toNat_ofNat', UInt8.toNat_ofNat']
  omega

theorem state_data (k : Nat) :
    ((dataPacket file k).wire txHead).getD 1 0 = UpgradeStat.ing.code := rfl

/-- A payload byte of data packet `k` on the wire. -/
theorem wire_payload {k i : Nat} (hi : i < payloadLen) :
    ((dataPacket file k).wire txHead).getD (6 + i) 0 =
      ((dataPacket file k).payload)[i]?.getD 0 := by
  have hlen := length_payload file k
  rw [UpdateBuffer.wire, List.append_assoc, List.getD_eq_getElem?_getD,
    List.getElem?_append_right (by simp), List.getElem?_append_left (by simp; omega)]
  simp

theorem payload_getElem? {k i : Nat} (hi : i < payloadLen) :
    ((dataPacket file k).payload)[i]? =
      if payloadLen * k + i < fileSize file then file[payloadLen * k + i]? else some 0xff := by
  have hlen := length_chunk file k
  simp only [dataPacket]
  split
  · rw [List.getElem?_append_left (by omega), getElem?_chunk (by omega)]
  · rw [List.getElem?_append_right (by omega), List.getElem?_replicate, if_pos (by omega)]

/-- What the receiver stores for data packet `k`. -/
theorem storeWire_data (img : Image) {k : Nat} (hk : k < 65535) (a : Int) :
    storeWire img ((dataPacket file k).wire txHead) a =
      if payloadLen * k ≤ a ∧ a < payloadLen * k + payloadLen then
        if a < fileSize file then file[a.toNat]? else some 0xff
      else img a := by
  have hno : packetNo ((dataPacket file k).wire txHead) = (k + 1 : Nat) := by
    rw [packetNo_data, Nat.mod_eq_of_lt (by omega)]
  have hle := fileSize_le file
  have hpay : payloadLen = 56 := rfl
  have hmul : payloadLen * k = 56 * k := rfl
  have hmul' : (payloadLen : Int) * k = 56 * k := rfl
  have hoff : (payloadLen : Int) * ((k + 1 : Nat) - 1) = payloadLen * k := by
    rw [show ((k + 1 : Nat) : Int) - 1 = k by omega]
  rw [storeWire, if_pos (state_data k), hno, hoff]
  by_cases hin : (payloadLen : Int) * k ≤ a ∧ a < payloadLen * k + payloadLen
  · rw [if_pos hin, if_pos hin]
    obtain ⟨i, hi⟩ : ∃ i : Nat, a = payloadLen * k + i := ⟨(a - payloadLen * k).toNat, by omega⟩
    have hlt : i < payloadLen := by omega
    have hsub : (a - payloadLen * k).toNat = i := by omega
    have hnat : a.toNat = payloadLen * k + i := by omega
    have hcond : a < fileSize file ↔ payloadLen * k + i < fileSize file := by omega
    rw [hsub, wire_payload hlt, payload_getElem? hlt, hnat]
    simp only [hcond]
    split
    · rw [List.getElem?_eq_getElem (by omega)]
      rfl
    · rfl
  · rw [if_neg hin, if_neg hin]

/-- The wires of the data packets before packet `k`. -/
def dataWires (file : List UInt8) (txHead : UInt8 × UInt8) (k : Nat) : List (List UInt8) :=
  (List.range k).map fun i => (dataPacket file i).wire txHead

/-- The image grows by one packet at a time while the numbers last. -/
theorem receive_data {k : Nat} (hk : k ≤ 65535) (a : Int) :
    receive (dataWires file txHead k) a =
      if 0 ≤ a ∧ a < payloadLen * k then
        if a < fileSize file then file[a.toNat]? else some 0xff
      else none := by
  induction k with
  | zero =>
      rw [if_neg (fun h => absurd h.2 (Int.not_lt.mpr h.1))]
      rfl
  | succ k ih =>
      have hmul' : (payloadLen : Int) * k = 56 * k := rfl
      have hmul : (payloadLen : Int) * (k + 1 : Nat) = payloadLen * k + payloadLen := by
        show (56 : Int) * (k + 1 : Nat) = 56 * k + 56
        omega
      rw [dataWires, List.range_succ, List.map_append, receive, List.foldl_append,
        List.map_singleton, List.foldl_cons, List.foldl_nil, storeWire_data _ (by omega), hmul]
      have hprev := ih (by omega)
      rw [dataWires, receive] at hprev
      rw [hprev]
      by_cases hin : (payloadLen : Int) * k ≤ a ∧ a < payloadLen * k + payloadLen
      · rw [if_pos hin,
          if_pos (show 0 ≤ a ∧ a < (payloadLen : Int) * k + payloadLen by omega)]
      · rw [if_neg hin]
        have hiff : (0 ≤ a ∧ a < (payloadLen : Int) * k) ↔
            (0 ≤ a ∧ a < (payloadLen : Int) * k + payloadLen) := by omega
        simp only [hiff]

/-- What is stored stays stored. -/
theorem foldl_storeWire_isSome {ws : List (List UInt8)} {img : Image} {a : Int}
    (h : (img a).isSome = true) : ((ws.foldl storeWire img) a).isSome = true := by
  induction ws generalizing img with
  | nil => exact h
  | cons w ws ih =>
      apply ih
      simp only [storeWire]
      split
      · dsimp only
        split
        · rfl
        · exact h
      · exact h

/-- With more packets than numbers something is stored below the image. -/
theorem receive_below (file : List UInt8) (txHead : UInt8 × UInt8) {k : Nat} (hk : 65536 ≤ k) :
    (receive (dataWires file txHead k) (-56)).isSome = true := by
  obtain ⟨n, rfl⟩ := Nat.exists_eq_add_of_le hk
  rw [dataWires, List.range_add, List.map_append, receive, List.foldl_append]
  apply foldl_storeWire_isSome
  rw [List.range_succ, List.map_append, List.foldl_append, List.map_singleton, List.foldl_cons,
    List.foldl_nil, storeWire, if_pos (state_data 65535), packetNo_data]
  rfl

/-- Only data packets are stored. -/
theorem receive_stream : receive ((stream file).map fun b => b.wire txHead) =
    receive (dataWires file txHead (dataCount file)) := by
  have hrange : List.range' 0 (dataCount file - 0) = List.range (dataCount file) := by
    rw [Nat.sub_zero, List.range_eq_range']
  rw [stream, restOfStream, hrange, receive, List.map_cons, List.foldl_cons, List.map_append,
    List.foldl_append, List.map_map]
  rfl

end Wire

section Result

variable {file : List UInt8} {txHead : UInt8 × UInt8} {link : Nat → Exchange}

theorem Exchange.Succeeds.next {x : Exchange} (h : x.Succeeds) (b : UpdateBuffer) :
    (exchangePacket txHead x b).2 = .next := by
  simp [exchangePacket, h.sendmsg, h.recvmsg, netlinkRecvMsg_replies, h.replied]

theorem exchanges_packet (k : Nat) (b : UpdateBuffer) :
    (exchanges txHead link k b).1.packet = b := by
  simp only [exchanges, exchangePacket]
  split
  · rfl
  · rfl

/-- When all calls succeed the thread sends every packet and posts success. -/
theorem threadFunc_succeeds (txHead : UInt8 × UInt8) (hlink : ∀ k, (link k).Succeeds) :
    let r := threadFunc file link (file.length + 2) (startTool file txHead)
    r.1 = .posted .cmpt ∧ r.2.attempts.map Attempt.packet = stream file := by
  obtain ⟨hend, hlog⟩ := threadFunc_eq file txHead link
  have hreach (j : Nat) : Reaches (exchanges txHead link) 0 (stream file) j :=
    fun i b _ _ => (hlink _).next b
  refine ⟨?_, ?_⟩
  · rw [hend, stopWait_done.mpr (hreach _)]
    rfl
  · rw [hlog, stopWait_map id exchanges_packet fun j _ => hreach j, List.map_id]

theorem stream_states : (stream file).map (fun b => b.updheader.state) =
    UpgradeStat.trigger.code :: List.replicate (dataCount file) UpgradeStat.ing.code ++
      [UpgradeStat.finish.code] := by
  have hdata : (fun b : UpdateBuffer => b.updheader.state) ∘ dataPacket file =
      fun _ => UpgradeStat.ing.code := rfl
  rw [stream, restOfStream, List.map_cons, List.map_append, List.map_map, hdata, List.map_const',
    List.length_range', Nat.sub_zero]
  rfl

/-- The run when all calls succeed. -/
def goodRun (file : List UInt8) (txHead : UInt8 × UInt8) (link : Nat → Exchange) :
    ThreadEnd × Tool :=
  threadFunc file link (file.length + 2) (startTool file txHead)

theorem goodRun_states (hlink : ∀ k, (link k).Succeeds) :
    (goodRun file txHead link).2.attempts.map (fun a => a.packet.updheader.state) =
      UpgradeStat.trigger.code :: List.replicate (dataCount file) UpgradeStat.ing.code ++
        [UpgradeStat.finish.code] := by
  rw [← stream_states, ← (threadFunc_succeeds txHead hlink).2, List.map_map]
  rfl

theorem goodRun_image (hlink : ∀ k, (link k).Succeeds) :
    receive ((goodRun file txHead link).2.attempts.map fun a => a.packet.wire txHead) =
      receive (dataWires file txHead (dataCount file)) := by
  rw [← receive_stream, ← (threadFunc_succeeds txHead hlink).2, List.map_map]
  rfl

theorem reassembles_of_short (hlink : ∀ k, (link k).Succeeds)
    (hshort : file.length ≤ 65535 * payloadLen) :
    Reassembles file txHead (goodRun file txHead link) := by
  have hpay : payloadLen = 56 := rfl
  have hsize : fileSize file = file.length := Nat.mod_eq_of_lt (by omega)
  have hcount : dataCount file = packetsFor file.length := by
    rw [dataCount, hsize]
    rfl
  have hmax : dataCount file ≤ 65535 := by
    simp only [dataCount, hsize, hpay]
    omega
  refine ⟨(threadFunc_succeeds _ hlink).1, ?_, fun a => ?_⟩
  · rw [goodRun_states hlink, hcount]
  · rw [goodRun_image hlink, receive_data hmax, hsize, hcount]
    have hmul : (payloadLen : Int) * packetsFor file.length = 56 * packetsFor file.length := rfl
    have hceil : file.length ≤ 56 * packetsFor file.length := by
      simp only [packetsFor, hpay]
      omega
    by_cases hin : 0 ≤ a ∧ a < file.length
    · rw [if_pos (by omega), if_pos hin.2, if_pos hin]
    · rw [if_neg hin]
      by_cases hpad : 0 ≤ a ∧ a < payloadLen * packetsFor file.length
      · rw [if_pos hpad, if_neg (by omega), if_pos hpad]
      · rw [if_neg hpad, if_neg hpad]

theorem short_of_reassembles (hlink : ∀ k, (link k).Succeeds)
    (h : Reassembles file txHead (goodRun file txHead link)) :
    file.length ≤ 65535 * payloadLen := by
  have hpay : payloadLen = 56 := rfl
  by_contra hlong
  have horder := h.order
  rw [goodRun_states hlink] at horder
  have hcount : dataCount file = packetsFor file.length := by
    have := congrArg List.length horder
    simpa using this
  -- the number of packets rules out a size that was cut to 32 bits
  have hsize : fileSize file = file.length := by
    by_contra hcut
    have hmod : file.length % 2 ^ 32 ≠ file.length := hcut
    simp only [dataCount, packetsFor, fileSize, hpay] at hcount
    omega
  have hmany : 65536 ≤ dataCount file := by
    simp only [dataCount, hsize, hpay]
    omega
  have hbelow := receive_below file txHead hmany
  rw [← goodRun_image hlink, h.image, if_neg (fun hin => absurd hin.1 (by decide)),
    if_neg (fun hin => absurd hin.1 (by decide))] at hbelow
  exact absurd hbelow Bool.false_ne_true

/-- When all calls succeed, the packets reassemble to the file if and only if the
file needs no more than 65535 data packets. -/
theorem upgrade_reassembles_iff (file : List UInt8) (txHead : UInt8 × UInt8)
    (link : Nat → Exchange) (hlink : ∀ k, (link k).Succeeds) :
    Reassembles file txHead (threadFunc file link (file.length + 2) (startTool file txHead)) ↔
      file.length ≤ 65535 * payloadLen :=
  ⟨short_of_reassembles hlink, reassembles_of_short hlink⟩

/-- A link on which every call succeeds. -/
def goodLink : Nat → Exchange := fun _ => ⟨true, 64, 0, true, true⟩

theorem goodLink_succeeds (k : Nat) : (goodLink k).Succeeds :=
  ⟨rfl, (by decide : (0 : Int) ≤ 64), rfl, rfl⟩

theorem upgrade_reassembles_three :
    Reassembles [1, 2, 3] (0, 0) (threadFunc [1, 2, 3] goodLink 5 (startTool [1, 2, 3] (0, 0))) :=
  (upgrade_reassembles_iff [1, 2, 3] (0, 0) goodLink goodLink_succeeds).mpr (by decide)

/-- One byte more than 65535 packets hold. -/
theorem upgrade_not_reassembled :
    ∃ file : List UInt8, file.length = 3669961 ∧
      ¬ Reassembles file (0, 0) (threadFunc file goodLink (file.length + 2)
        (startTool file (0, 0))) := by
  refine ⟨List.replicate 3669961 0, List.length_replicate, fun h => ?_⟩
  have hshort := short_of_reassembles goodLink_succeeds h
  rw [List.length_replicate] at hshort
  exact absurd hshort (by decide)

end Result

end Speedway.Mcu
