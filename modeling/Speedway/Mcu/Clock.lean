import Mathlib.Data.List.TakeWhile
import Speedway.Mcu.Commands

/-!
# Setting the clock

`--rtc-set-time` and `--rtc-set-date` read the record of the clock from the device,
replace three of its bytes and send it back. `main` passes the arguments on with their
places shifted by one.
-/

namespace Speedway.Mcu

open Speedway.Lib
open Speedway.Gps (ascii isDigit isSpace decimal)

section Property

/-- The packets that set the clock. -/
def CmdTool.clockPackets (t : CmdTool) : List TxBuffer :=
  t.sent.filter fun packet => packet.header.event = eventRtcSet

/-- Some bytes of the record are set to values, and the others are those that were read
from the device. -/
structure Sets (fields : List (Nat × UInt8)) (record payload : Mem) : Prop where
  values : ∀ field ∈ fields, payload field.1 = field.2
  others : ∀ i, i < rtcLen → i ∉ fields.map Prod.fst → payload i = record i

/-- The tool, run with some arguments, sends one packet to set the clock, and that packet
sets the values. -/
def RunSets (session : Session) (argv : List (List UInt8)) (fields : List (Nat × UInt8)) : Prop :=
  ∃ command record packet, main argv = .command command ∧ session.first.recv = .answer record ∧
    (command.run session .fresh).2.clockPackets = [packet] ∧ Sets fields record packet.payload

/-- A decimal argument in 0..99. -/
structure IsDecimal (text : List UInt8) (n : Nat) : Prop where
  nonempty : text ≠ []
  digits : ∀ b ∈ text, isDigit b = true
  value : decimal text = n
  le : n ≤ 99

/-- The record is read and the packet can be sent. -/
structure Session.Connected (session : Session) (record : Mem) : Prop where
  netlink : session.netlink = true
  sendmsg : session.first.sendmsg = true
  recv : session.first.recv = .answer record
  second : session.second.sendmsg = true

end Property

section Fields

theorem isSpace_of_isDigit {b : UInt8} (h : isDigit b = true) : isSpace b = false := by
  simp only [isDigit, isSpace, Bool.and_eq_true, decide_eq_true_eq, Bool.or_eq_false_iff,
    Bool.and_eq_false_iff, decide_eq_false_iff_not, beq_eq_false_iff_ne, ne_eq,
    UInt8.le_iff_toNat_le, ← UInt8.toNat_inj] at h ⊢
  have h1 : (0x30 : UInt8).toNat = 48 := rfl
  have h2 : (0x20 : UInt8).toNat = 32 := rfl
  have h3 : (0x0d : UInt8).toNat = 13 := rfl
  omega

/-- Digits are read as the number that they stand for. -/
theorem scanNumber_digits {text : List UInt8} (hne : text ≠ [])
    (h : ∀ b ∈ text, isDigit b = true) : scanNumber text = some (decimal text : Int) := by
  obtain ⟨b, rest, rfl⟩ := List.exists_cons_of_ne_nil hne
  have hb := h b (List.mem_cons_self ..)
  have htake : (b :: rest).takeWhile isDigit = b :: rest := List.takeWhile_eq_self_iff.mpr h
  have hminus : b ≠ 0x2d := by rintro rfl; exact absurd hb (by decide)
  have hplus : b ≠ 0x2b := by rintro rfl; exact absurd hb (by decide)
  rw [scanNumber, List.dropWhile_cons_of_neg (by rw [isSpace_of_isDigit hb]; decide)]
  split
  · rename_i heq
    exact absurd (List.cons.inj heq).1 hminus
  · rename_i heq
    exact absurd (List.cons.inj heq).1 hplus
  · simp only [htake]
    rfl

theorem scanByte_of_isDecimal {text : List UInt8} {n : Nat} (h : IsDecimal text n) :
    scanByte text = UInt8.ofNat n := by
  have hn : ((n : Int) % 256).toNat = n := by
    have := h.le
    omega
  rw [scanByte, scanNumber_digits h.nonempty h.digits, h.value]
  exact congrArg UInt8.ofNat hn

theorem ofNat_inj {m n : Nat} (hm : m ≤ 99) (hn : n ≤ 99) :
    UInt8.ofNat m = UInt8.ofNat n ↔ m = n := by
  rw [← UInt8.toNat_inj, UInt8.toNat_ofNat', UInt8.toNat_ofNat']
  omega

/-- The record with the fields that are given. -/
def setRecord (hour min sec date month year : Option (List UInt8)) (record : Mem) : Mem :=
  setField (setField (setField
    (setField (setField (setField record 0 hour) 1 min) 2 sec) 21 month) 22 date) 23 year

variable {session : Session} {hour min sec date month year : Option (List UInt8)}

/-- Bytes that agree before the fields are set agree after it. -/
theorem setField_congr {m m' : Mem} {i : Nat} (j : Nat) (field : Option (List UInt8))
    (h : m i = m' i) : setField m j field i = setField m' j field i := by
  cases field with
  | none => exact h
  | some text =>
      rw [setField, setField, Function.update_apply, Function.update_apply, h]

theorem setRecord_congr {m m' : Mem} {i : Nat} (h : m i = m' i) :
    setRecord hour min sec date month year m i = setRecord hour min sec date month year m' i := by
  simp only [setRecord]
  repeat' apply setField_congr
  exact h

/-- The tool after the first packet. -/
theorem rtcGet_read {record : Mem} {t : CmdTool} (hready : t.nlready = true)
    (hsend : session.first.sendmsg = true) (hrecv : session.first.recv = .answer record) :
    ∃ header : TxHeader, header.event = eventRtcGet ∧
      rtcGet session t = (some .ok,
        { t with
          txdata := ⟨header, t.txdata.payload⟩
          rxdata := t.rxdata.copy 0 record rtcLen
          rtc := t.rtc.copy 0 (t.rxdata.copy 0 record rtcLen) rtcLen
          sent := t.sent ++ [⟨header, t.txdata.payload⟩] }) := by
  refine ⟨{ t.txdata.header with
    event := eventRtcGet
    txlen := UInt8.ofNat headerLen
    rxlen := UInt8.ofNat rtcLen }, rfl, ?_⟩
  simp [rtcGet, nlOpen, hready, CmdResult.andThen, nlWrite, hsend, nlRead, hrecv,
    CmdTool.setHeader, rtcLen]

/-- Without an answer to the first packet nothing is set. -/
theorem rtcSet_unread
    (h : ¬ (session.netlink = true ∧ session.first.sendmsg = true ∧
      ∃ record, session.first.recv = .answer record)) :
    (rtcSet session hour min sec date month year .fresh).2.clockPackets = [] := by
  cases hnetlink : session.netlink with
  | false => simp [rtcSet, nlOpen, hnetlink, CmdResult.andThen, CmdTool.fresh, CmdTool.clockPackets]
  | true =>
      cases hsend : session.first.sendmsg with
      | false =>
          simp [rtcSet, rtcGet, nlOpen, hnetlink, CmdResult.andThen, CmdTool.fresh, nlWrite, hsend,
            CmdTool.setHeader, CmdTool.clockPackets]
      | true =>
          cases hrecv : session.first.recv with
          | fails =>
              simp [rtcSet, rtcGet, nlOpen, hnetlink, CmdResult.andThen, CmdTool.fresh, nlWrite,
                hsend, nlRead, hrecv, CmdTool.setHeader, CmdTool.clockPackets, eventRtcGet,
                eventRtcSet, rtcLen]
          | hangs =>
              simp [rtcSet, rtcGet, nlOpen, hnetlink, CmdResult.andThen, CmdTool.fresh, nlWrite,
                hsend, nlRead, hrecv, CmdTool.setHeader, CmdTool.clockPackets, eventRtcGet,
                eventRtcSet, rtcLen]
          | answer record => exact absurd ⟨hnetlink, hsend, record, hrecv⟩ h

/-- The packet that sets the clock. -/
theorem rtcSet_read (hour min sec date month year : Option (List UInt8)) {record : Mem}
    (hnetlink : session.netlink = true)
    (hsend : session.first.sendmsg = true) (hrecv : session.first.recv = .answer record) :
    ∃ packet : TxBuffer,
      (∀ i, i < rtcLen →
        packet.payload i = setRecord hour min sec date month year record i) ∧
      (rtcSet session hour min sec date month year .fresh).2.clockPackets =
        if session.second.sendmsg then [packet] else [] := by
  obtain ⟨header, hevent, hget⟩ :=
    rtcGet_read (t := { CmdTool.fresh with nlready := true }) rfl hsend hrecv
  have hnone : header.event ≠ eventRtcSet := by rw [hevent]; decide
  refine ⟨⟨{ header with
      event := eventRtcSet
      txlen := UInt8.ofNat (rtcLen + headerLen)
      rxlen := UInt8.ofNat rtcLen }, setRecord hour min sec date month year
        (Mem.copy (fun _ => 0) 0 (Mem.copy (fun _ => 0) 0
          (Mem.copy (fun _ => 0) 0 record rtcLen) rtcLen) rtcLen)⟩, ?_, ?_⟩
  · intro i hi
    apply setRecord_congr
    simp [Mem.copy, hi]
  · rw [CmdTool.clockPackets, rtcSet, hnetlink, nlOpen_true, CmdResult.andThen_ok, hget,
      CmdResult.andThen_ok, nlWrite_read_sent]
    cases session.second.sendmsg with
    | false => simp [CmdTool.setHeader, CmdTool.fresh, hnone]
    | true => simp [CmdTool.setHeader, CmdTool.fresh, hnone, setRecord]

theorem sets_congr {fields : List (Nat × UInt8)} {m m' : Mem}
    (hfields : ∀ field ∈ fields, field.1 < rtcLen) (h : ∀ i, i < rtcLen → m i = m' i)
    (record : Mem) : Sets fields record m ↔ Sets fields record m' := by
  constructor
  · intro hsets
    constructor
    · intro field hfield
      rw [← h _ (hfields field hfield)]
      exact hsets.values field hfield
    · intro i hi hnot
      rw [← h i hi]
      exact hsets.others i hi hnot
  · intro hsets
    constructor
    · intro field hfield
      rw [h _ (hfields field hfield)]
      exact hsets.values field hfield
    · intro i hi hnot
      rw [h i hi]
      exact hsets.others i hi hnot

/-- A run that sets the clock, by the record it reads. -/
theorem runSets_iff {argv : List (List UInt8)} {fields : List (Nat × UInt8)}
    (hmain : main argv = .command (.rtcSet hour min sec date month year))
    (hfields : ∀ field ∈ fields, field.1 < rtcLen) :
    RunSets session argv fields ↔
      ∃ record, session.Connected record ∧
        Sets fields record (setRecord hour min sec date month year record) := by
  constructor
  · rintro ⟨command, record, packet, hcommand, hrecv, hpackets, hsets⟩
    obtain rfl : Command.rtcSet hour min sec date month year = command :=
      Invocation.command.inj (hmain.symm.trans hcommand)
    simp only [Command.run] at hpackets
    have hread : session.netlink = true ∧ session.first.sendmsg = true ∧
        ∃ record, session.first.recv = .answer record := by
      by_contra hunread
      rw [rtcSet_unread hunread] at hpackets
      exact absurd hpackets (by simp)
    obtain ⟨packet', hpayload, hsent⟩ := rtcSet_read hour min sec date month year hread.1
      hread.2.1 hrecv
    rw [hsent] at hpackets
    cases hsecond : session.second.sendmsg with
    | false => simp [hsecond] at hpackets
    | true =>
        obtain rfl : packet' = packet := by simpa [hsecond] using hpackets
        exact ⟨record, ⟨hread.1, hread.2.1, hrecv, hsecond⟩,
          (sets_congr hfields hpayload record).mp hsets⟩
  · rintro ⟨record, hconnected, hsets⟩
    obtain ⟨packet, hpayload, hsent⟩ := rtcSet_read hour min sec date month year
      hconnected.netlink hconnected.sendmsg hconnected.recv
    refine ⟨_, record, packet, hmain, hconnected.recv, ?_,
      (sets_congr hfields hpayload record).mpr hsets⟩
    rw [Command.run, hsent, hconnected.second, if_pos rfl]

end Fields

section Shifted

/-- Two fields get the values of the fields after them, and the third is not set. -/
theorem sets_shifted {i j k : Nat} {a b c : UInt8} {record : Mem} (hij : i ≠ j) (hik : i ≠ k)
    (hjk : j ≠ k) :
    Sets [(i, a), (j, b), (k, c)] record
        (Function.update (Function.update record i b) j c) ↔
      a = b ∧ b = c ∧ record k = c := by
  have hi : Function.update (Function.update record i b) j c i = b := by
    rw [Function.update_of_ne hij, Function.update_self]
  have hj : Function.update (Function.update record i b) j c j = c := Function.update_self ..
  have hk : Function.update (Function.update record i b) j c k = record k := by
    rw [Function.update_of_ne hjk.symm, Function.update_of_ne hik.symm]
  constructor
  · intro hsets
    have ha := hsets.values (i, a) (by simp)
    have hb := hsets.values (j, b) (by simp)
    have hc := hsets.values (k, c) (by simp)
    exact ⟨(hi.symm.trans ha).symm, (hj.symm.trans hb).symm, hk.symm.trans hc⟩
  · rintro ⟨rfl, rfl, hc⟩
    constructor
    · intro field hfield
      rcases List.mem_cons.mp hfield with rfl | hfield
      · exact hi
      rcases List.mem_cons.mp hfield with rfl | hfield
      · exact hj
      rw [List.mem_singleton.mp hfield]
      exact hk.trans hc
    · intro l hl hnot
      simp only [List.map_cons, List.map_nil, List.mem_cons, List.not_mem_nil, or_false,
        not_or] at hnot
      rw [Function.update_of_ne hnot.2.1, Function.update_of_ne hnot.1]

variable {session : Session} {tool hour min sec : List UInt8} {h m s : Nat}

theorem main_rtcSetTime :
    main [tool, ascii "--rtc-set-time", hour, min, sec] =
      .command (.rtcSet (some min) (some sec) none none none none) :=
  rfl

theorem main_rtcSetDate :
    main [tool, ascii "--rtc-set-date", hour, min, sec] =
      .command (.rtcSet none none none (some min) (some sec) none) :=
  rfl

/-- Setting the time or the date sends what was typed, and no other change, exactly when
the device is connected, the three values are the same and the last of them is already in
the record. -/
theorem rtcSet_typed_iff (session : Session) (tool : List UInt8) {first second third : List UInt8}
    {x y z : Nat} (hfirst : IsDecimal first x) (hsecond : IsDecimal second y)
    (hthird : IsDecimal third z) :
    (RunSets session [tool, ascii "--rtc-set-time", first, second, third]
        [(0, .ofNat x), (1, .ofNat y), (2, .ofNat z)] ↔
      ∃ record, session.Connected record ∧ x = y ∧ y = z ∧ record 2 = .ofNat z) ∧
    (RunSets session [tool, ascii "--rtc-set-date", first, second, third]
        [(22, .ofNat x), (21, .ofNat y), (23, .ofNat z)] ↔
      ∃ record, session.Connected record ∧ x = y ∧ y = z ∧ record 23 = .ofNat z) := by
  constructor
  · rw [runSets_iff main_rtcSetTime (by simp [rtcLen])]
    simp only [setRecord, setField, scanByte_of_isDecimal hsecond, scanByte_of_isDecimal hthird,
      sets_shifted (show 0 ≠ 1 by decide) (show 0 ≠ 2 by decide) (show 1 ≠ 2 by decide),
      ofNat_inj hfirst.le hsecond.le, ofNat_inj hsecond.le hthird.le]
  · rw [runSets_iff main_rtcSetDate (by simp [rtcLen])]
    simp only [setRecord, setField, scanByte_of_isDecimal hsecond, scanByte_of_isDecimal hthird,
      Function.update_comm (show 21 ≠ 22 by decide),
      sets_shifted (show 22 ≠ 21 by decide) (show 22 ≠ 23 by decide) (show 21 ≠ 23 by decide),
      ofNat_inj hfirst.le hsecond.le, ofNat_inj hsecond.le hthird.le]

/-- A device that answers with one record. -/
def Session.holding (record : Mem) : Session :=
  ⟨true, ⟨true, .answer record⟩, ⟨true, .answer record⟩⟩

/-- A device with an empty record. -/
def Session.zero : Session := .holding fun _ => 0

/-- Seven minutes and seconds past seven is set where the record is in second 7. -/
theorem rtcSet_typed_sevens :
    IsDecimal (ascii "7") 7 ∧
      RunSets (.holding (Function.update (fun _ => 0) 2 7))
        [ascii "stm-i2c-tool", ascii "--rtc-set-time", ascii "7", ascii "7", ascii "7"]
        [(0, 7), (1, 7), (2, 7)] := by
  have hseven : IsDecimal (ascii "7") 7 :=
    ⟨by decide, List.all_eq_true.mp rfl, by decide, by decide⟩
  refine ⟨hseven, ?_⟩
  apply (rtcSet_typed_iff _ _ hseven hseven hseven).1.mpr
  exact ⟨_, ⟨rfl, rfl, rfl, rfl⟩, rfl, rfl, rfl⟩

/-- `--rtc-set-time 1 2 3` sends the hour 2 and the minute 3. -/
theorem rtcSet_not_typed :
    ∃ packet,
      (rtcSet .zero (some (ascii "2")) (some (ascii "3")) none none none none
          .fresh).2.clockPackets = [packet] ∧
        packet.payload 0 = 2 ∧ packet.payload 1 = 3 ∧ packet.payload 2 = 0 ∧
      main [ascii "stm-i2c-tool", ascii "--rtc-set-time", ascii "1", ascii "2", ascii "3"] =
        .command (.rtcSet (some (ascii "2")) (some (ascii "3")) none none none none) ∧
      ¬ RunSets .zero
        [ascii "stm-i2c-tool", ascii "--rtc-set-time", ascii "1", ascii "2", ascii "3"]
        [(0, 1), (1, 2), (2, 3)] := by
  obtain ⟨packet, hpayload, hsent⟩ := rtcSet_read (some (ascii "2")) (some (ascii "3")) none none
    none none (show Session.zero.netlink = true from rfl) rfl rfl
  refine ⟨packet, hsent, hpayload 0 (by decide), hpayload 1 (by decide), hpayload 2 (by decide),
    main_rtcSetTime, ?_⟩
  rw [runSets_iff main_rtcSetTime (by simp [rtcLen])]
  rintro ⟨record, -, hsets⟩
  have hhour := hsets.values (0, 1) (by simp)
  exact absurd hhour (show (2 : UInt8) ≠ 1 by decide)

end Shifted

end Speedway.Mcu
