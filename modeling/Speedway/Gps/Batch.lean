import Speedway.Gps.Clients
import Speedway.Gps.Stored
import Speedway.Lib.Filling

/-!
# The data for a host

`sendHostData` hands a host its newest position, or all stored messages one after the other
in `hostbuffer`. For a host outside of the device a line end is added to each message that
has room for it in `msg_buffer`. Whether `hostbuffer` is full is tested after each copy.
-/

namespace Speedway.Gps

open Speedway.Lib Speedway.Lib.Form

section Model

def hostsBufferSize : Nat := 2048

/-- The text in `msg_buffer`: the station is replaced in GGA messages. -/
def hostMessage (host : GpsHost) (msg : GpsMessage) : List UInt8 :=
  if msg.msgTyp = .gga then replaceStation host (cText msg.message) else cText msg.message

/-- What is copied for a message, with the line end if there is room for it. -/
def hostLine (host : GpsHost) (msg : GpsMessage) : List UInt8 :=
  let text := hostMessage host msg
  if host.connection ≠ .internal ∧ text.length + 2 < maxMsgSize then text ++ crlf else text

/-- The loop over `n` messages from `i` on, with what was copied into `hostbuffer`. -/
def batchLoop (host : GpsHost) (gpsMsgArray : Nat → GpsMessage) :
    Nat → Nat → List UInt8 → List UInt8
  | 0, _, copied => copied
  | n + 1, i, copied =>
      if (gpsMsgArray i).sendThisMsg then
        if hostsBufferSize ≤ (copied ++ hostLine host (gpsMsgArray i)).length then
          copied ++ hostLine host (gpsMsgArray i)
        else batchLoop host gpsMsgArray n (i + 1) (copied ++ hostLine host (gpsMsgArray i))
      else batchLoop host gpsMsgArray n (i + 1) copied

/-- What `sendHostData` copies into `hostbuffer`, and what it hands to `sendData`. -/
structure HostData where
  hostbuffer : List UInt8 := []
  data : Option (List UInt8) := none

/-- `sendHostData` up to the call of `sendData`, with the sentence that
`buildTAIPSentence` leaves for the host. -/
def hostData (host : GpsHost) (sendToLuci : Bool) (p : Parsed) (taip : List UInt8) : HostData :=
  match host.output with
  | .nmea =>
      if sendToLuci then
        if 0 ≤ p.idxOfNewestGGAMsg then { data := some (replaceStation host (ggaMessage p)) }
        else {}
      else
        let batch := batchLoop host p.gpsMsgArray numGpsMessages 0 []
        { hostbuffer := batch, data := some batch }
  | .taip => { data := some taip }
  | .disabled => {}

end Model

section Lines

/-- The messages that are to be sent, in order. -/
def storedMessages (p : Parsed) : List GpsMessage :=
  ((List.range numGpsMessages).map p.gpsMsgArray).filter GpsMessage.sendThisMsg

variable {host : GpsHost} {p : Parsed}

theorem batchLoop_eq (host : GpsHost) (gpsMsgArray : Nat → GpsMessage) (n i : Nat)
    (copied : List UInt8) :
    batchLoop host gpsMsgArray n i copied =
      fillUntil hostsBufferSize
        ((((List.range' i n).map gpsMsgArray).filter GpsMessage.sendThisMsg).map (hostLine host))
        copied := by
  induction n generalizing i copied with
  | zero => rfl
  | succ n ih =>
      rw [batchLoop, List.range'_succ, List.map_cons, List.filter_cons]
      split
      · rw [List.map_cons, fillUntil, ih]
      · rw [ih]

/-- The batch is filled with the lines of the stored messages. -/
theorem batch_eq (host : GpsHost) (p : Parsed) :
    batchLoop host p.gpsMsgArray numGpsMessages 0 [] =
      fillUntil hostsBufferSize ((storedMessages p).map (hostLine host)) [] := by
  rw [batchLoop_eq, storedMessages, List.range_eq_range']

theorem hostLine_of_short (hconn : host.connection ≠ .internal) {msg : GpsMessage}
    (h : (hostMessage host msg).length + 2 < maxMsgSize) :
    hostLine host msg = hostMessage host msg ++ crlf := if_pos ⟨hconn, h⟩

/-- A longer message gets no line end. -/
theorem hostLine_of_long {msg : GpsMessage} (h : maxMsgSize ≤ (hostMessage host msg).length + 2) :
    hostLine host msg = hostMessage host msg := if_neg fun hboth => absurd hboth.2 (by omega)

/-- A host other than the first gets the lines of the stored messages. -/
theorem hostData_batch {hostNum : Nat} (houtput : host.output = .nmea) (hnum : hostNum ≠ 0)
    (p : Parsed) (taip : List UInt8) :
    hostData host (hostNum == 0) p taip =
      { hostbuffer := fillUntil hostsBufferSize ((storedMessages p).map (hostLine host)) []
        data := some (fillUntil hostsBufferSize ((storedMessages p).map (hostLine host)) []) } := by
  rw [hostData, houtput]
  simp only [beq_false_of_ne hnum, if_neg Bool.false_ne_true, batch_eq]

end Lines

section Packing

variable {m : Mem} {p : Parsed} {D : List (Nat × Nat)} {a e : Nat} {signed : Bool} {gpsBuff : Mem}

/-- The messages to be sent are those of the first thirty sentences. -/
theorem storedMessages_eq (h : Stores m p D) :
    storedMessages p = (D.take numGpsMessages).map fun x => entry m x.1 x.2 := by
  have hcount := h.count
  obtain ⟨r, hr⟩ : ∃ r, numGpsMessages = p.gpsMsgIDX + r :=
    Nat.exists_eq_add_of_le (by rw [hcount]; exact Nat.min_le_left _ _)
  have hfirst : (List.range p.gpsMsgIDX).map p.gpsMsgArray =
      (D.take numGpsMessages).map fun x => entry m x.1 x.2 := by
    apply List.ext_getElem
    · rw [List.length_map, List.length_range, List.length_map, List.length_take, hcount]
    · intro k hk hk'
      rw [List.length_map, List.length_take] at hk'
      rw [List.getElem_map, List.getElem_range, List.getElem_map, List.getElem_take]
      exact h.stored k _ _ (List.getElem?_eq_getElem (by omega)) (by omega)
  have hall : ∀ msg ∈ (D.take numGpsMessages).map fun x => entry m x.1 x.2,
      msg.sendThisMsg = true := by
    intro msg hmsg
    obtain ⟨x, -, rfl⟩ := List.mem_map.mp hmsg
    rfl
  have hnone : ((List.range r).map fun x => p.gpsMsgArray (p.gpsMsgIDX + x)).filter
      GpsMessage.sendThisMsg = [] := by
    rw [List.filter_eq_nil_iff]
    intro msg hmsg
    obtain ⟨x, -, rfl⟩ := List.mem_map.mp hmsg
    rw [h.rest _ (Nat.le_add_right _ _)]
    exact Bool.false_ne_true
  rw [storedMessages, hr, List.range_add, List.map_append, List.map_map, List.filter_append]
  rw [show p.gpsMsgArray ∘ (p.gpsMsgIDX + ·) = fun x => p.gpsMsgArray (p.gpsMsgIDX + x) from rfl,
    hnone, List.append_nil, ← hr, hfirst, List.filter_eq_self.mpr hall]

theorem hexText_ne_dollar (v : UInt8) : (0x24 : UInt8) ∉ hexText 0x20 v := by
  have hdigit : ∀ n : Fin 16, (0x24 : UInt8) ≠ hexDigit n.val := by decide
  have hv := v.toNat_lt
  rw [hexText]
  split
  next hsmall =>
    rw [UInt8.lt_iff_toNat_lt] at hsmall
    rw [List.mem_pair, not_or]
    exact ⟨by decide, hdigit ⟨v.toNat, hsmall⟩⟩
  · rw [List.mem_pair, not_or]
    exact ⟨hdigit ⟨v.toNat / 16, by omega⟩, hdigit ⟨v.toNat % 16, by omega⟩⟩

/-- The checksum of a sentence is not the start of another one. -/
theorem Accepts.next_le (h : Accepts m a e) {a' e' : Nat} (h' : Accepts m a' e') (hlt : e < a') :
    3 + e ≤ a' := by
  have hcheck := h.checksum
  obtain ⟨hlen, -⟩ := h.length_innerText
  have hdrop : (sentenceText m a e).drop (3 + e - a - 2) = [m (e + 1), m (e + 2)] := by
    rw [h.sentenceText_eq, sentenceOf, ← hlen,
      show (innerText m a e).length + 4 - 2 = (innerText m a e).length + 1 + 1 by omega,
      List.drop_succ_cons, List.drop_length_add_append]
    rfl
  rw [hdrop] at hcheck
  have hdollar : (0x24 : UInt8) ∉ [m (e + 1), m (e + 2)] := hcheck ▸ hexText_ne_dollar _
  rw [List.mem_pair, not_or] at hdollar
  have hstart := h'.start
  have h₁ : a' ≠ e + 1 := by
    rintro rfl
    exact hdollar.1 hstart.symm
  have h₂ : a' ≠ e + 2 := by
    rintro rfl
    exact hdollar.2 hstart.symm
  omega

/-- The stored messages were cut out of the buffer. -/
theorem sum_storedMessages_lt (signed : Bool) (gpsBuff : Mem) :
    ((storedMessages (parseGPSBuffer signed gpsBuff)).map fun msg => msg.message.length).sum <
      gpsBuffSize := by
  obtain ⟨D, hsorted, hmem, hstores⟩ := parseGPSBuffer_found signed gpsBuff
  have haccepts : ∀ x ∈ D, Accepts (cleanBuffer signed gpsBuff) x.1 x.2 := fun x hx =>
    ((hmem x.1 x.2).mp hx).accepts
  have hapart : D.Pairwise fun x y => 3 + x.2 ≤ y.1 := by
    refine hsorted.imp_of_mem ?_
    intro x y hx hy hlt
    exact (haccepts x hx).next_le (haccepts y hy) hlt
  -- the sentences as intervals of the buffer
  have hsum := sum_intervals_le (Nat.zero_le (gpsBuffSize - 1))
    (D := (D.take numGpsMessages).map fun x => (x.1, 3 + x.2))
    (List.pairwise_map.mpr (hapart.sublist (List.take_sublist _ _))) (by
      intro x hx
      obtain ⟨y, hy, rfl⟩ := List.mem_map.mp hx
      have hy := haccepts y (List.mem_of_mem_take hy)
      have hroom := hy.room
      have hlt := hy.bounds.1
      exact ⟨Nat.zero_le _, by omega, by omega⟩)
  have hlengths : (storedMessages (parseGPSBuffer signed gpsBuff)).map
      (fun msg => msg.message.length) =
      (((D.take numGpsMessages).map fun x => (x.1, 3 + x.2)).map fun x => x.2 - x.1) := by
    rw [storedMessages_eq hstores, List.map_map, List.map_map]
    apply List.map_congr_left
    intro x hx
    exact length_relabel_sentenceText (haccepts x (List.mem_of_mem_take hx))
  rw [hlengths]
  have hpos : 0 < gpsBuffSize := by decide
  omega

/-- The number of characters that are copied for a message with its line end. -/
def sentLength (host : GpsHost) (msg : GpsMessage) : Nat :=
  if (hostMessage host msg).length + 2 < maxMsgSize then (hostMessage host msg).length + 2
  else (hostMessage host msg).length

/-- The messages with their line ends have room together, or fill `hostbuffer` exactly up to
one of them. -/
def LinesFit (host : GpsHost) (messages : List GpsMessage) : Prop :=
  (messages.map (sentLength host)).sum ≤ hostsBufferSize ∨
    ∃ k, ((messages.take k).map (sentLength host)).sum = hostsBufferSize

theorem length_hostLine {host : GpsHost} (hconn : host.connection ≠ .internal) (msg : GpsMessage) :
    (hostLine host msg).length = sentLength host msg := by
  rw [sentLength]
  split
  next hshort =>
    rw [hostLine_of_short hconn hshort, List.length_append]
    rfl
  next hlong => rw [hostLine_of_long (Nat.le_of_not_lt hlong)]

theorem length_cText_le (text : List UInt8) : (cText text).length ≤ text.length :=
  (List.takeWhile_sublist _).length_le

theorem length_hostMessage_le (host : GpsHost) (msg : GpsMessage) :
    (hostMessage host msg).length ≤ msg.message.length := by
  rw [hostMessage]
  split
  · exact (length_replaceStation_le host _).trans (length_cText_le _)
  · exact length_cText_le _

/-- Without line ends the messages have room. -/
theorem sum_hostLine_internal {host : GpsHost} (hconn : host.connection = .internal)
    (signed : Bool) (gpsBuff : Mem) :
    ((storedMessages (parseGPSBuffer signed gpsBuff)).map
      fun msg => (hostLine host msg).length).sum ≤ hostsBufferSize := by
  have hline (msg : GpsMessage) : hostLine host msg = hostMessage host msg :=
    if_neg fun hboth => hboth.1 hconn
  calc
    _ ≤ ((storedMessages (parseGPSBuffer signed gpsBuff)).map fun msg => msg.message.length).sum :=
      List.sum_le_sum fun msg _ => by
        rw [hline]
        exact length_hostMessage_le host msg
    _ ≤ gpsBuffSize := (sum_storedMessages_lt signed gpsBuff).le
    _ = hostsBufferSize := rfl

/-- `hostbuffer` overflows exactly for a host outside of the device that gets all messages,
if these with their line ends have no room. A sentence of the full length counts with its
characters, although the copy of `parseNMEA` had no room for it and nothing is defined after
that (`Parsed.inputStrFits`). -/
theorem hostbuffer_le_iff (signed : Bool) (gpsBuff : Mem) (host : GpsHost) (hostNum : Nat)
    (taip : List UInt8) :
    (hostData host (hostNum == 0) (parseGPSBuffer signed gpsBuff) taip).hostbuffer.length ≤
        hostsBufferSize ↔
      host.output ≠ .nmea ∨ hostNum = 0 ∨ host.connection = .internal ∨
        LinesFit host (storedMessages (parseGPSBuffer signed gpsBuff)) := by
  by_cases houtput : host.output = .nmea
  swap
  · have hempty : (hostData host (hostNum == 0) (parseGPSBuffer signed gpsBuff) taip).hostbuffer =
        [] := by
      rw [hostData]
      split
      next hnmea => exact absurd hnmea houtput
      · rfl
      · rfl
    rw [hempty]
    exact iff_of_true (Nat.zero_le _) (.inl houtput)
  by_cases hnum : hostNum = 0
  · have hempty : (hostData host (hostNum == 0) (parseGPSBuffer signed gpsBuff) taip).hostbuffer =
        [] := by
      rw [hostData, houtput, hnum]
      simp only [beq_self_eq_true, if_true]
      split <;> rfl
    rw [hempty]
    exact iff_of_true (Nat.zero_le _) (.inr (.inl hnum))
  rw [hostData_batch houtput hnum, length_fillUntil_le_iff (by decide), List.length_nil,
    Nat.zero_add]
  simp only [Nat.zero_add, ← List.map_take, List.map_map]
  by_cases hconn : host.connection = .internal
  · exact iff_of_true (.inl (sum_hostLine_internal hconn signed gpsBuff))
      (.inr (.inr (.inl hconn)))
  · have hlength : List.length ∘ hostLine host = sentLength host :=
      funext (length_hostLine hconn)
    rw [hlength]
    constructor
    · exact fun h => .inr (.inr (.inr h))
    · rintro (h | h | h | h)
      · exact absurd houtput h
      · exact absurd h hnum
      · exact absurd h hconn
      · exact h

end Packing

section Buffers

variable {signed : Bool} {gpsBuff : Mem} {D : List (Nat × Nat)} {s : List UInt8} {e : Nat}

/-- The stored messages, where the sentences of the buffer are known. -/
theorem storedMessages_of_sentences (hsorted : D.Pairwise fun x y => x.2 < y.1)
    (hmem : ∀ a e, (a, e) ∈ D ↔ Sentence (cleanBuffer signed gpsBuff) a e) :
    storedMessages (parseGPSBuffer signed gpsBuff) =
      (D.take numGpsMessages).map fun x => entry (cleanBuffer signed gpsBuff) x.1 x.2 := by
  obtain ⟨D', hsorted', hmem', hstores⟩ := parseGPSBuffer_found signed gpsBuff
  have hlt : ∀ x : Nat × Nat, Sentence (cleanBuffer signed gpsBuff) x.1 x.2 → x.1 < x.2 :=
    fun x hx => hx.accepts.bounds.1
  have hnodup {L : List (Nat × Nat)} (hL : L.Pairwise fun x y => x.2 < y.1)
      (hin : ∀ a e, (a, e) ∈ L ↔ Sentence (cleanBuffer signed gpsBuff) a e) : L.Nodup := by
    refine hL.imp_of_mem ?_
    rintro x y hx - hxy rfl
    have := hlt x ((hin _ _).mp hx)
    omega
  have hperm : D'.Perm D := by
    rw [List.perm_ext_iff_of_nodup (hnodup hsorted' hmem') (hnodup hsorted hmem)]
    rintro ⟨a, e⟩
    rw [hmem', hmem]
  have heq : D' = D := by
    refine hperm.eq_of_pairwise ?_ hsorted' hsorted
    intro x y hx hy h₁ h₂
    have hx := hlt x ((hmem' _ _).mp hx)
    have hy := hlt y ((hmem _ _).mp hy)
    omega
  rw [storedMessages_eq hstores, heq]

theorem sentenceText_translate {m m' : Mem} {d : Nat}
    (hsame : ∀ i, i < 3 + e → m' (d + i) = m i) :
    sentenceText m' d (d + e) = sentenceText m 0 e := by
  rw [sentenceText, sentenceText, show 3 + (d + e) - d = 3 + e - 0 by omega]
  apply Mem.bytes_congr
  intro i hi
  rw [Mem.shift_apply, Mem.shift_apply, Nat.zero_add]
  exact hsame i (by omega)

/-- A sentence at another place is accepted there. -/
theorem Accepts.translate {m m' : Mem} {d : Nat} (h : Accepts m 0 e)
    (hsame : ∀ i, i < 3 + e → m' (d + i) = m i) (hroom : 3 + (d + e) < gpsBuffSize) :
    Accepts m' d (d + e) := by
  have hlength : 3 + (d + e) - d = 3 + e - 0 := by omega
  obtain ⟨hlt, hstar, hfirst⟩ := h.bounds
  refine ⟨?_, ?_, hroom, ?_, ?_⟩
  · exact (hsame 0 (by omega)).trans h.start
  · rw [strstr_eq_some]
    refine ⟨by omega, by omega, (hsame e (by omega)).trans hstar, ?_⟩
    intro j h₁ h₂
    obtain ⟨i, rfl⟩ := Nat.exists_eq_add_of_le (Nat.le_of_succ_le h₁)
    rw [hsame i (by omega)]
    exact hfirst i (by omega) (by omega)
  · rw [hlength]
    exact h.size
  · rw [sentenceText_translate hsame, hlength]
    exact h.checksum

/-- A buffer with a sentence `n` times, one after the other. -/
def repeatBuffer (s : List UInt8) (n : Nat) : Mem :=
  fun i => if i < n * s.length then s.getD (i % s.length) 0x20 else 0x20

variable {n : Nat}

theorem cleanBuffer_repeatBuffer (hroom : n * s.length < gpsBuffSize) {k i : Nat} (hk : k < n)
    (hi : i < s.length) :
    cleanBuffer signed (repeatBuffer s n) (k * s.length + i) =
      cleanBuffer signed (bufferOf s) i := by
  have hin : k * s.length + i < n * s.length := by
    calc
      k * s.length + i < k * s.length + s.length := by omega
      _ = (k + 1) * s.length := (Nat.succ_mul ..).symm
      _ ≤ n * s.length := Nat.mul_le_mul_right _ hk
  have hle : i ≤ k * s.length + i := Nat.le_add_left _ _
  rw [cleanBuffer, cleanBuffer, if_pos (by omega), if_pos (by omega), repeatBuffer, if_pos hin,
    bufferOf, Nat.mul_comm, Nat.mul_add_mod, Nat.mod_eq_of_lt hi]

/-- Where the sentence ends with its only `*` and has no other `$`, the sentences of the
buffer are its repetitions. -/
theorem sentence_repeatBuffer_iff (h : Accepts (cleanBuffer signed (bufferOf s)) 0 e)
    (hlength : s.length = e + 3) (hroom : n * s.length < gpsBuffSize)
    (hstar : ∀ i, i < s.length → cleanBuffer signed (bufferOf s) i = 0x2a → i = e)
    (hdollar : ∀ i, i < s.length → cleanBuffer signed (bufferOf s) i = 0x24 → i = 0) (a e' : Nat) :
    (a, e') ∈ (List.range n).map (fun k => (k * s.length, k * s.length + e)) ↔
      Sentence (cleanBuffer signed (repeatBuffer s n)) a e' := by
  have hchar {k i : Nat} (hk : k < n) (hi : i < s.length) :
      cleanBuffer signed (repeatBuffer s n) (k * s.length + i) =
        cleanBuffer signed (bufferOf s) i := cleanBuffer_repeatBuffer hroom hk hi
  have hfits {k : Nat} (hk : k < n) : 3 + (k * s.length + e) < gpsBuffSize := by
    have := Nat.mul_le_mul_right s.length (Nat.succ_le_of_lt hk)
    rw [Nat.succ_mul] at this
    omega
  have haccepts {k : Nat} (hk : k < n) :
      Accepts (cleanBuffer signed (repeatBuffer s n)) (k * s.length) (k * s.length + e) :=
    h.translate (fun i hi => hchar hk (by omega)) (hfits hk)
  have hsentence {k : Nat} (hk : k < n) :
      Sentence (cleanBuffer signed (repeatBuffer s n)) (k * s.length) (k * s.length + e) := by
    refine ⟨haccepts hk, ?_⟩
    intro a' ha' hbefore
    -- a start before the repetition lies in the one before it, whose `*` would be found
    cases k with
    | zero => exact absurd ha' (by rw [Nat.zero_mul]; exact Nat.not_lt_zero a')
    | succ k =>
        rw [Nat.succ_mul] at ha'
        have hk' : k < n := Nat.lt_of_succ_lt hk
        rcases Nat.lt_or_ge a' (k * s.length + e) with hlow | hhigh
        · have hbetween := hbefore.bounds.2.2 (k * s.length + e) hlow
            (by rw [Nat.succ_mul]; omega)
          exact hbetween ((hchar hk' (by omega)).trans h.bounds.2.1)
        · obtain ⟨i, rfl⟩ := Nat.exists_eq_add_of_le (Nat.le_of_add_right_le hhigh)
          have hstart := hbefore.start
          rw [hchar hk' (by omega)] at hstart
          have hzero := hdollar i (by omega) hstart
          have := h.bounds.1
          omega
  constructor
  · intro hmem
    obtain ⟨k, hk, heq⟩ := List.mem_map.mp hmem
    obtain ⟨rfl, rfl⟩ := Prod.mk.inj heq
    exact hsentence (List.mem_range.mp hk)
  · intro hs
    have hend := hs.accepts.bounds.2.1
    have hroom' := hs.accepts.room
    have hin : e' < n * s.length := by
      by_contra hout
      rw [cleanBuffer, if_pos (by omega), repeatBuffer, if_neg hout] at hend
      exact absurd (cleanChar_eq_star hend) (by decide)
    have hpos : 0 < s.length := by omega
    have hk : e' / s.length < n := (Nat.div_lt_iff_lt_mul hpos).mpr hin
    have hmod := Nat.mod_lt e' hpos
    have hsplit : e' / s.length * s.length + e' % s.length = e' := Nat.div_add_mod' ..
    rw [← hsplit, hchar hk hmod] at hend
    have he := hstar _ hmod hend
    rw [he] at hsplit
    rw [← hsplit] at hs ⊢
    obtain rfl := hs.unique (hsentence hk)
    exact List.mem_map_of_mem (f := fun k => (k * s.length, k * s.length + e))
      (List.mem_range.mpr hk)

/-- The same message is stored for each repetition. -/
theorem storedMessages_repeatBuffer (h : Accepts (cleanBuffer signed (bufferOf s)) 0 e)
    (hlength : s.length = e + 3) (hroom : n * s.length < gpsBuffSize)
    (hstar : ∀ i, i < s.length → cleanBuffer signed (bufferOf s) i = 0x2a → i = e)
    (hdollar : ∀ i, i < s.length → cleanBuffer signed (bufferOf s) i = 0x24 → i = 0)
    (hn : n ≤ numGpsMessages) :
    storedMessages (parseGPSBuffer signed (repeatBuffer s n)) =
      List.replicate n (entry (cleanBuffer signed (bufferOf s)) 0 e) := by
  have hsorted : ((List.range n).map fun k => (k * s.length, k * s.length + e)).Pairwise
      fun x y => x.2 < y.1 := by
    rw [List.pairwise_map]
    refine List.pairwise_lt_range.imp ?_
    intro k k' hlt
    calc
      k * s.length + e < k * s.length + s.length := by omega
      _ = (k + 1) * s.length := (Nat.succ_mul ..).symm
      _ ≤ k' * s.length := Nat.mul_le_mul_right _ hlt
  rw [storedMessages_of_sentences hsorted
    (sentence_repeatBuffer_iff h hlength hroom hstar hdollar), List.take_of_length_le,
    List.map_map]
  · rw [List.eq_replicate_iff]
    refine ⟨by simp, ?_⟩
    intro msg hmsg
    obtain ⟨k, hk, rfl⟩ := List.mem_map.mp hmsg
    have htext : sentenceText (cleanBuffer signed (repeatBuffer s n)) (k * s.length)
        (k * s.length + e) = sentenceText (cleanBuffer signed (bufferOf s)) 0 e :=
      sentenceText_translate fun i hi =>
        cleanBuffer_repeatBuffer hroom (List.mem_range.mp hk) (by omega)
    rw [Function.comp_apply, entry, htext]
    rfl
  · rw [List.length_map, List.length_range]
    exact hn

end Buffers

section Cases

/-- A host that gets all sentences by UDP. -/
def udpHost : GpsHost := { GpsHost.initial with connection := .udp, output := .nmea }

/-- A sentence of 68 characters. -/
def denseSentence : List UInt8 :=
  ascii "$GPGSA,A,3,02,14,22,30,11,12,13,15,16,17,18,19,6.0,3.8,4.6,1,234A*79"

theorem accepts_denseSentence :
    Accepts (cleanBuffer false (bufferOf denseSentence)) 0 65 where
  start := by decide
  star := by decide +kernel
  room := by decide
  size := by decide
  checksum := by decide +kernel

/-- With this sentence thirty times in the buffer 2100 characters are copied. -/
theorem hostbuffer_overflow :
    (hostData udpHost (1 == 0) (parseGPSBuffer false (repeatBuffer denseSentence 30))
      []).hostbuffer.length = 2100 := by
  have hstored := storedMessages_repeatBuffer (n := 30) accepts_denseSentence (by decide +kernel)
    (by decide +kernel) (by decide +kernel) (by decide +kernel) (Nat.le_refl _)
  rw [hostData_batch rfl Nat.one_ne_zero, hstored]
  decide +kernel

end Cases

end Speedway.Gps
