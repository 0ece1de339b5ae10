import Speedway.Mcu.Commands

/-!
# Words on the link

`--vst-set` sends a 32-bit word in the first bytes of the payload, and `--stdby-cd` reads
one from the first bytes of an answer. Both are meant to be little-endian. The encoder
puts its four bytes one over the other, and the decoder joins the four bytes without
shifting them, together with what earlier calls left in `stdbycd`.
-/

namespace Speedway.Mcu

open Speedway.Lib
open Speedway.Gps (ascii)

section Encoder

/-- A call sends one packet, and the packet starts with the word. -/
def SendsWord (session : Session) (vst : List UInt8) (t : CmdTool) : Prop :=
  ∃ packet, (vstSet session vst t).2.sent = t.sent ++ [packet] ∧
    packet.payload.word 0 = (scanWord vst).toNat

/-- The packet can be sent. -/
def Session.Sends (session : Session) (t : CmdTool) : Prop :=
  (t.nlready = true ∨ session.netlink = true) ∧ session.first.sendmsg = true

/-- What a call sends. -/
theorem vstSet_sent (session : Session) (vst : List UInt8) (t : CmdTool) :
    ∃ header : TxHeader, (vstSet session vst t).2.sent =
      if (t.nlready || session.netlink) && session.first.sendmsg then
        t.sent ++ [⟨header, vstPayload (scanWord vst) t.txdata.payload⟩]
      else t.sent := by
  refine ⟨{ t.txdata.header with event := eventVstSet, rxlen := 0xff }, ?_⟩
  cases hready : t.nlready with
  | true =>
      rw [vstSet, nlOpen_of_ready hready, CmdResult.andThen_ok, nlWrite_read_sent]
      rfl
  | false =>
      cases hnetlink : session.netlink with
      | true =>
          rw [vstSet, hnetlink, nlOpen_true, CmdResult.andThen_ok, nlWrite_read_sent]
          rfl
      | false => simp [vstSet, nlOpen, hready, hnetlink, CmdResult.andThen]

/-- The last of the four assignments is the one that stays. -/
theorem vstPayload_apply (v : UInt32) (payload : Mem) (i : Nat) :
    vstPayload v payload i =
      if i = 0 then ((v &&& 0xff000000) >>> 24).toUInt8 else payload i := by
  simp only [vstPayload, Function.update_apply]
  split <;> rfl

theorem toNat_topByte (v : UInt32) :
    ((v &&& 0xff000000) >>> 24).toUInt8.toNat = v.toNat / 2 ^ 24 := by
  have hv := v.toNat_lt
  have hmask : 0xff000000 >>> 24 = 2 ^ 8 - 1 := by decide
  rw [UInt32.toNat_toUInt8, UInt32.toNat_shiftRight, UInt32.toNat_and]
  simp only [UInt32.reduceToNat, Nat.reduceMod]
  rw [Nat.shiftRight_and_distrib, hmask, Nat.and_two_pow_sub_one_eq_mod, Nat.shiftRight_eq_div_pow]
  omega

/-- The payload starts with the word exactly when the last byte of the word is also its
first, and its other bytes were there before. -/
theorem word_vstPayload_iff (v : UInt32) (payload : Mem) :
    (vstPayload v payload).word 0 = v.toNat ↔
      v.toNat / 2 ^ 24 = v.toNat % 256 ∧
        ∀ i, 0 < i → i < 4 → payload i = Mem.ofWords (fun _ => v.toNat) i := by
  have hword : (Mem.ofWords fun _ => v.toNat).word 0 = v.toNat := Mem.word_ofWords v.toNat_lt
  have hfirst : vstPayload v payload 0 = Mem.ofWords (fun _ => v.toNat) 0 ↔
      v.toNat / 2 ^ 24 = v.toNat % 256 := by
    rw [vstPayload_apply, if_pos rfl, ← UInt8.toNat_inj, toNat_topByte, Mem.ofWords,
      UInt8.toNat_ofNat', pow_zero, Nat.div_one]
  have hother : ∀ i, 0 < i → vstPayload v payload i = payload i := by
    intro i hi
    rw [vstPayload_apply, if_neg (by omega)]
  constructor
  · intro h
    have hbytes : ∀ i, i < 4 → vstPayload v payload i = Mem.ofWords (fun _ => v.toNat) i := by
      intro i hi
      have := Mem.eq_of_word_eq (h.trans hword.symm) hi
      rwa [Nat.mul_zero, Nat.zero_add] at this
    refine ⟨hfirst.mp (hbytes 0 (by omega)), ?_⟩
    intro i hpos hi
    rw [← hother i hpos]
    exact hbytes i hi
  · rintro ⟨hzero, hothers⟩
    refine Eq.trans (Mem.word_congr ?_) hword
    intro i hi
    rw [Nat.mul_zero, Nat.zero_add]
    rcases Nat.eq_zero_or_pos i with rfl | hpos
    · exact hfirst.mpr hzero
    · rw [hother i hpos]
      exact hothers i hpos hi

/-- A word is sent whole exactly when the link is up, its last byte is also its first, and
its other bytes are in the packet already. -/
theorem sendsWord_iff (session : Session) (vst : List UInt8) (t : CmdTool) :
    SendsWord session vst t ↔
      session.Sends t ∧
        (scanWord vst).toNat / 2 ^ 24 = (scanWord vst).toNat % 256 ∧
        ∀ i, 0 < i → i < 4 →
          t.txdata.payload i = Mem.ofWords (fun _ => (scanWord vst).toNat) i := by
  obtain ⟨header, hsent⟩ := vstSet_sent session vst t
  have hsends : ((t.nlready || session.netlink) && session.first.sendmsg) = true ↔
      session.Sends t := by
    simp [Session.Sends]
  rw [← word_vstPayload_iff, SendsWord, hsent]
  constructor
  · rintro ⟨packet, hpacket, hword⟩
    split at hpacket
    · rename_i hup
      obtain rfl : ⟨header, vstPayload (scanWord vst) t.txdata.payload⟩ = packet := by
        simpa using hpacket
      exact ⟨hsends.mp hup, hword⟩
    · simp at hpacket
  · rintro ⟨hup, hword⟩
    rw [if_pos (hsends.mpr hup)]
    exact ⟨_, rfl, hword⟩

end Encoder

section Decoder

/-- The link answers with `reply`. -/
def Session.answering (reply : Mem) : Session :=
  ⟨true, ⟨true, .answer reply⟩, ⟨true, .answer reply⟩⟩

/-- `stdbycd` after each of some calls. -/
def countdowns : List Mem → CmdTool → List UInt32
  | [], _ => []
  | reply :: replies, t =>
      let t := (stdbycdGet (.answering reply) t).2
      t.stdbycd :: countdowns replies t

/-- The four bytes of a reply, joined. -/
def joined (reply : Mem) : UInt8 := reply 0 ||| reply 1 ||| reply 2 ||| reply 3

/-- Only the first byte of a reply is not zero. -/
def OneByte (reply : Mem) : Prop := reply 1 = 0 ∧ reply 2 = 0 ∧ reply 3 = 0

/-- The second byte has all bits of the first. -/
def Covers (a b : UInt8) : Prop := a ||| b = b

theorem stdbycdGet_answering (reply : Mem) (t : CmdTool) :
    (stdbycdGet (.answering reply) t).2.stdbycd = t.stdbycd ||| (joined reply).toUInt32 := by
  have hcopy : ∀ m : Mem, ∀ i, i < 4 → Mem.copy m 0 reply packetLen i = reply i := by
    intro m i hi
    apply Mem.copy_zero
    exact Nat.lt_of_lt_of_le hi (by decide)
  rw [stdbycdGet, Session.answering, nlOpen_true, CmdResult.andThen_ok]
  simp only [nlWrite, if_true, CmdResult.andThen_ok, nlRead, joined, CmdTool.setHeader,
    show packetLen ≠ 0 by decide, if_false, hcopy _ 0 (by omega), hcopy _ 1 (by omega),
    hcopy _ 2 (by omega), hcopy _ 3 (by omega)]

theorem joined_of_oneByte {reply : Mem} (h : OneByte reply) : joined reply = reply 0 := by
  obtain ⟨h₁, h₂, h₃⟩ := h
  simp [joined, h₁, h₂, h₃]

/-- A call yields the word of its reply exactly when the reply has one byte, with all bits
that were there before. -/
theorem joined_eq_word_iff (a : UInt8) (reply : Mem) :
    (a.toUInt32 ||| (joined reply).toUInt32).toNat = reply.word 0 ↔
      OneByte reply ∧ Covers a (reply 0) := by
  have hjoin : (a.toUInt32 ||| (joined reply).toUInt32).toNat = (a ||| joined reply).toNat := by
    rw [← UInt8.toUInt32_or, UInt8.toNat_toUInt32]
  rw [hjoin]
  constructor
  · intro h
    have hlt := (a ||| joined reply).toNat_lt
    have hword : (a ||| joined reply).toNat = (reply 0).toNat + 256 * (reply 1).toNat +
        65536 * (reply 2).toNat + 16777216 * (reply 3).toNat := h
    have hone : OneByte reply := by
      refine ⟨?_, ?_, ?_⟩ <;> apply UInt8.toNat_inj.mp <;> rw [UInt8.toNat_zero] <;> omega
    refine ⟨hone, ?_⟩
    apply UInt8.toNat_inj.mp
    rw [← joined_of_oneByte hone] at hword ⊢
    simp only [hone.1, hone.2.1, hone.2.2, UInt8.toNat_zero] at hword
    omega
  · rintro ⟨hone, hcovers⟩
    rw [joined_of_oneByte hone, hcovers, Mem.word]
    simp [hone.1, hone.2.1, hone.2.2]

/-- The words of some replies, from a tool whose `stdbycd` is one byte. -/
theorem countdowns_eq_iff (replies : List Mem) (a : UInt8) (t : CmdTool)
    (ht : t.stdbycd = a.toUInt32) :
    (countdowns replies t).map UInt32.toNat = replies.map (Mem.word · 0) ↔
      (∀ reply ∈ replies, OneByte reply) ∧ List.IsChain Covers (a :: replies.map (· 0)) := by
  induction replies generalizing a t with
  | nil => simp [countdowns]
  | cons reply replies ih =>
      have hstep := stdbycdGet_answering reply t
      rw [ht] at hstep
      simp only [countdowns, List.map_cons, List.cons.injEq, List.forall_mem_cons,
        List.isChain_cons_cons, hstep, joined_eq_word_iff]
      constructor
      · rintro ⟨⟨hone, hcovers⟩, hrest⟩
        have hnext : (stdbycdGet (.answering reply) t).2.stdbycd = (reply 0).toUInt32 := by
          rw [hstep, joined_of_oneByte hone, ← UInt8.toUInt32_or, hcovers]
        obtain ⟨hones, hchain⟩ := (ih _ _ hnext).mp hrest
        exact ⟨⟨hone, hones⟩, hcovers, hchain⟩
      · rintro ⟨⟨hone, hones⟩, hcovers, hchain⟩
        have hnext : (stdbycdGet (.answering reply) t).2.stdbycd = (reply 0).toUInt32 := by
          rw [hstep, joined_of_oneByte hone, ← UInt8.toUInt32_or, hcovers]
        exact ⟨⟨hone, hcovers⟩, (ih _ _ hnext).mpr ⟨hones, hchain⟩⟩

theorem isChain_covers_zero (bytes : List UInt8) :
    List.IsChain Covers (0 :: bytes) ↔ List.IsChain Covers bytes := by
  cases bytes with
  | nil => simp
  | cons b bytes =>
      rw [List.isChain_cons_cons]
      exact and_iff_right (UInt8.zero_or)

end Decoder

section Link

/-- The words that are sent and read are intact exactly when the link is up, the last byte
of the word that is sent is also its first and its other bytes are in the packet already;
and when each reply has only its first byte, with all bits of that of the reply before. -/
theorem words_intact_iff (session : Session) (vst : List UInt8) (t : CmdTool)
    (replies : List Mem) :
    (SendsWord session vst t ↔
      session.Sends t ∧ (scanWord vst).toNat / 2 ^ 24 = (scanWord vst).toNat % 256 ∧
        ∀ i, 0 < i → i < 4 →
          t.txdata.payload i = Mem.ofWords (fun _ => (scanWord vst).toNat) i) ∧
    ((countdowns replies .fresh).map UInt32.toNat = replies.map (Mem.word · 0) ↔
      (∀ reply ∈ replies, OneByte reply) ∧ List.IsChain Covers (replies.map (· 0))) := by
  refine ⟨sendsWord_iff session vst t, ?_⟩
  rw [countdowns_eq_iff replies 0 .fresh rfl, isChain_covers_zero]

/-- 1 is sent as 0, and a reply of 256 is read as 1. -/
theorem words_not_intact :
    Session.Sends (.answering fun _ => 0) .fresh ∧
      ¬ SendsWord (.answering fun _ => 0) (ascii "1") .fresh ∧
      countdowns [fun i => if i = 1 then 1 else 0] .fresh = [1] ∧
      Mem.word (fun i => if i = 1 then 1 else 0) 0 = 256 := by
  refine ⟨⟨Or.inr rfl, rfl⟩, ?_, by decide, by decide⟩
  rw [sendsWord_iff]
  rintro ⟨-, hfirst, -⟩
  exact absurd hfirst (by decide)

end Link

end Speedway.Mcu
