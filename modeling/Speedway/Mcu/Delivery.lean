import Speedway.Mcu.Reassembly

/-!
# What a reported success says

`_stm_i2cnl_upgrade` returns 0 whenever its worker thread has ended, and
neither the transfer helper nor the netlink handler reports a failed
`i2c_master_send`. A reported success means a delivered image only where
nothing failed.
-/

namespace Speedway.Mcu

open Speedway.Lib

/-- `i2c_master_send` took the whole packet. -/
def Attempt.Accepted (a : Attempt) : Prop := ∃ r, a.i2c = some (packetLen, r) ∧ 0 ≤ r

/-- Every packet of the file was sent and accepted. -/
structure Delivered (file : List UInt8) (attempts : List Attempt) : Prop where
  packets : attempts.map Attempt.packet = stream file
  accepted : ∀ a ∈ attempts, a.Accepted

/-- The reports of the tool are right: success only for a delivered image, and an
error whenever a packet was not accepted. -/
structure HonestUpgrade (s : Setup) (res : UpgradeResult) : Prop where
  success : res.ret = some 0 → ∃ file, s.file = some file ∧ Delivered file res.attempts
  complete : res.thread = some (.posted .cmpt) →
    ∃ file, s.file = some file ∧ Delivered file res.attempts
  failure : (∃ a ∈ res.attempts, ¬ a.Accepted) → ∃ r, res.ret = some r ∧ r ≠ 0

/-- The next packet follows. -/
def Exchange.goesOn (x : Exchange) : Bool := x.sendmsg && x.recvmsg && x.replied

/-- If the tool can start, each packet it comes to is sent and accepted, and no
answer before the last one is lost to an error of `recvmsg`. -/
def Undisturbed (s : Setup) (link : Nat → Exchange) : Prop :=
  s.netlink = true → s.semaphore = true → ∀ file, s.file = some file →
    ∀ k, k < dataCount file + 2 → (∀ j, j < k → (link j).goesOn = true) →
      (link k).sendmsg = true ∧ 0 ≤ (link k).i2cSend ∧
        (k + 1 < dataCount file + 2 → (link k).recvmsg = true)

section Exchanges

variable {txHead : UInt8 × UInt8} {link : Nat → Exchange} {file : List UInt8}

theorem exchanges_next (k : Nat) (b : UpdateBuffer) :
    (exchanges txHead link k b).2 = .next ↔ (link k).goesOn = true := by
  simp only [exchanges, exchangePacket, Exchange.goesOn, netlinkRecvMsg_replies]
  cases (link k).sendmsg <;> cases (link k).recvmsg <;> cases (link k).replied <;> simp

/-- Every packet of the stream is an upgrade packet of full length. -/
theorem mem_stream {b : UpdateBuffer} (h : b ∈ stream file) :
    b.updheader.event = eventUpgrade ∧ b.updheader.txlen = UInt8.ofNat packetLen := by
  rw [stream, restOfStream, List.mem_cons, List.mem_append, List.mem_map, List.mem_singleton] at h
  rcases h with rfl | ⟨k, -, rfl⟩ | rfl
  · exact ⟨rfl, rfl⟩
  · exact ⟨rfl, rfl⟩
  · exact ⟨rfl, rfl⟩

/-- What becomes of a packet of the stream. -/
theorem exchanges_i2c {k : Nat} {b : UpdateBuffer} (hb : b ∈ stream file) :
    (exchanges txHead link k b).1.i2c =
      if (link k).sendmsg then some (packetLen, (link k).i2cSend) else none := by
  obtain ⟨hevent, htxlen⟩ := mem_stream hb
  have hfirst : (b.wire txHead).getD 0 0 = eventUpgrade := hevent
  have hlen : ((b.wire txHead).getD 3 0).toNat = packetLen := by
    show b.updheader.txlen.toNat = packetLen
    rw [htxlen]
    rfl
  simp only [exchanges, exchangePacket]
  split
  · simp only [netlinkRecvMsg, hfirst, hlen, if_true]
    rw [if_pos (by decide)]
  · rfl

theorem exchanges_accepted (txHead : UInt8 × UInt8) (link : Nat → Exchange) {k : Nat}
    {b : UpdateBuffer} (hb : b ∈ stream file) :
    (exchanges txHead link k b).1.Accepted ↔ (link k).sendmsg = true ∧ 0 ≤ (link k).i2cSend := by
  rw [Attempt.Accepted, exchanges_i2c hb]
  cases (link k).sendmsg with
  | false => simp
  | true => simp

/-- A packet is reached when all exchanges before it go on. -/
theorem reaches_iff (txHead : UInt8 × UInt8) {k : Nat} (hk : k < dataCount file + 2) :
    Reaches (exchanges txHead link) 0 (stream file) k ↔ ∀ j, j < k → (link j).goesOn = true := by
  have hlength := length_stream file
  constructor
  · intro h j hj
    have hlt : j < (stream file).length := by omega
    have hnext := h j _ hj (List.getElem?_eq_getElem hlt)
    rwa [exchanges_next, Nat.zero_add] at hnext
  · intro h j b hj _
    rw [exchanges_next, Nat.zero_add]
    exact h j hj

end Exchanges

section Honest

variable {s : Setup} {link : Nat → Exchange} {file : List UInt8}

/-- The sender of the tool. -/
def sender (s : Setup) (link : Nat → Exchange) (file : List UInt8) : List Attempt × Ending :=
  stopWait (exchanges s.txHead link) 0 (stream file)

/-- The result of a tool that could start. -/
theorem upgrade_started (hnl : s.netlink = true) (hsem : s.semaphore = true)
    (hfile : s.file = some file) :
    upgrade s link = ⟨if (sender s link file).2 = .hung then none else some 0,
      some (threadEnd (sender s link file).2), (sender s link file).1⟩ := by
  obtain ⟨hend, hlog⟩ := threadFunc_eq file s.txHead link
  simp only [upgrade, hnl, hsem, hfile, Bool.not_true, Bool.false_eq_true, if_false]
  rw [hend, hlog]
  show (⟨(threadEnd (sender s link file).2).upgradeReturns, some (threadEnd (sender s link file).2),
    (sender s link file).1⟩ : UpgradeResult) = _
  cases (sender s link file).2 <;> rfl

/-- A tool that could not start reports that, and has sent nothing. -/
theorem honest_not_started (h : ¬ (s.netlink = true ∧ s.semaphore = true ∧ s.file.isSome = true)) :
    HonestUpgrade s (upgrade s link) := by
  have hres : upgrade s link = ⟨some 1, none, []⟩ := by
    simp only [upgrade]
    cases hnl : s.netlink with
    | false => rfl
    | true =>
        cases hsem : s.semaphore with
        | false => rfl
        | true =>
            cases hfile : s.file with
            | none => rfl
            | some file => exact absurd ⟨hnl, hsem, by rw [hfile]; rfl⟩ h
  rw [hres]
  exact ⟨fun hret => absurd hret (by decide), fun hthread => absurd hthread (by simp),
    fun ⟨a, ha, _⟩ => absurd ha List.not_mem_nil⟩

/-- A record of the log belongs to a packet that was reached. -/
theorem mem_sender {a : Attempt} (ha : a ∈ (sender s link file).1) :
    ∃ k b, Reaches (exchanges s.txHead link) 0 (stream file) k ∧ (stream file)[k]? = some b ∧
      a = (exchanges s.txHead link k b).1 := by
  obtain ⟨k, hk⟩ := List.getElem?_of_mem ha
  obtain ⟨hreach, b, hb, heq⟩ := (stopWait_log a).mp hk
  rw [Nat.zero_add] at heq
  exact ⟨k, b, hreach, hb, heq⟩

section Started

variable (hnl : s.netlink = true) (hsem : s.semaphore = true) (hfile : s.file = some file)

include hnl hsem hfile

/-- Undisturbed packets are accepted. -/
theorem Undisturbed.accepted (h : Undisturbed s link) :
    ∀ a ∈ (sender s link file).1, a.Accepted := by
  intro a ha
  obtain ⟨k, b, hreach, hb, rfl⟩ := mem_sender ha
  have hlength := length_stream file
  have hk : k < dataCount file + 2 := by
    have := (List.getElem?_eq_some_iff.mp hb).1
    omega
  obtain ⟨hsend, hi2c, -⟩ := h hnl hsem file hfile k hk ((reaches_iff _ hk).mp hreach)
  exact (exchanges_accepted _ _ (List.mem_of_getElem? hb)).mpr ⟨hsend, hi2c⟩

/-- A run that is undisturbed and ends has come to every packet. -/
theorem Undisturbed.reaches (h : Undisturbed s link) (hend : (sender s link file).2 ≠ .hung)
    (k : Nat) (hk : k < dataCount file + 2) :
    Reaches (exchanges s.txHead link) 0 (stream file) k := by
  induction k with
  | zero => exact reaches_zero
  | succ k ih =>
      have hreach := ih (by omega)
      have hlength := length_stream file
      have hlt : k < (stream file).length := by omega
      have hb := List.getElem?_eq_getElem hlt
      obtain ⟨hsend, -, hrecv⟩ := h hnl hsem file hfile k (by omega)
        ((reaches_iff _ (by omega)).mp hreach)
      -- the only way not to go on is a missing answer
      have hnext : (link k).goesOn = true := by
        by_contra hno
        apply hend
        have hstop := stopWait_stop hreach hb (by
          rw [Nat.zero_add, ne_eq, exchanges_next]
          exact hno)
        rw [sender, hstop, Nat.zero_add]
        simp only [Exchange.goesOn, hsend, hrecv hk, Bool.and_self, Bool.true_and,
          Bool.not_eq_true] at hno
        simp [exchanges, exchangePacket, hsend, hrecv hk, netlinkRecvMsg_replies, hno,
          Answer.ending]
      rw [reaches_iff _ hk]
      intro j hj
      rcases Nat.eq_or_lt_of_le (Nat.le_of_lt_succ hj) with rfl | hlt'
      · exact hnext
      · exact (reaches_iff _ (by omega)).mp hreach j hlt'

theorem Undisturbed.delivered (h : Undisturbed s link) (hend : (sender s link file).2 ≠ .hung) :
    Delivered file (sender s link file).1 where
  packets := by
    have hreach := h.reaches hnl hsem hfile hend
    rw [sender, stopWait_map id exchanges_packet fun j hj =>
      hreach j (by rwa [length_stream] at hj), List.map_id]
  accepted := h.accepted hnl hsem hfile

theorem Undisturbed.honest (h : Undisturbed s link) : HonestUpgrade s (upgrade s link) := by
  have hall := h.accepted hnl hsem hfile
  rw [upgrade_started hnl hsem hfile]
  refine ⟨fun hret => ?_, fun hthread => ?_, ?_⟩
  · refine ⟨file, hfile, h.delivered hnl hsem hfile fun hhung => ?_⟩
    have hret' : (if (sender s link file).2 = .hung then none else some 0) = some 0 := hret
    rw [if_pos hhung] at hret'
    exact absurd hret' (by simp)
  · refine ⟨file, hfile, h.delivered hnl hsem hfile fun hhung => ?_⟩
    have hthread' : some (threadEnd (sender s link file).2) = some (.posted .cmpt) := hthread
    rw [hhung] at hthread'
    exact absurd hthread' (by decide)
  · rintro ⟨a, ha, hno⟩
    exact absurd (hall a ha) hno

theorem HonestUpgrade.undisturbed (h : HonestUpgrade s (upgrade s link)) {k : Nat}
    (hk : k < dataCount file + 2) (hgo : ∀ j, j < k → (link j).goesOn = true) :
    (link k).sendmsg = true ∧ 0 ≤ (link k).i2cSend ∧
      (k + 1 < dataCount file + 2 → (link k).recvmsg = true) := by
  have hlength := length_stream file
  have hlt : k < (stream file).length := by omega
  have hb := List.getElem?_eq_getElem hlt
  have hreach := (reaches_iff s.txHead hk).mpr hgo
  rw [upgrade_started hnl hsem hfile] at h
  -- the record of packet `k`
  have hlog : (sender s link file).1[k]? = some (exchanges s.txHead link k (stream file)[k]).1 :=
    (stopWait_log _).mpr ⟨hreach, _, hb, by rw [Nat.zero_add]⟩
  have hmem := List.mem_of_getElem? hlog
  have haccepted := exchanges_accepted (k := k) s.txHead link
    (List.mem_of_getElem? hb)
  -- a run that fails returns 0
  have hfails (hno : (exchanges s.txHead link k (stream file)[k]).2 = .fails) :
      Delivered file (sender s link file).1 := by
    have hstop := stopWait_stop hreach hb (by rw [Nat.zero_add, hno]; decide)
    rw [Nat.zero_add, hno] at hstop
    obtain ⟨file', hfile', hdel⟩ := h.success (by
      show (if (sender s link file).2 = .hung then none else some 0) = some 0
      rw [sender, hstop]
      rfl)
    obtain rfl : file = file' := Option.some.inj (hfile.symm.trans hfile')
    exact hdel
  have hsend : (link k).sendmsg = true := by
    by_contra hno
    have hdel := hfails (by simp [exchanges, exchangePacket, hno])
    exact hno (haccepted.mp (hdel.accepted _ hmem)).1
  refine ⟨hsend, ?_, fun hmore => ?_⟩
  · by_contra hneg
    obtain ⟨r, hret, hr⟩ := h.failure ⟨_, hmem, fun hacc => hneg (haccepted.mp hacc).2⟩
    have hret' : (if (sender s link file).2 = .hung then none else some 0) = some r := hret
    split at hret'
    · exact absurd hret' (by simp)
    · exact hr (Option.some.inj hret').symm
  · by_contra hno
    have hanswer : (exchanges s.txHead link k (stream file)[k]).2 = .fails := by
      simp [exchanges, exchangePacket, hsend, hno]
    have hdel := hfails hanswer
    have hcount : (sender s link file).1.length = dataCount file + 2 := by
      rw [← hlength, ← hdel.packets, List.length_map]
    have hnextLog := List.getElem?_eq_getElem (show k + 1 < (sender s link file).1.length by omega)
    have hreach' := ((stopWait_log _).mp hnextLog).1 k _ (Nat.lt_succ_self k) hb
    rw [Nat.zero_add, hanswer] at hreach'
    exact absurd hreach' (by decide)

end Started

/-- The tool reports right if and only if it cannot start or is not disturbed. -/
theorem upgrade_honest_iff (s : Setup) (link : Nat → Exchange) :
    HonestUpgrade s (upgrade s link) ↔ Undisturbed s link := by
  constructor
  · intro h hnl hsem file hfile k hk hgo
    exact h.undisturbed hnl hsem hfile hk hgo
  · intro h
    by_cases hstart : s.netlink = true ∧ s.semaphore = true ∧ s.file.isSome = true
    · obtain ⟨hnl, hsem, hsome⟩ := hstart
      obtain ⟨file, hfile⟩ := Option.isSome_iff_exists.mp hsome
      exact h.honest hnl hsem hfile
    · exact honest_not_started hstart

/-- `i2c_master_send` fails with `-EREMOTEIO` for every packet, and the tool returns 0. -/
theorem upgrade_reports_lost_packets :
    let s : Setup := ⟨true, true, some [1, 2, 3], (0, 0)⟩
    let res := upgrade s fun _ => ⟨true, -121, 0, true, true⟩
    res.ret = some 0 ∧ res.thread = some (.posted .cmpt) ∧
      res.attempts.map Attempt.i2c = List.replicate 3 (some (64, -121)) ∧
      ¬ HonestUpgrade s res := by
  intro s res
  have hattempts : res.attempts.map Attempt.i2c = List.replicate 3 (some (64, -121)) := by
    decide +kernel
  have hret : res.ret = some 0 := by decide +kernel
  refine ⟨hret, by decide +kernel, hattempts, fun h => ?_⟩
  obtain ⟨file, -, hdel⟩ := h.success hret
  obtain ⟨a, ha, hi2c⟩ : ∃ a ∈ res.attempts, a.i2c = some (64, -121) := by
    have hmem : some (64, -121) ∈ res.attempts.map Attempt.i2c := by
      rw [hattempts]
      decide
    obtain ⟨a, ha, h⟩ := List.mem_map.mp hmem
    exact ⟨a, ha, h⟩
  obtain ⟨r, hr, hpos⟩ := hdel.accepted a ha
  rw [hi2c] at hr
  simp only [Option.some.injEq, Prod.mk.injEq] at hr
  omega

end Honest

end Speedway.Mcu
