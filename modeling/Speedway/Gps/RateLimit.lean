import Speedway.Gps.MainLoop

/-!
# The rate of a host

The clock is read before the burst is waited for, and that time is compared with the one
kept at the last send and kept in turn. So it is the readings that are apart by the rate;
the sends are only if the way from the reading to the send does not get shorter.
-/

namespace Speedway.Gps

section Times

variable {k hostNum : Nat} {a b log : List MainEvent} {m : Messages} {time : Int}

/-- The times of the successful calls of `sendHostData` for a host. -/
def sendTimes (k : Nat) (log : List MainEvent) : List Int :=
  log.filterMap fun e => match e with
    | .sent hostNum _ time true => if hostNum = k then some time else none
    | _ => none

@[simp] theorem sendTimes_append : sendTimes k (a ++ b) = sendTimes k a ++ sendTimes k b :=
  List.filterMap_append

@[simp] theorem sendTimes_status (file : Option StatusFile) :
    sendTimes k (file.map (MainEvent.status m)).toList = [] := by
  cases file <;> rfl

@[simp] theorem sendTimes_failed : sendTimes k [.sent hostNum m time false] = [] := rfl

@[simp] theorem sendTimes_success : sendTimes k [.sent k m time true] = [time] := by
  simp [sendTimes]

theorem sendTimes_other (h : hostNum ≠ k) (success : Bool) :
    sendTimes k [.sent hostNum m time success] = [] := by
  cases success
  · rfl
  · simp [sendTimes, h]

/-- Successful calls for a host with a rate are at least that many seconds apart. -/
def Spaced (o : Options) (log : List MainEvent) : Prop :=
  ∀ k, 0 < (o.hosts k).rate →
    (sendTimes k log).Pairwise fun s t => s + ((o.hosts k).rate : Int) ≤ t

/-- It is enough to look at the last one before. -/
theorem pairwise_spaced_concat {times : List Int} {rate t : Int} (hrate : 0 ≤ rate)
    (h : times.Pairwise fun s t => s + rate ≤ t) (hlast : ∀ s ∈ times.getLast?, s + rate ≤ t) :
    (times ++ [t]).Pairwise fun s t => s + rate ≤ t := by
  rcases List.eq_nil_or_concat' times with rfl | ⟨before, s, rfl⟩
  · exact List.pairwise_singleton _ t
  · rw [List.pairwise_append]
    refine ⟨h, List.pairwise_singleton _ t, ?_⟩
    intro a ha b hb
    rw [List.mem_singleton.mp hb]
    have hs : s + rate ≤ t := hlast s (by simp)
    rcases List.mem_append.mp ha with ha | ha
    · have := (List.pairwise_append.mp h).2.2 a ha s (List.mem_singleton_self s)
      omega
    · rw [List.mem_singleton.mp ha]
      exact hs

end Times

section Due

theorem toInt32_of_lt {n : Int} (hn : 0 ≤ n) (hlt : n < 2 ^ 31) : toInt32 n = n := by
  rw [toInt32, Int.bmod_eq_of_le]
  all_goals omega

/-- A host whose time is up was sent to that many seconds before. -/
theorem rate_le_of_isDue {rate : Nat} {now lastSend : Int} (hpos : 0 < rate) (hrate : rate < 2 ^ 31)
    (hle : lastSend ≤ now) (hdue : isDue rate now lastSend = true) : rate ≤ now - lastSend := by
  by_contra hearly
  have hdiff : toInt32 (now - lastSend) = now - lastSend := toInt32_of_lt (by omega) (by omega)
  have hint : toInt32 rate = rate := toInt32_of_lt (by omega) (by omega)
  rw [isDue, if_pos hpos] at hdue
  simp only [hdiff, hint] at hdue
  rw [Bool.not_eq_true', Bool.and_eq_false_iff, decide_eq_false_iff_not,
    decide_eq_false_iff_not] at hdue
  omega

end Due

section Rounds

variable {conv : Conversions} {o : Options} {env : Nat → Round} {r : Round} {st st' : MainState}
  {hostNum k n : Nat}

/-- A host is passed over or not sent to. -/
structure HostKept (k : Nat) (st st' : MainState) : Prop where
  lastSend : (st'.links k).lastSend = (st.links k).lastSend
  times : sendTimes k st'.log = sendTimes k st.log

/-- A host is sent to with success. -/
structure HostSent (o : Options) (r : Round) (k : Nat) (st st' : MainState) : Prop where
  due : isDue (o.hosts k).rate r.now (st.links k).lastSend = true
  lastSend : (st'.links k).lastSend = r.now
  times : sendTimes k st'.log = sendTimes k st.log ++ [(r.turns k).time]

theorem HostKept.trans {st'' : MainState} (h : HostKept k st st') (h' : HostKept k st' st'') :
    HostKept k st st'' :=
  ⟨h'.lastSend.trans h.lastSend, h'.times.trans h.times⟩

theorem HostSent.before {st'' : MainState} (h : HostKept k st st') (h' : HostSent o r k st' st'') :
    HostSent o r k st st'' :=
  ⟨h.lastSend ▸ h'.due, h'.lastSend, h'.times.trans (by rw [h.times])⟩

theorem HostSent.after {st'' : MainState} (h : HostSent o r k st st') (h' : HostKept k st' st'') :
    HostSent o r k st st'' :=
  ⟨h.due, h'.lastSend.trans h.lastSend, h'.times.trans h.times⟩

theorem hostTurn_other (h : k ≠ hostNum) : HostKept k st (hostTurn conv o r st hostNum) := by
  rcases hostTurn_cases conv o r st hostNum with ⟨-, link, -, heq⟩ | ⟨-, link, success, -, heq⟩
  · rw [heq]
    exact ⟨by simp [h], rfl⟩
  · rw [heq]
    refine ⟨by simp [h], ?_⟩
    rw [sendTimes_append, sendTimes_other (Ne.symm h), List.append_nil]

theorem hostTurn_self :
    HostKept k st (hostTurn conv o r st k) ∨ HostSent o r k st (hostTurn conv o r st k) := by
  rcases hostTurn_cases conv o r st k with
    ⟨-, link, hlast, heq⟩ | ⟨hserved, link, success, hlast, heq⟩
  · rw [heq]
    exact .inl ⟨by simp [hlast], rfl⟩
  · rw [heq]
    cases success with
    | false => exact .inl ⟨by simp [hlast], by simp⟩
    | true => exact .inr ⟨hserved.2, by simp [hlast], by simp⟩

/-- The turns of the first hosts. -/
theorem foldl_hostTurn (conv : Conversions) (o : Options) (r : Round) (st : MainState) (n k : Nat) :
    HostKept k st ((List.range n).foldl (hostTurn conv o r) st) ∨
      k < n ∧ HostSent o r k st ((List.range n).foldl (hostTurn conv o r) st) := by
  induction n with
  | zero => exact .inl ⟨rfl, rfl⟩
  | succ n ih =>
      rw [List.range_succ, List.foldl_append, List.foldl_cons, List.foldl_nil]
      by_cases hk : k = n
      · subst hk
        have hkept := ih.resolve_right fun h => absurd h.1 (Nat.lt_irrefl k)
        rcases hostTurn_self with hturn | hturn
        · exact .inl (hkept.trans hturn)
        · exact .inr ⟨Nat.lt_succ_self k, hturn.before hkept⟩
      · rcases ih with hkept | ⟨hlt, hsent⟩
        · exact .inl (hkept.trans (hostTurn_other hk))
        · exact .inr ⟨Nat.lt_succ_of_lt hlt, hsent.after (hostTurn_other hk)⟩

/-- A round for one host. -/
theorem mainRound_host (conv : Conversions) (o : Options) (st : MainState) (r : Round) (k : Nat) :
    HostKept k st (mainRound conv o st r) ∨
      k < o.numHosts ∧ HostSent o r k st (mainRound conv o st r) := by
  have hstatus : HostKept k st (statusStep o r st) := ⟨rfl, by simp [statusStep]⟩
  rcases foldl_hostTurn conv o r (statusStep o r st) o.numHosts k with hkept | ⟨hlt, hsent⟩
  · exact .inl (hstatus.trans hkept)
  · exact .inr ⟨hlt, hsent.before hstatus⟩

/-- The readings of the clock, one after the other. -/
structure NonDecreasing (numHosts : Nat) (env : Nat → Round) : Prop where
  burst : ∀ n, ∀ k < numHosts, (env n).now ≤ ((env n).turns k).time
  turns : ∀ n, ∀ k < numHosts, ∀ j ≤ k, ((env n).turns j).time ≤ ((env n).turns k).time
  rounds : ∀ n, ∀ k < numHosts, ((env n).turns k).time ≤ (env (n + 1)).now
  now : ∀ n, (env n).now ≤ (env (n + 1)).now

/-- From the reading of the clock to the call for a host it does not take less time than at
the last success. -/
def KeepsPace (o : Options) (st : MainState) (r : Round) : Prop :=
  ∀ k < o.numHosts, 0 < (o.hosts k).rate → (o.hosts k).rate < 2 ^ 31 ∧
    ∀ s ∈ (sendTimes k st.log).getLast?, s - (st.links k).lastSend ≤ (r.turns k).time - r.now

/-- The time that is kept is a reading before an earlier burst. -/
theorem lastSend_le (hnow : Monotone fun n => (env n).now) (n k : Nat) :
    ∀ s ∈ (sendTimes k (mainRun conv o env n).log).getLast?,
      ((mainRun conv o env n).links k).lastSend ≤ (env n).now := by
  induction n with
  | zero => exact fun s hs => absurd hs (by simp [mainRun, MainState.initial, sendTimes])
  | succ n ih =>
      intro s hs
      have hle : (env n).now ≤ (env (n + 1)).now := hnow (Nat.le_succ n)
      rw [mainRun] at hs ⊢
      rcases mainRound_host conv o (mainRun conv o env n) (env n) k with hkept | ⟨-, hsent⟩
      · rw [hkept.times] at hs
        rw [hkept.lastSend]
        exact (ih s hs).trans hle
      · rw [hsent.lastSend]
        exact hle

/-- In a run whose rounds all keep pace, successful calls for a host are at least its rate
apart. -/
theorem sends_spaced (conv : Conversions) (o : Options) (env : Nat → Round)
    (hclock : NonDecreasing o.numHosts env)
    (hpace : ∀ n, KeepsPace o (mainRun conv o env n) (env n)) (n : Nat) :
    Spaced o (mainRun conv o env n).log := by
  intro k hpos
  induction n with
  | zero => exact List.Pairwise.nil
  | succ n ih =>
      rw [mainRun]
      rcases mainRound_host conv o (mainRun conv o env n) (env n) k with hkept | ⟨hlt, hsent⟩
      · rw [hkept.times]
        exact ih
      · rw [hsent.times]
        apply pairwise_spaced_concat (Int.natCast_nonneg _) ih
        intro s hs
        obtain ⟨hrate, hdelay⟩ := hpace n k hlt hpos
        have hle := lastSend_le (monotone_nat_of_le_succ hclock.now) n k s hs
        have hdue := rate_le_of_isDue hpos hrate hle hsent.due
        have := hdelay s hs
        omega

/-- It is enough that no time passes between the reading and the calls. -/
theorem keepsPace_of_instant (hrate : ∀ k < o.numHosts, (o.hosts k).rate < 2 ^ 31)
    (hinstant : ∀ n, ∀ k < o.numHosts, ((env n).turns k).time = (env n).now) (n : Nat) :
    KeepsPace o (mainRun conv o env n) (env n) := by
  have hlast (k : Nat) : ∀ s ∈ (sendTimes k (mainRun conv o env n).log).getLast?,
      s = ((mainRun conv o env n).links k).lastSend := by
    induction n with
    | zero => exact fun s hs => absurd hs (by simp [mainRun, MainState.initial, sendTimes])
    | succ n ih =>
        rw [mainRun]
        rcases mainRound_host conv o (mainRun conv o env n) (env n) k with hkept | ⟨hlt, hsent⟩
        · rw [hkept.times, hkept.lastSend]
          exact ih
        · rw [hsent.times, hsent.lastSend, List.getLast?_concat, hinstant n k hlt]
          exact fun s hs => (Option.some.inj hs).symm
  intro k hlt _
  refine ⟨hrate k hlt, fun s hs => ?_⟩
  rw [hlast k s hs, hinstant n k hlt]
  omega

end Rounds

section Example

/-- One host that is sent to every ten seconds. -/
def everyTen : Options :=
  { Options.initial with
    numHosts := 1
    hosts := fun _ => { GpsHost.initial with connection := .udp, output := .nmea, rate := 10 } }

/-- A round with a position, in which every call works. -/
def workingRound (now time : Int) : Round where
  now
  messages := ⟨resetGPSMessages.accept fixSentence, fun _ => .reset⟩
  opens := true
  written := time
  turns := fun _ => ⟨true, time, fun _ => .sent 100⟩

theorem sends_spaced_instant :
    Spaced everyTen (mainRun wholeNumbers everyTen (fun n => workingRound n n) 100).log := by
  apply sends_spaced
  · exact ⟨fun n _ _ => Int.le_refl _, fun n _ _ _ _ => Int.le_refl _,
      fun n _ _ => Int.le.intro 1 rfl, fun n => Int.le.intro 1 rfl⟩
  · exact keepsPace_of_instant (fun _ _ => (by decide : 10 < 2 ^ 31)) fun n _ _ => rfl

/-- The first burst comes nine seconds after the reading of the clock. -/
def lateBurst : Nat → Round
  | 0 => workingRound 100 109
  | _ + 1 => workingRound 110 110

theorem sends_one_second_apart :
    NonDecreasing everyTen.numHosts lateBurst ∧
      sendTimes 0 (mainRun wholeNumbers everyTen lateBurst 2).log = [109, 110] ∧
      ¬ Spaced everyTen (mainRun wholeNumbers everyTen lateBurst 2).log := by
  have htimes : sendTimes 0 (mainRun wholeNumbers everyTen lateBurst 2).log = [109, 110] := by
    decide +kernel
  refine ⟨?_, htimes, fun h => ?_⟩
  · constructor
    all_goals
      intro n
      cases n <;> simp [lateBurst, workingRound]
  · have := h 0 (by decide)
    rw [htimes] at this
    revert this
    decide

end Example

end Speedway.Gps
