import Speedway.Gps.MainLoop

/-!
# The sentence in the status file

With TAIP output for the first host the status file gets `latestTAIPSentence`. That is
built when a host is sent to, and the file is written before: what it shows is the
sentence of an earlier burst, for the last host that was sent to.
-/

namespace Speedway.Gps

section History

variable {conv : Conversions} {o : Options} {env : Nat → Round} {r : Round} {st : MainState}
  {hostNum n : Nat} {m : Messages} {file : StatusFile}

/-- The bursts and hosts for which sentences were built. -/
def taipCalls (o : Options) (log : List MainEvent) : List (Messages × Nat) :=
  log.filterMap fun e => match e with
    | .sent hostNum m _ _ => if (o.hosts hostNum).output = .taip then some (m, hostNum) else none
    | .status _ _ => none

/-- The text that the last of these calls left. -/
def lastSentence (conv : Conversions) (o : Options) (log : List MainEvent) : List UInt8 :=
  match (taipCalls o log).getLast? with
  | none => []
  | some (m, hostNum) => m.taip conv (o.hosts hostNum)

theorem taipCalls_append (a b : List MainEvent) :
    taipCalls o (a ++ b) = taipCalls o a ++ taipCalls o b := List.filterMap_append

theorem taipCalls_status (file : Option StatusFile) :
    taipCalls o (file.map (MainEvent.status m)).toList = [] := by
  cases file <;> rfl

theorem taipCalls_sent {time : Int} {success : Bool} (h : (o.hosts hostNum).output = .taip) :
    taipCalls o [.sent hostNum m time success] = [(m, hostNum)] := by
  simp [taipCalls, h]

theorem taipCalls_sent_other {time : Int} {success : Bool}
    (h : (o.hosts hostNum).output ≠ .taip) :
    taipCalls o [.sent hostNum m time success] = [] := by
  simp [taipCalls, h]

/-- The variable holds what the last call left. -/
theorem hostTurn_latest (h : st.latestTAIPSentence = lastSentence conv o st.log) :
    (hostTurn conv o r st hostNum).latestTAIPSentence =
      lastSentence conv o (hostTurn conv o r st hostNum).log := by
  rcases hostTurn_cases conv o r st hostNum with ⟨-, link, -, heq⟩ | ⟨-, link, success, -, heq⟩
  · rw [heq]
    exact h
  · rw [heq]
    by_cases htaip : (o.hosts hostNum).output = .taip
    · simp only [if_pos htaip]
      rw [lastSentence, taipCalls_append, taipCalls_sent htaip, List.getLast?_concat]
    · simp only [if_neg htaip]
      rw [lastSentence, taipCalls_append, taipCalls_sent_other htaip, List.append_nil]
      exact h

theorem mainRun_latest (conv : Conversions) (o : Options) (env : Nat → Round) (n : Nat) :
    (mainRun conv o env n).latestTAIPSentence =
      lastSentence conv o (mainRun conv o env n).log := by
  induction n with
  | zero => rfl
  | succ n ih =>
      rw [mainRun, mainRound]
      refine List.foldlRecOn (motive := fun st : MainState =>
        st.latestTAIPSentence = lastSentence conv o st.log) _ _ ?_ ?_
      · rw [lastSentence, statusStep]
        simp only
        rw [taipCalls_append, taipCalls_status, List.append_nil]
        exact ih
      · intro st h hostNum _
        exact hostTurn_latest h

theorem status_mem_hostTurn :
    .status m file ∈ (hostTurn conv o r st hostNum).log ↔ .status m file ∈ st.log := by
  rcases hostTurn_cases conv o r st hostNum with ⟨-, link, -, heq⟩ | ⟨-, link, success, -, heq⟩
  · rw [heq]
  · rw [heq]
    simp

/-- What a round adds to the files that were written. -/
theorem status_mem_mainRound :
    .status m file ∈ (mainRound conv o st r).log ↔ .status m file ∈ st.log ∨
      m = r.messages ∧ writeGPSStatusFile (o.hosts 0) r.messages st.latestTAIPSentence r.opens
        r.written = some file := by
  have hstatus : .status m file ∈ (statusStep o r st).log ↔ .status m file ∈ st.log ∨
      m = r.messages ∧ writeGPSStatusFile (o.hosts 0) r.messages st.latestTAIPSentence r.opens
        r.written = some file := by
    simp only [statusStep]
    rw [List.mem_append, Option.mem_toList, Option.map_eq_some_iff]
    simp [and_comm, eq_comm]
  rw [mainRound, ← hstatus]
  refine List.foldlRecOn (motive := fun st' : MainState =>
    .status m file ∈ st'.log ↔ .status m file ∈ (statusStep o r st).log) _ _ ?_ ?_
  · rfl
  · intro st' h hostNum _
    exact status_mem_hostTurn.trans h

theorem status_mem_mainRun :
    .status m file ∈ (mainRun conv o env n).log ↔
      ∃ j < n, m = (env j).messages ∧
        writeGPSStatusFile (o.hosts 0) (env j).messages (mainRun conv o env j).latestTAIPSentence
          (env j).opens (env j).written = some file := by
  induction n with
  | zero => exact iff_of_false List.not_mem_nil fun ⟨j, hj, _⟩ => absurd hj (Nat.not_lt_zero j)
  | succ n ih =>
      rw [mainRun, status_mem_mainRound, ih]
      constructor
      · rintro (⟨j, hj, h⟩ | h)
        · exact ⟨j, Nat.lt_succ_of_lt hj, h⟩
        · exact ⟨n, Nat.lt_succ_self n, h⟩
      · rintro ⟨j, hj, h⟩
        rcases Nat.eq_or_lt_of_le (Nat.le_of_lt_succ hj) with rfl | hlt
        · exact .inr h
        · exact .inl ⟨j, hlt, h⟩

end History

section Current

variable {conv : Conversions} {o : Options} {env : Nat → Round} {host : GpsHost} {m : Messages}
  {latest : List UInt8} {opens : Bool} {now : Int} {file : StatusFile}

/-- The status file is written in a round. -/
def Round.Writes (r : Round) : Prop :=
  0 ≤ r.messages.parsed.idxOfNewestGGAMsg ∧ r.opens = true

theorem writeGPSStatusFile_some (latest : List UInt8) (now : Int) (htaip : host.output = .taip)
    (hgga : 0 ≤ m.parsed.idxOfNewestGGAMsg) :
    ∃ file, writeGPSStatusFile host m latest true now = some file ∧ file.nmea = latest := by
  refine ⟨_, if_neg (not_or.mpr ⟨Int.not_lt.mpr hgga, by decide⟩), ?_⟩
  exact if_pos htaip

theorem writes_of_some (htaip : host.output = .taip)
    (h : writeGPSStatusFile host m latest opens now = some file) :
    (0 ≤ m.parsed.idxOfNewestGGAMsg ∧ opens = true) ∧ file.nmea = latest := by
  rw [writeGPSStatusFile] at h
  split at h
  · cases h
  next hwrites =>
    rw [not_or, Int.not_lt, Bool.not_eq_false] at hwrites
    obtain rfl := Option.some.inj h
    exact ⟨hwrites, rfl⟩

/-- A sentence for a position is not empty. -/
theorem taip_ne_nil (conv : Conversions) (host : GpsHost)
    (hgga : 0 ≤ m.parsed.idxOfNewestGGAMsg) : m.taip conv host ≠ [] := by
  rw [Messages.taip, buildTAIPSentence, if_neg (Int.not_lt.mpr hgga)]
  apply List.append_ne_nil_of_left_ne_nil
  exact List.cons_ne_nil _ _

/-- The files are right if the variable is in the rounds that write them. -/
theorem status_iff_lastSentence (htaip : (o.hosts 0).output = .taip) :
    (∀ n m file, .status m file ∈ (mainRun conv o env n).log →
        file.nmea = m.taip conv (o.hosts 0)) ↔
      ∀ n, (env n).Writes →
        lastSentence conv o (mainRun conv o env n).log =
          (env n).messages.taip conv (o.hosts 0) := by
  constructor
  · rintro h n ⟨hgga, hopens⟩
    obtain ⟨file, hfile, hnmea⟩ := writeGPSStatusFile_some
      (mainRun conv o env n).latestTAIPSentence (env n).written htaip hgga
    rw [← mainRun_latest, ← hnmea]
    apply h (n + 1)
    exact status_mem_mainRun.mpr ⟨n, Nat.lt_succ_self n, rfl, hopens ▸ hfile⟩
  · intro h n m file hmem
    obtain ⟨j, -, rfl, hfile⟩ := status_mem_mainRun.mp hmem
    obtain ⟨hwrites, hnmea⟩ := writes_of_some htaip hfile
    rw [hnmea, mainRun_latest]
    exact h j hwrites

/-- The sentence in the status file is that of the current burst for the first host exactly
if in every round that writes the file the last sentence that was built before is the
same. -/
theorem status_current_iff (conv : Conversions) (o : Options) (env : Nat → Round)
    (htaip : (o.hosts 0).output = .taip) :
    (∀ n m file, .status m file ∈ (mainRun conv o env n).log →
        file.nmea = m.taip conv (o.hosts 0)) ↔
      ∀ n, (env n).Writes →
        ∃ m hostNum, (taipCalls o (mainRun conv o env n).log).getLast? = some (m, hostNum) ∧
          m.taip conv (o.hosts hostNum) = (env n).messages.taip conv (o.hosts 0) := by
  rw [status_iff_lastSentence htaip]
  apply forall₂_congr
  intro n hwrites
  rw [lastSentence]
  cases hcalls : (taipCalls o (mainRun conv o env n).log).getLast? with
  | none =>
      refine iff_of_false (Ne.symm (taip_ne_nil conv _ hwrites.1)) ?_
      rintro ⟨m, hostNum, h, -⟩
      cases h
  | some call =>
      constructor
      · intro h
        exact ⟨call.1, call.2, rfl, h⟩
      · rintro ⟨m, hostNum, hcall, h⟩
        obtain rfl := Option.some.inj hcall
        exact h

theorem mem_taipCalls_hostTurn {r : Round} {st : MainState} {hostNum : Nat}
    {call : Messages × Nat} (h : call ∈ taipCalls o (hostTurn conv o r st hostNum).log) :
    call ∈ taipCalls o st.log ∨ call.1 = r.messages := by
  rcases hostTurn_cases conv o r st hostNum with ⟨-, link, -, heq⟩ | ⟨-, link, success, -, heq⟩
  · rw [heq] at h
    exact .inl h
  · rw [heq] at h
    simp only [taipCalls_append, List.mem_append] at h
    rcases h with h | h
    · exact .inl h
    · by_cases htaip : (o.hosts hostNum).output = .taip
      · rw [taipCalls_sent htaip, List.mem_singleton] at h
        exact .inr (congrArg Prod.fst h)
      · rw [taipCalls_sent_other htaip] at h
        exact absurd h List.not_mem_nil

/-- The sentences before a round come from earlier rounds. -/
theorem taipCalls_messages (conv : Conversions) (o : Options) (env : Nat → Round) (n : Nat) :
    ∀ call ∈ taipCalls o (mainRun conv o env n).log, ∃ j < n, call.1 = (env j).messages := by
  induction n with
  | zero => exact fun call hcall => absurd hcall List.not_mem_nil
  | succ n ih =>
      rw [mainRun, mainRound]
      refine List.foldlRecOn (motive := fun st : MainState => ∀ call ∈ taipCalls o st.log,
        ∃ j < n + 1, call.1 = (env j).messages) _ _ ?_ ?_
      · simp only [statusStep]
        rw [taipCalls_append, taipCalls_status, List.append_nil]
        intro call hcall
        obtain ⟨j, hj, heq⟩ := ih call hcall
        exact ⟨j, Nat.lt_succ_of_lt hj, heq⟩
      · intro st h hostNum _ call hcall
        rcases mem_taipCalls_hostTurn hcall with hcall | heq
        · exact h call hcall
        · exact ⟨n, Nat.lt_succ_self n, heq⟩

/-- If the file can always be opened, it is right only if it is never written: with the first
position there is no sentence yet. -/
theorem status_current_iff_no_position (htaip : (o.hosts 0).output = .taip)
    (hopens : ∀ n, (env n).opens = true) :
    (∀ n m file, .status m file ∈ (mainRun conv o env n).log →
        file.nmea = m.taip conv (o.hosts 0)) ↔
      ∀ n, (env n).messages.parsed.idxOfNewestGGAMsg < 0 := by
  rw [status_iff_lastSentence htaip]
  constructor
  · intro h n
    induction n using Nat.strong_induction_on with
    | _ n ih =>
        by_contra hgga
        have hsentence := h n ⟨Int.not_lt.mp hgga, hopens n⟩
        have hne := taip_ne_nil conv (o.hosts 0) (Int.not_lt.mp hgga)
        rw [← hsentence, lastSentence] at hne
        cases hcalls : (taipCalls o (mainRun conv o env n).log).getLast? with
        | none => exact hne (by rw [hcalls])
        | some call =>
            obtain ⟨j, hj, heq⟩ := taipCalls_messages conv o env n call
              (List.mem_of_getLast? hcalls)
            rw [hcalls] at hne
            refine hne ?_
            simp only
            rw [heq, Messages.taip, buildTAIPSentence, if_pos (ih j hj)]
  · intro h n hwrites
    exact absurd hwrites.1 (Int.not_le.mpr (h n))

end Current

section Example

/-- One host with TAIP output. -/
def taipTable : Options :=
  { Options.initial with
    numHosts := 1
    hosts := fun _ => { exampleHost with connection := .udp, output := .taip } }

def positionMessages : Messages :=
  ⟨resetGPSMessages.accept fixSentence, exampleReadings (12203846 / 100000)⟩

/-- A round with a position, in which every call works but that of opening the file. -/
def positionRound (opens : Bool) : Round where
  now := 100
  messages := positionMessages
  opens
  written := 100
  turns := fun _ => ⟨true, 100, fun _ => .sent 100⟩

/-- The file is only opened in the second round, and the position stays the same. -/
def secondRound (n : Nat) : Round := positionRound (n == 1)

theorem status_current_second :
    (taipTable.hosts 0).output = .taip ∧ (secondRound 1).Writes ∧
      ∀ n m file, .status m file ∈ (mainRun wholeNumbers taipTable secondRound n).log →
        file.nmea = m.taip wholeNumbers (taipTable.hosts 0) := by
  refine ⟨rfl, ⟨by decide, rfl⟩, ?_⟩
  refine (status_current_iff wholeNumbers taipTable secondRound rfl).mpr ?_
  rintro n ⟨-, hopens⟩
  obtain rfl : n = 1 := beq_iff_eq.mp hopens
  exact ⟨positionMessages, 0, rfl, rfl⟩

/-- The first file that is written has no sentence in it. -/
theorem status_file_without_sentence :
    (taipTable.hosts 0).output = .taip ∧
      ∃ file, .status positionMessages file ∈
          (mainRun wholeNumbers taipTable (fun _ => positionRound true) 1).log ∧
        file.nmea = [] ∧ positionMessages.taip wholeNumbers (taipTable.hosts 0) ≠ [] := by
  refine ⟨rfl, ?_⟩
  obtain ⟨file, hfile, hnmea⟩ : ∃ file, writeGPSStatusFile (taipTable.hosts 0) positionMessages []
      true 100 = some file ∧ file.nmea = [] := writeGPSStatusFile_some [] 100 rfl (by decide)
  refine ⟨file, status_mem_mainRun.mpr ⟨0, Nat.one_pos, rfl, hfile⟩, hnmea, ?_⟩
  exact taip_ne_nil _ _ (by decide)

end Example

end Speedway.Gps
