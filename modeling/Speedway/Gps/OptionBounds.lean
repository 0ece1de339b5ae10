import Speedway.Gps.OptionScan

/-!
# Bounds of the option parsing

Which `-h` options are reached and how they end follows from the arguments alone as long
as their values are read in bounds. With that, the arguments whose accesses stay in bounds
and whose addresses and identifiers are terminated are described exactly.
-/

namespace Speedway.Gps

section Verdict

/-- The number of fields of a value, if none is rejected and the loop sees the 0. -/
def fieldCount (num : Nat) (start : List UInt8) : List UInt8 → Option Nat
  | [] => if fieldRejected num start then none else some (num + 1)
  | c :: rest =>
      if c = 0x2c then
        if fieldRejected num start then none else match rest with
          | [] => none
          | _ :: rest' => fieldCount (num + 1) rest rest'
      else fieldCount num start rest

/-- A value of `-h` that is accepted. -/
def hostAccepted (value : List UInt8) : Bool :=
  (fieldCount 0 value value).any fun num => decide (4 ≤ num ∧ num ≤ 6)

variable {atoi : List UInt8 → Int} {size hostNum num len offset : Nat} {host : GpsHost}
  {text value : List UInt8}

theorem fieldCount_text {c : UInt8} (hcomma : c ≠ 0x2c) (start rest : List UInt8) :
    fieldCount num start (c :: rest) = fieldCount num start rest := by
  rw [fieldCount.eq_def]
  exact if_neg hcomma

theorem scanHost_fieldCount (after start : List UInt8) (htext : (0 : UInt8) ∉ text)
    (hseen : stepsOver text = false ∨ rejects num start text = true) :
    (scanHost atoi size hostNum num (start ++ 0 :: after) len offset
      (text ++ 0 :: after) host).2.toOption.map Prod.fst = fieldCount num start text := by
  induction text using stepsOver.induct generalizing num start len offset host with
  | case1 =>
      rw [List.nil_append, fieldCount]
      cases hrejected : fieldRejected num start with
      | true =>
          obtain ⟨e, hfield⟩ := setField_text_rejected atoi len host after hrejected
          rw [scanHost_error (.inr rfl) hfield]
          rfl
      | false =>
          obtain ⟨host', hfield⟩ := setField_text_accepted atoi len host after hrejected
          rw [scanHost_nul hfield]
          rfl
  | case2 =>
      rw [stepsOver, rejects, if_pos rfl, if_pos rfl, Bool.or_false] at hseen
      have hrejected := hseen.resolve_left fun h => absurd h.symm Bool.false_ne_true
      obtain ⟨e, hfield⟩ := setField_text_rejected atoi len host after hrejected
      rw [List.singleton_append, scanHost_error (.inl rfl) hfield, fieldCount, if_pos rfl]
      split <;> rfl
  | case3 x rest ih =>
      rw [List.mem_cons, List.mem_cons, not_or, not_or] at htext
      rw [stepsOver, rejects, if_pos rfl, if_pos rfl] at hseen
      rw [fieldCount, if_pos rfl]
      cases hrejected : fieldRejected num start with
      | true =>
          obtain ⟨e, hfield⟩ := setField_text_rejected atoi len host after hrejected
          rw [List.cons_append, scanHost_error (.inl rfl) hfield]
          rfl
      | false =>
          obtain ⟨host', hfield⟩ := setField_text_accepted atoi len host after hrejected
          rw [hrejected, Bool.false_or] at hseen
          rw [List.cons_append, List.cons_append, scanHost_comma hfield]
          exact ih (x :: rest) htext.2.2 hseen
  | case4 c rest hcomma ih =>
      rw [List.mem_cons, not_or] at htext
      rw [stepsOver_text hcomma, rejects_text hcomma] at hseen
      rw [fieldCount_text hcomma, List.cons_append, scanHost_text hcomma (Ne.symm htext.1)]
      exact ih start htext.2 hseen

/-- The loop of `-h` for a value ends as it should. -/
def HostSeen (value : List UInt8) : Prop :=
  endCommas value % 2 = 0 ∨ rejects 0 value value = true

theorem hostSeen_iff : HostSeen value ↔ stepsOver value = false ∨ rejects 0 value value = true := by
  rw [HostSeen, ← Bool.not_eq_true, stepsOver_iff, Nat.mod_two_not_eq_one]

variable {environment : List UInt8} {more : List (List UInt8)} {o : Options}

/-- The loop as `-h` starts it. -/
def hostScan (atoi : List UInt8 → Int) (environment value : List UInt8) (more : List (List UInt8))
    (o : Options) : List Access × Except OptionError (Nat × GpsHost) :=
  let memory := value ++ 0 :: argvMemory more environment
  scanHost atoi value.length o.numHosts 0 memory 0 0 memory (o.hosts o.numHosts)

theorem runHost_eq : runHost atoi environment value more o =
    ((hostScan atoi environment value more o).1,
      (hostScan atoi environment value more o).2.bind fun (num, host) =>
        if num < 4 ∨ 6 < num then .error (.numberOfArguments num) else .ok (o.addHost host)) := by
  rw [runHost, argvMemory_cons]
  rfl

theorem runHost_isSome (hvalue : (0 : UInt8) ∉ value) (hseen : HostSeen value) :
    (runHost atoi environment value more o).2.toOption.isSome = hostAccepted value := by
  have hcount : (hostScan atoi environment value more o).2.toOption.map Prod.fst = _ :=
    scanHost_fieldCount (argvMemory more environment) value hvalue (hostSeen_iff.mp hseen)
  rw [runHost_eq, hostAccepted, ← hcount]
  cases (hostScan atoi environment value more o).2 with
  | error e => rfl
  | ok r =>
      by_cases hnum : r.1 < 4 ∨ 6 < r.1
      · simp only [Except.bind, if_pos hnum]
        exact (decide_eq_false (by omega)).symm
      · simp only [Except.bind, if_neg hnum]
        exact (decide_eq_true (by omega)).symm

theorem runHost_cases {o' : Options} (h : (runHost atoi environment value more o).2 = .ok o') :
    ∃ num host, (hostScan atoi environment value more o).2 = .ok (num, host) ∧
      o' = o.addHost host := by
  rw [runHost_eq] at h
  cases hscan : (hostScan atoi environment value more o).2 with
  | error e =>
      rw [hscan] at h
      cases h
  | ok r =>
      rw [hscan] at h
      simp only [Except.bind] at h
      split at h
      · cases h
      · exact ⟨r.1, r.2, rfl, (Except.ok.inj h).symm⟩

end Verdict

section Options

variable {atoi : List UInt8 → Int} {environment name value : List UInt8}
  {more : List (List UInt8)} {o o' : Options}

/-- The options with a value other than `-h` and `-f`. -/
def plainOptions : List (List UInt8) :=
  ["-sp", "-sa", "-d", "-p", "-c", "-r", "-tid", "-id"].map ascii

/-- An option with a value at which the parsing does not end. -/
def optionAccepted (name value : List UInt8) : Bool :=
  if name = ascii "-h" then hostAccepted value
  else if name = ascii "-f" then value == ascii "nmea" || value == ascii "taip"
  else plainOptions.contains name

/-- What an option other than `-h` does to the rows. -/
structure RowStep (name value : List UInt8) (o o' : Options) : Prop where
  numHosts : o'.numHosts = o.numHosts
  others : ∀ k, k ≠ 0 → o'.hosts k = o.hosts k
  ip : (o'.hosts 0).ip =
    if name = ascii "-c" then strncpy (o.hosts 0).ip value 31 else (o.hosts 0).ip
  gpsID : (o'.hosts 0).gpsID = (o.hosts 0).gpsID ∨
    (o'.hosts 0).gpsID = strncpy (o.hosts 0).gpsID value 4

@[simp] theorem setHost_hosts (k : Nat) (host : GpsHost) :
    (o.setHost k host).hosts = Function.update o.hosts k host := rfl

theorem RowStep.of_hosts (hname : name ≠ ascii "-c") (hnum : o'.numHosts = o.numHosts)
    (h : o'.hosts = o.hosts) : RowStep name value o o' := by
  refine ⟨hnum, fun k _ => by rw [h], ?_, .inl (by rw [h])⟩
  rw [if_neg hname, h]

theorem RowStep.of_setHost {host : GpsHost}
    (hip : host.ip = if name = ascii "-c" then strncpy (o.hosts 0).ip value 31 else (o.hosts 0).ip)
    (hid : host.gpsID = (o.hosts 0).gpsID ∨ host.gpsID = strncpy (o.hosts 0).gpsID value 4) :
    RowStep name value o (o.setHost 0 host) := by
  have hrow : (o.setHost 0 host).hosts 0 = host := by
    rw [setHost_hosts, Function.update_self]
  refine ⟨rfl, fun k hk => Function.update_of_ne hk _ _, ?_, ?_⟩
  · rw [hrow, hip]
  · rw [hrow]
    exact hid

theorem optionAccepted_plain (h : name ∈ plainOptions) : optionAccepted name value = true := by
  rw [optionAccepted, if_neg, if_neg, List.contains_iff_mem.mpr h]
  all_goals
    rintro rfl
    exact absurd h (by decide)

/-- An option other than `-h` is accepted and takes a row step, or it ends the parsing. -/
theorem setOption_cases (atoi : List UInt8 → Int) (environment value : List UInt8)
    (more : List (List UInt8)) (o : Options) (hname : name ≠ ascii "-h") :
    (∃ o', setOption atoi environment name value more o = .ok o' ∧
        optionAccepted name value = true ∧ RowStep name value o o') ∨
      ((∃ e, setOption atoi environment name value more o = .error e) ∧
        optionAccepted name value = false) := by
  rw [setOption]
  split_ifs with hsp hp hr
  · exact .inl ⟨_, rfl, optionAccepted_plain (by rw [hsp]; decide),
      .of_hosts (by rw [hsp]; decide) rfl rfl⟩
  · exact .inl ⟨_, rfl, optionAccepted_plain (by rw [hp]; decide),
      .of_setHost (by rw [hp]; rfl) (.inl rfl)⟩
  · exact .inl ⟨_, rfl, optionAccepted_plain (by rw [hr]; decide),
      .of_setHost (by rw [hr]; rfl) (.inl rfl)⟩
  · rw [readOption, if_neg hsp, if_neg hp, if_neg hr, if_neg hname]
    split_ifs with hsa hd hc hid hf hnmea htaip
    · exact .inl ⟨_, rfl, optionAccepted_plain (by rw [hsa]; decide),
        .of_hosts (by rw [hsa]; decide) rfl rfl⟩
    · exact .inl ⟨_, rfl, optionAccepted_plain (by rw [hd]; decide),
        .of_hosts (by rw [hd]; decide) rfl rfl⟩
    · exact .inl ⟨_, rfl, optionAccepted_plain (by rw [hc]; decide),
        .of_setHost (by rw [if_pos hc]) (.inl rfl)⟩
    · rcases hid with hid | hid
      all_goals exact .inl ⟨_, rfl, optionAccepted_plain (by rw [hid]; decide),
        .of_setHost (by rw [hid]; rfl) (.inr rfl)⟩
    · exact .inl ⟨_, rfl, by rw [hf, hnmea]; rfl, .of_setHost (by rw [hf]; rfl) (.inl rfl)⟩
    · exact .inl ⟨_, rfl, by rw [hf, htaip]; rfl, .of_setHost (by rw [hf]; rfl) (.inl rfl)⟩
    · refine .inr ⟨⟨_, rfl⟩, ?_⟩
      rw [optionAccepted, if_neg hname, if_pos hf, beq_false_of_ne hnmea, beq_false_of_ne htaip]
      rfl
    · have hother : name ∉ plainOptions := by
        simp only [plainOptions, List.map_cons, List.map_nil, List.mem_cons, List.not_mem_nil,
          or_false, not_or]
        exact ⟨hsp, hsa, hd, hp, hc, hr, not_or.mp hid⟩
      refine .inr ⟨⟨_, rfl⟩, ?_⟩
      rw [optionAccepted, if_neg hname, if_neg hf, Bool.eq_false_iff]
      exact fun hmem => hother (List.contains_iff_mem.mp hmem)

theorem setOption_rows (hname : name ≠ ascii "-h")
    (h : setOption atoi environment name value more o = .ok o') : RowStep name value o o' := by
  rcases setOption_cases atoi environment value more o hname with
    ⟨o₁, hok, -, hstep⟩ | ⟨⟨e, herror⟩, -⟩
  · rw [hok] at h
    exact Except.ok.inj h ▸ hstep
  · rw [herror] at h
    cases h

theorem setOption_isSome (hname : name ≠ ascii "-h") :
    (setOption atoi environment name value more o).toOption.isSome = optionAccepted name value := by
  rcases setOption_cases atoi environment value more o hname with
    ⟨o₁, hok, haccepted, -⟩ | ⟨⟨e, herror⟩, haccepted⟩
  · rw [hok, haccepted]
    rfl
  · rw [herror, haccepted]
    rfl

theorem runOption_isSome (hvalue : (0 : UInt8) ∉ value)
    (hseen : name = ascii "-h" → HostSeen value) :
    (runOption atoi environment name value more o).2.toOption.isSome =
      optionAccepted name value := by
  by_cases hname : name = ascii "-h"
  · rw [runOption, if_pos hname, runHost_isSome hvalue (hseen hname), optionAccepted, if_pos hname]
  · rw [runOption, if_neg hname, ← setOption_isSome hname]
    cases setOption atoi environment name value more o <;> rfl

/-- An option `-h`: the row it writes, its value and the arguments after it. -/
structure HostOption where
  numHosts : Nat
  value : List UInt8
  more : List (List UInt8)

/-- There is a row for the option, and the loop sees the end of the value. -/
structure HostOption.Safe (h : HostOption) : Prop where
  room : h.numHosts < maxHosts ∨ h.value = []
  seen : HostSeen h.value

theorem hostScan_inBounds_iff (hvalue : (0 : UInt8) ∉ value) :
    (∀ access ∈ (hostScan atoi environment value more o).1, access.InBounds) ↔
      HostOption.Safe ⟨o.numHosts, value, more⟩ := by
  rcases Nat.lt_or_ge o.numHosts maxHosts with hroom | hfull
  · rw [hostScan, scanHost_inBounds_iff hroom _ _ hvalue (Nat.zero_add _), ← hostSeen_iff]
    exact ⟨fun hseen => ⟨.inl hroom, hseen⟩, HostOption.Safe.seen⟩
  · by_cases hempty : value = []
    · subst hempty
      refine iff_of_true ?_ ⟨.inr rfl, .inl rfl⟩
      rw [hostScan, List.nil_append, scanHost_nul rfl]
      exact List.forall_mem_singleton.mpr (Nat.le_refl 0)
    · refine iff_of_false (fun h => ?_) fun h => ?_
      · obtain ⟨access, haccess, hout⟩ := scanHost_outOfBounds hfull _ hvalue hempty
        exact hout (h access haccess)
      · exact h.room.elim (Nat.not_lt.mpr hfull) hempty

theorem write_zero_inBounds : (Access.write 0).InBounds := Nat.succ_pos 15

theorem runOption_inBounds_iff (hvalue : (0 : UInt8) ∉ value) :
    (∀ access ∈ (runOption atoi environment name value more o).1, access.InBounds) ↔
      (name = ascii "-h" → HostOption.Safe ⟨o.numHosts, value, more⟩) := by
  by_cases hname : name = ascii "-h"
  · rw [runOption, if_pos hname, runHost_eq, hostScan_inBounds_iff hvalue]
    exact ⟨fun h _ => h, fun h => h hname⟩
  · refine iff_of_true ?_ fun h => absurd h hname
    rw [runOption, if_neg hname]
    cases setOption atoi environment name value more o with
    | error e => exact List.forall_mem_nil _
    | ok o' =>
        simp only
        split
        · exact List.forall_mem_singleton.mpr write_zero_inBounds
        · exact List.forall_mem_nil _

theorem runOption_rowStep (hname : name ≠ ascii "-h")
    (h : (runOption atoi environment name value more o).2 = .ok o') : RowStep name value o o' := by
  rw [runOption, if_neg hname] at h
  cases hset : setOption atoi environment name value more o with
  | error e =>
      rw [hset] at h
      cases h
  | ok o₁ =>
      rw [hset] at h
      exact Except.ok.inj h ▸ setOption_rows hname hset

theorem runOption_host (h : (runOption atoi environment (ascii "-h") value more o).2 = .ok o') :
    ∃ num host, (hostScan atoi environment value more o).2 = .ok (num, host) ∧
      o' = o.addHost host := by
  rw [runOption, if_pos rfl] at h
  exact runHost_cases h

theorem runOption_numHosts (h : (runOption atoi environment name value more o).2 = .ok o') :
    o'.numHosts = if name = ascii "-h" then o.numHosts + 1 else o.numHosts := by
  split
  next hname =>
    subst hname
    obtain ⟨num, host, -, rfl⟩ := runOption_host h
    exact addHost_numHosts o host
  next hname => exact (runOption_rowStep hname h).numHosts

end Options

section Walk

/-- An option without a value. -/
def isFlag (name : List UInt8) : Bool := (["-t", "-dummy", "-u"].map ascii).contains name

/-- The parsing gets to the end of the arguments, if the values are read in bounds. -/
def completes : List (List UInt8) → Bool
  | [] => true
  | name :: rest =>
      if isFlag name = true then completes rest
      else match rest with
        | [] => false
        | value :: more => optionAccepted name value && completes more

/-- The options `-h` that are reached, the first one for row `n`. -/
def hostOptions (n : Nat) : List (List UInt8) → List HostOption
  | [] => []
  | name :: rest =>
      if isFlag name = true then hostOptions n rest
      else match rest with
        | [] => []
        | value :: more =>
            (if name = ascii "-h" then [⟨n, value, more⟩] else []) ++
              if optionAccepted name value = true then
                hostOptions (if name = ascii "-h" then n + 1 else n) more
              else []

variable {atoi : List UInt8 → Int} {environment name value : List UInt8}
  {rest more argv : List (List UInt8)} {o o' : Options} {n : Nat}

theorem isFlag_iff :
    isFlag name = true ↔ name = ascii "-t" ∨ name = ascii "-dummy" ∨ name = ascii "-u" := by
  rw [isFlag, List.contains_iff_mem]
  simp only [List.map_cons, List.map_nil, List.mem_cons, List.not_mem_nil, or_false]

theorem isValueOption (h : ¬ isFlag name = true) : IsValueOption name := by
  rw [isFlag_iff, not_or, not_or] at h
  exact h

theorem completes_flag (h : isFlag name = true) : completes (name :: rest) = completes rest := by
  cases rest with
  | nil => exact if_pos h
  | cons value more => exact if_pos h

theorem hostOptions_flag (h : isFlag name = true) :
    hostOptions n (name :: rest) = hostOptions n rest := by
  cases rest with
  | nil => exact if_pos h
  | cons value more => exact if_pos h

theorem hostOptions_host (n : Nat) (value : List UInt8) (more : List (List UInt8)) :
    hostOptions n (ascii "-h" :: value :: more) =
      ⟨n, value, more⟩ :: if hostAccepted value = true then hostOptions (n + 1) more else [] := by
  rw [hostOptions, if_neg (by decide), if_pos rfl]
  rfl

/-- An option without a value leaves the addresses and identifiers as they are. -/
theorem runOptions_flag (atoi : List UInt8 → Int) (environment : List UInt8)
    (rest : List (List UInt8)) (o : Options) (h : isFlag name = true) :
    ∃ log o₁, (∀ access ∈ log, access.InBounds) ∧ (∀ value, RowStep name value o o₁) ∧
      runOptions atoi environment (name :: rest) o =
        (log ++ (runOptions atoi environment rest o₁).1,
          (runOptions atoi environment rest o₁).2) := by
  rcases isFlag_iff.mp h with rfl | rfl | rfl
  · exact ⟨[], { o with testing := true }, List.forall_mem_nil _,
      fun _ => .of_hosts (by decide) rfl rfl, runOptions_t⟩
  · exact ⟨[], { o with dummy := true }, List.forall_mem_nil _,
      fun _ => .of_hosts (by decide) rfl rfl, runOptions_dummy⟩
  · exact ⟨[.write 0], o.setHost 0 { o.hosts 0 with connection := .udp },
      List.forall_mem_singleton.mpr write_zero_inBounds,
      fun _ => .of_setHost rfl (.inl rfl), runOptions_u⟩

theorem mem_runOptions (hname : IsValueOption name) {access : Access}
    (h : access ∈ (runOption atoi environment name value more o).1) :
    access ∈ (runOptions atoi environment (name :: value :: more) o).1 := by
  cases hres : (runOption atoi environment name value more o).2 with
  | error e =>
      rw [runOptions_error hname hres]
      exact h
  | ok o' =>
      rw [runOptions_ok hname hres]
      exact List.mem_append_left _ h

theorem runOptions_value_ok (hname : ¬ isFlag name = true)
    (h : (runOptions atoi environment (name :: value :: more) o).2 = .ok o') :
    ∃ o₁, (runOption atoi environment name value more o).2 = .ok o₁ ∧
      (runOptions atoi environment more o₁).2 = .ok o' := by
  cases hres : (runOption atoi environment name value more o).2 with
  | error e =>
      rw [runOptions_error (isValueOption hname) hres] at h
      cases h
  | ok o₁ =>
      rw [runOptions_ok (isValueOption hname) hres] at h
      exact ⟨o₁, rfl, h⟩

/-- The accesses are in bounds exactly if the options `-h` that are reached are safe. -/
theorem runOptions_inBounds_iff (hargv : ∀ arg ∈ argv, (0 : UInt8) ∉ arg) :
    (∀ access ∈ (runOptions atoi environment argv o).1, access.InBounds) ↔
      ∀ h ∈ hostOptions o.numHosts argv, h.Safe := by
  induction argv using completes.induct generalizing o with
  | case1 => exact iff_of_true (List.forall_mem_nil _) (List.forall_mem_nil _)
  | case2 name rest hname ih =>
      obtain ⟨log, o₁, hlog, hrows, hrun⟩ := runOptions_flag atoi environment rest o hname
      rw [hrun, List.forall_mem_append, and_iff_right hlog, hostOptions_flag hname,
        ← (hrows []).numHosts]
      exact ih (List.forall_mem_cons.mp hargv).2
  | case3 name hname =>
      rw [runOptions_missing (isValueOption hname), hostOptions, if_neg hname]
      exact iff_of_true (List.forall_mem_nil _) (List.forall_mem_nil _)
  | case4 name hname value more ih =>
      rw [List.forall_mem_cons, List.forall_mem_cons] at hargv
      obtain ⟨-, hvalue, hmore⟩ := hargv
      have hoption := isValueOption hname
      rw [hostOptions, if_neg hname]
      by_cases hsafe : name = ascii "-h" → HostOption.Safe ⟨o.numHosts, value, more⟩
      · have hlog : ∀ access ∈ (runOption atoi environment name value more o).1,
            access.InBounds := (runOption_inBounds_iff hvalue).mpr hsafe
        have hsome : (runOption atoi environment name value more o).2.toOption.isSome = _ :=
          runOption_isSome hvalue fun h => (hsafe h).seen
        have hhead : ∀ h ∈ (if name = ascii "-h" then [(⟨o.numHosts, value, more⟩ : HostOption)]
            else []), h.Safe := by
          split
          next h => exact List.forall_mem_singleton.mpr (hsafe h)
          next => exact List.forall_mem_nil _
        rw [List.forall_mem_append, and_iff_right hhead, ← hsome]
        cases hres : (runOption atoi environment name value more o).2 with
        | error e =>
            rw [runOptions_error hoption hres]
            exact iff_of_true hlog (List.forall_mem_nil _)
        | ok o₁ =>
            rw [runOptions_ok hoption hres, List.forall_mem_append, and_iff_right hlog, ih hmore,
              runOption_numHosts hres]
            rfl
      · refine iff_of_false (fun h => hsafe ?_) fun h => hsafe fun hhost => h _ ?_
        · exact (runOption_inBounds_iff hvalue).mp fun access haccess =>
            h access (mem_runOptions hoption haccess)
        · rw [if_pos hhost]
          exact List.mem_append_left _ (List.mem_singleton_self _)

/-- With safe options the parsing ends as the arguments say. -/
theorem runOptions_isSome (hargv : ∀ arg ∈ argv, (0 : UInt8) ∉ arg)
    (hsafe : ∀ h ∈ hostOptions o.numHosts argv, h.Safe) :
    (runOptions atoi environment argv o).2.toOption.isSome = completes argv := by
  induction argv using completes.induct generalizing o with
  | case1 => rfl
  | case2 name rest hname ih =>
      obtain ⟨log, o₁, -, hrows, hrun⟩ := runOptions_flag atoi environment rest o hname
      rw [hostOptions_flag hname, ← (hrows []).numHosts] at hsafe
      rw [hrun, completes_flag hname]
      exact ih (List.forall_mem_cons.mp hargv).2 hsafe
  | case3 name hname =>
      rw [runOptions_missing (isValueOption hname), completes, if_neg hname]
      rfl
  | case4 name hname value more ih =>
      rw [List.forall_mem_cons, List.forall_mem_cons] at hargv
      obtain ⟨-, hvalue, hmore⟩ := hargv
      rw [hostOptions, if_neg hname, List.forall_mem_append] at hsafe
      have hsome : (runOption atoi environment name value more o).2.toOption.isSome =
          optionAccepted name value := by
        refine runOption_isSome hvalue fun h => ?_
        rw [if_pos h, List.forall_mem_singleton] at hsafe
        exact hsafe.1.seen
      rw [completes, if_neg hname, ← hsome]
      cases hres : (runOption atoi environment name value more o).2 with
      | error e =>
          rw [runOptions_error (isValueOption hname) hres]
          rfl
      | ok o₁ =>
          have haccepted : optionAccepted name value = true := by
            rw [← hsome, hres]
            rfl
          rw [if_pos haccepted, ← runOption_numHosts hres] at hsafe
          rw [runOptions_ok (isValueOption hname) hres]
          exact ih hmore hsafe.2

end Walk

end Speedway.Gps
