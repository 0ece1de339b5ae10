import Speedway.Gps.Configuration

/-!
# The accesses of the option parsing

The loop of `-h` reads its value character by character and writes the row `numHosts` of
the table. After a comma its offset is advanced twice, so it does not see a 0 there. Here
the accesses are recorded; a number that is no `int` may be read as anything.
-/

namespace Speedway.Gps

section Model

/-- A character of the value of `-h` is read, which has a 0 after `size` characters, or a
member of a row of `hosts` is written. -/
inductive Access where
  | read (offset size : Nat)
  | write (hostNum : Nat)
  deriving DecidableEq

def Access.InBounds : Access → Prop
  | .read offset size => offset ≤ size
  | .write hostNum => hostNum < maxHosts

variable (atoi : List UInt8 → Int)

/-- The field of a row as `hostField` sets it, with any result of `atoi`. -/
def setField (num : Nat) (start : List UInt8) (len : Nat) (host : GpsHost) :
    Except OptionError GpsHost :=
  match num with
  | 1 => .ok { host with port := atoi start }
  | 4 => .ok { host with rate := toSize (atoi start) }
  | _ => hostField num start len host

/-- Every field is written, but of an empty address no character. -/
def fieldWrites (hostNum num len : Nat) : List Access :=
  if num = 0 ∧ len = 0 then [] else [.write hostNum]

/-- The loop of `-h` for row `hostNum`, as in `hostLoop`, with its accesses. -/
def scanHost (size hostNum : Nat) (num : Nat) (start : List UInt8) (len offset : Nat) :
    List UInt8 → GpsHost → List Access × Except OptionError (Nat × GpsHost)
  | [], _ => ([.read offset size], .error .undefined)
  | c :: rest, host =>
      if c = 0x2c ∨ c = 0 then
        match setField atoi num start len host with
        | .error e => ([.read offset size], .error e)
        | .ok host =>
            let log := .read offset size :: fieldWrites hostNum num len
            if c = 0 then (log, .ok (num + 1, host))
            else match rest with
              | [] => (log ++ [.read (offset + 2) size], .error .undefined)
              | _ :: rest' =>
                  let r := scanHost size hostNum (num + 1) rest 1 (offset + 2) rest' host
                  (log ++ r.1, r.2)
      else
        let r := scanHost size hostNum num start (len + 1) (offset + 1) rest host
        (.read offset size :: r.1, r.2)

/-- The option `-h`. -/
def runHost (environment value : List UInt8) (more : List (List UInt8)) (o : Options) :
    List Access × Except OptionError Options :=
  let memory := argvMemory (value :: more) environment
  let r := scanHost atoi value.length o.numHosts 0 memory 0 0 memory (o.hosts o.numHosts)
  (r.1, r.2.bind fun (num, host) =>
    if num < 4 ∨ 6 < num then .error (.numberOfArguments num) else .ok (o.addHost host))

/-- The other options with a value that write to a row. -/
def rowOptions : List (List UInt8) := ["-p", "-c", "-r", "-tid", "-id", "-f"].map ascii

/-- An option with a value other than `-h`, as in `readOption`. -/
def setOption (environment name value : List UInt8) (more : List (List UInt8)) (o : Options) :
    Except OptionError Options :=
  if name = ascii "-sp" then .ok { o with serverPort := (atoi value % 2 ^ 16).toNat }
  else if name = ascii "-p" then .ok (o.setHost 0 { o.hosts 0 with port := atoi value })
  else if name = ascii "-r" then .ok (o.setHost 0 { o.hosts 0 with rate := toSize (atoi value) })
  else readOption environment name value more o

/-- An option with a value, with its accesses. -/
def runOption (environment name value : List UInt8) (more : List (List UInt8)) (o : Options) :
    List Access × Except OptionError Options :=
  if name = ascii "-h" then runHost atoi environment value more o
  else match setOption atoi environment name value more o with
    | .error e => ([], .error e)
    | .ok o => (if name ∈ rowOptions then [.write 0] else [], .ok o)

/-- The loop of `main` over the arguments, with its accesses. -/
def runOptions (environment : List UInt8) :
    List (List UInt8) → Options → List Access × Except OptionError Options
  | [], o => ([], .ok o)
  | name :: rest, o =>
      if name = ascii "-t" then runOptions environment rest { o with testing := true }
      else if name = ascii "-dummy" then runOptions environment rest { o with dummy := true }
      else if name = ascii "-u" then
        let r := runOptions environment rest (o.setHost 0 { o.hosts 0 with connection := .udp })
        (.write 0 :: r.1, r.2)
      else match rest with
        | [] => ([], .error .moreThanTwoArguments)
        | value :: more =>
            match runOption atoi environment name value more o with
            | (log, .error e) => (log, .error e)
            | (log, .ok o) =>
                let r := runOptions environment more o
                (log ++ r.1, r.2)

variable {atoi} {environment : List UInt8} {rest more : List (List UInt8)}
  {name value : List UInt8} {o o' : Options}

theorem runOptions_t : runOptions atoi environment (ascii "-t" :: rest) o =
    runOptions atoi environment rest { o with testing := true } := by
  rw [runOptions.eq_def]
  rfl

theorem runOptions_dummy : runOptions atoi environment (ascii "-dummy" :: rest) o =
    runOptions atoi environment rest { o with dummy := true } := by
  rw [runOptions.eq_def]
  rfl

theorem runOptions_u : runOptions atoi environment (ascii "-u" :: rest) o =
    let r := runOptions atoi environment rest (o.setHost 0 { o.hosts 0 with connection := .udp })
    (.write 0 :: r.1, r.2) := by
  rw [runOptions.eq_def]
  rfl

/-- An option that is none of these three. -/
def IsValueOption (name : List UInt8) : Prop :=
  name ≠ ascii "-t" ∧ name ≠ ascii "-dummy" ∧ name ≠ ascii "-u"

theorem runOptions_missing (hname : IsValueOption name) :
    runOptions atoi environment [name] o = ([], .error .moreThanTwoArguments) := by
  rw [runOptions, if_neg hname.1, if_neg hname.2.1, if_neg hname.2.2]

theorem runOptions_error {e : OptionError} (hname : IsValueOption name)
    (h : (runOption atoi environment name value more o).2 = .error e) :
    runOptions atoi environment (name :: value :: more) o =
      ((runOption atoi environment name value more o).1, .error e) := by
  rw [runOptions, if_neg hname.1, if_neg hname.2.1, if_neg hname.2.2]
  split
  next log e' heq => rw [heq] at h ⊢; rw [Except.error.inj h]
  next log o' heq => rw [heq] at h; cases h

theorem runOptions_ok (hname : IsValueOption name)
    (h : (runOption atoi environment name value more o).2 = .ok o') :
    runOptions atoi environment (name :: value :: more) o =
      ((runOption atoi environment name value more o).1 ++ (runOptions atoi environment more o').1,
        (runOptions atoi environment more o').2) := by
  rw [runOptions, if_neg hname.1, if_neg hname.2.1, if_neg hname.2.2]
  split
  next log e' heq => rw [heq] at h; cases h
  next log o' heq => rw [heq] at h ⊢; rw [Except.ok.inj h]

end Model

section Fields

/-- `main` ends with the usage text at this field, which starts with `start`. -/
def fieldRejected (num : Nat) (start : List UInt8) : Bool :=
  match num with
  | 2 => start.take 3 != ascii "tcp" && start.take 3 != ascii "udp" &&
      start.take 8 != ascii "internal"
  | 3 => start.take 4 != ascii "nmea" && start.take 4 != ascii "taip"
  | _ + 6 => true
  | _ => false

variable (atoi : List UInt8 → Int) {num : Nat} (len : Nat) {start after : List UInt8}
  (host : GpsHost)

theorem setField_rejected (h : fieldRejected num start = true) :
    ∃ e, setField atoi num start len host = .error e := by
  match num with
  | 0 | 1 | 4 | 5 => exact absurd h Bool.false_ne_true
  | 2 =>
      rw [fieldRejected, Bool.and_eq_true, Bool.and_eq_true, bne_iff_ne, bne_iff_ne,
        bne_iff_ne] at h
      refine ⟨.invalidProtocol (cText start), ?_⟩
      rw [setField, hostField, if_neg h.1.1, if_neg h.1.2, if_neg h.2]
      all_goals decide
  | 3 =>
      rw [fieldRejected, Bool.and_eq_true, bne_iff_ne, bne_iff_ne] at h
      refine ⟨.invalidFormat (cText start), ?_⟩
      rw [setField, hostField, if_neg h.1, if_neg h.2]
      all_goals decide
  | n + 6 => exact ⟨.excessArguments (cText start), rfl⟩

theorem setField_accepted (h : fieldRejected num start = false) :
    ∃ host', setField atoi num start len host = .ok host' := by
  match num with
  | 0 | 1 | 4 | 5 => exact ⟨_, rfl⟩
  | 2 =>
      rw [setField, hostField]
      · split_ifs with htcp hudp hinternal
        · exact ⟨_, rfl⟩
        · exact ⟨_, rfl⟩
        · exact ⟨_, rfl⟩
        · simp [fieldRejected, htcp, hudp, hinternal] at h
      all_goals decide
  | 3 =>
      rw [setField, hostField]
      · split_ifs with hnmea htaip
        · exact ⟨_, rfl⟩
        · exact ⟨_, rfl⟩
        · simp [fieldRejected, hnmea, htaip] at h
      all_goals decide
  | n + 6 => exact absurd h.symm Bool.false_ne_true

/-- A keyword is not found across the end of a text. -/
theorem take_append_nul {text word : List UInt8} (hword : (0 : UInt8) ∉ word) (n : Nat)
    (hn : word.length = n) : (text ++ 0 :: after).take n = word ↔ text.take n = word := by
  rcases Nat.lt_or_ge text.length n with hshort | hlong
  · constructor
    · intro h
      have hmem : (0 : UInt8) ∈ (text ++ 0 :: after).take n := by
        rw [List.take_append, List.mem_append]
        obtain ⟨d, hd⟩ := Nat.exists_eq_add_of_lt hshort
        rw [show n - text.length = d + 1 by omega, List.take_succ_cons]
        exact .inr List.mem_cons_self
      exact absurd (h ▸ hmem) hword
    · intro h
      have := congrArg List.length h
      rw [List.length_take] at this
      omega
  · rw [List.take_append_of_le_length hlong]

/-- What follows the value does not matter for its fields. -/
theorem fieldRejected_append (num : Nat) (text after : List UInt8) :
    fieldRejected num (text ++ 0 :: after) = fieldRejected num text := by
  have hword (word : List UInt8) (hword : (0 : UInt8) ∉ word) :
      ((text ++ 0 :: after).take word.length != word) = (text.take word.length != word) := by
    rw [Bool.eq_iff_iff, bne_iff_ne, bne_iff_ne, Ne, take_append_nul hword _ rfl]
  match num with
  | 0 | 1 | 4 | 5 | _ + 6 => rfl
  | 2 =>
      rw [fieldRejected, fieldRejected]
      exact congrArg₂ and (congrArg₂ and (hword (ascii "tcp") (by decide))
        (hword (ascii "udp") (by decide))) (hword (ascii "internal") (by decide))
  | 3 =>
      rw [fieldRejected, fieldRejected]
      exact congrArg₂ and (hword (ascii "nmea") (by decide)) (hword (ascii "taip") (by decide))

theorem setField_text_rejected (after : List UInt8) (h : fieldRejected num start = true) :
    ∃ e, setField atoi num (start ++ 0 :: after) len host = .error e :=
  setField_rejected atoi len host ((fieldRejected_append num start after).trans h)

theorem setField_text_accepted (after : List UInt8) (h : fieldRejected num start = false) :
    ∃ host', setField atoi num (start ++ 0 :: after) len host = .ok host' :=
  setField_accepted atoi len host ((fieldRejected_append num start after).trans h)

end Fields

section Scan

/-- The loop steps over the 0 after a value: a comma that it looks at is the last character. -/
def stepsOver : List UInt8 → Bool
  | [] => false
  | c :: rest =>
      if c = 0x2c then match rest with
        | [] => true
        | _ :: rest' => stepsOver rest'
      else stepsOver rest

/-- A field of a value is rejected at the comma after it. -/
def rejects (num : Nat) (start : List UInt8) : List UInt8 → Bool
  | [] => false
  | c :: rest =>
      if c = 0x2c then fieldRejected num start || match rest with
        | [] => false
        | _ :: rest' => rejects (num + 1) rest rest'
      else rejects num start rest

variable {atoi : List UInt8 → Int} {size hostNum num len offset : Nat}
  {start after rest : List UInt8} {host host' : GpsHost} {c x : UInt8}

theorem scanHost_text (hcomma : c ≠ 0x2c) (hnul : c ≠ 0) :
    scanHost atoi size hostNum num start len offset (c :: rest) host =
      (.read offset size ::
        (scanHost atoi size hostNum num start (len + 1) (offset + 1) rest host).1,
        (scanHost atoi size hostNum num start (len + 1) (offset + 1) rest host).2) := by
  rw [scanHost, if_neg (not_or.mpr ⟨hcomma, hnul⟩)]

theorem scanHost_error {e : OptionError} (hc : c = 0x2c ∨ c = 0)
    (h : setField atoi num start len host = .error e) :
    scanHost atoi size hostNum num start len offset (c :: rest) host =
      ([.read offset size], .error e) := by
  rw [scanHost, if_pos hc, h]

theorem scanHost_comma (h : setField atoi num start len host = .ok host') :
    scanHost atoi size hostNum num start len offset (0x2c :: x :: rest) host =
      (.read offset size :: fieldWrites hostNum num len ++
        (scanHost atoi size hostNum (num + 1) (x :: rest) 1 (offset + 2) rest host').1,
        (scanHost atoi size hostNum (num + 1) (x :: rest) 1 (offset + 2) rest host').2) := by
  rw [scanHost, if_pos (.inl rfl), h]
  rfl

theorem scanHost_nul (h : setField atoi num start len host = .ok host') :
    scanHost atoi size hostNum num start len offset (0 :: rest) host =
      (.read offset size :: fieldWrites hostNum num len, .ok (num + 1, host')) := by
  rw [scanHost, if_pos (.inr rfl), h]
  rfl

/-- At a separator it is read and the field is written. -/
theorem mem_scanHost_of_field (hc : c = 0x2c ∨ c = 0)
    (h : setField atoi num start len host = .ok host') {access : Access}
    (haccess : access ∈ Access.read offset size :: fieldWrites hostNum num len) :
    access ∈ (scanHost atoi size hostNum num start len offset (c :: rest) host).1 := by
  rw [scanHost, if_pos hc, h]
  by_cases hnul : c = 0
  · simp only [if_pos hnul]
    exact haccess
  · simp only [if_neg hnul]
    cases rest <;> exact List.mem_append_left _ haccess

/-- The loop starts with a read. -/
theorem read_mem_scanHost (memory : List UInt8) :
    Access.read offset size ∈
      (scanHost atoi size hostNum num start len offset memory host).1 := by
  cases memory with
  | nil => exact List.mem_singleton_self _
  | cons c rest =>
      by_cases hc : c = 0x2c ∨ c = 0
      · cases hfield : setField atoi num start len host with
        | error e =>
            rw [scanHost_error hc hfield]
            exact List.mem_singleton_self _
        | ok host' => exact mem_scanHost_of_field hc hfield List.mem_cons_self
      · rw [scanHost_text (not_or.mp hc).1 (not_or.mp hc).2]
        exact List.mem_cons_self

theorem stepsOver_text (hcomma : c ≠ 0x2c) (rest : List UInt8) :
    stepsOver (c :: rest) = stepsOver rest := by
  rw [stepsOver.eq_def]
  exact if_neg hcomma

theorem rejects_text (hcomma : c ≠ 0x2c) (num : Nat) (start rest : List UInt8) :
    rejects num start (c :: rest) = rejects num start rest := by
  rw [rejects.eq_def]
  exact if_neg hcomma

theorem fieldWrites_inBounds (hroom : hostNum < maxHosts) :
    ∀ access ∈ fieldWrites hostNum num len, access.InBounds := by
  intro access haccess
  rw [fieldWrites] at haccess
  split at haccess
  · exact absurd haccess List.not_mem_nil
  · rw [List.mem_singleton.mp haccess]
    exact hroom

/-- For a row of the table the accesses are in bounds exactly if the loop sees the 0 or ends
before it. -/
theorem scanHost_inBounds_iff (hroom : hostNum < maxHosts) (after : List UInt8) {text : List UInt8}
    (start : List UInt8) (htext : (0 : UInt8) ∉ text) (hsize : offset + text.length = size) :
    (∀ access ∈ (scanHost atoi size hostNum num (start ++ 0 :: after) len offset
        (text ++ 0 :: after) host).1, access.InBounds) ↔
      stepsOver text = false ∨ rejects num start text = true := by
  induction text using stepsOver.induct generalizing num start len offset host with
  | case1 =>
      refine iff_of_true ?_ (.inl rfl)
      rw [List.nil_append]
      have hread : (Access.read offset size).InBounds := Nat.le_of_eq hsize
      cases hfield : setField atoi num (start ++ 0 :: after) len host with
      | error e =>
          rw [scanHost_error (.inr rfl) hfield, List.forall_mem_singleton]
          exact hread
      | ok host' =>
          rw [scanHost_nul hfield, List.forall_mem_cons]
          exact ⟨hread, fieldWrites_inBounds hroom⟩
  | case2 =>
      rw [List.length_singleton] at hsize
      rw [stepsOver, rejects, if_pos rfl, if_pos rfl, Bool.or_false]
      cases hrejected : fieldRejected num start with
      | true =>
          refine iff_of_true ?_ (.inr rfl)
          obtain ⟨e, hfield⟩ := setField_text_rejected atoi len host after hrejected
          rw [List.singleton_append, scanHost_error (.inl rfl) hfield, List.forall_mem_singleton]
          exact Nat.le_of_lt (by omega)
      | false =>
          refine iff_of_false (fun h => ?_) (by simp)
          obtain ⟨host', hfield⟩ := setField_text_accepted atoi len host after hrejected
          rw [List.singleton_append, scanHost_comma hfield] at h
          have hpast := h _ (List.mem_append_right _ (read_mem_scanHost after))
          exact absurd (show offset + 2 ≤ size from hpast) (by omega)
  | case3 x rest ih =>
      rw [List.mem_cons, List.mem_cons, not_or, not_or] at htext
      rw [List.length_cons, List.length_cons] at hsize
      rw [stepsOver, rejects, if_pos rfl, if_pos rfl]
      cases hrejected : fieldRejected num start with
      | true =>
          refine iff_of_true ?_ (.inr rfl)
          obtain ⟨e, hfield⟩ := setField_text_rejected atoi len host after hrejected
          rw [List.cons_append, scanHost_error (.inl rfl) hfield, List.forall_mem_singleton]
          exact Nat.le_of_lt (by omega)
      | false =>
          obtain ⟨host', hfield⟩ := setField_text_accepted atoi len host after hrejected
          have hnext : (∀ access ∈ (scanHost atoi size hostNum (num + 1) (x :: rest ++ 0 :: after) 1
              (offset + 2) (rest ++ 0 :: after) host').1, access.InBounds) ↔ _ :=
            ih (x :: rest) htext.2.2 (by omega)
          rw [Bool.false_or, ← hnext, List.cons_append, List.cons_append, scanHost_comma hfield,
            List.forall_mem_append, List.forall_mem_cons]
          refine and_iff_right ⟨?_, fieldWrites_inBounds hroom⟩
          exact Nat.le_of_lt (by omega)
  | case4 c rest hcomma ih =>
      rw [List.mem_cons, not_or] at htext
      rw [List.length_cons] at hsize
      have hnext : (∀ access ∈ (scanHost atoi size hostNum num (start ++ 0 :: after) (len + 1)
          (offset + 1) (rest ++ 0 :: after) host).1, access.InBounds) ↔ _ :=
        ih start htext.2 (by omega)
      rw [stepsOver_text hcomma, rejects_text hcomma, ← hnext, List.cons_append,
        scanHost_text hcomma (Ne.symm htext.1), List.forall_mem_cons]
      exact and_iff_right (Nat.le_of_lt (by omega))

/-- The number of commas at the end of a value. -/
def endCommas (text : List UInt8) : Nat := (text.reverse.takeWhile (· == 0x2c)).length

theorem endCommas_cons (c : UInt8) (rest : List UInt8) :
    endCommas (c :: rest) =
      if endCommas rest = rest.length ∧ c = 0x2c then rest.length + 1 else endCommas rest := by
  rw [endCommas, List.reverse_cons, List.takeWhile_append, List.length_reverse, ← endCommas]
  by_cases hall : endCommas rest = rest.length
  · rw [if_pos hall, List.length_append, List.length_reverse]
    by_cases hc : c = 0x2c
    · rw [if_pos ⟨hall, hc⟩, hc]
      rfl
    · rw [if_neg fun h => hc h.2, List.takeWhile_cons, if_neg fun h => hc (beq_iff_eq.mp h), hall]
      rfl
  · rw [if_neg hall, if_neg fun h => hall h.1, endCommas]

theorem endCommas_le (text : List UInt8) : endCommas text ≤ text.length := by
  have := (List.takeWhile_sublist (· == (0x2c : UInt8)) (l := text.reverse)).length_le
  rwa [List.length_reverse] at this

/-- Of the commas at the end every second one is passed over. -/
theorem stepsOver_iff (text : List UInt8) : stepsOver text = true ↔ endCommas text % 2 = 1 := by
  induction text using stepsOver.induct with
  | case1 => exact iff_of_false Bool.false_ne_true (by decide)
  | case2 => exact iff_of_true rfl rfl
  | case3 x rest ih =>
      have hle := endCommas_le rest
      rw [stepsOver, if_pos rfl, ih, endCommas_cons, endCommas_cons x, List.length_cons]
      by_cases hall : endCommas rest = rest.length ∧ x = 0x2c
      · rw [if_pos hall, if_pos ⟨rfl, rfl⟩, hall.1]
        omega
      · rw [if_neg hall, if_neg fun h => absurd h.1 (by omega)]
  | case4 c rest hcomma ih =>
      rw [stepsOver_text hcomma, ih, endCommas_cons, if_neg fun h => hcomma h.2]

theorem write_mem_fieldWrites (h : num = 0 → 0 < len) :
    Access.write hostNum ∈ fieldWrites hostNum num len := by
  rw [fieldWrites, if_neg fun hnone => absurd (h hnone.1) (by omega)]
  exact List.mem_singleton_self _

/-- The first two fields are never rejected, and something is written for the second. -/
theorem write_mem_scanHost (hnum : num ≤ 1) (hwrites : num = 0 → 0 < len) (text : List UInt8) :
    Access.write hostNum ∈
      (scanHost atoi size hostNum num start len offset (text ++ 0 :: after) host).1 := by
  have hfield (len : Nat) : ∃ host', setField atoi num start len host = .ok host' := by
    match num, hnum with
    | 0, _ => exact ⟨_, rfl⟩
    | 1, _ => exact ⟨_, rfl⟩
  induction text generalizing len offset with
  | nil =>
      obtain ⟨host', hfield⟩ := hfield len
      exact mem_scanHost_of_field (.inr rfl) hfield
        (List.mem_cons_of_mem _ (write_mem_fieldWrites hwrites))
  | cons c text ih =>
      by_cases hc : c = 0x2c ∨ c = 0
      · obtain ⟨host', hfield⟩ := hfield len
        exact mem_scanHost_of_field hc hfield
          (List.mem_cons_of_mem _ (write_mem_fieldWrites hwrites))
      · rw [List.cons_append, scanHost_text (not_or.mp hc).1 (not_or.mp hc).2]
        exact List.mem_cons_of_mem _ (ih fun _ => Nat.succ_pos len)

/-- A value that is not empty leads to a write to the row or to a read after the value. -/
theorem scanHost_outOfBounds (hfull : maxHosts ≤ hostNum) (after : List UInt8) {text : List UInt8}
    (htext : (0 : UInt8) ∉ text) (hne : text ≠ []) :
    ∃ access ∈ (scanHost atoi text.length hostNum 0 start 0 0 (text ++ 0 :: after) host).1,
      ¬ access.InBounds := by
  have hrow : ¬ (Access.write hostNum).InBounds := Nat.not_lt.mpr hfull
  match text with
  | [] => exact absurd rfl hne
  | c :: rest =>
      by_cases hcomma : c = 0x2c
      · subst hcomma
        cases rest with
        | nil =>
            refine ⟨.read 2 1, ?_, Nat.not_succ_le_self 1⟩
            rw [List.singleton_append, scanHost_comma rfl]
            exact List.mem_append_right _ (read_mem_scanHost after)
        | cons x rest =>
            refine ⟨_, ?_, hrow⟩
            rw [List.cons_append, List.cons_append, scanHost_comma rfl]
            exact List.mem_append_right _
              (write_mem_scanHost (Nat.le_refl 1) (fun h => absurd h Nat.one_ne_zero) rest)
      · refine ⟨_, ?_, hrow⟩
        rw [List.mem_cons, not_or] at htext
        rw [List.cons_append, scanHost_text hcomma (Ne.symm htext.1)]
        exact List.mem_cons_of_mem _
          (write_mem_scanHost (Nat.zero_le 1) (fun _ => Nat.one_pos) rest)

end Scan

section Results

variable {atoi : List UInt8 → Int} (hatoi : ∀ text n, Gps.atoi text = .ok n → atoi text = n)
  {environment : List UInt8} {num len : Nat} {start : List UInt8} {host host' : GpsHost}
  {o o' : Options}

include hatoi

/-- A number that is an `int` is the same here. -/
theorem atoi_map_of_ok {α : Type} {f : Int → α} {a : α} (h : (Gps.atoi start).map f = .ok a) :
    f (atoi start) = a := by
  cases hread : Gps.atoi start with
  | error e => rw [hread] at h; cases h
  | ok n =>
      rw [hread] at h
      rw [hatoi start n hread]
      exact Except.ok.inj h

theorem setField_of_ok (h : hostField num start len host = .ok host') :
    setField atoi num start len host = .ok host' := by
  match num with
  | 0 | 2 | 3 | 5 | _ + 6 => exact h
  | 1 => exact congrArg Except.ok (atoi_map_of_ok hatoi h)
  | 4 => exact congrArg Except.ok (atoi_map_of_ok hatoi h)

theorem scanHost_of_ok (size hostNum offset : Nat) {memory : List UInt8} {r : Nat × GpsHost}
    (h : hostLoop num start len memory host = .ok r) :
    (scanHost atoi size hostNum num start len offset memory host).2 = .ok r := by
  induction num, start, len, memory, host using hostLoop.induct generalizing offset with
  | case1 num start len host => cases h
  | case2 num start len c rest host hc ih =>
      cases hfield : hostField num start len host with
      | error e =>
          rw [hostLoop, if_pos hc, hfield] at h
          cases h
      | ok host₁ =>
          have hset := setField_of_ok hatoi hfield
          rw [hostLoop, if_pos hc, hfield] at h
          rcases hc with rfl | rfl
          · cases rest with
            | nil => cases h
            | cons x rest =>
                rw [scanHost_comma hset]
                exact ih host₁ _ h
          · rw [scanHost_nul hset]
            exact h
  | case3 num start len c rest host hc ih =>
      rw [hostLoop, if_neg hc] at h
      rw [scanHost_text (not_or.mp hc).1 (not_or.mp hc).2]
      exact ih _ h

theorem setOption_of_ok {name value : List UInt8} {more : List (List UInt8)}
    (h : readOption environment name value more o = .ok o') :
    setOption atoi environment name value more o = .ok o' := by
  rw [setOption]
  split_ifs with hsp hp hr
  · rw [readOption, if_pos hsp] at h
    exact congrArg Except.ok (atoi_map_of_ok hatoi h)
  · subst hp
    rw [readOption, if_neg (by decide), if_neg (by decide), if_neg (by decide), if_pos rfl] at h
    exact congrArg Except.ok (atoi_map_of_ok hatoi h)
  · subst hr
    rw [readOption, if_neg (by decide), if_neg (by decide), if_neg (by decide),
      if_neg (by decide), if_neg (by decide), if_pos rfl] at h
    exact congrArg Except.ok (atoi_map_of_ok hatoi h)
  · exact h

theorem runHost_of_ok {value : List UInt8} {more : List (List UInt8)}
    (h : readOption environment (ascii "-h") value more o = .ok o') :
    (runHost atoi environment value more o).2 = .ok o' := by
  rw [readOption, if_neg (by decide), if_neg (by decide), if_neg (by decide), if_neg (by decide),
    if_neg (by decide), if_neg (by decide), if_neg (by decide), if_neg (by decide), if_pos rfl] at h
  split at h
  · cases h
  · rw [readHost] at h
    cases hloop : hostLoop 0 (argvMemory (value :: more) environment) 0
        (argvMemory (value :: more) environment) (o.hosts o.numHosts) with
    | error e =>
        rw [hloop] at h
        cases h
    | ok r =>
        rw [hloop] at h
        simp only [runHost, scanHost_of_ok hatoi _ _ _ hloop]
        by_cases hnum : r.1 < 4 ∨ 6 < r.1
        · simp only [Except.bind, if_pos hnum] at h
          cases h
        · simp only [Except.bind, if_neg hnum] at h ⊢
          exact h

theorem runOption_of_ok {name value : List UInt8} {more : List (List UInt8)}
    (h : readOption environment name value more o = .ok o') :
    (runOption atoi environment name value more o).2 = .ok o' := by
  rw [runOption]
  split
  next hname => exact runHost_of_ok hatoi (hname ▸ h)
  next => rw [setOption_of_ok hatoi h]

/-- The results are those of the model without accesses, where that one has results. -/
theorem runOptions_of_ok {argv : List (List UInt8)} (h : readOptions environment argv o = .ok o') :
    (runOptions atoi environment argv o).2 = .ok o' := by
  induction argv, o using readOptions.induct with
  | case1 o => exact h
  | case2 rest o ih =>
      rw [readOptions.eq_def] at h
      rw [runOptions_t]
      exact ih h
  | case3 rest o hne ih =>
      rw [readOptions.eq_def] at h
      rw [runOptions_dummy]
      exact ih h
  | case4 rest o hne hne' ih =>
      rw [readOptions.eq_def] at h
      rw [runOptions_u]
      exact ih h
  | case5 name o ht hdummy hu =>
      rw [readOptions, if_neg ht, if_neg hdummy, if_neg hu] at h
      cases h
  | case6 name o ht hdummy hu value more ih =>
      rw [readOptions, if_neg ht, if_neg hdummy, if_neg hu] at h
      cases hread : readOption environment name value more o with
      | error e =>
          rw [hread] at h
          cases h
      | ok o₁ =>
          rw [hread] at h
          rw [runOptions_ok ⟨ht, hdummy, hu⟩ (runOption_of_ok hatoi hread)]
          exact ih o₁ h

end Results

end Speedway.Gps
