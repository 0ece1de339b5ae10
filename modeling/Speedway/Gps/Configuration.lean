import Mathlib.Data.List.TakeWhile
import Speedway.Gps.Options

/-!
# The configuration in the table of hosts

What the daemon reads from the arguments that the init script builds, field by
field, and which configurations reach the table unchanged.
-/

namespace Speedway.Gps

section Loop

variable {num len : Nat} {start text rest : List UInt8} {host : GpsHost}

/-- A text that stays inside one field. -/
def NoSeparator (text : List UInt8) : Prop := ∀ b ∈ text, b ≠ 0x2c ∧ b ≠ 0

instance (text : List UInt8) : Decidable (NoSeparator text) :=
  List.decidableBAll _ text

theorem hostLoop_text (h : NoSeparator text) :
    hostLoop num start len (text ++ rest) host =
      hostLoop num start (len + text.length) rest host := by
  induction text generalizing len with
  | nil => rfl
  | cons b text ih =>
      obtain ⟨hcomma, hnul⟩ := h b List.mem_cons_self
      have hrest : NoSeparator text := fun c hc => h c (List.mem_cons_of_mem b hc)
      rw [List.cons_append, hostLoop, if_neg (not_or.mpr ⟨hcomma, hnul⟩), ih hrest,
        List.length_cons, Nat.add_assoc, Nat.add_comm 1]

/-- The loop after a comma: the first character is not looked at. -/
def nextField (num : Nat) : List UInt8 → GpsHost → Except OptionError (Nat × GpsHost)
  | [], _ => .error .undefined
  | c :: rest, host => hostLoop num (c :: rest) 1 rest host

theorem hostLoop_comma :
    hostLoop num start len (0x2c :: rest) host =
      (hostField num start len host).bind (nextField (num + 1) rest) := by
  rw [hostLoop, if_pos (.inl rfl)]
  congr 1
  funext host'
  rw [if_neg (by decide)]
  cases rest <;> rfl

theorem hostLoop_nul :
    hostLoop num start len (0 :: rest) host =
      (hostField num start len host).map fun host => (num + 1, host) := by
  rw [hostLoop, if_pos (.inr rfl)]
  cases hostField num start len host <;> rfl

theorem nextField_comma {c : UInt8} (h : NoSeparator text) :
    nextField num (c :: (text ++ 0x2c :: rest)) host =
      (hostField num (c :: (text ++ 0x2c :: rest)) (1 + text.length) host).bind
        (nextField (num + 1) rest) := by
  rw [nextField, hostLoop_text h, hostLoop_comma]

theorem nextField_nul {c : UInt8} (h : NoSeparator text) :
    nextField num (c :: (text ++ 0 :: rest)) host =
      (hostField num (c :: (text ++ 0 :: rest)) (1 + text.length) host).map
        fun host => (num + 1, host) := by
  rw [nextField, hostLoop_text h, hostLoop_nul]

/-- There is no seventh field. -/
theorem hostLoop_excess {memory : List UInt8} {r : Nat × GpsHost} :
    hostLoop 6 start len memory host ≠ .ok r := by
  induction memory generalizing len with
  | nil => exact nofun
  | cons c rest ih =>
      rw [hostLoop]
      split
      · exact nofun
      · exact ih

theorem nextField_excess {r : Nat × GpsHost} : nextField 6 rest host ≠ .ok r := by
  cases rest with
  | nil => exact nofun
  | cons c rest => exact hostLoop_excess

end Loop

section Fields

variable {text rest digits : List UInt8} {c : UInt8}

theorem cText_append (h : ∀ b ∈ text, b ≠ 0) : cText (text ++ 0 :: rest) = text := by
  have hall : ∀ b ∈ text, (b != 0) = true := by
    intro b hb
    simpa using h b hb
  rw [cText, List.takeWhile_append_of_pos hall, List.takeWhile_cons_of_neg (by decide),
    List.append_nil]

theorem take_cText {n : Nat} (h : ∀ b ∈ text, b ≠ 0) (hn : n ≤ text.length) :
    (cText (text ++ rest)).take n = text.take n := by
  have hall : ∀ b ∈ text, (b != 0) = true := by
    intro b hb
    simpa using h b hb
  rw [cText, List.takeWhile_append_of_pos hall, List.take_append_of_le_length hn]

/-- A text in an array that was cleared before. -/
theorem cString_padded {k : Nat} (h : ∀ b ∈ text, b ≠ 0) :
    cString (text ++ List.replicate k 0) = if k = 0 then none else some text := by
  cases k with
  | zero =>
      rw [List.replicate_zero, List.append_nil, cString,
        if_neg fun hmem => h 0 hmem rfl, if_pos rfl]
  | succ k =>
      have hmem : (0 : UInt8) ∈ text ++ List.replicate (k + 1) 0 := by simp
      rw [cString, if_pos hmem, if_neg (Nat.succ_ne_zero k), List.replicate_succ, cText_append h]

/-- A copy that ends inside the text does not depend on what follows. -/
theorem strncpy_append_of_le {dst : List UInt8} {n : Nat} (h : ∀ b ∈ text, b ≠ 0)
    (hn : n ≤ text.length) : strncpy dst (text ++ rest) n = strncpy dst text n := by
  have htext : (cText (text ++ [])).take n = text.take n := take_cText h hn
  rw [List.append_nil] at htext
  simp only [strncpy, take_cText h hn, htext]

theorem cText_self (h : ∀ b ∈ text, b ≠ 0) : cText text = text := by
  rw [cText, List.takeWhile_eq_self_iff]
  intro b hb
  simpa using h b hb

theorem strncpy_append_nul {dst : List UInt8} {n : Nat} (h : ∀ b ∈ text, b ≠ 0) :
    strncpy dst (text ++ 0 :: rest) n = strncpy dst text n := by
  simp only [strncpy, cText_append h, cText_self h]

/-- The number of characters of an address that are copied. -/
def ipLength (text : List UInt8) : Nat := if 32 < text.length then 32 - 1 else text.length

theorem ipLength_le (text : List UInt8) : ipLength text ≤ text.length := by
  rw [ipLength]
  split <;> omega

/-- The address as it is stored. -/
theorem cString_ip (h : ∀ b ∈ text, b ≠ 0) :
    cString (strncpy GpsHost.initial.ip text (ipLength text)) = some text ↔ text.length ≤ 31 := by
  have hcopy (n : Nat) (hn : n ≤ text.length) : strncpy GpsHost.initial.ip text n =
      text.take n ++ List.replicate (32 - n) 0 := by
    have hlength : (text.take n).length = n := List.length_take_of_le hn
    simp only [strncpy, cText_self h, hlength, Nat.sub_self, List.replicate_zero,
      List.append_nil, GpsHost.initial, List.drop_replicate]
  have htake (n : Nat) : ∀ b ∈ text.take n, b ≠ 0 := fun b hb => h b (List.mem_of_mem_take hb)
  rw [ipLength]
  split
  next hlong =>
    rw [hcopy _ (by omega), cString_padded (htake _), if_neg (by decide), Option.some.injEq]
    constructor
    · intro heq
      have := congrArg List.length heq
      rw [List.length_take_of_le (by omega)] at this
      omega
    · intro hshort
      omega
  next hshort =>
    rw [hcopy _ (Nat.le_refl _), cString_padded (htake _), List.take_length]
    by_cases hfull : 32 - text.length = 0
    · rw [if_pos hfull]
      exact ⟨nofun, fun h => by omega⟩
    · rw [if_neg hfull]
      exact ⟨fun _ => by omega, fun _ => rfl⟩

/-- The identifier as it is stored. -/
theorem cString_gpsID (h : ∀ b ∈ text, b ≠ 0) :
    cString (strncpy GpsHost.initial.gpsID text (5 - 1)) = some (text.take 4) := by
  have hcopy : strncpy GpsHost.initial.gpsID text (5 - 1) =
      text.take 4 ++ List.replicate (4 - (text.take 4).length + 1) 0 := by
    simp only [strncpy, cText_self h, GpsHost.initial, List.drop_replicate, List.append_assoc,
      List.replicate_append_replicate]
  rw [hcopy, cString_padded fun b hb => h b (List.mem_of_mem_take hb), if_neg (by omega)]

/-- A number as the daemon reads it. -/
def readNumber (digits : List UInt8) : Except OptionError Nat :=
  if decimal digits < 2 ^ 31 then .ok (decimal digits) else .error .undefined

theorem readNumber_eq_ok {n : Nat} :
    readNumber digits = .ok n ↔ decimal digits < 2 ^ 31 ∧ n = decimal digits := by
  rw [readNumber]
  split
  next hlt => exact ⟨fun h => ⟨hlt, (Except.ok.inj h).symm⟩, fun h => by rw [h.2]⟩
  next hge => exact ⟨nofun, fun h => absurd h.1 hge⟩

theorem isDigit_not_space : ∀ b : UInt8, isDigit b = true →
    isSpace b = false ∧ b ≠ 0x2d ∧ b ≠ 0x2b ∧ b ≠ 0x2c ∧ b ≠ 0 := by
  intro b h
  rw [isDigit, Bool.and_eq_true, decide_eq_true_eq, decide_eq_true_eq, UInt8.le_iff_toNat_le,
    UInt8.le_iff_toNat_le] at h
  have h₁ : 48 ≤ b.toNat := h.1
  have h₂ : b.toNat ≤ 57 := h.2
  have hne (c : UInt8) (hc : c.toNat < 48) : b ≠ c := by
    rintro rfl
    omega
  refine ⟨?_, hne _ (by decide), hne _ (by decide), hne _ (by decide), hne _ (by decide)⟩
  rw [isSpace, Bool.or_eq_false_iff, Bool.and_eq_false_iff]
  refine ⟨by simpa using hne 0x20 (by decide), .inr ?_⟩
  rw [decide_eq_false_iff_not, UInt8.le_iff_toNat_le]
  show ¬ b.toNat ≤ 13
  omega

/-- A character that ends a number without being part of one. -/
theorem atoi_of_head {b : UInt8} (hspace : isSpace b = false) (hminus : b ≠ 0x2d)
    (hplus : b ≠ 0x2b) :
    atoi (b :: rest) =
      if decimal ((b :: rest).takeWhile isDigit) < 2 ^ 31 then
        .ok (decimal ((b :: rest).takeWhile isDigit) : Int) else .error .undefined := by
  have hdrop : (b :: rest).dropWhile isSpace = b :: rest :=
    List.dropWhile_cons_of_neg (by simp [hspace])
  have hfits (n : Nat) : (fitsInt (n : Int) = true) ↔ n < 2 ^ 31 := by
    rw [fitsInt, Bool.and_eq_true, decide_eq_true_eq, decide_eq_true_eq]
    omega
  rw [atoi, hdrop]
  split
  next heq => exact absurd (List.cons_eq_cons.mp heq).1 hminus
  next heq => exact absurd (List.cons_eq_cons.mp heq).1 hplus
  · simp only [hfits]

theorem atoi_digits (h : ∀ b ∈ digits, isDigit b = true) (hc : c = 0x2c ∨ c = 0) :
    atoi (digits ++ c :: rest) = (readNumber digits).map fun n => (n : Int) := by
  have hend : isDigit c = false := by rcases hc with rfl | rfl <;> rfl
  have htake : (digits ++ c :: rest).takeWhile isDigit = digits := by
    rw [List.takeWhile_append_of_pos h, List.takeWhile_cons_of_neg (by simp [hend]),
      List.append_nil]
  have hread : atoi (digits ++ c :: rest) =
      if decimal digits < 2 ^ 31 then .ok (decimal digits : Int) else .error .undefined := by
    cases digits with
    | nil =>
        rw [List.nil_append] at htake ⊢
        rw [atoi_of_head, htake]
        all_goals rcases hc with rfl | rfl <;> decide
    | cons b digits =>
        obtain ⟨hspace, hminus, hplus, -⟩ := isDigit_not_space b (h b List.mem_cons_self)
        rw [List.cons_append] at htake ⊢
        rw [atoi_of_head hspace hminus hplus, htake]
  rw [hread, readNumber]
  split <;> rfl

/-- The value of an option is a number to its end. -/
theorem atoi_value (h : ∀ b ∈ digits, isDigit b = true) (hne : digits ≠ [])
    (hlt : decimal digits < 2 ^ 31) : atoi digits = .ok (decimal digits : Int) := by
  cases digits with
  | nil => exact absurd rfl hne
  | cons b digits =>
      obtain ⟨hspace, hminus, hplus, -⟩ := isDigit_not_space b (h b List.mem_cons_self)
      rw [atoi_of_head hspace hminus hplus, List.takeWhile_eq_self_iff.mpr h, if_pos hlt]

theorem toSize_of_lt {n : Nat} (h : n < 2 ^ 31) : toSize (n : Int) = n := by
  rw [toSize]
  omega

end Fields

section Configured

inductive Format where
  | nmea
  | taip
  deriving DecidableEq

def Format.text : Format → List UInt8
  | .nmea => ascii "nmea"
  | .taip => ascii "taip"

def Format.output : Format → GpsOutput
  | .nmea => .nmea
  | .taip => .taip

/-- Characters that neither the shell nor the list of fields treats in a special way. -/
def plain (b : UInt8) : Bool :=
  !(b == 0 || b == 0x2c || isSpace b || b == 0x2a || b == 0x3f || b == 0x5b || b == 0x5c)

/-- A text of plain characters. -/
structure PlainText where
  text : List UInt8
  all : ∀ b ∈ text, plain b = true

/-- A text of digits, or none. -/
structure Digits where
  text : List UInt8
  all : ∀ b ∈ text, isDigit b = true

/-- The internal destination of a configuration. -/
structure Internal where
  format : Format
  rate : Digits
  tid : PlainText

/-- A client of a configuration. -/
structure Client where
  ip : PlainText
  ip_ne : ip.text ≠ []
  port : Digits
  port_ne : port.text ≠ []
  tcp : Bool
  format : Format
  rate : Digits
  tid : PlainText

/-- The server of a configuration and the address of the device. -/
structure Server where
  address : PlainText
  address_ne : address.text ≠ []
  port : Digits
  port_ne : port.text ≠ []
  port_lt : decimal port.text < 2 ^ 16

structure Config where
  server : Option Server
  internal : Internal
  clients : List Client
  few : clients.length ≤ 15

def Client.options (c : Client) : GpsdSection where
  client := c.ip.text
  port := c.port.text
  tcp := if c.tcp then ascii "true" else ascii "false"
  format := c.format.text
  rate := c.rate.text
  tid := c.tid.text

def Config.uci (g : Config) : UciConfig where
  serverPort := (g.server.map fun s => s.port.text).getD []
  lanAddress := (g.server.map fun s => s.address.text).getD []
  internalFormat := g.internal.format.text
  internalRate := g.internal.rate.text
  internalTid := g.internal.tid.text
  gpsd := g.clients.map Client.options

/-- What is configured for one row of the table. -/
structure Destination where
  connection : GpsConnection
  output : GpsOutput
  port : Int
  ip : List UInt8
  rate : Nat
  gpsID : List UInt8

/-- The internal destination has no address and no port. -/
def Internal.destination (i : Internal) : Destination where
  connection := .internal
  output := i.format.output
  port := 0
  ip := []
  rate := decimal i.rate.text
  gpsID := i.tid.text

def Client.destination (c : Client) : Destination where
  connection := if c.tcp then .tcp else .udp
  output := c.format.output
  port := decimal c.port.text
  ip := c.ip.text
  rate := decimal c.rate.text
  gpsID := c.tid.text

def Config.destinations (g : Config) : List Destination :=
  g.internal.destination :: g.clients.map Client.destination

/-- The row holds exactly what is configured. -/
structure GpsHost.Holds (host : GpsHost) (d : Destination) : Prop where
  connection : host.connection = d.connection
  output : host.output = d.output
  port : host.port = d.port
  ip : cString host.ip = some d.ip
  rate : host.rate = d.rate
  gpsID : cString host.gpsID = some d.gpsID

/-- An identifier is only passed on after a rate, and has room for four characters. -/
structure Passes (rate : Digits) (tid : PlainText) : Prop where
  rate_lt : decimal rate.text < 2 ^ 31
  tid_le : tid.text.length ≤ 4
  tid_after : rate.text = [] → tid.text = []

structure Client.Fits (c : Client) : Prop where
  optional : Passes c.rate c.tid
  ip_le : c.ip.text.length ≤ 31
  port_lt : decimal c.port.text < 2 ^ 31

/-- The condition on the internal destination: with a rate, no identifier and no client
the daemon goes on into the environment, up to its first 0. -/
structure Internal.Fits (i : Internal) (environment : List UInt8) (clients : List Client) :
    Prop where
  optional : Passes i.rate i.tid
  environment : i.rate.text ≠ [] → i.tid.text = [] → clients = [] → 0x2c ∉ cText environment

structure Config.Fits (g : Config) (environment : List UInt8) : Prop where
  internal : g.internal.Fits environment g.clients
  clients : ∀ c ∈ g.clients, c.Fits

end Configured

section Texts

theorem plain_ne : ∀ b : UInt8, plain b = true → b ≠ 0x2c ∧ b ≠ 0 := by
  intro b h
  simp only [plain, Bool.not_eq_true', Bool.or_eq_false_iff, beq_eq_false_iff_ne] at h
  exact ⟨h.1.1.1.1.1.2, h.1.1.1.1.1.1⟩

theorem PlainText.noSeparator (t : PlainText) : NoSeparator t.text :=
  fun b hb => plain_ne b (t.all b hb)

theorem PlainText.ne_nul (t : PlainText) : ∀ b ∈ t.text, b ≠ 0 :=
  fun b hb => (t.noSeparator b hb).2

theorem Digits.noSeparator (t : Digits) : NoSeparator t.text := fun b hb =>
  (isDigit_not_space b (t.all b hb)).2.2.2

theorem NoSeparator.tail {b : UInt8} {text : List UInt8} (h : NoSeparator (b :: text)) :
    NoSeparator text := fun c hc => h c (List.mem_cons_of_mem b hc)

/-- A field that is not empty, up to the next comma. -/
theorem nextField_text {num : Nat} {text rest : List UInt8} {host : GpsHost}
    (h : NoSeparator text) (hne : text ≠ []) :
    nextField num (text ++ 0x2c :: rest) host =
      (hostField num (text ++ 0x2c :: rest) text.length host).bind (nextField (num + 1) rest) := by
  cases text with
  | nil => exact absurd rfl hne
  | cons c text =>
      rw [List.cons_append, nextField_comma h.tail, List.length_cons, Nat.add_comm 1]

/-- The last field, if it is not empty. -/
theorem nextField_last {num : Nat} {text rest : List UInt8} {host : GpsHost}
    (h : NoSeparator text) (hne : text ≠ []) :
    nextField num (text ++ 0 :: rest) host =
      (hostField num (text ++ 0 :: rest) text.length host).map fun host => (num + 1, host) := by
  cases text with
  | nil => exact absurd rfl hne
  | cons c text =>
      rw [List.cons_append, nextField_nul h.tail, List.length_cons, Nat.add_comm 1]

end Texts

section Rows

variable {rest : List UInt8} {len : Nat} {host : GpsHost}

theorem hostField_port (t : Digits) :
    hostField 1 (t.text ++ 0x2c :: rest) len host =
      (readNumber t.text).map fun n => { host with port := (n : Int) } := by
  rw [hostField, atoi_digits t.all (.inl rfl)]
  cases readNumber t.text <;> rfl

theorem hostField_protocol (tcp : Bool) :
    hostField 2 ((if tcp then ascii "tcp" else ascii "udp") ++ rest) len host =
      .ok { host with connection := if tcp then .tcp else .udp } := by
  cases tcp <;> rfl

theorem hostField_internal :
    hostField 2 (ascii "internal" ++ rest) len host = .ok { host with connection := .internal } :=
  rfl

theorem hostField_format (f : Format) :
    hostField 3 (f.text ++ rest) len host = .ok { host with output := f.output } := by
  cases f <;> rfl

theorem hostField_rate {c : UInt8} (t : Digits) (hc : c = 0x2c ∨ c = 0) :
    hostField 4 (t.text ++ c :: rest) len host =
      (readNumber t.text).map fun n => { host with rate := n } := by
  rw [hostField, atoi_digits t.all hc, readNumber]
  split
  next hlt => exact congrArg Except.ok (congrArg _ (toSize_of_lt hlt))
  · rfl

theorem hostField_tid (t : PlainText) :
    hostField 5 (t.text ++ 0 :: rest) len host =
      .ok { host with gpsID := strncpy host.gpsID t.text (5 - 1) } := by
  rw [hostField, strncpy_append_nul t.ne_nul]

theorem Format.text_ne (f : Format) : f.text ≠ [] := by
  cases f <;> decide

theorem Format.noSeparator (f : Format) : NoSeparator f.text := by
  cases f <;> decide

/-- The optional fields of a client with their commas. -/
def optionalFields (rate : Digits) (tid : PlainText) : List UInt8 :=
  if rate.text = [] then []
  else 0x2c :: (rate.text ++ if tid.text = [] then [] else 0x2c :: tid.text)

/-- The identifier that the script passes on. -/
def passedTid (rate : Digits) (tid : PlainText) : List UInt8 :=
  if rate.text = [] then [] else tid.text

/-- The rest of a client's row from the format on. -/
theorem nextField_client (f : Format) (rate : Digits) (tid : PlainText)
    (hrate : host.rate = 0) (hid : host.gpsID = GpsHost.initial.gpsID) :
    (nextField 3 (f.text ++ (optionalFields rate tid ++ 0 :: rest)) host).bind
        (fun (num, host) =>
          if num < 4 ∨ 6 < num then .error (.numberOfArguments num) else .ok host) =
      (readNumber rate.text).map fun n =>
        { host with output := f.output, rate := n,
                    gpsID := strncpy GpsHost.initial.gpsID (passedTid rate tid) (5 - 1) } := by
  by_cases hempty : rate.text = []
  · rw [optionalFields, if_pos hempty, List.nil_append,
      nextField_last f.noSeparator f.text_ne, hostField_format, passedTid, if_pos hempty, hempty]
    obtain ⟨ip, gpsID, port, connection, output, n⟩ := host
    subst hrate hid
    rfl
  · rw [optionalFields, if_neg hempty, List.cons_append, List.append_assoc,
      nextField_text f.noSeparator f.text_ne, hostField_format, passedTid, if_neg hempty]
    by_cases hnone : tid.text = []
    · rw [if_pos hnone, List.nil_append]
      simp only [Except.bind]
      rw [nextField_last rate.noSeparator hempty, hostField_rate rate (.inr rfl), hnone]
      cases readNumber rate.text with
      | error e => rfl
      | ok n =>
          obtain ⟨ip, gpsID, port, connection, output, n⟩ := host
          subst hid
          rfl
    · rw [if_neg hnone, List.cons_append]
      simp only [Except.bind]
      rw [nextField_text rate.noSeparator hempty, hostField_rate rate (.inl rfl)]
      cases readNumber rate.text with
      | error e => rfl
      | ok n =>
          simp only [Except.map, Except.bind]
          rw [nextField_last tid.noSeparator hnone, hostField_tid, hid]
          rfl

/-- The value of `-h` that the script writes for a client. -/
def Client.argument (c : Client) : List UInt8 :=
  clientInstance c.ip.text c.port.text (if c.tcp then ascii "tcp" else ascii "udp") c.format.text
    c.rate.text c.tid.text

theorem Client.argument_eq (c : Client) :
    c.argument = c.ip.text ++ 0x2c :: (c.port.text ++ 0x2c ::
      ((if c.tcp then ascii "tcp" else ascii "udp") ++ 0x2c ::
        (c.format.text ++ optionalFields c.rate c.tid))) := by
  rw [Client.argument, clientInstance, optionalFields]
  split
  · simp
  · split <;> simp

/-- The row of a client once its numbers are read. -/
def Client.row (c : Client) (port rate : Nat) : GpsHost where
  ip := strncpy GpsHost.initial.ip c.ip.text (ipLength c.ip.text)
  gpsID := strncpy GpsHost.initial.gpsID (passedTid c.rate c.tid) (5 - 1)
  port := port
  connection := if c.tcp then .tcp else .udp
  output := c.format.output
  rate := rate

/-- The option `-h` for a client. -/
theorem readHost_client (c : Client) :
    readHost (c.argument ++ 0 :: rest) .initial =
      (readNumber c.port.text).bind fun port =>
        (readNumber c.rate.text).map fun rate => c.row port rate := by
  have hprotocol : NoSeparator (if c.tcp then ascii "tcp" else ascii "udp") := by
    cases c.tcp <;> decide
  have hprotocol_ne : (if c.tcp then ascii "tcp" else ascii "udp") ≠ [] := by
    cases c.tcp <;> decide
  have hip (more : List UInt8) : hostField 0 (c.ip.text ++ more) (0 + c.ip.text.length) .initial =
      .ok { GpsHost.initial with
            ip := strncpy GpsHost.initial.ip c.ip.text (ipLength c.ip.text) } := by
    rw [hostField, Nat.zero_add, ← ipLength, strncpy_append_of_le c.ip.ne_nul (ipLength_le _)]
  rw [c.argument_eq]
  simp only [List.append_assoc, List.cons_append]
  rw [readHost, hostLoop_text c.ip.noSeparator, hostLoop_comma, hip]
  simp only [Except.bind]
  rw [nextField_text c.port.noSeparator c.port_ne, hostField_port]
  cases readNumber c.port.text with
  | error e => rfl
  | ok port =>
      simp only [Except.map, Except.bind]
      rw [nextField_text hprotocol hprotocol_ne, hostField_protocol]
      exact nextField_client c.format c.rate c.tid rfl rfl

/-- The value of `-h` that the script writes for the internal destination. -/
def Internal.argument (i : Internal) : List UInt8 :=
  internalInstance i.format.text i.rate.text i.tid.text

/-- The row of the internal destination once its rate is read. -/
def Internal.row (i : Internal) (rate : Nat) : GpsHost where
  ip := GpsHost.initial.ip
  gpsID := strncpy GpsHost.initial.gpsID (passedTid i.rate i.tid) (5 - 1)
  port := 0
  connection := .internal
  output := i.format.output
  rate := rate

/-- The first row of `hosts` before the options are read. -/
def firstRow : GpsHost := { GpsHost.initial with connection := .tcp }

/-- The fields before the rate: the address and the port are empty. -/
theorem hostLoop_internal (i : Internal) :
    hostLoop 0 (i.argument ++ 0 :: rest) 0 (i.argument ++ 0 :: rest) firstRow =
      nextField 4 (i.rate.text ++ 0x2c :: (i.tid.text ++ 0 :: rest))
        { i.row 0 with gpsID := GpsHost.initial.gpsID } := by
  have hargument : i.argument ++ 0 :: rest = 0x2c :: 0x2c :: 0x2c :: (ascii "internal" ++ 0x2c ::
      (i.format.text ++ 0x2c :: (i.rate.text ++ 0x2c :: (i.tid.text ++ 0 :: rest)))) := by
    rw [Internal.argument, internalInstance,
      show ascii ",,,internal," = 0x2c :: 0x2c :: 0x2c :: (ascii "internal" ++ [0x2c]) by decide]
    simp
  rw [hargument, hostLoop_comma]
  have hip (start : List UInt8) : hostField 0 start 0 firstRow = .ok firstRow := rfl
  rw [hip]
  simp only [Except.bind]
  -- the second comma is the character that is not looked at
  have hport (more : List UInt8) (host : GpsHost) :
      nextField 1 (0x2c :: 0x2c :: more) host = nextField 2 more { host with port := 0 } := by
    have hzero : atoi (0x2c :: 0x2c :: more) = .ok 0 :=
      @atoi_digits (0x2c :: more) [] 0x2c nofun (.inl rfl)
    rw [nextField, hostLoop_comma, hostField, hzero]
    rfl
  rw [hport, nextField_text (by decide) (by decide), hostField_internal]
  simp only [Except.bind]
  rw [nextField_text i.format.noSeparator i.format.text_ne, hostField_format]
  rfl

theorem cText_eq_append {memory : List UInt8} (h : 0 ∈ memory) :
    ∃ after, memory = cText memory ++ 0 :: after := by
  obtain ⟨text, after, rfl, htext⟩ := List.eq_append_cons_of_mem h
  exact ⟨after, by rw [cText_append fun b hb heq => htext (heq ▸ hb)]⟩

theorem cText_ne_nul {memory : List UInt8} : ∀ b ∈ cText memory, b ≠ 0 := by
  intro b hb
  simpa using List.mem_takeWhile_imp hb

/-- The text up to the first comma. -/
theorem exists_comma {text : List UInt8} (h : 0x2c ∈ text) (hnul : ∀ b ∈ text, b ≠ 0) :
    ∃ before after, text = before ++ 0x2c :: after ∧ NoSeparator before := by
  obtain ⟨before, after, rfl, hbefore⟩ := List.eq_append_cons_of_mem h
  exact ⟨before, after, rfl, fun b hb =>
    ⟨fun heq => hbefore (heq ▸ hb), hnul b (List.mem_append_left _ hb)⟩⟩

/-- An empty identifier after a rate: the daemon goes on after the end of the argument. -/
theorem nextField_emptyTid (hid : host.gpsID = GpsHost.initial.gpsID) (hnul : 0 ∈ rest)
    (hcomma : 0x2c ∉ cText rest) : nextField 5 (0 :: rest) host = .ok (6, host) := by
  obtain ⟨after, hafter⟩ := cText_eq_append hnul
  have htext : NoSeparator (cText rest) := fun b hb =>
    ⟨fun heq => hcomma (heq ▸ hb), cText_ne_nul b hb⟩
  rw [hafter, nextField_nul htext]
  obtain ⟨ip, gpsID, port, connection, output, n⟩ := host
  subst hid
  rfl

theorem nextField_emptyTid_comma {r : Nat × GpsHost} (hnul : 0 ∈ rest)
    (hcomma : 0x2c ∈ cText rest) : nextField 5 (0 :: rest) host ≠ .ok r := by
  obtain ⟨after, hafter⟩ := cText_eq_append hnul
  obtain ⟨before, more, hsplit, hbefore⟩ := exists_comma hcomma cText_ne_nul
  rw [hafter, hsplit, List.append_assoc, List.cons_append, nextField_comma hbefore]
  exact nextField_excess

/-- The option `-h` for the internal destination. -/
theorem readHost_internal (i : Internal) (hnul : 0 ∈ rest)
    (hcomma : i.rate.text ≠ [] → i.tid.text = [] → 0x2c ∉ cText rest) :
    readHost (i.argument ++ 0 :: rest) firstRow = (readNumber i.rate.text).map i.row := by
  rw [readHost, hostLoop_internal]
  by_cases hempty : i.rate.text = []
  · have hzero : atoi (0x2c :: (i.tid.text ++ 0 :: rest)) = .ok 0 :=
      @atoi_digits (i.tid.text ++ 0 :: rest) [] 0x2c nofun (.inl rfl)
    have hid : (i.row 0).gpsID = GpsHost.initial.gpsID := by
      rw [Internal.row, passedTid, if_pos hempty]
      rfl
    have hrate : readNumber [] = .ok 0 := readNumber_eq_ok.mpr ⟨by decide, rfl⟩
    have hsize : toSize 0 = 0 := @toSize_of_lt 0 (by decide)
    rw [hempty, List.nil_append, nextField_nul i.tid.noSeparator, hostField, hzero, hrate]
    simp only [Except.map, Except.bind, hsize]
    rw [← hid]
    rfl
  · rw [nextField_text i.rate.noSeparator hempty, hostField_rate i.rate (.inl rfl)]
    cases readNumber i.rate.text with
    | error e => rfl
    | ok n =>
        simp only [Except.map, Except.bind]
        by_cases hnone : i.tid.text = []
        · have hid : (i.row n).gpsID = GpsHost.initial.gpsID := by
            rw [Internal.row, passedTid, if_neg hempty, hnone]
            rfl
          have hend : nextField (4 + 1) (0 :: rest) (i.row n) = .ok (6, i.row n) :=
            nextField_emptyTid hid hnul (hcomma hempty hnone)
          have hrow : { i.row 0 with gpsID := GpsHost.initial.gpsID, rate := n } = i.row n := by
            rw [← hid]
            rfl
          rw [hnone, List.nil_append, hrow, hend]
          rfl
        · have hid : (i.row n).gpsID = strncpy GpsHost.initial.gpsID i.tid.text (5 - 1) := by
            rw [Internal.row, passedTid, if_neg hempty]
          rw [nextField_last i.tid.noSeparator hnone, hostField_tid, ← hid]
          rfl

theorem readHost_internal_comma (i : Internal) (hnul : 0 ∈ rest) (hrate : i.rate.text ≠ [])
    (htid : i.tid.text = []) (hcomma : 0x2c ∈ cText rest) :
    readHost (i.argument ++ 0 :: rest) firstRow ≠ .ok host := by
  rw [readHost, hostLoop_internal, nextField_text i.rate.noSeparator hrate,
    hostField_rate i.rate (.inl rfl)]
  cases readNumber i.rate.text with
  | error e => exact nofun
  | ok n =>
      simp only [Except.map, Except.bind]
      rw [htid, List.nil_append]
      cases hend : nextField 5 (0 :: rest) _ with
      | error e => exact nofun
      | ok r => exact absurd hend (nextField_emptyTid_comma hnul hcomma)

end Rows

section Exact

variable {rest : List UInt8}

theorem cString_passedTid (rate : Digits) (tid : PlainText) :
    cString (strncpy GpsHost.initial.gpsID (passedTid rate tid) (5 - 1)) = some tid.text ↔
      tid.text.length ≤ 4 ∧ (rate.text = [] → tid.text = []) := by
  have hnul : ∀ b ∈ passedTid rate tid, b ≠ 0 := by
    intro b hb
    rw [passedTid] at hb
    split at hb
    · exact nomatch hb
    · exact tid.ne_nul b hb
  rw [cString_gpsID hnul, Option.some.injEq, passedTid]
  split
  next hempty =>
    rw [List.take_nil]
    constructor
    · intro h
      rw [← h]
      exact ⟨by decide, fun _ => rfl⟩
    · exact fun h => (h.2 hempty).symm
  next hrate =>
    rw [List.take_eq_self_iff]
    exact ⟨fun h => ⟨h, fun hempty => absurd hempty hrate⟩, fun h => h.1⟩

/-- A client reaches its row unchanged. -/
theorem Client.holds_iff (c : Client) (rest : List UInt8) :
    (∃ host, readHost (c.argument ++ 0 :: rest) .initial = .ok host ∧ host.Holds c.destination) ↔
      c.Fits := by
  rw [readHost_client]
  constructor
  · rintro ⟨host, hread, hholds⟩
    cases hport : readNumber c.port.text with
    | error e =>
        rw [hport] at hread
        exact nomatch hread
    | ok port =>
        cases hrate : readNumber c.rate.text with
        | error e =>
            rw [hport, hrate] at hread
            exact nomatch hread
        | ok rate =>
            rw [hport, hrate] at hread
            obtain rfl := Except.ok.inj hread
            obtain ⟨htid, hafter⟩ := (cString_passedTid c.rate c.tid).mp hholds.gpsID
            exact ⟨⟨(readNumber_eq_ok.mp hrate).1, htid, hafter⟩,
              (cString_ip c.ip.ne_nul).mp hholds.ip, (readNumber_eq_ok.mp hport).1⟩
  · intro h
    rw [readNumber_eq_ok.mpr ⟨h.port_lt, rfl⟩, readNumber_eq_ok.mpr ⟨h.optional.rate_lt, rfl⟩]
    refine ⟨_, rfl, rfl, rfl, rfl, (cString_ip c.ip.ne_nul).mpr h.ip_le, rfl, ?_⟩
    exact (cString_passedTid c.rate c.tid).mpr ⟨h.optional.tid_le, h.optional.tid_after⟩

/-- The internal destination reaches its row unchanged. -/
theorem Internal.holds_iff (i : Internal) (hnul : 0 ∈ rest) :
    (∃ host, readHost (i.argument ++ 0 :: rest) firstRow = .ok host ∧
        host.Holds i.destination) ↔
      Passes i.rate i.tid ∧ (i.rate.text ≠ [] → i.tid.text = [] → 0x2c ∉ cText rest) := by
  constructor
  · rintro ⟨host, hread, hholds⟩
    have hcomma : i.rate.text ≠ [] → i.tid.text = [] → 0x2c ∉ cText rest :=
      fun hrate htid hmem => readHost_internal_comma i hnul hrate htid hmem hread
    rw [readHost_internal i hnul hcomma] at hread
    cases hrate : readNumber i.rate.text with
    | error e =>
        rw [hrate] at hread
        exact nomatch hread
    | ok rate =>
        rw [hrate] at hread
        obtain rfl := Except.ok.inj hread
        obtain ⟨htid, hafter⟩ := (cString_passedTid i.rate i.tid).mp hholds.gpsID
        exact ⟨⟨(readNumber_eq_ok.mp hrate).1, htid, hafter⟩, hcomma⟩
  · rintro ⟨h, hcomma⟩
    rw [readHost_internal i hnul hcomma, readNumber_eq_ok.mpr ⟨h.rate_lt, rfl⟩]
    refine ⟨_, rfl, rfl, rfl, rfl, rfl, rfl, ?_⟩
    exact (cString_passedTid i.rate i.tid).mpr ⟨h.tid_le, h.tid_after⟩

end Exact

section Table

variable {environment value : List UInt8} {more : List (List UInt8)} {o o' : Options}
  {cs : List Client}

def Options.addHost (o : Options) (host : GpsHost) : Options :=
  { o.setHost o.numHosts host with numHosts := o.numHosts + 1 }

@[simp] theorem addHost_numHosts (o : Options) (host : GpsHost) :
    (o.addHost host).numHosts = o.numHosts + 1 := rfl

theorem argvMemory_cons : argvMemory (value :: more) environment =
    value ++ 0 :: argvMemory more environment := by
  simp [argvMemory]

/-- One option `-h`. -/
theorem readOptions_host (hroom : o.numHosts < maxHosts) :
    readOptions environment (ascii "-h" :: value :: more) o =
      (readHost (value ++ 0 :: argvMemory more environment) (o.hosts o.numHosts)).bind fun host =>
        readOptions environment more (o.addHost host) := by
  rw [readOptions, if_neg (by decide), if_neg (by decide), if_neg (by decide)]
  simp only [readOption]
  rw [if_neg (by decide), if_neg (by decide), if_neg (by decide), if_neg (by decide),
    if_neg (by decide), if_neg (by decide), if_neg (by decide), if_neg (by decide), if_pos trivial,
    if_neg (Nat.not_le.mpr hroom), argvMemory_cons]
  cases readHost (value ++ 0 :: argvMemory more environment) (o.hosts o.numHosts) <;> rfl

/-- The arguments for the clients. -/
def clientWords (cs : List Client) : List (List UInt8) :=
  cs.flatMap fun c => [ascii "-h", c.argument]

/-- What the options of the clients leave as it was. -/
structure Appends (o o' : Options) (n : Nat) : Prop where
  numHosts : o'.numHosts = o.numHosts + n
  before : ∀ k, k < o.numHosts → o'.hosts k = o.hosts k
  device : o'.device = o.device
  serverPort : o'.serverPort = o.serverPort
  serverAddress : o'.serverAddress = o.serverAddress

theorem Appends.of_addHost {host : GpsHost} {n : Nat} (h : Appends (o.addHost host) o' n) :
    Appends o o' (n + 1) := by
  refine ⟨?_, fun k hk => ?_, h.device, h.serverPort, h.serverAddress⟩
  · rw [h.numHosts, addHost_numHosts]
    omega
  · rw [h.before k (by rw [addHost_numHosts]; omega)]
    exact Function.update_of_ne (by omega) _ _

theorem readOptions_appends (hroom : o.numHosts + cs.length ≤ maxHosts)
    (h : readOptions environment (clientWords cs) o = .ok o') : Appends o o' cs.length := by
  induction cs generalizing o with
  | nil =>
      obtain rfl := Except.ok.inj h
      exact ⟨rfl, fun _ _ => rfl, rfl, rfl, rfl⟩
  | cons c cs ih =>
      rw [List.length_cons] at hroom
      change readOptions environment (ascii "-h" :: c.argument :: clientWords cs) o = .ok o' at h
      rw [readOptions_host (by omega)] at h
      cases hread : readHost (c.argument ++ 0 :: argvMemory (clientWords cs) environment)
          (o.hosts o.numHosts) with
      | error e =>
          rw [hread] at h
          exact nomatch h
      | ok host =>
          rw [hread] at h
          exact (ih (by rw [addHost_numHosts]; omega) h).of_addHost

/-- The rows of the clients hold what is configured, from the next free row on. -/
def RowsHold (o o' : Options) (ds : List Destination) : Prop :=
  ∀ k d, ds[k]? = some d → (o'.hosts (o.numHosts + k)).Holds d

theorem rowsHold_cons (host : GpsHost) {d : Destination} {ds : List Destination} :
    RowsHold o o' (d :: ds) ↔ (o'.hosts o.numHosts).Holds d ∧ RowsHold (o.addHost host) o' ds := by
  have hshift (k : Nat) : (o.addHost host).numHosts + k = o.numHosts + (k + 1) := by
    rw [addHost_numHosts]
    omega
  constructor
  · intro h
    refine ⟨h 0 d rfl, fun k d' hk => ?_⟩
    rw [hshift]
    exact h (k + 1) d' hk
  · rintro ⟨hfirst, hrest⟩ k d' hk
    cases k with
    | zero =>
        obtain rfl := Option.some.inj hk
        exact hfirst
    | succ k =>
        rw [← hshift]
        exact hrest k d' hk

/-- All clients reach the table unchanged. -/
theorem readOptions_clients (hroom : o.numHosts + cs.length ≤ maxHosts)
    (hfresh : ∀ k, o.numHosts ≤ k → o.hosts k = .initial) :
    (∃ o', readOptions environment (clientWords cs) o = .ok o' ∧
        RowsHold o o' (cs.map Client.destination)) ↔ ∀ c ∈ cs, c.Fits := by
  induction cs generalizing o with
  | nil => exact ⟨fun _ => nofun, fun _ => ⟨o, rfl, nofun⟩⟩
  | cons c cs ih =>
      rw [List.length_cons] at hroom
      have hread (host : GpsHost) := ih (o := o.addHost host)
        (by rw [addHost_numHosts]; omega) fun k hk => by
          rw [addHost_numHosts] at hk
          exact (Function.update_of_ne (by omega) _ _).trans (hfresh k (by omega))
      have hrow (host : GpsHost) (o' : Options)
          (h : readOptions environment (clientWords cs) (o.addHost host) = .ok o') :
          o'.hosts o.numHosts = host := by
        have happends := readOptions_appends (by rw [addHost_numHosts]; omega) h
        rw [happends.before _ (Nat.lt_succ_self _)]
        exact Function.update_self _ _ _
      have hstep : readOptions environment (clientWords (c :: cs)) o =
          (readHost (c.argument ++ 0 :: argvMemory (clientWords cs) environment) .initial).bind
            fun host => readOptions environment (clientWords cs) (o.addHost host) := by
        rw [← hfresh o.numHosts (Nat.le_refl _)]
        exact readOptions_host (by omega)
      rw [hstep, List.map_cons, List.forall_mem_cons,
        ← c.holds_iff (argvMemory (clientWords cs) environment)]
      constructor
      · rintro ⟨o', hok, hrows⟩
        cases hhost : readHost (c.argument ++ 0 :: argvMemory (clientWords cs) environment)
            .initial with
        | error e =>
            rw [hhost] at hok
            exact nomatch hok
        | ok host =>
            rw [hhost] at hok
            obtain ⟨hfirst, hrest⟩ := (rowsHold_cons host).mp hrows
            refine ⟨⟨host, rfl, ?_⟩, (hread host).mp ⟨o', hok, hrest⟩⟩
            rw [← hrow host o' hok]
            exact hfirst
      · rintro ⟨⟨host, hhost, hholds⟩, hfits⟩
        obtain ⟨o', hok, hrest⟩ := (hread host).mpr hfits
        refine ⟨o', ?_, (rowsHold_cons host).mpr ⟨?_, hrest⟩⟩
        · rw [hhost]
          exact hok
        · rw [hrow host o' hok]
          exact hholds

end Table

section Service

variable {environment : List UInt8}

theorem clientArgs_options (cs : List Client) :
    clientArgs (cs.map Client.options) = clientWords cs := by
  induction cs with
  | nil => rfl
  | cons c cs ih =>
      have hset : ¬ (c.options.client = [] ∨ c.options.port = []) :=
        not_or.mpr ⟨c.ip_ne, c.port_ne⟩
      have hformat : ¬ c.options.format = [] := c.format.text_ne
      have hcons : clientWords (c :: cs) = ascii "-h" :: c.argument :: clientWords cs := rfl
      rw [List.map_cons, clientArgs, if_neg hset, ih, hcons, Client.argument]
      cases htcp : c.tcp with
      | true =>
          have htrue : c.options.tcp = ascii "true" := by rw [Client.options, htcp, if_pos rfl]
          rw [if_pos htrue, if_neg hformat]
          rfl
      | false =>
          have hfalse : c.options.tcp = ascii "false" := by
            rw [Client.options, htcp]
            rfl
          rw [hfalse, if_neg (by decide), if_pos rfl, if_neg hformat]
          rfl

def Server.words (s : Server) : List (List UInt8) :=
  [ascii "-sa", s.address.text, ascii "-sp", s.port.text]

/-- The arguments that the script builds. -/
def Config.words (g : Config) : List (List UInt8) :=
  ascii "-d" :: ascii "/dev/ttyS1" :: ((g.server.map Server.words).getD [] ++
    (ascii "-h" :: g.internal.argument :: clientWords g.clients))

theorem Config.words_ne (g : Config) : ∀ w ∈ g.words, w ≠ [] := by
  have hclient (c : Client) : c.argument ≠ [] := by
    rw [c.argument_eq]
    exact List.append_ne_nil_of_right_ne_nil _ (List.cons_ne_nil _ _)
  have hinternal : g.internal.argument ≠ [] := by
    rw [Internal.argument, internalInstance]
    exact List.append_ne_nil_of_right_ne_nil _ (List.cons_ne_nil _ _)
  have hdash : ascii "-h" ≠ [] := by decide
  have hclients : ∀ w ∈ clientWords g.clients, w ≠ [] := by
    intro w hw
    obtain ⟨c, -, hc⟩ := List.mem_flatMap.mp hw
    rcases List.mem_pair.mp hc with rfl | rfl
    · exact hdash
    · exact hclient c
  have hserver : ∀ w ∈ (g.server.map Server.words).getD [], w ≠ [] := by
    cases g.server with
    | none => exact nofun
    | some s =>
        simp only [Option.map_some, Option.getD_some, Server.words, List.forall_mem_cons]
        exact ⟨by decide, s.address_ne, by decide, s.port_ne, nofun⟩
  simp only [Config.words, List.forall_mem_cons, List.forall_mem_append]
  exact ⟨by decide, by decide, hserver, hdash, hinternal, hclients⟩

theorem startService_uci (g : Config) : startService g.uci = some g.words := by
  have hformat : g.uci.internalFormat = ascii "nmea" ∨ g.uci.internalFormat = ascii "taip" := by
    cases hf : g.internal.format with
    | nmea => exact .inl (congrArg Format.text hf)
    | taip => exact .inr (congrArg Format.text hf)
  have hserver : (if g.uci.serverPort = [] then []
      else [ascii "-sa", g.uci.lanAddress, ascii "-sp", g.uci.serverPort]) =
      (g.server.map Server.words).getD [] := by
    cases hs : g.server with
    | none => rw [if_pos (by rw [Config.uci, hs]; rfl)]; rfl
    | some s =>
        have hport : g.uci.serverPort = s.port.text := by rw [Config.uci, hs]; rfl
        have haddress : g.uci.lanAddress = s.address.text := by rw [Config.uci, hs]; rfl
        rw [hport, haddress, if_neg s.port_ne]
        rfl
  have hclients : clientArgs g.uci.gpsd = clientWords g.clients := clientArgs_options g.clients
  rw [startService]
  simp only [hserver, hclients, if_pos hformat]
  rw [if_neg]
  · have hwords : ascii "-d" :: ascii "/dev/ttyS1" :: ((g.server.map Server.words).getD [] ++
        [ascii "-h", internalInstance g.uci.internalFormat g.uci.internalRate g.uci.internalTid] ++
        clientWords g.clients) = g.words := by
      rw [Config.words, List.append_assoc]
      rfl
    rw [hwords, List.filter_eq_self.mpr]
    intro w hw
    simpa using g.words_ne w hw
  · simp

/-- The settings before the first `-h`. -/
structure Prepared (o : Options) : Prop where
  hosts : o.hosts = Options.initial.hosts
  numHosts : o.numHosts = 0
  device : o.device ≠ none
  server : o.serverPort ≠ 0 → o.serverAddress ≠ none

section Server

variable {value : List UInt8} {more : List (List UInt8)} {o : Options}

theorem readOption_device :
    readOption environment (ascii "-d") value more o = .ok { o with device := some value } := by
  rw [readOption, if_neg (by decide), if_neg (by decide), if_pos rfl]

theorem readOption_serverAddress :
    readOption environment (ascii "-sa") value more o =
      .ok { o with serverAddress := some value } := by
  rw [readOption, if_neg (by decide), if_pos rfl]

theorem readOption_serverPort (s : Server) :
    readOption environment (ascii "-sp") s.port.text more o =
      .ok { o with serverPort := decimal s.port.text } := by
  have hlt := s.port_lt
  have hread := atoi_value s.port.all s.port_ne (by omega)
  have hword : ((decimal s.port.text : Int) % 2 ^ 16).toNat = decimal s.port.text := by omega
  rw [readOption, if_pos rfl, hread, Except.map, hword]

theorem readOptions_value {name : List UInt8}
    (h : name ≠ ascii "-t" ∧ name ≠ ascii "-dummy" ∧ name ≠ ascii "-u") :
    readOptions environment (name :: value :: more) o =
      (readOption environment name value more o).bind fun o => readOptions environment more o := by
  rw [readOptions, if_neg h.1, if_neg h.2.1, if_neg h.2.2]

end Server

theorem readOptions_words (environment : List UInt8) (g : Config) : ∃ o, Prepared o ∧
    readOptions environment g.words .initial =
      readOptions environment (ascii "-h" :: g.internal.argument :: clientWords g.clients) o := by
  rw [Config.words, readOptions_value (by decide), readOption_device]
  simp only [Except.bind]
  cases g.server with
  | none =>
      refine ⟨{ Options.initial with device := some (ascii "/dev/ttyS1") }, ?_, rfl⟩
      exact ⟨rfl, rfl, nofun, fun h => absurd rfl h⟩
  | some s =>
      simp only [Option.map_some, Option.getD_some, Server.words, List.cons_append, List.nil_append]
      rw [readOptions_value (by decide), readOption_serverAddress]
      simp only [Except.bind]
      rw [readOptions_value (by decide), readOption_serverPort]
      simp only [Except.bind]
      refine ⟨{ Options.initial with
        device := some (ascii "/dev/ttyS1")
        serverAddress := some s.address.text
        serverPort := decimal s.port.text }, ?_, rfl⟩
      exact ⟨rfl, rfl, nofun, fun _ => nofun⟩

theorem Prepared.check {o o' : Options} {n : Nat} (h : Prepared o)
    (happends : Appends o o' (n + 1)) :
    checkOptions o' = .ok o' := by
  have hcount : o'.numHosts = n + 1 := by
    rw [happends.numHosts, h.numHosts, Nat.zero_add]
  have hlegacy : ¬ (cText (o'.hosts 0).ip ≠ [] ∧ o'.numHosts = 0) := by
    rintro ⟨-, hzero⟩
    omega
  rw [checkOptions]
  simp only [if_neg hlegacy]
  rw [if_neg, if_neg]
  · rintro ⟨hport, haddress⟩
    rw [happends.serverPort] at hport
    rw [happends.serverAddress] at haddress
    exact h.server hport haddress
  · rintro (⟨hdevice, -⟩ | ⟨hzero, -⟩)
    · rw [happends.device] at hdevice
      exact h.device hdevice
    · omega

/-- The memory after the argument of the internal destination. -/
theorem cText_clientWords (cs : List Client) :
    0x2c ∉ cText (argvMemory (clientWords cs) environment) ↔
      (cs = [] → 0x2c ∉ cText environment) := by
  cases cs with
  | nil => exact ⟨fun h _ => h, fun h => h rfl⟩
  | cons c cs =>
      have hwords : clientWords (c :: cs) = ascii "-h" :: c.argument :: clientWords cs := rfl
      have hdash : NoSeparator (ascii "-h") := by decide
      rw [hwords, argvMemory_cons, cText_append fun b hb => (hdash b hb).2]
      exact ⟨fun _ => nofun, fun _ => by decide⟩

theorem Prepared.room {o : Options} (h : Prepared o) (g : Config) (host : GpsHost) :
    (o.addHost host).numHosts + g.clients.length ≤ maxHosts := by
  have := g.few
  rw [addHost_numHosts, h.numHosts, maxHosts]
  omega

/-- The rows after the first one are still as they were set up. -/
theorem Prepared.fresh {o : Options} (h : Prepared o) (host : GpsHost) (k : Nat)
    (hk : (o.addHost host).numHosts ≤ k) : (o.addHost host).hosts k = .initial := by
  rw [addHost_numHosts, h.numHosts] at hk
  have hother : (o.addHost host).hosts k = o.hosts k :=
    Function.update_of_ne (by rw [h.numHosts]; omega) _ _
  have hne : k ≠ 0 := by omega
  rw [hother, h.hosts]
  exact Function.update_of_ne hne firstRow fun _ => GpsHost.initial

/-- The settings come from the internal destination and then the clients. -/
theorem speedgpsd_eq_ok (environment : List UInt8) (g : Config) : ∃ o₁, Prepared o₁ ∧
    ∀ o, speedgpsd environment g.words = .ok o ↔
      ∃ host, readHost (g.internal.argument ++
          0 :: argvMemory (clientWords g.clients) environment) firstRow = .ok host ∧
        readOptions environment (clientWords g.clients) (o₁.addHost host) = .ok o := by
  obtain ⟨o₁, hprepared, hwords⟩ := readOptions_words environment g
  have hroom : o₁.numHosts < maxHosts := by
    rw [hprepared.numHosts]
    decide
  have hfirst : o₁.hosts o₁.numHosts = firstRow := by
    rw [hprepared.hosts, hprepared.numHosts]
    rfl
  rw [readOptions_host hroom, hfirst] at hwords
  refine ⟨o₁, hprepared, fun o => ?_⟩
  rw [speedgpsd, hwords]
  cases readHost (g.internal.argument ++ 0 :: argvMemory (clientWords g.clients) environment)
      firstRow with
  | error e => exact ⟨nofun, fun ⟨_, h, _⟩ => nomatch h⟩
  | ok host =>
      simp only [Except.bind, Except.ok.injEq, exists_eq_left']
      cases hread : readOptions environment (clientWords g.clients) (o₁.addHost host) with
      | error e => exact ⟨nofun, nofun⟩
      | ok o' =>
          have happends := readOptions_appends (hprepared.room g host) hread
          simp only [hprepared.check happends.of_addHost]

/-- The configuration reaches the table of the daemon unchanged exactly when every
identifier follows a rate and has at most four characters, every address has at most 31
characters, the numbers are an `int`, and an empty identifier after the internal rate is
not the end of the arguments in front of a comma. -/
theorem configuration_reaches_hosts {environment : List UInt8} (g : Config)
    (hnul : 0 ∈ environment) :
    (∃ argv o, startService g.uci = some argv ∧ speedgpsd environment argv = .ok o ∧
        o.numHosts = g.destinations.length ∧
        ∀ k d, g.destinations[k]? = some d → (o.hosts k).Holds d) ↔
      g.Fits environment := by
  obtain ⟨o₁, hprepared, hsettings⟩ := speedgpsd_eq_ok environment g
  have hmemory : 0 ∈ argvMemory (clientWords g.clients) environment := by
    rw [argvMemory, List.mem_append]
    exact .inr hnul
  have hrows (o : Options) : RowsHold o₁ o g.destinations ↔
      ∀ k d, g.destinations[k]? = some d → (o.hosts k).Holds d := by
    simp only [RowsHold, hprepared.numHosts, Nat.zero_add]
  have hinternal := g.internal.holds_iff hmemory
  simp only [cText_clientWords] at hinternal
  have hfirst {host : GpsHost} {o : Options}
      (h : readOptions environment (clientWords g.clients) (o₁.addHost host) = .ok o) :
      o.hosts o₁.numHosts = host ∧ o.numHosts = g.destinations.length := by
    have happends := readOptions_appends (hprepared.room g host) h
    constructor
    · rw [happends.before _ (Nat.lt_succ_self _)]
      exact Function.update_self _ _ _
    · rw [happends.of_addHost.numHosts, hprepared.numHosts, Config.destinations, List.length_cons,
        List.length_map, Nat.zero_add]
  constructor
  · rintro ⟨argv, o, hargv, hok, -, hhold⟩
    rw [startService_uci] at hargv
    obtain rfl := Option.some.inj hargv
    obtain ⟨host, hread, hrest⟩ := (hsettings o).mp hok
    obtain ⟨hrow, hclients⟩ := (rowsHold_cons host).mp ((hrows o).mpr hhold)
    rw [(hfirst hrest).1] at hrow
    obtain ⟨hpasses, hcomma⟩ := hinternal.mp ⟨host, hread, hrow⟩
    exact ⟨⟨hpasses, hcomma⟩,
      (readOptions_clients (hprepared.room g host) (hprepared.fresh host)).mp ⟨o, hrest, hclients⟩⟩
  · intro h
    obtain ⟨host, hread, hholds⟩ :=
      hinternal.mpr ⟨h.internal.optional, h.internal.environment⟩
    obtain ⟨o, hrest, hclients⟩ :=
      (readOptions_clients (hprepared.room g host) (hprepared.fresh host)).mpr h.clients
    obtain ⟨hrow, hcount⟩ := hfirst hrest
    refine ⟨g.words, o, startService_uci g, (hsettings o).mpr ⟨host, hread, hrest⟩, hcount, ?_⟩
    rw [← hrows, Config.destinations, rowsHold_cons host, hrow]
    exact ⟨hholds, hclients⟩

/-- The internal destination and one client, both with a rate and an identifier. -/
def reporting : Config where
  server := none
  internal :=
    ⟨.nmea, ⟨ascii "10", List.all_eq_true.mp rfl⟩, ⟨ascii "0001", List.all_eq_true.mp rfl⟩⟩
  clients := [{
    ip := ⟨ascii "192.168.1.20", List.all_eq_true.mp rfl⟩
    ip_ne := by decide
    port := ⟨ascii "6000", List.all_eq_true.mp rfl⟩
    port_ne := by decide
    tcp := false
    format := .taip
    rate := ⟨ascii "5", List.all_eq_true.mp rfl⟩
    tid := ⟨ascii "17", List.all_eq_true.mp rfl⟩ }]
  few := by decide

theorem configuration_reaches_hosts_reporting :
    ∃ argv o, startService reporting.uci = some argv ∧ speedgpsd [0] argv = .ok o ∧
      o.numHosts = reporting.destinations.length ∧
      ∀ k d, reporting.destinations[k]? = some d → (o.hosts k).Holds d := by
  rw [configuration_reaches_hosts reporting (by decide)]
  refine ⟨⟨⟨by decide, by decide, by decide⟩, fun _ _ => nofun⟩, ?_⟩
  rintro c (_ | ⟨_, ⟨⟩⟩)
  exact ⟨⟨by decide, by decide, by decide⟩, by decide, by decide⟩

/-- An identifier without a rate. -/
def unrated : Config where
  server := none
  internal := ⟨.nmea, ⟨[], nofun⟩, ⟨ascii "1234", List.all_eq_true.mp rfl⟩⟩
  clients := []
  few := by decide

/-- The identifier is read as the second part of the rate and is lost. -/
theorem configured_tid_lost :
    unrated.internal.tid.text = ascii "1234" ∧
      ∃ argv o, startService unrated.uci = some argv ∧ speedgpsd [0] argv = .ok o ∧
        o.numHosts = 1 ∧ cString (o.hosts 0).gpsID = some [] := by
  obtain ⟨o₁, hprepared, hsettings⟩ := speedgpsd_eq_ok [0] unrated
  have hread : readHost (unrated.internal.argument ++ 0 :: argvMemory (clientWords []) [0])
      firstRow = .ok (unrated.internal.row 0) :=
    readHost_internal unrated.internal (by decide) fun h => absurd rfl h
  refine ⟨rfl, unrated.words, o₁.addHost (unrated.internal.row 0), startService_uci unrated,
    (hsettings _).mpr ⟨_, hread, rfl⟩, ?_, ?_⟩
  · rw [addHost_numHosts, hprepared.numHosts]
  · rw [← hprepared.numHosts]
    exact (congrArg (fun host : GpsHost => cString host.gpsID)
      (Function.update_self _ _ _)).trans rfl

end Service

end Speedway.Gps
