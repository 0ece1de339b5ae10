import Mathlib.Tactic

/-!
# The arguments of the GPS daemon

The init script writes each destination as a text of fields with commas between
them; the `-h` option of the daemon reads such a text into a row of `hosts`. The
arguments of a process lie in memory one after the other, each with a 0 at its
end, and the environment follows them.
-/

namespace Speedway.Gps

def ascii (s : String) : List UInt8 := s.toList.map fun c => UInt8.ofNat c.toNat

inductive GpsConnection where
  | disabled
  | internal
  | tcp
  | udp
  deriving DecidableEq

inductive GpsOutput where
  | disabled
  | nmea
  | taip
  deriving DecidableEq

/-- The members of a host that the options set; `ip` and `gpsID` are arrays. -/
structure GpsHost where
  ip : List UInt8
  gpsID : List UInt8
  port : Int
  connection : GpsConnection
  output : GpsOutput
  rate : Nat
  deriving DecidableEq

def maxHosts : Nat := 16

/-- The reasons to end with the usage text, or behaviour that C does not define. -/
inductive OptionError where
  | invalidProtocol (start : List UInt8)
  | invalidFormat (start : List UInt8)
  | excessArguments (start : List UInt8)
  | numberOfArguments (num : Nat)
  | outputFormatUnspecified
  | settingsParsing
  | moreThanTwoArguments
  | noProperSettings
  | noServerAddress
  | undefined
  deriving DecidableEq

section Library

/-- The text at a pointer. -/
def cText (start : List UInt8) : List UInt8 := start.takeWhile (· != 0)

/-- The text in an array, if it is terminated there. -/
def cString (array : List UInt8) : Option (List UInt8) :=
  if 0 ∈ array then some (cText array) else none

/-- `strncpy`. -/
def strncpy (dst src : List UInt8) (n : Nat) : List UInt8 :=
  let text := (cText src).take n
  text ++ List.replicate (n - text.length) 0 ++ dst.drop n

def isDigit (b : UInt8) : Bool := 0x30 ≤ b && b ≤ 0x39

def isSpace (b : UInt8) : Bool := b == 0x20 || (0x09 ≤ b && b ≤ 0x0d)

/-- The number that digits stand for. -/
def decimal (digits : List UInt8) : Nat := digits.foldl (fun n b => 10 * n + (b.toNat - 0x30)) 0

def fitsInt (n : Int) : Bool := -(2 ^ 31) ≤ n && n < 2 ^ 31

/-- `atoi`; a number that is no `int` has no defined result. -/
def atoi (start : List UInt8) : Except OptionError Int :=
  let number := match start.dropWhile isSpace with
    | 0x2d :: digits => -(decimal (digits.takeWhile isDigit) : Int)
    | 0x2b :: digits => decimal (digits.takeWhile isDigit)
    | digits => decimal (digits.takeWhile isDigit)
  if fitsInt number then .ok number else .error .undefined

/-- An `int` as a `size_t` of 64 bits. -/
def toSize (n : Int) : Nat := (n % 2 ^ 64).toNat

end Library

section Host

/-- Field `num` of the value of `-h`, from `start` on and of length `len`. -/
def hostField (num : Nat) (start : List UInt8) (len : Nat) (host : GpsHost) :
    Except OptionError GpsHost :=
  match num with
  | 0 => .ok { host with ip := strncpy host.ip start (if 32 < len then 32 - 1 else len) }
  | 1 => (atoi start).map fun port => { host with port }
  | 2 =>
      if start.take 3 = ascii "tcp" then .ok { host with connection := .tcp }
      else if start.take 3 = ascii "udp" then .ok { host with connection := .udp }
      else if start.take 8 = ascii "internal" then .ok { host with connection := .internal }
      else .error (.invalidProtocol (cText start))
  | 3 =>
      if start.take 4 = ascii "nmea" then .ok { host with output := .nmea }
      else if start.take 4 = ascii "taip" then .ok { host with output := .taip }
      else .error (.invalidFormat (cText start))
  | 4 => (atoi start).map fun rate => { host with rate := toSize rate }
  | 5 => .ok { host with gpsID := strncpy host.gpsID start (5 - 1) }
  | _ => .error (.excessArguments (cText start))

/-- The loop of `-h` over the memory from `argv[2] + offset` on, with `len` characters
since `start`. After a comma the offset is advanced twice. -/
def hostLoop (num : Nat) (start : List UInt8) (len : Nat) :
    List UInt8 → GpsHost → Except OptionError (Nat × GpsHost)
  | [], _ => .error .undefined
  | c :: rest, host =>
      if c = 0x2c ∨ c = 0 then
        (hostField num start len host).bind fun host =>
          if c = 0 then .ok (num + 1, host)
          else match rest with
            | [] => .error .undefined
            | _ :: rest' => hostLoop (num + 1) rest 1 rest' host
      else hostLoop num start (len + 1) rest host

/-- The option `-h` with the memory from `argv[2]` on. -/
def readHost (memory : List UInt8) (host : GpsHost) : Except OptionError GpsHost :=
  (hostLoop 0 memory 0 memory host).bind fun (num, host) =>
    if num < 4 ∨ 6 < num then .error (.numberOfArguments num) else .ok host

end Host

section Main

/-- What `main` takes from its arguments. -/
structure Options where
  testing : Bool
  dummy : Bool
  device : Option (List UInt8)
  serverPort : Nat
  serverAddress : Option (List UInt8)
  hosts : Nat → GpsHost
  numHosts : Nat

/-- A row of `hosts` before the options are read. -/
def GpsHost.initial : GpsHost where
  ip := List.replicate 32 0
  gpsID := List.replicate 5 0
  port := 5555
  connection := .disabled
  output := .disabled
  rate := 0

def Options.initial : Options where
  testing := false
  dummy := false
  device := none
  serverPort := 0
  serverAddress := none
  hosts := Function.update (fun _ => .initial) 0 { GpsHost.initial with connection := .tcp }
  numHosts := 0

def Options.setHost (o : Options) (k : Nat) (host : GpsHost) : Options :=
  { o with hosts := Function.update o.hosts k host }

/-- The arguments as they lie in memory. -/
def argvMemory (argv : List (List UInt8)) (environment : List UInt8) : List UInt8 :=
  argv.flatMap (· ++ [0]) ++ environment

/-- An option with a value; `more` are the arguments after the value. -/
def readOption (environment name value : List UInt8) (more : List (List UInt8)) (o : Options) :
    Except OptionError Options :=
  if name = ascii "-sp" then
    (atoi value).map fun port => { o with serverPort := (port % 2 ^ 16).toNat }
  else if name = ascii "-sa" then .ok { o with serverAddress := some value }
  else if name = ascii "-d" then .ok { o with device := some value }
  else if name = ascii "-p" then
    (atoi value).map fun port => o.setHost 0 { o.hosts 0 with port }
  else if name = ascii "-c" then
    .ok (o.setHost 0 { o.hosts 0 with ip := strncpy (o.hosts 0).ip value (32 - 1) })
  else if name = ascii "-r" then
    (atoi value).map fun rate => o.setHost 0 { o.hosts 0 with rate := toSize rate }
  else if name = ascii "-tid" ∨ name = ascii "-id" then
    .ok (o.setHost 0 { o.hosts 0 with gpsID := strncpy (o.hosts 0).gpsID value (5 - 1) })
  else if name = ascii "-f" then
    if value = ascii "nmea" then .ok (o.setHost 0 { o.hosts 0 with output := .nmea })
    else if value = ascii "taip" then .ok (o.setHost 0 { o.hosts 0 with output := .taip })
    else .error .outputFormatUnspecified
  else if name = ascii "-h" then
    -- a write after the last row of the table
    if maxHosts ≤ o.numHosts then .error .undefined
    else (readHost (argvMemory (value :: more) environment) (o.hosts o.numHosts)).map fun host =>
      { o.setHost o.numHosts host with numHosts := o.numHosts + 1 }
  else .error .settingsParsing

/-- The loop of `main` over the arguments after the name of the program. -/
def readOptions (environment : List UInt8) :
    List (List UInt8) → Options → Except OptionError Options
  | [], o => .ok o
  | name :: rest, o =>
      if name = ascii "-t" then readOptions environment rest { o with testing := true }
      else if name = ascii "-dummy" then readOptions environment rest { o with dummy := true }
      else if name = ascii "-u" then
        readOptions environment rest (o.setHost 0 { o.hosts 0 with connection := .udp })
      else match rest with
        | [] => .error .moreThanTwoArguments
        | value :: more =>
            (readOption environment name value more o).bind fun o => readOptions environment more o

/-- The checks after the loop. -/
def checkOptions (o : Options) : Except OptionError Options :=
  let numHosts := if cText (o.hosts 0).ip ≠ [] ∧ o.numHosts = 0 then 1 else o.numHosts
  if (o.device = none ∧ o.dummy = false) ∨ (numHosts = 0 ∧ o.serverPort = 0) then
    .error .noProperSettings
  else if o.serverPort ≠ 0 ∧ o.serverAddress = none then .error .noServerAddress
  else .ok { o with numHosts }

/-- The settings of the daemon for some arguments. -/
def speedgpsd (environment : List UInt8) (argv : List (List UInt8)) : Except OptionError Options :=
  (readOptions environment argv .initial).bind checkOptions

end Main

section Script

/-- A section `gpsd` of the configuration; an option that is not set is empty. -/
structure GpsdSection where
  client : List UInt8
  port : List UInt8
  tcp : List UInt8
  format : List UInt8
  rate : List UInt8
  tid : List UInt8

/-- What the script reads with `uci get`. -/
structure UciConfig where
  serverPort : List UInt8
  lanAddress : List UInt8
  internalFormat : List UInt8
  internalRate : List UInt8
  internalTid : List UInt8
  gpsd : List GpsdSection

/-- The value of `-h` for the internal destination. -/
def internalInstance (format rate tid : List UInt8) : List UInt8 :=
  ascii ",,,internal," ++ format ++ 0x2c :: rate ++ 0x2c :: tid

/-- The value of `-h` for a client. -/
def clientInstance (client port tcp format rate tid : List UInt8) : List UInt8 :=
  let fields := client ++ 0x2c :: port ++ 0x2c :: tcp ++ 0x2c :: format
  if rate = [] then fields
  else if tid = [] then fields ++ 0x2c :: rate
  else fields ++ 0x2c :: rate ++ 0x2c :: tid

/-- The loop over the sections. -/
def clientArgs : List GpsdSection → List (List UInt8)
  | [] => []
  | s :: rest =>
      if s.client = [] ∨ s.port = [] then []
      else if s.tcp = ascii "true" then
        if s.format = [] then []
        else ascii "-h" :: clientInstance s.client s.port (ascii "tcp") s.format s.rate s.tid ::
          clientArgs rest
      else if s.tcp = ascii "false" then
        if s.format = [] then []
        else ascii "-h" :: clientInstance s.client s.port (ascii "udp") s.format s.rate s.tid ::
          clientArgs rest
      else []

/-- `start_service`: the arguments after the name of the program, or nothing is
started. The shell splits them at blanks, so an empty one is dropped. -/
def startService (u : UciConfig) : Option (List (List UInt8)) :=
  let server := if u.serverPort = [] then []
    else [ascii "-sa", u.lanAddress, ascii "-sp", u.serverPort]
  let internal := if u.internalFormat = ascii "nmea" ∨ u.internalFormat = ascii "taip" then
    [ascii "-h", internalInstance u.internalFormat u.internalRate u.internalTid] else []
  let arg := server ++ internal ++ clientArgs u.gpsd
  if arg = [] then none
  else some ((ascii "-d" :: ascii "/dev/ttyS1" :: arg).filter (· ≠ []))

end Script

end Speedway.Gps
