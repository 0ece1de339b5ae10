import Mathlib.Data.Nat.Bitwise
import Mathlib.Tactic

/-!
# Address ranges

`ipcalc.sh` works out the network of an address and the range of addresses that a DHCP
server may hand out. The numbers of awk are natural numbers here, its bit operations
those of 32 bits.
-/

namespace Speedway.Net

section Awk

def and32 (a b : Nat) : Nat := (a % 2 ^ 32) &&& (b % 2 ^ 32)

def or32 (a b : Nat) : Nat := (a % 2 ^ 32) ||| (b % 2 ^ 32)

def xor32 (a b : Nat) : Nat := (a % 2 ^ 32) ^^^ (b % 2 ^ 32)

def lshift (a n : Nat) : Nat := (a <<< n) % 2 ^ 32

def rshift (a n : Nat) : Nat := (a % 2 ^ 32) >>> n

end Awk

section Script

def bitcount (c : Nat) : Nat :=
  let c := and32 (rshift c 1) 0x55555555 + and32 c 0x55555555
  let c := and32 (rshift c 2) 0x33333333 + and32 c 0x33333333
  let c := and32 (rshift c 4) 0x0f0f0f0f + and32 c 0x0f0f0f0f
  let c := and32 (rshift c 8) 0x00ff00ff + and32 c 0x00ff00ff
  and32 (rshift c 16) 0x0000ffff + and32 c 0x0000ffff

/-- The number of a text with dots, by the numbers between them. -/
def ip2int (ip : List Nat) : Nat := ip.foldl (fun ret a => or32 (lshift ret 8) a) 0

/-- The numbers between the dots of the text for a number. -/
def int2ip (ip : Nat) : List Nat :=
  [and32 (rshift (rshift (rshift ip 8) 8) 8) 255, and32 (rshift (rshift ip 8) 8) 255,
    and32 (rshift ip 8) 255, and32 ip 255]

def compl32 (v : Nat) : Nat := xor32 v 0xffffffff

/-- How the netmask is given: after a slash in the first argument, or as the second
argument, which is a number if it has no dot. -/
inductive Mask where
  | slash (length : Fin 33)
  | number (length : Fin 33)
  | dotted (ip : List Nat)
  deriving DecidableEq

def Mask.netmask : Mask → Nat
  | .slash length => compl32 (2 ^ (32 - length.val) - 1)
  | .number length => compl32 (2 ^ (32 - length.val) - 1)
  | .dotted ip => ip2int ip

/-- What is printed. -/
structure Output where
  ip : List Nat
  netmask : List Nat
  broadcast : List Nat
  network : List Nat
  length : Int
  start : List Nat
  stop : List Nat
  deriving DecidableEq

/-- `ipcalc.sh` with an address, a netmask, the start of the range and its size. -/
def ipcalc (ip : List Nat) (mask : Mask) (first : List Nat) (num : Nat) : Output :=
  let ipaddr := ip2int ip
  let netmask := mask.netmask
  let network := and32 ipaddr netmask
  let broadcast := or32 network (compl32 netmask)
  let start := or32 network (and32 (ip2int first) (compl32 netmask))
  let limit := network + 1
  let start := if start < limit then limit else start
  let stop := start + num
  let limit := or32 network (compl32 netmask) - 1
  let stop := if limit < stop then limit else stop
  { ip := int2ip ipaddr
    netmask := int2ip netmask
    broadcast := int2ip broadcast
    network := int2ip network
    length := 32 - bitcount (compl32 netmask)
    start := int2ip start
    stop := int2ip stop }

end Script

section Usable

/-- The number that an address stands for. -/
def address (ip : List Nat) : Nat := ip.foldl (fun n d => 256 * n + d) 0

/-- The range lies strictly inside the network and is not larger than asked for. -/
structure UsableRange (length num : Nat) (out : Output) : Prop where
  start : address out.network < address out.start
  order : address out.start ≤ address out.stop
  stop : address out.stop < address out.broadcast
  subnet : ∀ a ∈ [out.network, out.start, out.stop, out.broadcast],
    address a / 2 ^ (32 - length) = address out.ip / 2 ^ (32 - length)
  size : address out.stop - address out.start ≤ num
  prefixLength : out.length = length

/-- The netmask of a prefix length, as a number or with dots. -/
def Mask.IsFor (length : Nat) : Mask → Prop
  | .slash n => n.val = length
  | .number n => n.val = length
  | .dotted ip => ip = int2ip (2 ^ 32 - 2 ^ (32 - length))

end Usable

section Bits

theorem ip2int_lt (ip : List Nat) : ip2int ip < 2 ^ 32 := by
  rw [ip2int]
  induction ip using List.reverseRecOn with
  | nil => decide
  | append_singleton ip a _ =>
      rw [List.foldl_append, List.foldl_cons, List.foldl_nil, or32]
      exact Nat.or_lt_two_pow (Nat.mod_lt _ (by decide)) (Nat.mod_lt _ (by decide))

/-- Four octets say the number they were made of. -/
theorem address_int2ip {v : Nat} (hv : v < 2 ^ 32) : address (int2ip v) = v := by
  have hoctet : ∀ x, and32 x 255 = x % 2 ^ 32 % 2 ^ 8 := fun x =>
    Nat.and_two_pow_sub_one_eq_mod (x % 2 ^ 32) 8
  simp only [address, int2ip, hoctet, rshift, Nat.shiftRight_eq_div_pow, List.foldl_cons,
    List.foldl_nil]
  omega

theorem compl32_host : ∀ h : Fin 33, compl32 (2 ^ h.val - 1) = 2 ^ 32 - 2 ^ h.val := by decide

theorem compl32_netmask : ∀ h : Fin 33, compl32 (2 ^ 32 - 2 ^ h.val) = 2 ^ h.val - 1 := by decide

theorem bitcount_host : ∀ h : Fin 33, bitcount (2 ^ h.val - 1) = h.val := by decide

theorem ip2int_netmask : ∀ h : Fin 33,
    ip2int (int2ip (2 ^ 32 - 2 ^ h.val)) = 2 ^ 32 - 2 ^ h.val := by decide

theorem Mask.netmask_eq {mask : Mask} {length : Nat} (hlength : length ≤ 32)
    (hmask : mask.IsFor length) : mask.netmask = 2 ^ 32 - 2 ^ (32 - length) := by
  cases mask with
  | slash n =>
      obtain rfl : n.val = length := hmask
      exact compl32_host ⟨32 - n.val, by omega⟩
  | number n =>
      obtain rfl : n.val = length := hmask
      exact compl32_host ⟨32 - n.val, by omega⟩
  | dotted ip =>
      obtain rfl : ip = int2ip _ := hmask
      exact ip2int_netmask ⟨32 - length, by omega⟩

theorem host_lt {h : Nat} (hh : h ≤ 32) : 2 ^ h - 1 < 2 ^ 32 := by
  have := Nat.pow_le_pow_right (n := 2) (by decide) hh
  omega

/-- The netmask leaves the network of an address. -/
theorem and32_netmask {a h : Nat} (ha : a < 2 ^ 32) (hh : h ≤ 32) :
    and32 a (2 ^ 32 - 2 ^ h) = 2 ^ h * (a / 2 ^ h) := by
  have hnetmask : 2 ^ 32 - 2 ^ h = (2 ^ h - 1) ^^^ (2 ^ 32 - 1) := by
    have := compl32_host ⟨h, by omega⟩
    rwa [compl32, xor32, Nat.mod_eq_of_lt (host_lt hh), eq_comm] at this
  have hlt : 2 ^ 32 - 2 ^ h < 2 ^ 32 := Nat.sub_lt (by decide) (by positivity)
  rw [and32, Nat.mod_eq_of_lt ha, Nat.mod_eq_of_lt hlt, hnetmask]
  apply Nat.eq_of_testBit_eq
  intro i
  rw [Nat.testBit_and, Nat.testBit_xor, Nat.testBit_two_pow_sub_one, Nat.testBit_two_pow_sub_one,
    Nat.testBit_two_pow_mul, Nat.testBit_div_two_pow]
  by_cases hi : i < 32
  · by_cases hih : h ≤ i
    · simp [hi, hih, Nat.not_lt.mpr hih]
    · simp [hi, hih, Nat.lt_of_not_le hih]
  · have hbit : a.testBit i = false :=
      Nat.testBit_eq_false_of_lt (ha.trans_le (Nat.pow_le_pow_right (by decide) (by omega)))
    by_cases hih : h ≤ i
    · simp [hbit, hih]
    · simp [hbit, hih]

/-- Bits of the host part are added to the network. -/
theorem or32_host {q x h : Nat} (hx : x < 2 ^ h) (hq : 2 ^ h * q + x < 2 ^ 32) :
    or32 (2 ^ h * q) x = 2 ^ h * q + x := by
  rw [or32, Nat.mod_eq_of_lt (by omega), Nat.mod_eq_of_lt (by omega),
    Nat.two_pow_add_eq_or_of_lt hx]

theorem and32_host (s : Nat) {h : Nat} (hh : h ≤ 32) : and32 s (2 ^ h - 1) = s % 2 ^ h := by
  rw [and32, Nat.mod_eq_of_lt (host_lt hh), Nat.and_two_pow_sub_one_eq_mod]
  exact Nat.mod_mod_of_dvd s (pow_dvd_pow 2 hh)

end Bits

section Range

variable {ip first : List Nat} {mask : Mask} {length num : Nat}

/-- The start and the end of a range in the network from `base` on. -/
def rangeOf (base size host num : Nat) : Nat × Nat :=
  let start := if host = 0 then base + 1 else base + host
  (start, min (start + num) (base + size - 2))

/-- What is printed for an address of a network with `size` addresses, if the start has
the host part `host`. -/
structure Computed (addr base size host num : Nat) (out : Output) : Prop where
  ip : address out.ip = addr
  network : address out.network = base
  broadcast : address out.broadcast = base + (size - 1)
  start : address out.start = (rangeOf base size host num).1
  stop : address out.stop = (rangeOf base size host num).2

/-- The addresses of a network are numbers of 32 bits. -/
theorem network_le {a h : Nat} (ha : a < 2 ^ 32) (hh : h ≤ 32) :
    2 ^ h * (a / 2 ^ h) + 2 ^ h ≤ 2 ^ 32 := by
  have hsplit : 2 ^ 32 = 2 ^ h * 2 ^ (32 - h) := by
    rw [← Nat.pow_add]
    congr 1
    omega
  have hlt : a / 2 ^ h < 2 ^ (32 - h) := Nat.div_lt_of_lt_mul (hsplit ▸ ha)
  calc
    2 ^ h * (a / 2 ^ h) + 2 ^ h = 2 ^ h * (a / 2 ^ h + 1) := by ring
    _ ≤ 2 ^ h * 2 ^ (32 - h) := Nat.mul_le_mul_left _ hlt
    _ = 2 ^ 32 := hsplit.symm

theorem ipcalc_computed (hlength : length ≤ 30) (hmask : mask.IsFor length) :
    Computed (ip2int ip) (2 ^ (32 - length) * (ip2int ip / 2 ^ (32 - length)))
      (2 ^ (32 - length)) (ip2int first % 2 ^ (32 - length)) num (ipcalc ip mask first num) := by
  have hh : 32 - length ≤ 32 := by omega
  have hle := network_le (ip2int_lt ip) hh
  have hsize : 4 ≤ 2 ^ (32 - length) :=
    Nat.pow_le_pow_right (n := 2) (i := 2) (by decide) (by omega)
  have hmod : ip2int first % 2 ^ (32 - length) < 2 ^ (32 - length) :=
    Nat.mod_lt _ (by positivity)
  have hhost : compl32 (2 ^ 32 - 2 ^ (32 - length)) = 2 ^ (32 - length) - 1 :=
    compl32_netmask ⟨32 - length, by omega⟩
  have hbroadcast := or32_host (q := ip2int ip / 2 ^ (32 - length))
    (x := 2 ^ (32 - length) - 1) (h := 32 - length) (by omega) (by omega)
  have hstart := or32_host (q := ip2int ip / 2 ^ (32 - length)) hmod (by omega)
  have hip := ip2int_lt ip
  simp only [ipcalc, mask.netmask_eq (by omega) hmask, and32_netmask hip hh, hhost,
    and32_host _ hh, hbroadcast, hstart]
  generalize 2 ^ (32 - length) = size at *
  generalize size * (ip2int ip / size) = network at *
  generalize ip2int first % size = host at *
  refine ⟨address_int2ip hip, address_int2ip (by omega), address_int2ip (by omega), ?_, ?_⟩
  · rw [address_int2ip (by split_ifs <;> omega), rangeOf]
    split_ifs <;> omega
  · rw [address_int2ip (by split_ifs <;> omega), rangeOf]
    simp only [Nat.min_def]
    split_ifs <;> omega

theorem ipcalc_length (hlength : length ≤ 30) (hmask : mask.IsFor length) :
    (ipcalc ip mask first num).length = length := by
  have hcount : bitcount (2 ^ (32 - length) - 1) = 32 - length :=
    bitcount_host ⟨32 - length, by omega⟩
  have hhost : compl32 (2 ^ 32 - 2 ^ (32 - length)) = 2 ^ (32 - length) - 1 :=
    compl32_netmask ⟨32 - length, by omega⟩
  show (32 : Int) - bitcount (compl32 mask.netmask) = length
  rw [mask.netmask_eq (by omega) hmask, hhost, hcount]
  omega

/-- The range is usable unless the start is the broadcast address. -/
theorem usable_iff {addr size host : Nat} {out : Output} (hsize : 4 ≤ size)
    (hpow : size = 2 ^ (32 - length)) (hhost : host < size) (hlength : out.length = length)
    (h : Computed addr (size * (addr / size)) size host num out) :
    UsableRange length num out ↔ host ≠ size - 1 := by
  obtain ⟨hip, hnetwork, hbroadcast, hstart, hstop⟩ := h
  have hsubnet : ∀ x, x < size → (size * (addr / size) + x) / size = addr / size := by
    intro x hx
    rw [Nat.mul_add_div (by omega), Nat.div_eq_of_lt hx, Nat.add_zero]
  simp only [rangeOf] at hstart hstop
  constructor
  · intro husable hbroad
    have hlt := husable.order.trans_lt husable.stop
    rw [hstart, hbroadcast, hbroad, if_neg (by omega)] at hlt
    exact lt_irrefl _ hlt
  · intro hne
    have hbounds : size * (addr / size) < address out.start ∧
        address out.start ≤ address out.stop ∧
        address out.stop ≤ size * (addr / size) + (size - 2) ∧
        address out.stop ≤ address out.start + num := by
      rw [hstart, hstop, Nat.min_def]
      split_ifs <;> omega
    obtain ⟨hlow, horder, hhigh, hnum⟩ := hbounds
    refine ⟨by omega, horder, by omega, ?_, by omega, hlength⟩
    have hinside : ∀ x, size * (addr / size) ≤ x → x < size * (addr / size) + size →
        x / size = addr / size := by
      intro x hx hx'
      have := hsubnet (x - size * (addr / size)) (by omega)
      rwa [Nat.add_sub_cancel' hx] at this
    rw [← hpow, hip]
    intro a ha
    fin_cases ha
    · exact hinside _ (by omega) (by omega)
    · exact hinside _ (by omega) (by omega)
    · exact hinside _ (by omega) (by omega)
    · exact hinside _ (by omega) (by omega)

/-- For every prefix length up to 30 the range is usable unless all bits of the host part
of the start are set. -/
theorem ipcalc_usable_iff (ip first : List Nat) (mask : Mask) (length num : Nat)
    (hlength : 1 ≤ length ∧ length ≤ 30) (hmask : mask.IsFor length) :
    UsableRange length num (ipcalc ip mask first num) ↔
      ip2int first % 2 ^ (32 - length) ≠ 2 ^ (32 - length) - 1 := by
  have hsize : 4 ≤ 2 ^ (32 - length) :=
    Nat.pow_le_pow_right (n := 2) (i := 2) (by decide) (by omega)
  exact usable_iff hsize rfl (Nat.mod_lt _ (by omega)) (ipcalc_length hlength.2 hmask)
    (ipcalc_computed hlength.2 hmask)

theorem ipcalc_usable_hundred :
    Mask.IsFor 24 (.dotted [255, 255, 255, 0]) ∧
      UsableRange 24 150 (ipcalc [192, 168, 1, 1] (.dotted [255, 255, 255, 0]) [100] 150) := by
  have hmask : Mask.IsFor 24 (.dotted [255, 255, 255, 0]) := by
    show [255, 255, 255, 0] = int2ip (2 ^ 32 - 2 ^ (32 - 24))
    decide
  exact ⟨hmask, (ipcalc_usable_iff _ _ _ 24 150 (by decide) hmask).mpr (by decide)⟩

/-- With the start 255 in a network of 256 addresses, the range starts at the broadcast
address and ends before it. -/
theorem ipcalc_start_broadcast :
    (ipcalc [192, 168, 1, 1] (.number 24) [0, 0, 0, 255] 150).start = [192, 168, 1, 255] ∧
      (ipcalc [192, 168, 1, 1] (.number 24) [0, 0, 0, 255] 150).stop = [192, 168, 1, 254] ∧
      (ipcalc [192, 168, 1, 1] (.number 24) [0, 0, 0, 255] 150).broadcast = [192, 168, 1, 255] ∧
      ¬ UsableRange 24 150 (ipcalc [192, 168, 1, 1] (.number 24) [0, 0, 0, 255] 150) := by
  refine ⟨by decide, by decide, by decide, ?_⟩
  intro husable
  exact absurd husable.order (by decide)

end Range

end Speedway.Net
