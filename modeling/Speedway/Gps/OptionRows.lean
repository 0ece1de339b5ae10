import Speedway.Gps.OptionBounds

/-!
# The texts in the rows

Every copy into an identifier leaves its last character, and so does every copy into an
address except that of an address of 32 characters, which fills the array. A later `-c`
can terminate such an address again, but only in the first row.
-/

namespace Speedway.Gps

section Arrays

variable {dst src : List UInt8} {m n : Nat}

/-- An array of `n + 1` characters with a 0 at its end. -/
structure LastNul (array : List UInt8) (n : Nat) : Prop where
  length : array.length = n + 1
  last : array[n]? = some 0

theorem LastNul.mem {array : List UInt8} (h : LastNul array n) : (0 : UInt8) ∈ array :=
  List.mem_of_getElem? h.last

theorem length_strncpy (h : n ≤ dst.length) : (strncpy dst src n).length = dst.length := by
  simp only [strncpy, List.length_append, List.length_replicate, List.length_drop, List.length_take]
  omega

/-- What lies behind the copy is left as it is. -/
theorem strncpy_getElem? (h : m ≤ n) : (strncpy dst src m)[n]? = dst[n]? := by
  have hlength : ((cText src).take m ++
      List.replicate (m - ((cText src).take m).length) (0 : UInt8)).length = m := by
    rw [List.length_append, List.length_replicate, List.length_take]
    omega
  simp only [strncpy]
  rw [List.getElem?_append_right (by omega), hlength, List.getElem?_drop, Nat.add_sub_cancel' h]

theorem LastNul.strncpy (h : LastNul dst n) (hm : m ≤ n) : LastNul (strncpy dst src m) n := by
  constructor
  · rw [length_strncpy (by rw [h.length]; omega), h.length]
  · rw [strncpy_getElem? hm, h.last]

theorem nul_notMem_strncpy (hsrc : (0 : UInt8) ∉ src) (hn : n ≤ src.length)
    (hdrop : (0 : UInt8) ∉ dst.drop n) : (0 : UInt8) ∉ Gps.strncpy dst src n := by
  have htext : cText src = src := cText_self fun b hb hnul => hsrc (hnul ▸ hb)
  have hlength : (src.take n).length = n := by
    rw [List.length_take]
    omega
  simp only [Gps.strncpy, htext, hlength, Nat.sub_self, List.replicate_zero, List.append_nil]
  rw [List.mem_append, not_or]
  exact ⟨fun h => hsrc (List.mem_of_mem_take h), hdrop⟩

/-- A text that leaves no room for a 0 is not terminated by its copy. -/
theorem nul_mem_strncpy_iff (hsrc : (0 : UInt8) ∉ src) (hlength : dst.length = n + 1)
    (hlast : dst[n]? ≠ some 0) : (0 : UInt8) ∈ Gps.strncpy dst src n ↔ src.length < n := by
  constructor
  · intro h
    by_contra hlong
    refine nul_notMem_strncpy hsrc (Nat.le_of_not_lt hlong) (fun hmem => hlast ?_) h
    rw [List.drop_eq_getElem_cons (by omega), List.drop_of_length_le (by omega),
      List.mem_singleton] at hmem
    rw [List.getElem?_eq_getElem (by omega), hmem]
  · intro h
    have htext : cText src = src := cText_self fun b hb hnul => hsrc (hnul ▸ hb)
    simp only [Gps.strncpy, htext, List.take_of_length_le (Nat.le_of_lt h)]
    rw [List.mem_append, List.mem_append, List.mem_replicate]
    exact .inl (.inr ⟨by omega, rfl⟩)

end Arrays

section Fields

variable {atoi : List UInt8 → Int} {size hostNum num len offset : Nat}
  {start after text memory : List UInt8} {host host' : GpsHost} {r : Nat × GpsHost}

/-- Only the first field is written to the address. -/
structure KeepsAddress (host host' : GpsHost) : Prop where
  ip : host'.ip = host.ip
  gpsID : LastNul host.gpsID 4 → LastNul host'.gpsID 4

theorem KeepsAddress.trans {host'' : GpsHost} (h : KeepsAddress host host')
    (h' : KeepsAddress host' host'') : KeepsAddress host host'' :=
  ⟨h'.ip.trans h.ip, fun hid => h'.gpsID (h.gpsID hid)⟩

theorem setField_keepsAddress (hnum : num ≠ 0) (h : setField atoi num start len host = .ok host') :
    KeepsAddress host host' := by
  match num with
  | 0 => exact absurd rfl hnum
  | 1 | 4 =>
      obtain rfl := Except.ok.inj h
      exact ⟨rfl, id⟩
  | 2 =>
      rw [setField, hostField] at h
      · split_ifs at h
        all_goals
          obtain rfl := Except.ok.inj h
          exact ⟨rfl, id⟩
      all_goals decide
  | 3 =>
      rw [setField, hostField] at h
      · split_ifs at h
        all_goals
          obtain rfl := Except.ok.inj h
          exact ⟨rfl, id⟩
      all_goals decide
  | 5 =>
      obtain rfl := Except.ok.inj h
      exact ⟨rfl, fun hid => hid.strncpy (Nat.le_refl 4)⟩
  | n + 6 => cases h

theorem scanHost_keepsAddress (hnum : num ≠ 0)
    (h : (scanHost atoi size hostNum num start len offset memory host).2 = .ok r) :
    KeepsAddress host r.2 := by
  induction num, start, len, memory, host using hostLoop.induct generalizing offset with
  | case1 num start len host => cases h
  | case2 num start len c rest host hc ih =>
      cases hfield : setField atoi num start len host with
      | error e =>
          rw [scanHost_error hc hfield] at h
          cases h
      | ok host₁ =>
          have hkeeps := setField_keepsAddress hnum hfield
          rcases hc with rfl | rfl
          · cases rest with
            | nil =>
                rw [scanHost, if_pos (.inl rfl), hfield] at h
                cases h
            | cons x rest =>
                rw [scanHost_comma hfield] at h
                exact hkeeps.trans (ih host₁ (Nat.succ_ne_zero num) h)
          · rw [scanHost_nul hfield] at h
            obtain rfl := Except.ok.inj h
            exact hkeeps
  | case3 num start len c rest host hc ih =>
      rw [scanHost_text (not_or.mp hc).1 (not_or.mp hc).2] at h
      exact ih hnum h

/-- The length of the address in a value of `-h`. -/
def addressLength (value : List UInt8) : Nat := (value.takeWhile (· != 0x2c)).length

/-- The address as the loop copies it. -/
def copyAddress (ip start : List UInt8) (len : Nat) : List UInt8 :=
  strncpy ip start (if 32 < len then 32 - 1 else len)

theorem scanHost_address (htext : (0 : UInt8) ∉ text)
    (h : (scanHost atoi size hostNum 0 start len offset (text ++ 0 :: after) host).2 = .ok r) :
    r.2.ip = copyAddress host.ip start (len + addressLength text) ∧
      (LastNul host.gpsID 4 → LastNul r.2.gpsID 4) := by
  induction text generalizing len offset with
  | nil =>
      rw [List.nil_append, scanHost_nul rfl] at h
      obtain rfl := Except.ok.inj h
      exact ⟨rfl, id⟩
  | cons c text ih =>
      rw [List.mem_cons, not_or] at htext
      by_cases hcomma : c = 0x2c
      · subst hcomma
        obtain ⟨x, rest, hrest⟩ := List.exists_cons_of_ne_nil
          (List.append_ne_nil_of_right_ne_nil text (List.cons_ne_nil 0 after))
        rw [List.cons_append, hrest, scanHost_comma rfl] at h
        have hkeeps := scanHost_keepsAddress (Nat.succ_ne_zero 0) h
        exact ⟨hkeeps.ip, hkeeps.gpsID⟩
      · rw [List.cons_append, scanHost_text hcomma (Ne.symm htext.1)] at h
        have hlength : addressLength (c :: text) = addressLength text + 1 := by
          rw [addressLength, List.takeWhile_cons, if_pos (bne_iff_ne.mpr hcomma)]
          rfl
        rw [hlength, Nat.add_comm (addressLength text), ← Nat.add_assoc]
        exact ih htext.2 h

/-- Only an address of 32 characters is not terminated. -/
theorem nul_copyAddress {ip value : List UInt8} (hvalue : (0 : UInt8) ∉ value)
    (hip : LastNul ip 31) :
    (addressLength value ≠ 32 →
        LastNul (copyAddress ip (value ++ 0 :: after) (addressLength value)) 31) ∧
      (addressLength value = 32 →
        (0 : UInt8) ∉ copyAddress ip (value ++ 0 :: after) (addressLength value)) := by
  constructor
  · intro hlength
    refine hip.strncpy ?_
    split <;> omega
  · intro hlength
    have hle : 32 ≤ value.length :=
      hlength ▸ (List.takeWhile_sublist (· != (0x2c : UInt8))).length_le
    rw [copyAddress, hlength, if_neg (Nat.lt_irrefl 32),
      strncpy_append_of_le (fun b hb hnul => hvalue (hnul ▸ hb)) hle]
    refine nul_notMem_strncpy hvalue hle ?_
    rw [List.drop_of_length_le (by rw [hip.length])]
    exact List.not_mem_nil

end Fields

section Rows

/-- The values that `-c` writes to row `k`. -/
def clientsFor (k : Nat) : List (List UInt8) → List (List UInt8)
  | [] => []
  | name :: rest =>
      if isFlag name = true then clientsFor k rest
      else match rest with
        | [] => []
        | value :: more =>
            (if k = 0 ∧ name = ascii "-c" then [value] else []) ++ clientsFor k more

/-- The address is terminated in the end: it does not have 32 characters, or the last `-c`
for its row comes later and has at most 30. -/
def HostOption.Closes (h : HostOption) : Prop :=
  addressLength h.value ≠ 32 ∨
    ∃ client ∈ (clientsFor h.numHosts h.more).getLast?, client.length ≤ 30

/-- The rows while the options are read. -/
structure Rows (o : Options) : Prop where
  ahead : ∀ k, o.numHosts ≤ k → LastNul (o.hosts k).ip 31
  gpsID : ∀ k, LastNul (o.hosts k).gpsID 4

variable {atoi : List UInt8 → Int} {environment name value : List UInt8}
  {rest more argv : List (List UInt8)} {o o' : Options} {k n : Nat}

theorem rows_initial : Rows .initial := by
  have hrow (k : Nat) : (Options.initial.hosts k).ip = List.replicate 32 0 ∧
      (Options.initial.hosts k).gpsID = List.replicate 5 0 := by
    rcases Nat.eq_zero_or_pos k with rfl | hk
    · exact ⟨rfl, rfl⟩
    · simp only [Options.initial]
      rw [Function.update_of_ne (Nat.ne_of_gt hk)]
      exact ⟨rfl, rfl⟩
  constructor
  · intro k _
    rw [(hrow k).1]
    exact ⟨rfl, rfl⟩
  · intro k
    rw [(hrow k).2]
    exact ⟨rfl, rfl⟩

theorem RowStep.ip_eq (h : RowStep name value o o') (k : Nat) :
    (o'.hosts k).ip =
      if k = 0 ∧ name = ascii "-c" then strncpy (o.hosts k).ip value 31 else (o.hosts k).ip := by
  rcases Nat.eq_zero_or_pos k with rfl | hpos
  · rw [h.ip]
    exact if_congr (and_iff_right rfl).symm rfl rfl
  · rw [h.others k (Nat.ne_of_gt hpos), if_neg fun hk => absurd hk.1 (Nat.ne_of_gt hpos)]

theorem RowStep.rows (h : RowStep name value o o') (hrows : Rows o) : Rows o' := by
  constructor
  · intro k hk
    rw [h.numHosts] at hk
    rw [h.ip_eq k]
    split
    · exact (hrows.ahead k hk).strncpy (Nat.le_refl 31)
    · exact hrows.ahead k hk
  · intro k
    rcases Nat.eq_zero_or_pos k with rfl | hpos
    · rcases h.gpsID with hid | hid
      · exact hid ▸ hrows.gpsID 0
      · exact hid ▸ (hrows.gpsID 0).strncpy (Nat.le_refl 4)
    · rw [h.others k (Nat.ne_of_gt hpos)]
      exact hrows.gpsID k

theorem addHost_hosts_self (o : Options) (host : GpsHost) :
    (o.addHost host).hosts o.numHosts = host := by
  simp [Options.addHost]

theorem addHost_hosts_of_ne (o : Options) (host : GpsHost) (hk : k ≠ o.numHosts) :
    (o.addHost host).hosts k = o.hosts k := by
  simp [Options.addHost, hk]

theorem Rows.addHost {host : GpsHost} (hrows : Rows o) (hid : LastNul host.gpsID 4) :
    Rows (o.addHost host) := by
  constructor
  · intro k hk
    rw [addHost_numHosts] at hk
    rw [addHost_hosts_of_ne o host (by omega)]
    exact hrows.ahead k (by omega)
  · intro k
    by_cases hk : k = o.numHosts
    · rw [hk, addHost_hosts_self]
      exact hid
    · rw [addHost_hosts_of_ne o host hk]
      exact hrows.gpsID k

/-- What `-h` writes to its row. -/
theorem runOption_addHost (hvalue : (0 : UInt8) ∉ value) (hrows : Rows o)
    (h : (runOption atoi environment (ascii "-h") value more o).2 = .ok o') :
    ∃ host, o' = o.addHost host ∧ Rows o' ∧
      host.ip = copyAddress (o.hosts o.numHosts).ip (value ++ 0 :: argvMemory more environment)
        (addressLength value) := by
  obtain ⟨num, host, hscan, rfl⟩ := runOption_host h
  obtain ⟨hip, hid⟩ := scanHost_address hvalue hscan
  rw [Nat.zero_add] at hip
  exact ⟨host, rfl, hrows.addHost (hid (hrows.gpsID _)), hip⟩

theorem runOption_rows (hvalue : (0 : UInt8) ∉ value) (hrows : Rows o)
    (h : (runOption atoi environment name value more o).2 = .ok o') : Rows o' := by
  by_cases hname : name = ascii "-h"
  · subst hname
    obtain ⟨host, -, hrows', -⟩ := runOption_addHost hvalue hrows h
    exact hrows'
  · exact (runOption_rowStep hname h).rows hrows

theorem runOptions_rows (hargv : ∀ arg ∈ argv, (0 : UInt8) ∉ arg) (hrows : Rows o)
    (h : (runOptions atoi environment argv o).2 = .ok o') : Rows o' := by
  induction argv using completes.induct generalizing o with
  | case1 => exact Except.ok.inj h ▸ hrows
  | case2 name rest hname ih =>
      obtain ⟨log, o₁, -, hstep, hrun⟩ := runOptions_flag atoi environment rest o hname
      rw [hrun] at h
      exact ih (List.forall_mem_cons.mp hargv).2 ((hstep []).rows hrows) h
  | case3 name hname =>
      rw [runOptions_missing (isValueOption hname)] at h
      cases h
  | case4 name hname value more ih =>
      rw [List.forall_mem_cons, List.forall_mem_cons] at hargv
      obtain ⟨o₁, hoption, hrest⟩ := runOptions_value_ok hname h
      exact ih hargv.2.2 (runOption_rows hargv.2.1 hrows hoption) hrest

theorem clientsFor_flag (h : isFlag name = true) :
    clientsFor k (name :: rest) = clientsFor k rest := by
  cases rest with
  | nil => exact if_pos h
  | cons value more => exact if_pos h

theorem clientsFor_subset (k : Nat) (argv : List (List UInt8)) : clientsFor k argv ⊆ argv := by
  induction argv using completes.induct with
  | case1 => exact List.Subset.refl _
  | case2 name rest hname ih =>
      rw [clientsFor_flag hname]
      exact List.subset_cons_of_subset name ih
  | case3 name hname =>
      rw [clientsFor, if_neg hname]
      exact List.nil_subset _
  | case4 name hname value more ih =>
      rw [clientsFor, if_neg hname]
      apply List.append_subset.mpr
      constructor
      · split
        · exact List.cons_subset.mpr
            ⟨List.mem_cons_of_mem name List.mem_cons_self, List.nil_subset _⟩
        · exact List.nil_subset _
      · exact List.subset_cons_of_subset name (List.subset_cons_of_subset value ih)

/-- The address of a row whose `-h` was read only changes by `-c`. -/
theorem runOptions_settled (h : (runOptions atoi environment argv o).2 = .ok o')
    (hk : k < o.numHosts) :
    (o'.hosts k).ip = (clientsFor k argv).foldl (strncpy · · 31) (o.hosts k).ip := by
  induction argv using completes.induct generalizing o with
  | case1 => exact Except.ok.inj h ▸ rfl
  | case2 name rest hname ih =>
      obtain ⟨log, o₁, -, hstep, hrun⟩ := runOptions_flag atoi environment rest o hname
      have hclient : name ≠ ascii "-c" := by
        rintro rfl
        exact absurd hname (by decide)
      rw [hrun] at h
      rw [clientsFor_flag hname, ih h ((hstep []).numHosts ▸ hk), (hstep []).ip_eq k,
        if_neg fun hc => hclient hc.2]
  | case3 name hname =>
      rw [runOptions_missing (isValueOption hname)] at h
      cases h
  | case4 name hname value more ih =>
      obtain ⟨o₁, hoption, hrest⟩ := runOptions_value_ok hname h
      rw [clientsFor, if_neg hname, List.foldl_append]
      by_cases hhost : name = ascii "-h"
      · subst hhost
        obtain ⟨num, host, -, rfl⟩ := runOption_host hoption
        rw [ih hrest (Nat.lt_succ_of_lt hk), addHost_hosts_of_ne o host (Nat.ne_of_lt hk),
          if_neg fun hc => absurd hc.2 (by decide)]
        rfl
      · have hstep := runOption_rowStep hhost hoption
        rw [ih hrest (hstep.numHosts ▸ hk), hstep.ip_eq k]
        split <;> rfl

/-- The last `-c` decides about an address that is not terminated. -/
theorem nul_mem_foldl_iff {ip : List UInt8} {clients : List (List UInt8)}
    (hclients : ∀ client ∈ clients, (0 : UInt8) ∉ client) (hlength : ip.length = 32)
    (hip : (0 : UInt8) ∉ ip) :
    (0 : UInt8) ∈ clients.foldl (strncpy · · 31) ip ↔
      ∃ client ∈ clients.getLast?, client.length ≤ 30 := by
  have hkept (clients : List (List UInt8)) :
      (clients.foldl (strncpy · · 31) ip).length = 32 ∧
        (clients.foldl (strncpy · · 31) ip)[31]? = ip[31]? := by
    induction clients using List.reverseRecOn with
    | nil => exact ⟨hlength, rfl⟩
    | append_singleton clients client ih =>
        rw [List.foldl_append, List.foldl_cons, List.foldl_nil, length_strncpy (by omega),
          strncpy_getElem? (Nat.le_refl 31)]
        exact ih
  rcases List.eq_nil_or_concat' clients with rfl | ⟨before, client, rfl⟩
  · exact iff_of_false hip (by simp)
  · obtain ⟨hlen, hlast⟩ := hkept before
    have hne : (before.foldl (strncpy · · 31) ip)[31]? ≠ some 0 := by
      rw [hlast]
      exact fun h => hip (List.mem_of_getElem? h)
    rw [List.foldl_append, List.foldl_cons, List.foldl_nil,
      nul_mem_strncpy_iff (hclients client (by simp)) hlen hne]
    simp [Nat.lt_succ_iff]

theorem lastNul_foldl {ip : List UInt8} (clients : List (List UInt8)) (hip : LastNul ip 31) :
    LastNul (clients.foldl (strncpy · · 31) ip) 31 := by
  induction clients generalizing ip with
  | nil => exact hip
  | cons client clients ih => exact ih (hip.strncpy (Nat.le_refl 31))

theorem hostOptions_le (n : Nat) (argv : List (List UInt8)) :
    ∀ h ∈ hostOptions n argv, n ≤ h.numHosts := by
  induction argv using completes.induct generalizing n with
  | case1 => exact List.forall_mem_nil _
  | case2 name rest hname ih =>
      rw [hostOptions_flag hname]
      exact ih n
  | case3 name hname =>
      rw [hostOptions, if_neg hname]
      exact List.forall_mem_nil _
  | case4 name hname value more ih =>
      rw [hostOptions, if_neg hname, List.forall_mem_append]
      constructor
      · split
        · exact List.forall_mem_singleton.mpr (Nat.le_refl n)
        · exact List.forall_mem_nil _
      · split
        · intro h hh
          refine Nat.le_trans ?_ (ih _ h hh)
          split
          · exact Nat.le_succ n
          · exact Nat.le_refl n
        · exact List.forall_mem_nil _

/-- The address of an option in the end. -/
theorem closes_iff {after ip : List UInt8} (hvalue : (0 : UInt8) ∉ value)
    (hmore : ∀ arg ∈ more, (0 : UInt8) ∉ arg) (hip : LastNul ip 31) :
    (0 : UInt8) ∈ (clientsFor n more).foldl (strncpy · · 31)
        (copyAddress ip (value ++ 0 :: after) (addressLength value)) ↔
      HostOption.Closes ⟨n, value, more⟩ := by
  obtain ⟨hother, hfull⟩ := nul_copyAddress hvalue hip
  rw [HostOption.Closes]
  by_cases hlength : addressLength value = 32
  · rw [or_iff_right fun h => h hlength]
    apply nul_mem_foldl_iff
    · exact fun client hclient => hmore client (clientsFor_subset n more hclient)
    · rw [copyAddress, hlength, if_neg (Nat.lt_irrefl 32), length_strncpy (by rw [hip.length])]
      exact hip.length
    · exact hfull hlength
  · exact iff_of_true (lastNul_foldl _ (hother hlength)).mem (.inl hlength)

/-- A row that is written later is terminated exactly if its option says so. -/
theorem runOptions_ahead (hargv : ∀ arg ∈ argv, (0 : UInt8) ∉ arg)
    (hsafe : ∀ h ∈ hostOptions o.numHosts argv, h.Safe) (hrows : Rows o)
    (hrun : (runOptions atoi environment argv o).2 = .ok o') (hk : o.numHosts ≤ k) :
    (0 : UInt8) ∈ (o'.hosts k).ip ↔
      ∀ h ∈ hostOptions o.numHosts argv, h.numHosts = k → h.Closes := by
  induction argv using completes.induct generalizing o with
  | case1 =>
      obtain rfl := Except.ok.inj hrun
      exact iff_of_true (hrows.ahead k hk).mem (List.forall_mem_nil _)
  | case2 name rest hname ih =>
      obtain ⟨log, o₁, -, hstep, hflag⟩ := runOptions_flag atoi environment rest o hname
      have hnum := (hstep []).numHosts
      rw [hflag] at hrun
      rw [hostOptions_flag hname, ← hnum] at hsafe ⊢
      exact ih (List.forall_mem_cons.mp hargv).2 hsafe ((hstep []).rows hrows) hrun (hnum ▸ hk)
  | case3 name hname =>
      rw [runOptions_missing (isValueOption hname)] at hrun
      cases hrun
  | case4 name hname value more ih =>
      rw [List.forall_mem_cons, List.forall_mem_cons] at hargv
      obtain ⟨-, hvalue, hmore⟩ := hargv
      obtain ⟨o₁, hoption, hrest⟩ := runOptions_value_ok hname hrun
      rw [hostOptions, if_neg hname, List.forall_mem_append] at hsafe
      have haccepted : optionAccepted name value = true := by
        rw [← runOption_isSome hvalue, hoption]
        · rfl
        · intro h
          rw [if_pos h, List.forall_mem_singleton] at hsafe
          exact hsafe.1.seen
      rw [if_pos haccepted, ← runOption_numHosts hoption] at hsafe
      rw [hostOptions, if_neg hname, if_pos haccepted, ← runOption_numHosts hoption,
        List.forall_mem_append]
      have hrows' := runOption_rows hvalue hrows hoption
      by_cases hhost : name = ascii "-h"
      · subst hhost
        obtain ⟨host, rfl, -, hip⟩ := runOption_addHost hvalue hrows hoption
        rw [if_pos rfl, List.forall_mem_singleton]
        rcases Nat.eq_or_lt_of_le hk with rfl | hlt
        · have hlater : ∀ h ∈ hostOptions (o.addHost host).numHosts more,
              h.numHosts = o.numHosts → h.Closes := by
            intro h hh heq
            have := hostOptions_le _ _ h hh
            rw [addHost_numHosts] at this
            omega
          rw [and_iff_left hlater, runOptions_settled hrest (Nat.lt_succ_self _),
            addHost_hosts_self, hip, closes_iff hvalue hmore (hrows.ahead _ (Nat.le_refl _))]
          exact ⟨fun h _ => h, fun h => h rfl⟩
        · rw [and_iff_right fun h => absurd h (Nat.ne_of_lt hlt)]
          exact ih hmore hsafe.2 hrows' hrest hlt
      · rw [if_neg hhost, and_iff_right (List.forall_mem_nil _)]
        exact ih hmore hsafe.2 hrows' hrest ((runOption_rowStep hhost hoption).numHosts ▸ hk)

/-- The parsing stays in bounds and leaves terminated texts exactly if every `-h` that is
reached has a row and an even number of commas at its end, or a field that is rejected
before, and if, when the parsing gets to the end, no address has 32 characters, the first
one apart if a short `-c` follows. -/
theorem options_inBounds_iff (atoi : List UInt8 → Int) (environment : List UInt8)
    (argv : List (List UInt8)) (hargv : ∀ arg ∈ argv, (0 : UInt8) ∉ arg) :
    ((∀ access ∈ (runOptions atoi environment argv .initial).1, access.InBounds) ∧
      ∀ o, (runOptions atoi environment argv .initial).2 = .ok o →
        ∀ k < maxHosts, (0 : UInt8) ∈ (o.hosts k).ip ∧ (0 : UInt8) ∈ (o.hosts k).gpsID) ↔
      (∀ h ∈ hostOptions 0 argv, h.Safe) ∧
        (completes argv = true → ∀ h ∈ hostOptions 0 argv, h.Closes) := by
  have hlog : (∀ access ∈ (runOptions atoi environment argv .initial).1, access.InBounds) ↔
      ∀ h ∈ hostOptions 0 argv, h.Safe := runOptions_inBounds_iff hargv
  rw [hlog]
  apply and_congr_right
  intro hsafe
  have hcompletes : (runOptions atoi environment argv .initial).2.toOption.isSome = _ :=
    runOptions_isSome hargv hsafe
  rw [← hcompletes]
  cases hrun : (runOptions atoi environment argv .initial).2 with
  | error e => exact iff_of_true (fun o h => by cases h) fun h => absurd h Bool.false_ne_true
  | ok o =>
      have hrows := runOptions_rows hargv rows_initial hrun
      have hip (k : Nat) : (0 : UInt8) ∈ (o.hosts k).ip ↔
          ∀ h ∈ hostOptions 0 argv, h.numHosts = k → h.Closes :=
        runOptions_ahead hargv hsafe rows_initial hrun (Nat.zero_le k)
      constructor
      · intro h _ option hoption
        rcases (hsafe option hoption).room with hroom | hempty
        · exact (hip _).mp (h o rfl _ hroom).1 option hoption rfl
        · left
          rw [hempty]
          decide
      · rintro h o' ho k -
        obtain rfl := Except.ok.inj ho
        exact ⟨(hip k).mpr fun option hoption _ => h rfl option hoption, (hrows.gpsID k).mem⟩

/-- A client with a rate and an identifier. -/
def clientOption : List UInt8 := ascii "192.168.1.20,6000,udp,taip,5,17"

theorem options_inBounds_client :
    (∀ access ∈ (runOptions (fun _ => 0) [] [ascii "-h", clientOption] .initial).1,
        access.InBounds) ∧
      ∀ o, (runOptions (fun _ => 0) [] [ascii "-h", clientOption] .initial).2 = .ok o →
        ∀ k < maxHosts, (0 : UInt8) ∈ (o.hosts k).ip ∧ (0 : UInt8) ∈ (o.hosts k).gpsID := by
  have hargv : ∀ arg ∈ [ascii "-h", clientOption], (0 : UInt8) ∉ arg := by decide
  have haccepted : hostAccepted clientOption = true := by decide +kernel
  rw [options_inBounds_iff (fun _ => 0) [] _ hargv, hostOptions_host, if_pos haccepted,
    hostOptions, List.forall_mem_singleton, List.forall_mem_singleton]
  exact ⟨⟨.inl (by decide), .inl (by decide)⟩, fun _ => .inl (by decide)⟩

/-- The option for a host, with a text after its fields. -/
def hostOption (address after : String) : List (List UInt8) :=
  [ascii "-h", ascii (address ++ ",55,tcp,nmea" ++ after)]

/-- An option with an address of 32 characters. -/
def longAddress : List (List UInt8) := hostOption "gps-of-thirty-two-characters.lan" ""

theorem longAddress_not_terminated :
    ∃ o, (runOptions (fun _ => 0) [] longAddress .initial).2 = .ok o ∧
      (0 : UInt8) ∉ (o.hosts 0).ip := by
  have hargv : ∀ arg ∈ longAddress, (0 : UInt8) ∉ arg := by decide +kernel
  have hoptions : hostOptions Options.initial.numHosts longAddress =
      [⟨0, ascii "gps-of-thirty-two-characters.lan,55,tcp,nmea", []⟩] := by
    rw [longAddress, hostOption, hostOptions_host, if_pos (by decide +kernel), hostOptions]
    rfl
  have hsafe : ∀ h ∈ hostOptions Options.initial.numHosts longAddress, h.Safe := by
    rw [hoptions, List.forall_mem_singleton]
    exact ⟨.inl (by decide), .inl (by decide)⟩
  have hsome : (runOptions (fun _ => 0) [] longAddress .initial).2.toOption.isSome = true :=
    (runOptions_isSome hargv hsafe).trans (by decide +kernel)
  cases hrun : (runOptions (fun _ => 0) [] longAddress .initial).2 with
  | error e =>
      rw [hrun] at hsome
      exact absurd hsome Bool.false_ne_true
  | ok o =>
      refine ⟨o, rfl, fun hnul => ?_⟩
      have hcloses := (runOptions_ahead hargv hsafe rows_initial hrun (Nat.zero_le 0)).mp hnul
      rw [hoptions, List.forall_mem_singleton] at hcloses
      rcases hcloses rfl with hlength | ⟨client, hclient, -⟩
      · exact hlength (by decide)
      · cases hclient

/-- A comma at the end of the value is followed by a read after the 0. The option for a
seventeenth host is written after the table. An address of 32 characters is not terminated. -/
theorem options_out_of_bounds :
    (¬ ∀ access ∈ (runOptions (fun _ => 0) [] (hostOption "10.0.0.1" ",") .initial).1,
        access.InBounds) ∧
      (¬ ∀ access ∈ (runOptions (fun _ => 0) []
        (List.replicate 17 (hostOption "10.0.0.1" "")).flatten .initial).1, access.InBounds) ∧
      ∃ o, (runOptions (fun _ => 0) [] longAddress .initial).2 = .ok o ∧
        (0 : UInt8) ∉ (o.hosts 0).ip := by
  refine ⟨?_, ?_, longAddress_not_terminated⟩
  · rw [runOptions_inBounds_iff (by decide +kernel)]
    intro h
    have hsafe := h _ (hostOptions_host 0 _ [] ▸ List.mem_cons_self)
    exact absurd hsafe.seen (not_or.mpr ⟨by decide +kernel, by decide +kernel⟩)
  · rw [runOptions_inBounds_iff (by decide +kernel)]
    intro h
    have hlast : (hostOptions 0 (List.replicate 17 (hostOption "10.0.0.1" "")).flatten).any
        (fun option => option.numHosts == 16 && option.value != []) = true := by decide +kernel
    obtain ⟨option, hoption, heq⟩ := List.any_eq_true.mp hlast
    rw [Bool.and_eq_true, beq_iff_eq, bne_iff_ne] at heq
    rcases (h option hoption).room with hroom | hempty
    · rw [heq.1] at hroom
      exact Nat.lt_irrefl 16 hroom
    · exact heq.2 hempty

end Rows

end Speedway.Gps
