import Speedway.Cloud.Response

/-!
# Remote SSH control

An `ssh` action looks for the instance of dropbear for an interface. The loop takes
an instance without a port for the end of the list; `off` deletes the instance it
found and `on` adds one where the loop stopped.
-/

namespace Speedway.Cloud

/-- A section `dropbear`. -/
structure Dropbear where
  port : Option String := none
  interface : Option String := none
  passwordAuth : Option String := none
  other : List (String × String) := []
  deriving DecidableEq

/-- What `uci add` puts at the end. -/
def Dropbear.empty : Dropbear := {}

/-- `uci get` with its errors ignored. -/
def uciGet (value : Option String) : String := value.getD ""

def Dropbear.hasPort (d : Dropbear) : Bool := uciGet d.port != ""

/-- For the LAN the interface is empty or `lan`. -/
def Dropbear.sshInterface (d : Dropbear) : String :=
  if uciGet d.interface = "" then "lan" else uciGet d.interface

/-- The search loop: the instance where it stops and whether it matched. -/
def findInstance (configInterface : String) : List Dropbear → Nat → Nat × Bool
  | [], index => (index, false)
  | d :: ds, index =>
      if !d.hasPort then (index, false)
      else if configInterface = d.sshInterface then (index, true)
      else findInstance configInterface ds (index + 1)

/-- The three options of a new instance. -/
def Dropbear.configure (configInterface configPort : String) (d : Dropbear) : Dropbear :=
  { d with
    interface := some configInterface
    port := some configPort
    passwordAuth := some "on" }

def sshPort (configPort : String) : String := if configPort = "" then "22" else configPort

/-- The sections after an `ssh` action, if it is accepted. Setting the type of a section to
nothing deletes it; `uci add` puts an empty section at the end. -/
def handleSsh (configState configInterface configPort : String) (instances : List Dropbear) :
    Option (List Dropbear) :=
  if configState ≠ "on" ∧ configState ≠ "off" then none
  else if configInterface ≠ "lan" ∧ configInterface ≠ "wwan" then none
  else
    let stop := findInstance configInterface instances 0
    let instances :=
      if stop.2 ∧ configState = "off" then instances.eraseIdx stop.1 else instances
    let found := stop.2 && configState != "off"
    if configState = "on" ∧ !found then
      some ((instances ++ [Dropbear.empty]).modify stop.1
        (Dropbear.configure configInterface (sshPort configPort)))
    else some instances

/-- It is accepted as an action of an answer is. -/
theorem handleSsh_isSome (configState configInterface configPort : String)
    (instances : List Dropbear) (commandOk : Bool) :
    (handleSsh configState configInterface configPort instances).isSome =
      (Action.ssh configState configInterface configPort).accepted commandOk := by
  simp only [handleSsh, Action.accepted]
  by_cases hstate : configState ≠ "on" ∧ configState ≠ "off"
  · simp [hstate]
  · by_cases hinterface : configInterface ≠ "lan" ∧ configInterface ≠ "wwan"
    · simp [hinterface]
    · rw [if_neg hstate, if_neg hinterface]
      have hstate' : configState = "on" ∨ configState = "off" := by
        by_contra hno
        exact hstate (not_or.mp hno)
      have hinterface' : configInterface = "lan" ∨ configInterface = "wwan" := by
        by_contra hno
        exact hinterface (not_or.mp hno)
      split <;> simp [hstate', hinterface']

/-- The loop goes on after the instance. -/
def Dropbear.passes (configInterface : String) (d : Dropbear) : Bool :=
  d.hasPort && d.sshInterface != configInterface

/-- The instances for other interfaces. -/
def others (configInterface : String) (instances : List Dropbear) : List Dropbear :=
  instances.filter fun d => d.sshInterface != configInterface

/-- What an accepted action should do. -/
structure SshDone (configState configInterface configPort : String)
    (instances result : List Dropbear) : Prop where
  off : configState = "off" → ∀ d ∈ result, d.sshInterface ≠ configInterface
  on : configState = "on" →
    ∃ d ∈ result, d.sshInterface = configInterface ∧ d.port = some (sshPort configPort)
  unchanged : others configInterface result = others configInterface instances

/-- When it does so, by the instances from where the loop stops. -/
def SshWorks (configState configInterface configPort : String) (instances : List Dropbear) : Prop :=
  match instances.dropWhile (Dropbear.passes configInterface) with
  | [] => True
  | d :: rest =>
      if configState = "off" then
        (d.hasPort = false → d.sshInterface ≠ configInterface) ∧
          ∀ e ∈ rest, e.sshInterface ≠ configInterface
      else if d.hasPort then
        ∃ e ∈ d :: rest, e.sshInterface = configInterface ∧ e.port = some (sshPort configPort)
      else if configInterface = "lan" then d.sshInterface = "lan"
      else d.sshInterface ≠ configInterface ∧ ∀ e ∈ others configInterface (d :: rest), e = .empty

section

variable {configState configInterface configPort : String} {before rest instances : List Dropbear}
  {d : Dropbear}

theorem findInstance_append (rest : List Dropbear)
    (h : ∀ d ∈ before, d.passes configInterface = true) (index : Nat) :
    findInstance configInterface (before ++ rest) index =
      findInstance configInterface rest (index + before.length) := by
  induction before generalizing index with
  | nil => rfl
  | cons d before ih =>
      have hd := h d List.mem_cons_self
      simp only [Dropbear.passes, Bool.and_eq_true, bne_iff_ne, ne_eq] at hd
      rw [List.cons_append, findInstance, if_neg (by simp [hd.1]), if_neg (Ne.symm hd.2),
        ih (fun d' hd' => h d' (List.mem_cons_of_mem d hd')), List.length_cons,
        Nat.add_right_comm, Nat.add_assoc]

/-- The loop does not pass the first instance: it matches if that has a port. -/
theorem findInstance_stop (h : d.passes configInterface = false) (index : Nat) :
    findInstance configInterface (d :: rest) index = (index, d.hasPort) := by
  rw [findInstance]
  cases hport : d.hasPort with
  | false => rfl
  | true =>
      rw [Dropbear.passes, hport, Bool.true_and, bne_eq_false_iff_eq] at h
      rw [if_neg (by simp), if_pos h.symm]

/-- An instance with a port where the loop stops is for the interface. -/
theorem Dropbear.interface_of_stop (h : d.passes configInterface = false)
    (hport : d.hasPort = true) : d.sshInterface = configInterface := by
  rw [Dropbear.passes, hport, Bool.true_and, bne_eq_false_iff_eq] at h
  exact h

theorem others_append (xs ys : List Dropbear) :
    others configInterface (xs ++ ys) = others configInterface xs ++ others configInterface ys :=
  List.filter_append ..

theorem others_cons_of_eq (h : d.sshInterface = configInterface) (ds : List Dropbear) :
    others configInterface (d :: ds) = others configInterface ds := by
  rw [others, List.filter_cons_of_neg]
  · rfl
  · simp [h]

theorem others_cons_of_ne (h : d.sshInterface ≠ configInterface) (ds : List Dropbear) :
    others configInterface (d :: ds) = d :: others configInterface ds := by
  rw [others, List.filter_cons_of_pos]
  · rfl
  · simpa using h

theorem modify_append_length (f : Dropbear → Dropbear) :
    (before ++ d :: rest).modify before.length f = before ++ f d :: rest := by
  induction before with
  | nil => rfl
  | cons e before ih => simp [ih]

/-- An action that is accepted has one of two states and one of two interfaces. -/
theorem accepted_of_handleSsh {result : List Dropbear}
    (h : handleSsh configState configInterface configPort instances = some result) :
    (configState = "on" ∨ configState = "off") ∧
      (configInterface = "lan" ∨ configInterface = "wwan") := by
  have haccepted := handleSsh_isSome configState configInterface configPort instances true
  rw [h, Option.isSome_some] at haccepted
  simpa [Action.accepted] using haccepted.symm

theorem handleSsh_off (hinterface : configInterface = "lan" ∨ configInterface = "wwan") :
    handleSsh "off" configInterface configPort instances =
      some (if (findInstance configInterface instances 0).2 then
        instances.eraseIdx (findInstance configInterface instances 0).1 else instances) := by
  rw [handleSsh, if_neg (by simp), if_neg fun hno => hinterface.elim hno.1 hno.2]
  simp

theorem handleSsh_on (hinterface : configInterface = "lan" ∨ configInterface = "wwan") :
    handleSsh "on" configInterface configPort instances =
      some (if (findInstance configInterface instances 0).2 then instances
        else (instances ++ [Dropbear.empty]).modify (findInstance configInterface instances 0).1
          (Dropbear.configure configInterface (sshPort configPort))) := by
  rw [handleSsh, if_neg (by simp), if_neg fun hno => hinterface.elim hno.1 hno.2]
  cases hmatch : (findInstance configInterface instances 0).2 with
  | true => simp [hmatch]
  | false => simp [hmatch]

theorem configure_interface (d : Dropbear) (configPort : String)
    (hinterface : configInterface = "lan" ∨ configInterface = "wwan") :
    (d.configure configInterface configPort).sshInterface = configInterface := by
  rcases hinterface with rfl | rfl
  · rfl
  · rfl

/-- A list that is shifted by one end to the other has only one element. -/
theorem cons_eq_append_singleton_iff {a b : Dropbear} {l : List Dropbear} :
    a :: l = l ++ [b] ↔ ∀ x ∈ a :: l, x = b := by
  induction l generalizing a with
  | nil => simp
  | cons c l ih =>
      rw [List.cons_append, List.cons.injEq, ih]
      constructor
      · rintro ⟨rfl, hall⟩ x hx
        rcases List.mem_cons.mp hx with rfl | hx
        · exact hall x List.mem_cons_self
        · exact hall x hx
      · intro hall
        have hc := hall c (List.mem_cons_of_mem _ List.mem_cons_self)
        refine ⟨(hall a List.mem_cons_self).trans hc.symm, ?_⟩
        exact fun x hx => hall x (List.mem_cons_of_mem a hx)

theorem ne_of_passes (h : d.passes configInterface = true) :
    d.sshInterface ≠ configInterface := by
  simp only [Dropbear.passes, Bool.and_eq_true, bne_iff_ne] at h
  exact h.2

/-- No instance stops the loop. -/
theorem ssh_done_of_passes (hinterface : configInterface = "lan" ∨ configInterface = "wwan")
    (hstate : configState = "on" ∨ configState = "off")
    (hall : ∀ d ∈ instances, d.passes configInterface = true) {result : List Dropbear}
    (h : handleSsh configState configInterface configPort instances = some result) :
    SshDone configState configInterface configPort instances result := by
  have hfind : findInstance configInterface instances 0 = (instances.length, false) := by
    have happend := findInstance_append [] hall 0
    rw [List.append_nil] at happend
    rw [happend, findInstance, Nat.zero_add]
  rcases hstate with rfl | rfl
  · rw [handleSsh_on hinterface, hfind, Option.some.injEq, if_neg Bool.false_ne_true,
      modify_append_length] at h
    subst h
    have hnew := configure_interface .empty (sshPort configPort) hinterface
    refine ⟨fun hoff => absurd hoff (by decide), fun _ => ⟨_, ?_, hnew, rfl⟩, ?_⟩
    · exact List.mem_append_right _ List.mem_cons_self
    · rw [others_append, others_cons_of_eq hnew]
      exact List.append_nil _
  · rw [handleSsh_off hinterface, hfind, Option.some.injEq, if_neg Bool.false_ne_true] at h
    subst h
    exact ⟨fun _ d hd => ne_of_passes (hall d hd), fun hon => absurd hon (by decide), rfl⟩

/-- `off`: the instance where the loop stops is deleted if it has a port. -/
theorem ssh_off_iff (hinterface : configInterface = "lan" ∨ configInterface = "wwan")
    (hbefore : ∀ d ∈ before, d.passes configInterface = true)
    (hstop : d.passes configInterface = false) {result : List Dropbear}
    (h : handleSsh "off" configInterface configPort (before ++ d :: rest) = some result) :
    SshDone "off" configInterface configPort (before ++ d :: rest) result ↔
      (d.hasPort = false → d.sshInterface ≠ configInterface) ∧
        ∀ e ∈ rest, e.sshInterface ≠ configInterface := by
  rw [handleSsh_off hinterface, findInstance_append (d :: rest) hbefore, findInstance_stop hstop,
    Nat.zero_add, Option.some.injEq] at h
  cases hport : d.hasPort with
  | true =>
      rw [hport, if_pos rfl, List.eraseIdx_append_of_length_le (Nat.le_refl _), Nat.sub_self,
        List.eraseIdx_cons_zero] at h
      subst h
      have hd := Dropbear.interface_of_stop hstop hport
      constructor
      · intro hdone
        refine ⟨nofun, fun e he => ?_⟩
        exact hdone.off rfl e (List.mem_append_right _ he)
      · rintro ⟨-, hrest⟩
        refine ⟨fun _ e he => ?_, fun hon => absurd hon (by decide), ?_⟩
        · rcases List.mem_append.mp he with he | he
          · exact ne_of_passes (hbefore e he)
          · exact hrest e he
        · rw [others_append, others_append, others_cons_of_eq hd]
  | false =>
      rw [hport, if_neg Bool.false_ne_true] at h
      subst h
      constructor
      · intro hdone
        refine ⟨fun _ => ?_, fun e he => ?_⟩
        · exact hdone.off rfl d (List.mem_append_right _ List.mem_cons_self)
        · exact hdone.off rfl e (List.mem_append_right _ (List.mem_cons_of_mem d he))
      · rintro ⟨hd, hrest⟩
        refine ⟨fun _ e he => ?_, fun hon => absurd hon (by decide), rfl⟩
        rcases List.mem_append.mp he with he | he
        · exact ne_of_passes (hbefore e he)
        · rcases List.mem_cons.mp he with rfl | he
          · exact hd rfl
          · exact hrest e he

/-- `on`, with an instance found: nothing is changed, not even its port. -/
theorem ssh_on_found_iff (hinterface : configInterface = "lan" ∨ configInterface = "wwan")
    (hbefore : ∀ d ∈ before, d.passes configInterface = true)
    (hstop : d.passes configInterface = false) (hport : d.hasPort = true)
    {result : List Dropbear}
    (h : handleSsh "on" configInterface configPort (before ++ d :: rest) = some result) :
    SshDone "on" configInterface configPort (before ++ d :: rest) result ↔
      ∃ e ∈ d :: rest, e.sshInterface = configInterface ∧ e.port = some (sshPort configPort) := by
  rw [handleSsh_on hinterface, findInstance_append (d :: rest) hbefore,
    findInstance_stop hstop, hport, if_pos rfl, Option.some.injEq] at h
  subst h
  constructor
  · intro hdone
    obtain ⟨e, he, hfor, hp⟩ := hdone.on rfl
    rcases List.mem_append.mp he with he | he
    · exact absurd hfor (ne_of_passes (hbefore e he))
    · exact ⟨e, he, hfor, hp⟩
  · rintro ⟨e, he, hfor, hp⟩
    exact ⟨fun hoff => absurd hoff (by decide),
      fun _ => ⟨e, List.mem_append_right _ he, hfor, hp⟩, rfl⟩

/-- `on`, with an instance without a port in the way: that one is configured, and the new
one stays empty, which is for the LAN. -/
theorem ssh_on_added_iff (hinterface : configInterface = "lan" ∨ configInterface = "wwan")
    (hbefore : ∀ d ∈ before, d.passes configInterface = true)
    (hstop : d.passes configInterface = false) (hport : d.hasPort = false)
    {result : List Dropbear}
    (h : handleSsh "on" configInterface configPort (before ++ d :: rest) = some result) :
    SshDone "on" configInterface configPort (before ++ d :: rest) result ↔
      if configInterface = "lan" then d.sshInterface = "lan"
      else d.sshInterface ≠ configInterface ∧
        ∀ e ∈ others configInterface (d :: rest), e = .empty := by
  rw [handleSsh_on hinterface, findInstance_append (d :: rest) hbefore,
    findInstance_stop hstop, hport, if_neg Bool.false_ne_true, Nat.zero_add,
    List.append_assoc, List.cons_append,
    modify_append_length, Option.some.injEq] at h
  subst h
  have hnew := configure_interface d (sshPort configPort) hinterface
  -- the instance for the interface is there, so that only the others decide
  have hdone : SshDone "on" configInterface configPort (before ++ d :: rest)
      (before ++ d.configure configInterface (sshPort configPort) :: (rest ++ [.empty])) ↔
        others configInterface (rest ++ [.empty]) = others configInterface (d :: rest) := by
    constructor
    · intro hdone
      have hothers := hdone.unchanged
      rw [others_append, others_append, others_cons_of_eq hnew] at hothers
      exact List.append_cancel_left hothers
    · intro hothers
      refine ⟨fun hoff => absurd hoff (by decide), fun _ => ⟨_, ?_, hnew, rfl⟩, ?_⟩
      · exact List.mem_append_right _ List.mem_cons_self
      · rw [others_append, others_append, others_cons_of_eq hnew, hothers]
  have hempty : Dropbear.empty.sshInterface = "lan" := rfl
  rw [hdone, others_append]
  rcases hinterface with rfl | rfl
  · rw [if_pos rfl, others_cons_of_eq hempty]
    by_cases hd : d.sshInterface = "lan"
    · rw [others_cons_of_eq hd]
      exact iff_of_true (List.append_nil _) hd
    · rw [others_cons_of_ne hd]
      refine iff_of_false (fun hshift => ?_) hd
      have hlength := congrArg List.length hshift
      rw [List.length_append, List.length_cons] at hlength
      exact absurd hlength (by simp [others])
  · rw [if_neg (by decide), others_cons_of_ne (d := .empty) (by decide)]
    by_cases hd : d.sshInterface = "wwan"
    · rw [others_cons_of_eq hd]
      refine iff_of_false (fun hshift => ?_) fun hno => hno.1 hd
      have hlength := congrArg List.length hshift
      rw [List.length_append] at hlength
      exact absurd hlength (by simp)
    · rw [others_cons_of_ne hd, eq_comm]
      refine cons_eq_append_singleton_iff.trans ?_
      exact ⟨fun hall => ⟨hd, hall⟩, And.right⟩

/-- An accepted action does what it says exactly on these lists of instances. -/
theorem ssh_done_iff {result : List Dropbear}
    (h : handleSsh configState configInterface configPort instances = some result) :
    SshDone configState configInterface configPort instances result ↔
      SshWorks configState configInterface configPort instances := by
  obtain ⟨hstate, hinterface⟩ := accepted_of_handleSsh h
  have hsplit := List.takeWhile_append_dropWhile
    (p := Dropbear.passes configInterface) (l := instances)
  have hbefore : ∀ d ∈ instances.takeWhile (Dropbear.passes configInterface),
      d.passes configInterface = true :=
    List.all_eq_true.mp List.all_takeWhile
  rw [SshWorks]
  cases hrest : instances.dropWhile (Dropbear.passes configInterface) with
  | nil =>
      rw [hrest, List.append_nil] at hsplit
      rw [hsplit] at hbefore
      exact iff_of_true (ssh_done_of_passes hinterface hstate hbefore h) trivial
  | cons d rest =>
      have hstop : d.passes configInterface = false := by
        have hhead := List.head?_dropWhile_not (Dropbear.passes configInterface) instances
        rw [hrest] at hhead
        simpa using hhead
      rw [hrest] at hsplit
      rw [← hsplit] at h ⊢
      dsimp only
      rcases hstate with rfl | rfl
      · rw [if_neg (by decide)]
        cases hport : d.hasPort with
        | true =>
            rw [if_pos rfl]
            exact ssh_on_found_iff hinterface hbefore hstop hport h
        | false =>
            rw [if_neg Bool.false_ne_true]
            exact ssh_on_added_iff hinterface hbefore hstop hport h
      · rw [if_pos rfl]
        exact ssh_off_iff hinterface hbefore hstop h

/-- One instance for each interface, both with a port. -/
def oneEach : List Dropbear :=
  [{ port := some "22", interface := some "lan" }, { port := some "22", interface := some "wwan" }]

theorem ssh_done_off :
    handleSsh "off" "wwan" "" oneEach = some [{ port := some "22", interface := some "lan" }] ∧
      SshDone "off" "wwan" "" oneEach [{ port := some "22", interface := some "lan" }] :=
  have hworks : SshWorks "off" "wwan" "" oneEach := ⟨nofun, nofun⟩
  ⟨rfl, (ssh_done_iff rfl).mpr hworks⟩

/-- A second instance is left by `off`; `on` leaves the port of an instance as it is, and
takes over one for another interface that has no port. -/
theorem ssh_not_done :
    (∃ result, handleSsh "off" "lan" "" [{ port := some "22" }, { port := some "2222" }] =
        some result ∧
      ¬ SshDone "off" "lan" "" [{ port := some "22" }, { port := some "2222" }] result) ∧
    (∃ result, handleSsh "on" "lan" "2222" [{ port := some "22" }] = some result ∧
      ¬ SshDone "on" "lan" "2222" [{ port := some "22" }] result) ∧
    ∃ result, handleSsh "on" "wwan" "" [{ interface := some "lan" }] = some result ∧
      ¬ SshDone "on" "wwan" "" [{ interface := some "lan" }] result := by
  refine ⟨⟨_, rfl, fun hdone => ?_⟩, ⟨_, rfl, fun hdone => ?_⟩, ⟨_, rfl, fun hdone => ?_⟩⟩
  · exact absurd rfl (hdone.off rfl { port := some "2222" } (by decide))
  · obtain ⟨d, hd, -, hport⟩ := hdone.on rfl
    cases List.mem_singleton.mp hd
    exact absurd hport (by decide)
  · exact absurd hdone.unchanged (by decide)

end

end Speedway.Cloud
