import Speedway.Gps.Clients

/-!
# The table of clients

Every slot has the socket of one connection, and a connection is as its client on
its own: what it gets depends on the messages since it was accepted and on the
results of its own writes.
-/

namespace Speedway.Gps

open Speedway.Lib

section Table

variable {results : Nat → WriteResults} {s t : Clients} {message : List UInt8}
  {got : Nat → List (List UInt8)} {num sock c : Nat}

/-- The socket of a connection is open. -/
def Clients.IsOpen (s : Clients) (c : Nat) : Prop := ∃ sock, s.sockets sock = some c

/-- The slot has the socket of the connection. -/
def Clients.Holds (s : Clients) (num c : Nat) : Prop :=
  ∃ sock, s.slots[num]? = some (some sock) ∧ s.sockets sock = some c

/-- The invariant of the table, where `got` are the messages that a connection was offered:
each connection is as its client on its own. -/
structure Serving (results : Nat → WriteResults) (got : Nat → List (List UInt8)) (s : Clients) :
    Prop where
  size : s.slots.length = maxClients
  opened : ∀ num sock : Nat, s.slots[num]? = some (some sock) → ∃ c, s.sockets sock = some c
  distinct : ∀ num num' sock : Nat, s.slots[num]? = some (some sock) →
    s.slots[num']? = some (some sock) → num = num'
  owner : ∀ sock sock' c, s.sockets sock = some c → s.sockets sock' = some c → sock = sock'
  slot : ∀ c, s.IsOpen c → ∃ num, s.Holds num c
  client : ∀ c, (s.joined c).isSome = true →
    s.connections c = (GpsClient.run (results c) (got c)).toConnection ∧
      ((GpsClient.run (results c) (got c)).isOpen = true ↔ s.IsOpen c)
  outside : ∀ c, s.joined c = none → s.connections c = {} ∧ ¬ s.IsOpen c
  later : ∀ c, s.accepted ≤ c → s.joined c = none

theorem Clients.Holds.isOpen (h : s.Holds num c) : s.IsOpen c := by
  obtain ⟨sock, -, hsock⟩ := h
  exact ⟨sock, hsock⟩

theorem Serving.joined (h : Serving results got s) (hopen : s.IsOpen c) :
    (s.joined c).isSome = true := by
  by_contra hnone
  exact (h.outside c (Option.not_isSome_iff_eq_none.mp hnone)).2 hopen

/-- A connection has one slot. -/
theorem Serving.slot_unique {num' : Nat} (h : Serving results got s) (hc : s.Holds num c)
    (hc' : s.Holds num' c) : num = num' := by
  obtain ⟨sock, hslot, hsock⟩ := hc
  obtain ⟨sock', hslot', hsock'⟩ := hc'
  obtain rfl := h.owner sock sock' c hsock hsock'
  exact h.distinct num num' sock hslot hslot'

/-- A write to a socket is one to its connection. -/
theorem write_connection (results : Nat → WriteResults) (hsock : s.sockets sock = some c)
    (data : List UInt8) (k : Connection UInt8) :
    Clients.write results sock data
        { s with connections := Function.update s.connections c k } =
      ((k.write (results c) data).1,
        { s with
          connections := Function.update s.connections c (k.write (results c) data).2 }) := by
  simp only [Clients.write, hsock, Function.update_self, Function.update_idem]

/-- What sending to one slot does. -/
theorem sendClient_eq (hslot : s.slots[num]? = some (some sock))
    (hsock : s.sockets sock = some c) :
    sendClient results message s num =
      { s with
        connections := Function.update s.connections c
          (GpsClient.send (results c) ⟨s.connections c, true⟩ message).toConnection
        sockets := if (GpsClient.send (results c) ⟨s.connections c, true⟩ message).isOpen
          then s.sockets else Function.update s.sockets sock none
        slots := if (GpsClient.send (results c) ⟨s.connections c, true⟩ message).isOpen
          then s.slots else s.slots.set num none } := by
  have hget : s.slots.getD num none = some sock := by
    rw [List.getD_eq_getElem?_getD, hslot]
    rfl
  have hself : s = { s with connections := Function.update s.connections c (s.connections c) } := by
    rw [Function.update_eq_self]
  have hwrite := write_connection results hsock
  have hall := writeAll_map (fun k => { s with connections := Function.update s.connections c k })
    hwrite message.length message (s.connections c)
  rw [← hself] at hall
  simp only [sendClient, hget, hall, GpsClient.send, if_true]
  generalize writeAll (Connection.write (results c)) message.length message (s.connections c) = r
  cases r.1 with
  | false => simp [disconnectClient, Clients.close]
  | true =>
      simp only [if_true, hwrite]
      by_cases htwo : (r.2.write (results c) crlf).1 = some 2
      · simp [htwo]
      · simp [htwo, disconnectClient, Clients.close]

/-- Closing the socket of a slot leaves the other connections open. -/
theorem Serving.isOpen_disconnect (num : Nat) (h : Serving results got s)
    (hsock : s.sockets sock = some c) (c' : Nat) :
    (disconnectClient num sock s).IsOpen c' ↔ s.IsOpen c' ∧ c' ≠ c := by
  constructor
  · rintro ⟨sock', hsock'⟩
    have hne : sock' ≠ sock := by
      rintro rfl
      rw [disconnectClient, Clients.close] at hsock'
      simp at hsock'
    have hold : s.sockets sock' = some c' := by
      rw [disconnectClient, Clients.close] at hsock'
      simpa [Function.update_of_ne hne] using hsock'
    refine ⟨⟨sock', hold⟩, ?_⟩
    rintro rfl
    exact hne (h.owner sock' sock c' hold hsock)
  · rintro ⟨⟨sock', hsock'⟩, hne⟩
    refine ⟨sock', ?_⟩
    have hne' : sock' ≠ sock := by
      rintro rfl
      exact hne (Option.some.inj (hsock'.symm.trans hsock))
    show Function.update s.sockets sock none sock' = some c'
    rw [Function.update_of_ne hne']
    exact hsock'

theorem slots_disconnect (sock : Nat) {num' sock' : Nat} :
    (disconnectClient num sock s).slots[num']? = some (some sock') ↔
      num' ≠ num ∧ s.slots[num']? = some (some sock') := by
  show (s.slots.set num none)[num']? = some (some sock') ↔ _
  rw [List.getElem?_set]
  by_cases hnum : num = num'
  · subst hnum
    simp only [if_true, ne_eq, not_true_eq_false, false_and, iff_false]
    split
    · exact nofun
    · exact nofun
  · rw [if_neg hnum]
    exact ⟨fun hold => ⟨Ne.symm hnum, hold⟩, And.right⟩

theorem Serving.holds_disconnect (h : Serving results got s)
    (hslot : s.slots[num]? = some (some sock)) (num' c' : Nat) :
    (disconnectClient num sock s).Holds num' c' ↔ num' ≠ num ∧ s.Holds num' c' := by
  have hother {sock' : Nat} (hne : num' ≠ num) (hslot' : s.slots[num']? = some (some sock')) :
      (disconnectClient num sock s).sockets sock' = s.sockets sock' := by
    apply Function.update_of_ne
    rintro rfl
    exact hne (h.distinct num' num sock' hslot' hslot)
  constructor
  · rintro ⟨sock', hslot', hsock'⟩
    obtain ⟨hne, hold⟩ := (slots_disconnect sock).mp hslot'
    rw [hother hne hold] at hsock'
    exact ⟨hne, sock', hold, hsock'⟩
  · rintro ⟨hne, sock', hold, hsock'⟩
    refine ⟨sock', (slots_disconnect sock).mpr ⟨hne, hold⟩, ?_⟩
    rw [hother hne hold]
    exact hsock'

/-- A connection whose client was closed with its last message. -/
theorem Serving.disconnect (h : Serving results got s)
    (hslot : s.slots[num]? = some (some sock)) (hsock : s.sockets sock = some c)
    (hclosed : (GpsClient.run (results c) (got c ++ [message])).isOpen = false) :
    Serving results (Function.update got c (got c ++ [message]))
      { disconnectClient num sock s with
        connections := Function.update s.connections c
          (GpsClient.run (results c) (got c ++ [message])).toConnection } where
  size := (List.length_set ..).trans h.size
  opened := by
    intro num' sock' hslot'
    obtain ⟨hne, hold⟩ := (slots_disconnect sock).mp hslot'
    obtain ⟨c', hc'⟩ := h.opened num' sock' hold
    have hholds := (h.holds_disconnect hslot num' c').mpr ⟨hne, sock', hold, hc'⟩
    obtain ⟨sock'', hslot'', hsock''⟩ := hholds
    cases hslot'.symm.trans hslot''
    exact ⟨c', hsock''⟩
  distinct := by
    intro num' num'' sock' hslot' hslot''
    exact h.distinct num' num'' sock' ((slots_disconnect sock).mp hslot').2
      ((slots_disconnect sock).mp hslot'').2
  owner := by
    intro sock' sock'' c' hsock' hsock''
    have hold {x : Nat} (hx : Function.update s.sockets sock none x = some c') :
        s.sockets x = some c' := by
      by_cases hxs : x = sock
      · rw [hxs, Function.update_self] at hx
        exact nomatch hx
      · rwa [Function.update_of_ne hxs] at hx
    exact h.owner sock' sock'' c' (hold hsock') (hold hsock'')
  slot := by
    intro c' hopen
    obtain ⟨hold, hne⟩ := (h.isOpen_disconnect num hsock c').mp hopen
    obtain ⟨num', hholds⟩ := h.slot c' hold
    refine ⟨num', (h.holds_disconnect hslot num' c').mpr ⟨?_, hholds⟩⟩
    rintro rfl
    obtain ⟨sock', hslot', hsock'⟩ := hholds
    cases hslot.symm.trans hslot'
    exact hne (Option.some.inj (hsock'.symm.trans hsock))
  client := by
    intro c' hjoined
    have hopen := h.isOpen_disconnect num hsock c'
    by_cases hc : c' = c
    · subst hc
      rw [Function.update_self]
      refine ⟨Function.update_self ..,
        iff_of_false (by rw [hclosed]; exact Bool.false_ne_true) fun hno => ?_⟩
      exact (hopen.mp hno).2 rfl
    · rw [Function.update_of_ne hc]
      obtain ⟨hconnection, hsame⟩ := h.client c' hjoined
      refine ⟨(Function.update_of_ne hc ..).trans hconnection, hsame.trans ?_⟩
      exact ⟨fun hold => hopen.mpr ⟨hold, hc⟩, fun hno => (hopen.mp hno).1⟩
  outside := by
    intro c' hnone
    obtain ⟨hempty, hclosed'⟩ := h.outside c' hnone
    have hne : c' ≠ c := by
      rintro rfl
      exact hclosed' ⟨sock, hsock⟩
    refine ⟨(Function.update_of_ne hne ..).trans hempty, fun hopen => ?_⟩
    exact hclosed' ((h.isOpen_disconnect num hsock c').mp hopen).1
  later := h.later

/-- A connection whose client got a whole record. -/
theorem Serving.keep (h : Serving results got s) (hsock : s.sockets sock = some c)
    (hopen : (GpsClient.run (results c) (got c ++ [message])).isOpen = true) :
    Serving results (Function.update got c (got c ++ [message]))
      { s with
        connections := Function.update s.connections c
          (GpsClient.run (results c) (got c ++ [message])).toConnection } where
  size := h.size
  opened := h.opened
  distinct := h.distinct
  owner := h.owner
  slot := h.slot
  client := by
    intro c' hjoined
    by_cases hc : c' = c
    · subst hc
      rw [Function.update_self]
      exact ⟨Function.update_self .., iff_of_true hopen ⟨sock, hsock⟩⟩
    · rw [Function.update_of_ne hc]
      obtain ⟨hconnection, hsame⟩ := h.client c' hjoined
      exact ⟨(Function.update_of_ne hc ..).trans hconnection, hsame⟩
  outside := by
    intro c' hnone
    obtain ⟨hempty, hclosed⟩ := h.outside c' hnone
    have hne : c' ≠ c := by
      rintro rfl
      exact hclosed ⟨sock, hsock⟩
    exact ⟨(Function.update_of_ne hne ..).trans hempty, hclosed⟩
  later := h.later

/-- What a step leaves as it is. -/
structure SameLog (s t : Clients) : Prop where
  messages : t.messages = s.messages
  joined : t.joined = s.joined
  accepted : t.accepted = s.accepted

/-- The slot of a connection: its client gets the message, the other slots are not touched. -/
theorem sendClient_serving (message : List UInt8) (h : Serving results got s) (hc : s.Holds num c) :
    Serving results (Function.update got c (got c ++ [message]))
        (sendClient results message s num) ∧
      (∀ num' c', num' ≠ num →
        ((sendClient results message s num).Holds num' c' ↔ s.Holds num' c')) ∧
      SameLog s (sendClient results message s num) := by
  have hopen := hc.isOpen
  obtain ⟨sock, hslot, hsock⟩ := hc
  obtain ⟨hconnection, hrun⟩ := h.client c (h.joined hopen)
  have hclient : (⟨s.connections c, true⟩ : GpsClient) = GpsClient.run (results c) (got c) := by
    rw [hconnection, ← hrun.mpr hopen]
  have hsend : GpsClient.send (results c) ⟨s.connections c, true⟩ message =
      GpsClient.run (results c) (got c ++ [message]) := by
    rw [hclient, GpsClient.run, GpsClient.run, List.foldl_append]
    rfl
  rw [sendClient_eq hslot hsock, hsend]
  cases hstate : (GpsClient.run (results c) (got c ++ [message])).isOpen with
  | true =>
      simp only [if_true]
      exact ⟨h.keep hsock hstate, fun _ _ _ => Iff.rfl, rfl, rfl, rfl⟩
  | false =>
      simp only [Bool.false_eq_true, if_false]
      refine ⟨h.disconnect hslot hsock hstate, fun num' c' hne => ?_, rfl, rfl, rfl⟩
      exact (h.holds_disconnect hslot num' c').trans ⟨And.right, fun hold => ⟨hne, hold⟩⟩

/-- A slot without a connection. -/
theorem sendClient_free (h : Serving results got s) (hfree : ∀ c, ¬ s.Holds num c) :
    sendClient results message s num = s := by
  have hget : s.slots.getD num none = none := by
    rw [List.getD_eq_getElem?_getD]
    cases hslot : s.slots[num]? with
    | none => rfl
    | some slot =>
        cases slot with
        | none => rfl
        | some sock =>
            obtain ⟨c, hsock⟩ := h.opened num sock hslot
            exact absurd ⟨sock, hslot, hsock⟩ (hfree c)
  rw [sendClient, hget]

/-- Over some slots: the clients there get the message once, the others do not. -/
theorem foldl_serving (message : List UInt8) (nums : List Nat) (hnums : nums.Nodup)
    (h : Serving results got s) :
    ∃ got', Serving results got' (nums.foldl (sendClient results message) s) ∧
      (∀ num ∈ nums, ∀ c, s.Holds num c → got' c = got c ++ [message]) ∧
      (∀ c, (∀ num ∈ nums, ¬ s.Holds num c) → got' c = got c) ∧
      SameLog s (nums.foldl (sendClient results message) s) := by
  induction nums generalizing s got with
  | nil => exact ⟨got, h, nofun, fun _ _ => rfl, rfl, rfl, rfl⟩
  | cons num nums ih =>
      obtain ⟨hnum, hnums⟩ := List.nodup_cons.mp hnums
      rw [List.foldl_cons]
      by_cases hholds : ∃ c, s.Holds num c
      · obtain ⟨c, hc⟩ := hholds
        obtain ⟨hserving, hother, hlog⟩ := sendClient_serving message h hc
        obtain ⟨got', hserving', hgot, hnot, hlog'⟩ := ih hnums hserving
        -- the connection is in no later slot
        have hlater : ∀ num' ∈ nums, ¬ (sendClient results message s num).Holds num' c := by
          intro num' hnum' hholds'
          have hne : num' ≠ num := fun heq => hnum (heq ▸ hnum')
          exact hne (h.slot_unique ((hother num' c hne).mp hholds') hc)
        refine ⟨got', hserving', ?_, ?_, hlog'.messages.trans hlog.messages,
          hlog'.joined.trans hlog.joined, hlog'.accepted.trans hlog.accepted⟩
        · intro num' hnum' c' hc'
          rcases List.mem_cons.mp hnum' with rfl | hnum'
          · obtain rfl : c' = c := by
              obtain ⟨sock, hslot, hsock⟩ := hc
              obtain ⟨sock', hslot', hsock'⟩ := hc'
              cases hslot.symm.trans hslot'
              exact Option.some.inj (hsock'.symm.trans hsock)
            rw [hnot c' hlater, Function.update_self]
          · have hne : num' ≠ num := fun heq => hnum (heq ▸ hnum')
            have hne' : c' ≠ c := by
              rintro rfl
              exact hne (h.slot_unique hc' hc)
            rw [hgot num' hnum' c' ((hother num' c' hne).mpr hc'), Function.update_of_ne hne']
        · intro c' hc'
          have hne' : c' ≠ c := by
            rintro rfl
            exact hc' num List.mem_cons_self hc
          rw [hnot c', Function.update_of_ne hne']
          intro num' hnum' hholds'
          have hne : num' ≠ num := fun heq => hnum (heq ▸ hnum')
          exact hc' num' (List.mem_cons_of_mem num hnum') ((hother num' c' hne).mp hholds')
      · have hfree : ∀ c, ¬ s.Holds num c := fun c hc => hholds ⟨c, hc⟩
        rw [sendClient_free h hfree]
        obtain ⟨got', hserving', hgot, hnot, hlog'⟩ := ih hnums h
        refine ⟨got', hserving', ?_, ?_, hlog'⟩
        · intro num' hnum' c' hc'
          rcases List.mem_cons.mp hnum' with rfl | hnum'
          · exact absurd hc' (hfree c')
          · exact hgot num' hnum' c' hc'
        · exact fun c' hc' => hnot c' fun num' hnum' => hc' num' (List.mem_cons_of_mem num hnum')

/-- The messages that were sent since a connection was put into a slot. -/
def Clients.offered (s : Clients) (c : Nat) : List (List UInt8) :=
  match s.joined c with
  | none => []
  | some n => s.messages.drop n

/-- The invariant of a run. -/
structure Served (results : Nat → WriteResults) (s : Clients) : Prop
    extends Serving results s.offered s where
  bound : ∀ c n, s.joined c = some n → n ≤ s.messages.length

theorem offered_of_joined {n : Nat} (h : s.joined c = some n) :
    s.offered c = s.messages.drop n := by
  rw [Clients.offered, h]

theorem sendClients_served (p : Parsed) (h : Served results s) :
    Served results (sendClients results p s) := by
  rw [sendClients]
  split
  · exact h
  · obtain ⟨got, hserving, hgot, hnot, hlog⟩ := foldl_serving (ggaMessage p)
      (List.range maxClients) List.nodup_range h.toServing
    generalize (List.range maxClients).foldl (sendClient results (ggaMessage p)) s = t
      at hserving hlog
    have hoffered (c n : Nat) (hjoined : s.joined c = some n) :
        ({ t with messages := s.messages ++ [ggaMessage p] } : Clients).offered c =
          s.offered c ++ [ggaMessage p] := by
      have hjoined' : ({ t with messages := s.messages ++ [ggaMessage p] } : Clients).joined c =
          some n := by
        rw [← hjoined, ← hlog.joined]
      rw [offered_of_joined hjoined', offered_of_joined hjoined]
      exact List.drop_append_of_le_length (h.bound c n hjoined)
    refine ⟨⟨hserving.size, hserving.opened, hserving.distinct, hserving.owner, hserving.slot,
      ?_, hserving.outside, hserving.later⟩, ?_⟩
    · intro c hjoined
      obtain ⟨hconnection, hopen⟩ := hserving.client c hjoined
      obtain ⟨n, hn⟩ := Option.isSome_iff_exists.mp hjoined
      have hn' : s.joined c = some n := by
        rw [← hlog.joined]
        exact hn
      rw [hoffered c n hn']
      by_cases hbefore : s.IsOpen c
      · obtain ⟨num, hholds⟩ := h.slot c hbefore
        have hnum : num ∈ List.range maxClients := by
          obtain ⟨sock, hslot, -⟩ := hholds
          obtain ⟨hlt, -⟩ := List.getElem?_eq_some_iff.mp hslot
          rw [h.size] at hlt
          exact List.mem_range.mpr hlt
        rw [← hgot num hnum c hholds]
        exact ⟨hconnection, hopen⟩
      · -- a closed connection is as if it had got nothing more
        have hsame := hnot c fun num _ hholds => hbefore hholds.isOpen
        rw [hsame] at hconnection hopen
        have hclosed : (GpsClient.run (results c) (s.offered c)).isOpen = false := by
          rw [← Bool.not_eq_true]
          exact fun hyes => hbefore ((h.client c (hn' ▸ rfl)).2.mp hyes)
        have hrun : GpsClient.run (results c) (s.offered c ++ [ggaMessage p]) =
            GpsClient.run (results c) (s.offered c) := by
          rw [GpsClient.run, List.foldl_append]
          exact GpsClient.foldl_closed hclosed _
        rw [hrun]
        exact ⟨hconnection, hopen⟩
    · intro c n hn
      have hn' : s.joined c = some n := by
        rw [← hlog.joined]
        exact hn
      rw [List.length_append]
      exact Nat.le_add_right_of_le (h.bound c n hn')

/-- The table with a new connection in a free slot. -/
def Clients.join (s : Clients) (num sock : Nat) : Clients :=
  { s with
    sockets := Function.update s.sockets sock (some s.accepted)
    accepted := s.accepted + 1
    slots := s.slots.set num (some sock)
    joined := Function.update s.joined s.accepted (some s.messages.length) }

section Join

variable (h : Served results s) (hfree : s.slots[num]? = some none) (hfresh : s.sockets sock = none)

include hfresh in
theorem Clients.isOpen_join (num c : Nat) :
    (s.join num sock).IsOpen c ↔ c = s.accepted ∨ s.IsOpen c := by
  constructor
  · rintro ⟨sock', hsock'⟩
    have hsock' : Function.update s.sockets sock (some s.accepted) sock' = some c := hsock'
    by_cases hsame : sock' = sock
    · rw [hsame, Function.update_self] at hsock'
      exact .inl (Option.some.inj hsock').symm
    · rw [Function.update_of_ne hsame] at hsock'
      exact .inr ⟨sock', hsock'⟩
  · rintro (rfl | ⟨sock', hsock'⟩)
    · exact ⟨sock, Function.update_self ..⟩
    · have hne : sock' ≠ sock := by
        rintro rfl
        rw [hfresh] at hsock'
        exact nomatch hsock'
      exact ⟨sock', (Function.update_of_ne hne ..).trans hsock'⟩

include hfree in
theorem Clients.slots_join {num' sock' : Nat} :
    (s.join num sock).slots[num']? = some (some sock') ↔
      num' = num ∧ sock' = sock ∨ s.slots[num']? = some (some sock') := by
  have hlt : num < s.slots.length := (List.getElem?_eq_some_iff.mp hfree).1
  show (s.slots.set num (some sock))[num']? = some (some sock') ↔ _
  rw [List.getElem?_set]
  by_cases hnum : num = num'
  · subst hnum
    rw [if_pos rfl, if_pos hlt, hfree]
    simp [eq_comm]
  · rw [if_neg hnum]
    exact ⟨.inr, fun hor => hor.resolve_left fun hno => hnum hno.1.symm⟩

include h hfresh

/-- No slot had the new socket. -/
theorem Served.slot_ne {num' sock' : Nat} (hslot : s.slots[num']? = some (some sock')) :
    sock' ≠ sock := by
  rintro rfl
  obtain ⟨c, hc⟩ := h.opened num' sock' hslot
  rw [hfresh] at hc
  exact nomatch hc

include hfree

theorem Served.join : Served results (s.join num sock) := by
  have hsocket {sock' : Nat} (hne : sock' ≠ sock) :
      (s.join num sock).sockets sock' = s.sockets sock' := Function.update_of_ne hne ..
  have hnew : (s.join num sock).sockets sock = some s.accepted := Function.update_self ..
  have hnot : ¬ s.IsOpen s.accepted := (h.outside s.accepted (h.later _ (Nat.le_refl _))).2
  have holder {c : Nat} (hopen : s.IsOpen c) : c ≠ s.accepted := fun heq => hnot (heq ▸ hopen)
  refine ⟨⟨(List.length_set ..).trans h.size, ?_, ?_, ?_, ?_, ?_, ?_, ?_⟩, ?_⟩
  · intro num' sock' hslot
    rcases (Clients.slots_join hfree).mp hslot with ⟨-, rfl⟩ | hold
    · exact ⟨s.accepted, hnew⟩
    · obtain ⟨c, hc⟩ := h.opened num' sock' hold
      exact ⟨c, (hsocket (h.slot_ne hfresh hold)).trans hc⟩
  · intro num' num'' sock' hslot hslot'
    rcases (Clients.slots_join hfree).mp hslot with ⟨rfl, rfl⟩ | hold
    · rcases (Clients.slots_join hfree).mp hslot' with ⟨rfl, -⟩ | hold'
      · rfl
      · exact absurd rfl (h.slot_ne hfresh hold')
    · rcases (Clients.slots_join hfree).mp hslot' with ⟨-, rfl⟩ | hold'
      · exact absurd rfl (h.slot_ne hfresh hold)
      · exact h.distinct num' num'' sock' hold hold'
  · intro sock' sock'' c hsock' hsock''
    have hcase {x : Nat} (hx : (s.join num sock).sockets x = some c) :
        x = sock ∧ c = s.accepted ∨ s.sockets x = some c ∧ c ≠ s.accepted := by
      by_cases hxs : x = sock
      · rw [hxs, hnew] at hx
        exact .inl ⟨hxs, (Option.some.inj hx).symm⟩
      · rw [hsocket hxs] at hx
        exact .inr ⟨hx, holder ⟨x, hx⟩⟩
    rcases hcase hsock' with ⟨rfl, hc⟩ | ⟨hx, hc⟩
    · rcases hcase hsock'' with ⟨rfl, -⟩ | ⟨-, hc'⟩
      · rfl
      · exact absurd hc hc'
    · rcases hcase hsock'' with ⟨-, hc'⟩ | ⟨hx', -⟩
      · exact absurd hc' hc
      · exact h.owner sock' sock'' c hx hx'
  · intro c hopen
    rcases (Clients.isOpen_join hfresh num c).mp hopen with rfl | hold
    · exact ⟨num, sock, (Clients.slots_join hfree).mpr (.inl ⟨rfl, rfl⟩), hnew⟩
    · obtain ⟨num', sock', hslot, hsock'⟩ := h.slot c hold
      exact ⟨num', sock', (Clients.slots_join hfree).mpr (.inr hslot),
        (hsocket (h.slot_ne hfresh hslot)).trans hsock'⟩
  · intro c hjoined
    by_cases hc : c = s.accepted
    · subst hc
      have hoffered : (s.join num sock).offered s.accepted = [] := by
        rw [offered_of_joined (n := s.messages.length) (Function.update_self ..)]
        exact List.drop_length
      rw [hoffered]
      refine ⟨(h.outside _ (h.later _ (Nat.le_refl _))).1, iff_of_true rfl ?_⟩
      exact (Clients.isOpen_join hfresh num _).mpr (.inl rfl)
    · have hsame : (s.join num sock).joined c = s.joined c := Function.update_of_ne hc ..
      have hoffered : (s.join num sock).offered c = s.offered c := by
        rw [Clients.offered, hsame]
        rfl
      rw [hsame] at hjoined
      obtain ⟨hconnection, hopen⟩ := h.client c hjoined
      rw [hoffered]
      refine ⟨hconnection, hopen.trans ?_⟩
      rw [Clients.isOpen_join hfresh num c, or_iff_right hc]
  · intro c hnone
    have hc : c ≠ s.accepted := by
      rintro rfl
      rw [show (s.join num sock).joined s.accepted = some s.messages.length from
        Function.update_self ..] at hnone
      exact nomatch hnone
    obtain ⟨hempty, hclosed⟩ := h.outside c ((Function.update_of_ne hc ..).symm.trans hnone)
    refine ⟨hempty, fun hopen => ?_⟩
    exact ((Clients.isOpen_join hfresh num c).mp hopen).elim hc hclosed
  · intro c hc
    have hc : s.accepted + 1 ≤ c := hc
    exact (Function.update_of_ne (by omega) ..).trans (h.later c (by omega))
  · intro c n hn
    by_cases hc : c = s.accepted
    · subst hc
      rw [show (s.join num sock).joined s.accepted = some s.messages.length from
        Function.update_self ..] at hn
      exact Nat.le_of_eq (Option.some.inj hn).symm
    · exact h.bound c n ((Function.update_of_ne hc ..).symm.trans hn)

end Join

theorem acceptServer_served {clientSocket : Option Nat} (h : Served results s)
    (hfresh : ∀ sock, clientSocket = some sock → s.sockets sock = none) :
    Served results (acceptServer clientSocket s) := by
  cases clientSocket with
  | none => exact h
  | some sock =>
      have hsock := hfresh sock rfl
      simp only [acceptServer]
      split
      next hlt =>
        apply h.join _ hsock
        rw [List.getElem?_eq_getElem hlt, Option.some.injEq]
        exact Option.isNone_iff_eq_none.mp (List.findIdx_getElem (w := hlt))
      · -- out of slots: the socket is closed again
        have hsockets : Function.update (Function.update s.sockets sock (some s.accepted)) sock
            none = s.sockets := by
          rw [Function.update_idem, ← hsock, Function.update_eq_self]
        rw [Clients.close]
        simp only [hsockets]
        exact ⟨⟨h.size, h.opened, h.distinct, h.owner, h.slot, h.client, h.outside,
          fun c hc => h.later c (Nat.le_of_succ_le hc)⟩, h.bound⟩

theorem clientStep_served {e : ClientEvent} (h : Served results s) (he : FreshSocket s e) :
    Served results (clientStep results s e) := by
  cases e with
  | accept clientSocket =>
      apply acceptServer_served h
      intro sock hsock
      exact he sock (congrArg ClientEvent.accept hsock)
  | send p => exact sendClients_served p h

/-- No connection was accepted yet. -/
theorem served_initial (results : Nat → WriteResults) : Served results {} where
  size := List.length_replicate
  opened := by
    intro num sock hslot
    exact absurd (List.mem_of_getElem? hslot) (by simp)
  distinct := by
    intro num num' sock hslot
    exact absurd (List.mem_of_getElem? hslot) (by simp)
  owner := fun _ _ _ hsock => nomatch hsock
  slot := by
    rintro c ⟨sock, hsock⟩
    exact nomatch hsock
  client := fun _ hjoined => nomatch hjoined
  outside := fun _ _ => ⟨rfl, fun hopen => nomatch hopen.choose_spec⟩
  later := fun _ _ => rfl
  bound := fun _ _ hn => nomatch hn

/-- The message of an event. -/
def ClientEvent.sent : ClientEvent → List (List UInt8)
  | .accept _ => []
  | .send p => if p.idxOfNewestGGAMsg = -1 then [] else [ggaMessage p]

theorem clientStep_messages (s : Clients) (e : ClientEvent) :
    (clientStep results s e).messages = s.messages ++ e.sent := by
  cases e with
  | accept clientSocket =>
      rw [ClientEvent.sent, List.append_nil]
      cases clientSocket with
      | none => rfl
      | some sock =>
          simp only [clientStep, acceptServer]
          split <;> rfl
  | send p =>
      simp only [clientStep, sendClients, ClientEvent.sent]
      split
      · exact (List.append_nil _).symm
      · rfl

/-- What is sent does not depend on the results of the writes. -/
theorem run_messages (events : List ClientEvent) (s : Clients) :
    (events.foldl (clientStep results) s).messages =
      s.messages ++ events.flatMap ClientEvent.sent := by
  induction events generalizing s with
  | nil => exact (List.append_nil _).symm
  | cons e events ih =>
      rw [List.foldl_cons, ih, clientStep_messages, List.append_assoc]
      rfl

theorem sendClients_log (p : Parsed) (h : Served results s) :
    (sendClients results p s).joined = s.joined ∧
      (sendClients results p s).accepted = s.accepted := by
  rw [sendClients]
  split
  · exact ⟨rfl, rfl⟩
  · obtain ⟨-, -, -, -, hlog⟩ := foldl_serving (ggaMessage p) (List.range maxClients)
      List.nodup_range h.toServing
    generalize (List.range maxClients).foldl (sendClient results (ggaMessage p)) s = t at hlog
    exact ⟨hlog.joined, hlog.accepted⟩

/-- A connection stays where it was put. -/
theorem clientStep_joined {e : ClientEvent} (h : Served results s) (hc : c < s.accepted) :
    (clientStep results s e).joined c = s.joined c ∧ c < (clientStep results s e).accepted := by
  cases e with
  | accept clientSocket =>
      cases clientSocket with
      | none => exact ⟨rfl, hc⟩
      | some sock =>
          simp only [clientStep, acceptServer]
          split
          · exact ⟨Function.update_of_ne (Nat.ne_of_lt hc) .., Nat.lt_succ_of_lt hc⟩
          · exact ⟨rfl, Nat.lt_succ_of_lt hc⟩
  | send p =>
      obtain ⟨hjoined, haccepted⟩ := sendClients_log p h
      exact ⟨congrFun hjoined c, Nat.lt_of_lt_of_eq hc haccepted.symm⟩

theorem run_joined {events : List ClientEvent} (h : Served results s)
    (hevents : Meets (clientStep results) FreshSocket s events) (hc : c < s.accepted) :
    (events.foldl (clientStep results) s).joined c = s.joined c := by
  have hrun := hevents.invariant
    (I := fun t => Served results t ∧ t.joined c = s.joined c ∧ c < t.accepted) ⟨h, rfl, hc⟩
    fun t e ht he => ⟨clientStep_served ht.1 he, by
      obtain ⟨hjoined, hlt⟩ := clientStep_joined (e := e) ht.1 ht.2.2
      exact ⟨hjoined.trans ht.2.1, hlt⟩⟩
  exact hrun.2.1

theorem run_served {events : List ClientEvent} (h : Served results s)
    (hevents : Meets (clientStep results) FreshSocket s events) :
    Served results (events.foldl (clientStep results) s) :=
  hevents.invariant h fun _ _ ht he => clientStep_served ht he

/-- For each connection that is accepted, how many messages were sent before it; `n` were sent
before the events. -/
def joinTimes : Nat → List ClientEvent → List Nat
  | _, [] => []
  | n, .accept none :: events => joinTimes n events
  | n, .accept (some _) :: events => n :: joinTimes n events
  | n, .send p :: events => joinTimes (n + (ClientEvent.send p).sent.length) events

theorem acceptServer_new {sock n : Nat} (h : Served results s)
    (hn : (acceptServer (some sock) s).joined s.accepted = some n) : n = s.messages.length := by
  simp only [acceptServer] at hn
  split at hn
  · simp only [Function.update_self] at hn
    exact (Option.some.inj hn).symm
  · have hnone := h.later _ (Nat.le_refl s.accepted)
    exact absurd (hnone.symm.trans hn) (Option.some_ne_none n).symm

/-- A connection that gets a slot gets it when it is accepted. -/
theorem run_joinTimes {events : List ClientEvent} {k n : Nat} (h : Served results s)
    (hevents : Meets (clientStep results) FreshSocket s events)
    (hn : (events.foldl (clientStep results) s).joined (s.accepted + k) = some n) :
    (joinTimes s.messages.length events)[k]? = some n := by
  induction events generalizing s k with
  | nil =>
      rw [List.foldl_nil, h.later _ (Nat.le_add_right _ _)] at hn
      cases hn
  | cons e events ih =>
      obtain ⟨he, hrest⟩ := hevents
      have hserved := clientStep_served h he
      rw [List.foldl_cons] at hn
      cases e with
      | accept clientSocket =>
          cases clientSocket with
          | none => exact ih h hrest hn
          | some sock =>
              have haccepted : (clientStep results s (.accept (some sock))).accepted =
                  s.accepted + 1 := by
                simp only [clientStep, acceptServer]
                split <;> rfl
              have hmessages : (clientStep results s (.accept (some sock))).messages =
                  s.messages := (clientStep_messages s _).trans (List.append_nil _)
              cases k with
              | zero =>
                  rw [Nat.add_zero, run_joined hserved hrest (by omega)] at hn
                  rw [acceptServer_new h hn]
                  rfl
              | succ k =>
                  rw [← hmessages]
                  apply ih hserved hrest
                  rwa [haccepted, Nat.add_assoc, Nat.add_comm 1]
      | send p =>
          have haccepted : (clientStep results s (.send p)).accepted = s.accepted :=
            (sendClients_log p h).2
          rw [← haccepted] at hn
          have htimes := ih hserved hrest hn
          rw [clientStep_messages, List.length_append] at htimes
          exact htimes

/-- Once its socket is closed nothing is written to a connection. -/
theorem Served.silent {events : List ClientEvent} (h : Served results s)
    (hevents : Meets (clientStep results) FreshSocket s events) (hc : c < s.accepted)
    (hclosed : ¬ s.IsOpen c) :
    (events.foldl (clientStep results) s).connections c = s.connections c := by
  have hlater := run_served h hevents
  have hjoined := run_joined h hevents hc
  cases hn : s.joined c with
  | none => rw [(h.outside c hn).1, (hlater.outside c (hjoined.trans hn)).1]
  | some n =>
      obtain ⟨hconnection, hopen⟩ := h.client c (hn ▸ rfl)
      obtain ⟨hconnection', -⟩ := hlater.client c (hjoined.trans hn ▸ rfl)
      have hstate : (GpsClient.run (results c) (s.offered c)).isOpen = false := by
        rw [← Bool.not_eq_true]
        exact fun hyes => hclosed (hopen.mp hyes)
      have hoffered : (events.foldl (clientStep results) s).offered c =
          s.offered c ++ events.flatMap ClientEvent.sent := by
        rw [offered_of_joined (hjoined.trans hn), offered_of_joined hn, run_messages]
        exact List.drop_append_of_le_length (h.bound c n hn)
      rw [hconnection', hconnection, hoffered, GpsClient.run, List.foldl_append]
      exact congrArg GpsClient.toConnection (GpsClient.foldl_closed hstate _)

/-- A connection has got what its client gets of the messages that it was offered. -/
theorem Served.own (h : Served results s) (c : Nat) :
    s.connections c = (GpsClient.run (results c) (s.offered c)).toConnection := by
  cases hn : s.joined c with
  | none =>
      rw [(h.outside c hn).1, Clients.offered, hn]
      rfl
  | some n => exact (h.client c (hn ▸ rfl)).1

/-- What a connection has got: whole records, and a part of one more only if it was closed. -/
theorem Served.whole (h : Served results s) (c : Nat) :
    ∃ records cut, (s.connections c).bytes = (records.map (· ++ crlf)).flatten ++ cut ∧
      records <+: s.offered c ∧
      (cut ≠ [] → ¬ s.IsOpen c ∧ ∃ message ∈ s.offered c, CutRecord message cut) := by
  cases hn : s.joined c with
  | none =>
      refine ⟨[], [], ?_, List.nil_prefix, fun hno => absurd rfl hno⟩
      rw [(h.outside c hn).1]
      rfl
  | some n =>
      obtain ⟨hconnection, hopen⟩ := h.client c (hn ▸ rfl)
      obtain ⟨records, cut, hbytes, hwhole, hcut⟩ := GpsClient.run_whole (results c) (s.offered c)
      refine ⟨records, cut, hconnection ▸ hbytes, ?_, fun hne => ?_⟩
      · cases hstate : (GpsClient.run (results c) (s.offered c)).isOpen with
        | true => rw [(hwhole hstate).1]
        | false =>
            obtain ⟨message, rest, hmessages, -⟩ := hcut hstate
            exact ⟨message :: rest, hmessages.symm⟩
      · cases hstate : (GpsClient.run (results c) (s.offered c)).isOpen with
        | true => exact absurd (hwhole hstate).2 hne
        | false =>
            obtain ⟨message, rest, hmessages, hpart⟩ := hcut hstate
            refine ⟨fun hyes => ?_, message, ?_, hpart⟩
            · rw [hopen.mpr hyes] at hstate
              exact nomatch hstate
            · rw [hmessages]
              exact List.mem_append_right _ List.mem_cons_self

end Table

/-- What the clients get in a run. -/
structure WholeSentences (results : Nat → WriteResults) (events : List ClientEvent)
    (s : Clients) : Prop where
  /-- Whole records of the messages, and a part of one more only at the end. -/
  whole : ∀ c, ∃ records cut,
    (s.connections c).bytes = (records.map (· ++ crlf)).flatten ++ cut ∧
      records <+: s.offered c ∧
      (cut ≠ [] → ¬ s.IsOpen c ∧ ∃ message ∈ s.offered c, CutRecord message cut)
  /-- A slot has an open socket or is free. -/
  freed : ∀ num sock : Nat, s.slots[num]? = some (some sock) → ∃ c, s.sockets sock = some c
  /-- Nothing is written to a connection that was closed. -/
  silent : ∀ c < s.accepted, ¬ s.IsOpen c → ∀ more,
    Meets (clientStep results) FreshSocket s more →
      (more.foldl (clientStep results) s).connections c = s.connections c
  /-- What a connection gets depends on the messages since it got its slot and on the results
  of its own writes. -/
  own : ∀ c, s.connections c = (GpsClient.run (results c) (s.offered c)).toConnection
  /-- So it is the same in every other run that sends the same messages and accepts the
  connection at the same time, whatever happens to the others there. -/
  independent : ∀ results' events' c, Meets (clientStep results') FreshSocket {} events' →
    events'.flatMap ClientEvent.sent = events.flatMap ClientEvent.sent →
    (joinTimes 0 events')[c]? = (joinTimes 0 events)[c]? → results' c = results c →
    ((events'.foldl (clientStep results') {}).joined c).isSome = true →
    (s.joined c).isSome = true →
      (events'.foldl (clientStep results') {}).connections c = s.connections c
  /-- No two slots have the same socket. -/
  distinct : ∀ num num' sock : Nat, s.slots[num]? = some (some sock) →
    s.slots[num']? = some (some sock) → num = num'

/-- In every run the clients get whole sentences. -/
theorem clients_whole_sentences (results : Nat → WriteResults) (events : List ClientEvent)
    (hevents : Meets (clientStep results) FreshSocket {} events) :
    WholeSentences results events (events.foldl (clientStep results) {}) := by
  have hserved := run_served (served_initial results) hevents
  refine ⟨hserved.whole, hserved.opened, fun c hc hclosed more hmore =>
    hserved.silent hmore hc hclosed, hserved.own, ?_, hserved.distinct⟩
  intro results' events' c hevents' hsent htimes hresults hjoined' hjoined
  have hserved' := run_served (served_initial results') hevents'
  obtain ⟨n, hn⟩ := Option.isSome_iff_exists.mp hjoined
  obtain ⟨n', hn'⟩ := Option.isSome_iff_exists.mp hjoined'
  -- both runs put the connection into its slot after the same number of messages
  have hzero : ({} : Clients).accepted + c = c := Nat.zero_add c
  have htime := run_joinTimes (served_initial results) hevents (hzero.symm ▸ hn)
  have htime' := run_joinTimes (served_initial results') hevents' (hzero.symm ▸ hn')
  obtain rfl : n' = n := Option.some.inj (htime'.symm.trans (htimes.trans htime))
  rw [hserved'.own, hserved.own, hresults, offered_of_joined hn, offered_of_joined hn',
    run_messages, run_messages, hsent]

/-- Every write takes one character, so that the line end is cut. -/
def oneCharacter : WriteResults := fun _ n => if h : 0 < n then some ⟨0, h⟩ else none

/-- A buffer with one short GGA message. -/
def oneMessage : Parsed :=
  { resetGPSMessages with
    gpsMsgArray := fun _ => ⟨[0x24, 0x47], .gga, true⟩
    idxOfNewestGGAMsg := 0 }

/-- The writes to the first connection take one character, those to the others everything. -/
def firstSlow : Nat → WriteResults
  | 0 => oneCharacter
  | _ + 1 => fun _ n => if h : 0 < n then some ⟨n - 1, Nat.sub_one_lt_of_lt h⟩ else none

/-- Two connections get a message, of which the first is closed with it, and a third one with
the descriptor of the first gets the next message. -/
def reusedSocket : List ClientEvent :=
  [.accept (some 3), .accept (some 4), .send oneMessage, .accept (some 3), .send oneMessage]

theorem clients_whole_sentences_reused :
    ((reusedSocket.foldl (clientStep firstSlow) {}).connections 0).bytes = [0x24, 0x47, 0x0d] ∧
      ((reusedSocket.foldl (clientStep firstSlow) {}).connections 1).bytes =
        [0x24, 0x47, 0x0d, 0x0a, 0x24, 0x47, 0x0d, 0x0a] ∧
      ((reusedSocket.foldl (clientStep firstSlow) {}).connections 2).bytes =
        [0x24, 0x47, 0x0d, 0x0a] ∧
      WholeSentences firstSlow reusedSocket (reusedSocket.foldl (clientStep firstSlow) {}) := by
  refine ⟨by decide +kernel, by decide +kernel, by decide +kernel,
    clients_whole_sentences firstSlow reusedSocket ⟨?_, ?_, nofun, ?_, nofun, trivial⟩⟩
  all_goals
    intro sock hsock
    cases hsock
    decide +kernel

end Speedway.Gps
