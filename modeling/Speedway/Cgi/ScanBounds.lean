import Speedway.Lib.Budget
import Speedway.Cgi.Registration

/-!
# The bytes the form scanner touches

The scanner runs over the buffer until it meets a NUL. It moves `result - offset`
bytes after an escape, the last two of them from behind the NUL, and it steps over the
byte after a separator, which may be the NUL.
-/

namespace Speedway.Cgi

open Speedway.Lib

/-- One round of `scanLoop`. -/
def scanRound (result : Nat) (s : Scan) : Round Scan Outcome :=
  let d := decodeAt result s.offset s.input
  let c := d.1
  let input := d.2.fill s.offset 0 1
  if c = 0x3d then
    if input (s.offset + 1) = 0x26 then
      .again { s with input, valueStart := s.offset, offset := s.offset + 1 }
    else .again { s with input, valueStart := s.offset + 1, offset := s.offset + 2 }
  else if c = 0x26 ∨ c = 0 then
    match handlePair (cString input (s.offset + 1 - s.labelStart) s.labelStart)
        (cString input (s.offset + 1 - s.valueStart) s.valueStart) s.details with
    | none => .leave .bypass
    | some details =>
        if c = 0 then .leave (.written details)
        else .again { s with input, details, labelStart := s.offset + 1, offset := s.offset + 2 }
  else .again { s with input := d.2, offset := s.offset + 1 }

theorem scanLoop_succ (result fuel : Nat) (s : Scan) :
    scanLoop result (fuel + 1) s =
      match scanRound result s with
      | .leave o => some o
      | .again s' => scanLoop result fuel s' := by
  simp only [scanLoop, scanRound]
  split
  · split <;> rfl
  · split
    · generalize handlePair _ _ _ = pair
      cases pair with
      | none => rfl
      | some details =>
          dsimp only
          split <;> rfl
    · rfl

/-- The indices read and written for the escape that may stand at an offset. -/
def decodeAccesses (result offset : Nat) (input : Mem) : List Nat :=
  if input offset ≠ 0x25 then [offset]
  else if input (offset + 1) = 0 then [offset, offset + 1]
  else if input (offset + 2) = 0 then [offset, offset + 1, offset + 2]
  else
    -- `memmove` reads the first range and writes the second one
    [offset, offset + 1, offset + 2] ++ List.range' (offset + 3) (result - offset) ++
      List.range' (offset + 1) (result - offset)

/-- The indices of a string and its NUL, all of which its users may read. -/
def stringAccesses (m : Mem) (n start : Nat) : List Nat :=
  List.range' start ((cString m n start).length + 1)

/-- The indices read and written in a round. -/
def roundAccesses (result : Nat) (s : Scan) : List Nat :=
  let d := decodeAt result s.offset s.input
  let c := d.1
  let input := d.2.fill s.offset 0 1
  decodeAccesses result s.offset s.input ++
    if c = 0x3d then [s.offset, s.offset + 1]
    else if c = 0x26 ∨ c = 0 then
      [s.offset] ++ stringAccesses input (s.offset + 1 - s.labelStart) s.labelStart ++
        stringAccesses input (s.offset + 1 - s.valueStart) s.valueStart
    else []

/-- The indices read and written in at most `fuel` rounds of `scanLoop`. -/
def scanAccesses (result : Nat) : Nat → Scan → List Nat
  | 0, _ => []
  | fuel + 1, s =>
      roundAccesses result s ++
        match scanRound result s with
        | .leave _ => []
        | .again s' => scanAccesses result fuel s'

/-- The scan ends without an access behind the NUL at `result`. -/
def ScansInside (result : Nat) (s : Scan) : Prop :=
  ∃ fuel, (scanLoop result fuel s).isSome = true ∧
    ∀ i ∈ scanAccesses result fuel s, i ≤ result

/-- A pair with which the handler leaves the scan. -/
def Skips (label value : List UInt8) : Prop :=
  SkipsRegistration (label.takeWhile (· != 0), value.takeWhile (· != 0))

/-- The bytes that are left, after `label` since the last label start and `value`
since the last value start, have no escape where the scan looks for one, and the scan
does not step over their end. -/
def EndsInside : List UInt8 → List UInt8 → List UInt8 → Prop
  | _, _, [] => True
  | label, value, [c] => c ≠ 0x3d ∧ (c = 0x26 → Skips label value)
  | label, value, c :: d :: rest =>
      if c = 0x25 then
        (d = 0 ∨ rest.headD 0 = 0) ∧ EndsInside (label ++ [c]) (value ++ [c]) (d :: rest)
      else if c = 0x3d then
        if d = 0x26 then EndsInside (label ++ [0]) [0] (d :: rest)
        else EndsInside (label ++ [0, d]) [d] rest
      else if c = 0x26 then Skips label value ∨ EndsInside [d] (value ++ [0, d]) rest
      else c = 0 ∨ EndsInside (label ++ [c]) (value ++ [c]) (d :: rest)

section Rounds

variable {result : Nat} {s s' : Scan} {o : Outcome}

theorem scansInside_leave (h : scanRound result s = .leave o) :
    ScansInside result s ↔ ∀ i ∈ roundAccesses result s, i ≤ result := by
  constructor
  · rintro ⟨fuel, hsome, hle⟩
    cases fuel with
    | zero => exact absurd hsome Bool.false_ne_true
    | succ fuel => exact fun i hi => hle i (List.mem_append_left _ hi)
  · intro hle
    refine ⟨1, ?_, ?_⟩
    · rw [scanLoop_succ, h]
      rfl
    · rw [scanAccesses, h, List.append_nil]
      exact hle

theorem scansInside_again (h : scanRound result s = .again s') :
    ScansInside result s ↔
      (∀ i ∈ roundAccesses result s, i ≤ result) ∧ ScansInside result s' := by
  constructor
  · rintro ⟨fuel, hsome, hle⟩
    cases fuel with
    | zero => exact absurd hsome Bool.false_ne_true
    | succ fuel =>
        rw [scanLoop_succ, h] at hsome
        rw [scanAccesses, h, List.forall_mem_append] at hle
        exact ⟨hle.1, fuel, hsome, hle.2⟩
  · rintro ⟨hround, fuel, hsome, hle⟩
    refine ⟨fuel + 1, ?_, ?_⟩
    · rw [scanLoop_succ, h]
      exact hsome
    · rw [scanAccesses, h, List.forall_mem_append]
      exact ⟨hround, hle⟩

theorem ScansInside.round_le (h : ScansInside result s) :
    ∀ i ∈ roundAccesses result s, i ≤ result := by
  cases hround : scanRound result s with
  | leave o => exact (scansInside_leave hround).mp h
  | again s' => exact ((scansInside_again hround).mp h).1

theorem offset_mem_roundAccesses : s.offset ∈ roundAccesses result s := by
  refine List.mem_append_left _ ?_
  rw [decodeAccesses]
  split; · exact List.mem_singleton_self _
  split; · exact List.mem_cons_self
  split; · exact List.mem_cons_self
  exact List.mem_cons_self

/-- A scan inside does not start behind the NUL. -/
theorem ScansInside.offset_le (h : ScansInside result s) : s.offset ≤ result :=
  h.round_le _ offset_mem_roundAccesses

end Rounds

section Marks

variable {m : Mem} {a o : Nat} {d : UInt8} {bs : List UInt8}

/-- The bytes up to an offset at which a 0 is stored. -/
theorem sees_mark (h : Sees m a bs) (ha : a + bs.length = o) :
    Sees (m.fill o 0 1) a (bs ++ [0]) := by
  rw [sees_append, sees_cons, ha]
  refine ⟨h.congr fun i _ hi => ?_, Mem.fill_inside (by omega), sees_nil⟩
  rw [Mem.fill, if_neg (by omega)]

/-- The same with the byte that is stepped over. -/
theorem sees_mark_skip (h : Sees m a bs) (ha : a + bs.length = o) (hd : m (o + 1) = d) :
    Sees (m.fill o 0 1) a (bs ++ [0, d]) := by
  rw [show bs ++ [0, d] = (bs ++ [0]) ++ [d] by simp, sees_append, sees_cons]
  refine ⟨sees_mark h ha, ?_, sees_nil⟩
  rw [List.length_append, List.length_singleton, ← Nat.add_assoc, ha, Mem.fill,
    if_neg (by omega), hd]

theorem sees_behind (h : Sees m a bs) (ha : o < a) : Sees (m.fill o 0 1) a bs :=
  h.congr fun i hi _ => by rw [Mem.fill, if_neg (by omega)]

end Marks

/-- The state of a scan with the bytes that are left and those since the two starts. -/
structure ScanAt (result : Nat) (s : Scan) (label value rest : List UInt8) : Prop where
  seesRest : Sees s.input s.offset (rest ++ [0])
  stop : s.offset + rest.length = result
  seesLabel : Sees s.input s.labelStart label
  labelStop : s.labelStart + label.length = s.offset
  seesValue : Sees s.input s.valueStart value
  valueStop : s.valueStart + value.length = s.offset

section Steps

variable {result : Nat} {s : Scan} {label value rest : List UInt8} {c d : UInt8}

theorem ScanAt.offset_le (h : ScanAt result s label value rest) : s.offset ≤ result := by
  have := h.stop
  omega

theorem ScanAt.nul (h : ScanAt result s label value rest) : s.input result = 0 := by
  have := (sees_append.mp h.seesRest).2
  rw [sees_cons, h.stop] at this
  exact this.1

theorem ScanAt.head (h : ScanAt result s label value (c :: rest)) : s.input s.offset = c := by
  have := h.seesRest
  rw [List.cons_append, sees_cons] at this
  exact this.1

theorem ScanAt.second (h : ScanAt result s label value (c :: rest)) :
    s.input (s.offset + 1) = rest.headD 0 := by
  have := h.seesRest
  rw [List.cons_append, sees_cons] at this
  cases rest with
  | nil => exact (sees_cons.mp this.2).1
  | cons d rest => exact (sees_cons.mp this.2).1

theorem ScanAt.third (h : ScanAt result s label value (c :: d :: rest)) :
    s.input (s.offset + 2) = rest.headD 0 := by
  have := h.seesRest
  rw [List.cons_append, List.cons_append, sees_cons, sees_cons] at this
  cases rest with
  | nil => exact (sees_cons.mp this.2.2).1
  | cons e rest => exact (sees_cons.mp this.2.2).1

theorem ScanAt.second_marked (h : ScanAt result s label value (c :: rest)) :
    s.input.fill s.offset 0 1 (s.offset + 1) = rest.headD 0 := by
  rw [Mem.fill, if_neg (by omega), h.second]

/-- The bytes that are left after a byte and after two. -/
theorem ScanAt.tail (h : ScanAt result s label value (c :: rest)) :
    Sees s.input (s.offset + 1) (rest ++ [0]) := by
  have := h.seesRest
  rw [List.cons_append, sees_cons] at this
  exact this.2

theorem ScanAt.tail_tail (h : ScanAt result s label value (c :: d :: rest)) :
    Sees s.input (s.offset + 2) (rest ++ [0]) := by
  have := h.tail
  rw [List.cons_append, sees_cons] at this
  exact this.2

/-- No escape is decoded at the offset. -/
def Unescaped (s : Scan) : Prop :=
  ¬ (s.input s.offset = 0x25 ∧ s.input (s.offset + 1) ≠ 0 ∧ s.input (s.offset + 2) ≠ 0)

theorem unescaped_of_ne (h : s.input s.offset ≠ 0x25) : Unescaped s := fun hescape => h hescape.1

theorem decodeAt_unescaped (h : Unescaped s) :
    decodeAt result s.offset s.input = (s.input s.offset, s.input) := by
  rw [decodeAt, if_neg h]

theorem ScanAt.succ_le (h : ScanAt result s label value rest) {i : Nat} (hi : i ≤ result)
    (hne : s.input i ≠ 0) : i + 1 ≤ result := by
  rcases Nat.lt_or_ge i result with hlt | hge
  · exact hlt
  · exact absurd (Nat.le_antisymm hi hge ▸ h.nul) hne

/-- Without an escape the look ahead ends at the NUL. -/
theorem decodeAccesses_le (h : ScanAt result s label value rest) (hplain : Unescaped s) :
    ∀ i ∈ decodeAccesses result s.offset s.input, i ≤ result := by
  have hle := h.offset_le
  rw [decodeAccesses]
  split
  · simpa using hle
  next hpercent =>
    have hfirst := h.succ_le hle (by rw [not_not.mp hpercent]; decide)
    split
    · simpa using ⟨hle, hfirst⟩
    next hne =>
      have hsecond := h.succ_le hfirst hne
      split
      · simpa using ⟨hle, hfirst, hsecond⟩
      next hne' => exact absurd ⟨not_not.mp hpercent, hne, hne'⟩ hplain

/-- With an escape the last byte moved stands behind the NUL. -/
theorem not_scansInside_of_escape (h : ¬ Unescaped s) (hle : s.offset < result) :
    ¬ ScansInside result s := by
  obtain ⟨hpercent, hfirst, hsecond⟩ := not_not.mp h
  have hmem : result + 2 ∈ roundAccesses result s := by
    refine List.mem_append_left _ ?_
    rw [decodeAccesses, if_neg (not_not.mpr hpercent), if_neg hfirst, if_neg hsecond]
    refine List.mem_append_left _ (List.mem_append_right _ ?_)
    rw [List.mem_range'_1]
    omega
  intro hinside
  have := hinside.round_le _ hmem
  omega

theorem stringAccesses_le {m : Mem} {start o : Nat} {bs : List UInt8}
    (hsees : Sees m start (bs ++ [0])) (hstop : start + bs.length = o) (ho : o ≤ result) :
    ∀ i ∈ stringAccesses m (o + 1 - start) start, i ≤ result := by
  intro i hi
  rw [stringAccesses, cString_eq_takeWhile hsees (by omega), List.mem_range'_1] at hi
  have := (List.takeWhile_sublist (· != (0 : UInt8)) (l := bs)).length_le
  omega

/-- A round without an escape stays inside. -/
theorem roundAccesses_le (h : ScanAt result s label value rest) (hplain : Unescaped s) :
    ∀ i ∈ roundAccesses result s, i ≤ result := by
  have hle := h.offset_le
  simp only [roundAccesses, decodeAt_unescaped hplain]
  rw [List.forall_mem_append]
  refine ⟨decodeAccesses_le h hplain, ?_⟩
  split
  next hequals =>
    have hsucc := h.succ_le hle (by rw [hequals]; decide)
    simpa using ⟨hle, hsucc⟩
  · split
    · rw [List.forall_mem_append, List.forall_mem_append]
      exact ⟨⟨by simpa using hle, stringAccesses_le (sees_mark h.seesLabel h.labelStop)
        h.labelStop hle⟩, stringAccesses_le (sees_mark h.seesValue h.valueStop) h.valueStop hle⟩
    · simp

/-- The registration is skipped for the strings since the two starts. -/
theorem handlePair_strings (h : ScanAt result s label value rest) :
    handlePair (cString (s.input.fill s.offset 0 1) (s.offset + 1 - s.labelStart) s.labelStart)
      (cString (s.input.fill s.offset 0 1) (s.offset + 1 - s.valueStart) s.valueStart)
      s.details = none ↔ Skips label value := by
  have hlabel := h.labelStop
  have hvalue := h.valueStop
  rw [cString_eq_takeWhile (sees_mark h.seesLabel hlabel) (by omega),
    cString_eq_takeWhile (sees_mark h.seesValue hvalue) (by omega), handlePair_eq_none_iff]
  rfl

theorem scansInside_char (h : ScanAt result s label value rest) (hplain : Unescaped s)
    (hc : ¬ Separator (s.input s.offset)) :
    ScansInside result s ↔ ScansInside result { s with offset := s.offset + 1 } := by
  have hround : scanRound result s = .again { s with offset := s.offset + 1 } := by
    simp only [scanRound, decodeAt_unescaped hplain]
    rw [if_neg fun heq => hc (.inl heq), if_neg fun heq => hc (.inr heq)]
  rw [scansInside_again hround, and_iff_right (roundAccesses_le h hplain)]

theorem ScanAt.char (h : ScanAt result s label value (c :: rest)) :
    ScanAt result { s with offset := s.offset + 1 } (label ++ [c]) (value ++ [c]) rest := by
  obtain ⟨hrest, hstop, hlabel, hlabelStop, hvalue, hvalueStop⟩ := h
  rw [List.cons_append, sees_cons] at hrest
  rw [List.length_cons] at hstop
  refine ⟨hrest.2, by dsimp only; omega, ?_, ?_, ?_, ?_⟩
  · rw [sees_append, sees_cons, hlabelStop]
    exact ⟨hlabel, hrest.1, sees_nil⟩
  · rw [List.length_append, List.length_singleton]
    dsimp only
    omega
  · rw [sees_append, sees_cons, hvalueStop]
    exact ⟨hvalue, hrest.1, sees_nil⟩
  · rw [List.length_append, List.length_singleton]
    dsimp only
    omega

/-- A NUL ends the scan. -/
theorem scansInside_nul (h : ScanAt result s label value rest) (hc : s.input s.offset = 0) :
    ScansInside result s := by
  have hplain : Unescaped s := unescaped_of_ne (by rw [hc]; decide)
  have hround : ∃ o, scanRound result s = .leave o := by
    simp only [scanRound, decodeAt_unescaped hplain]
    rw [if_neg (by rw [hc]; decide), if_pos (.inr hc)]
    generalize handlePair _ _ _ = pair
    cases pair with
    | none => exact ⟨_, rfl⟩
    | some details => exact ⟨_, if_pos hc⟩
  obtain ⟨o, hround⟩ := hround
  exact (scansInside_leave hround).mpr (roundAccesses_le h hplain)

end Steps

/-- The scan after `=` with `&` behind it. -/
def Scan.emptyValue (s : Scan) : Scan :=
  { s with
    input := s.input.fill s.offset 0 1
    valueStart := s.offset
    offset := s.offset + 1 }

/-- The scan after another `=`; the byte behind it is stepped over. -/
def Scan.afterEquals (s : Scan) : Scan :=
  { s with
    input := s.input.fill s.offset 0 1
    valueStart := s.offset + 1
    offset := s.offset + 2 }

/-- The scan after `&`; the byte behind it is stepped over. -/
def Scan.afterAmpersand (s : Scan) (details : Details) : Scan :=
  { s with
    input := s.input.fill s.offset 0 1
    details := details
    labelStart := s.offset + 1
    offset := s.offset + 2 }

section Separators

variable {result : Nat} {s : Scan} {label value rest : List UInt8} {d : UInt8}

theorem scansInside_empty_value (h : ScanAt result s label value (0x3d :: 0x26 :: rest)) :
    ScansInside result s ↔ ScansInside result s.emptyValue := by
  have hplain : Unescaped s := unescaped_of_ne (by rw [h.head]; decide)
  have hround : scanRound result s = .again s.emptyValue := by
    simp only [scanRound, decodeAt_unescaped hplain]
    rw [if_pos h.head]
    exact if_pos h.second_marked
  rw [scansInside_again hround, and_iff_right (roundAccesses_le h hplain)]

theorem ScanAt.empty_value (h : ScanAt result s label value (0x3d :: 0x26 :: rest)) :
    ScanAt result s.emptyValue (label ++ [0]) [0] (0x26 :: rest) where
  seesRest := sees_behind h.tail (Nat.lt_succ_self _)
  stop := by
    have := h.stop
    simp only [List.length_cons, Scan.emptyValue] at this ⊢
    omega
  seesLabel := sees_mark h.seesLabel h.labelStop
  labelStop := by
    have := h.labelStop
    simp only [List.length_append, List.length_singleton, Scan.emptyValue]
    omega
  seesValue := sees_cons.mpr ⟨Mem.fill_inside ⟨Nat.le_refl _, Nat.lt_succ_self _⟩, sees_nil⟩
  valueStop := rfl

theorem scansInside_equals (h : ScanAt result s label value (0x3d :: rest))
    (hd : rest.headD 0 ≠ 0x26) :
    ScansInside result s ↔ ScansInside result s.afterEquals := by
  have hplain : Unescaped s := unescaped_of_ne (by rw [h.head]; decide)
  have hround : scanRound result s = .again s.afterEquals := by
    simp only [scanRound, decodeAt_unescaped hplain]
    rw [if_pos h.head]
    exact if_neg (h.second_marked ▸ hd)
  rw [scansInside_again hround, and_iff_right (roundAccesses_le h hplain)]

theorem ScanAt.equals (h : ScanAt result s label value (0x3d :: d :: rest)) :
    ScanAt result s.afterEquals (label ++ [0, d]) [d] rest where
  seesRest := sees_behind h.tail_tail (show s.offset < s.offset + 2 by omega)
  stop := by
    have := h.stop
    simp only [List.length_cons, Scan.afterEquals] at this ⊢
    omega
  seesLabel := sees_mark_skip h.seesLabel h.labelStop h.second
  labelStop := by
    have := h.labelStop
    simp only [List.length_append, List.length_cons, List.length_nil, Scan.afterEquals]
    omega
  seesValue := sees_behind (sees_cons.mpr ⟨h.second, sees_nil⟩) (Nat.lt_succ_self _)
  valueStop := rfl

/-- The handler leaves the scan. -/
theorem scansInside_skips (h : ScanAt result s label value (0x26 :: rest))
    (hskips : Skips label value) : ScansInside result s := by
  have hplain : Unescaped s := unescaped_of_ne (by rw [h.head]; decide)
  have hround : scanRound result s = .leave .bypass := by
    simp only [scanRound, decodeAt_unescaped hplain]
    rw [if_neg (by rw [h.head]; decide), if_pos (.inl h.head), (handlePair_strings h).mpr hskips]
  exact (scansInside_leave hround).mpr (roundAccesses_le h hplain)

theorem scansInside_ampersand (h : ScanAt result s label value (0x26 :: rest))
    (hskips : ¬ Skips label value) :
    ∃ details, ScansInside result s ↔ ScansInside result (s.afterAmpersand details) := by
  have hplain : Unescaped s := unescaped_of_ne (by rw [h.head]; decide)
  obtain ⟨details, hdetails⟩ := Option.ne_none_iff_exists'.mp
    (mt (handlePair_strings h).mp hskips)
  refine ⟨details, ?_⟩
  have hround : scanRound result s = .again (s.afterAmpersand details) := by
    simp only [scanRound, decodeAt_unescaped hplain]
    rw [if_neg (by rw [h.head]; decide), if_pos (.inl h.head), hdetails]
    exact if_neg (by rw [h.head]; decide)
  rw [scansInside_again hround, and_iff_right (roundAccesses_le h hplain)]

theorem ScanAt.ampersand (h : ScanAt result s label value (0x26 :: d :: rest))
    (details : Details) :
    ScanAt result (s.afterAmpersand details) [d] (value ++ [0, d]) rest where
  seesRest := sees_behind h.tail_tail (show s.offset < s.offset + 2 by omega)
  stop := by
    have := h.stop
    simp only [List.length_cons, Scan.afterAmpersand] at this ⊢
    omega
  seesLabel := sees_behind (sees_cons.mpr ⟨h.second, sees_nil⟩) (Nat.lt_succ_self _)
  labelStop := rfl
  seesValue := sees_mark_skip h.seesValue h.valueStop h.second
  valueStop := by
    have := h.valueStop
    simp only [List.length_append, List.length_cons, List.length_nil, Scan.afterAmpersand]
    omega

end Separators

/-- The last byte of the input. -/
theorem scansInside_last {result : Nat} {s : Scan} {label value : List UInt8} {c : UInt8}
    (h : ScanAt result s label value [c]) :
    ScansInside result s ↔ c ≠ 0x3d ∧ (c = 0x26 → Skips label value) := by
  have hstop : s.offset + 1 = result := h.stop
  by_cases hequals : c = 0x3d
  · subst hequals
    rw [scansInside_equals h (by decide)]
    refine iff_of_false (fun hinside => ?_) (by simp)
    have hle : s.offset + 2 ≤ result := hinside.offset_le
    omega
  by_cases hamp : c = 0x26
  · subst hamp
    by_cases hskips : Skips label value
    · exact iff_of_true (scansInside_skips h hskips) ⟨hequals, fun _ => hskips⟩
    · obtain ⟨details, hdetails⟩ := scansInside_ampersand h hskips
      rw [hdetails]
      refine iff_of_false (fun hinside => ?_) fun hends => hskips (hends.2 rfl)
      have hle : s.offset + 2 ≤ result := hinside.offset_le
      omega
  refine iff_of_true ?_ ⟨hequals, fun heq => absurd heq hamp⟩
  by_cases hnul : c = 0
  · exact scansInside_nul h (h.head.trans hnul)
  · have hplain : Unescaped s := fun hescape => hescape.2.1 h.second
    rw [scansInside_char h hplain
      (by rw [h.head]; exact not_or.mpr ⟨hequals, not_or.mpr ⟨hamp, hnul⟩⟩)]
    exact scansInside_nul h.char h.second

theorem unescaped_iff {result : Nat} {s : Scan} {label value rest : List UInt8} {d : UInt8}
    (h : ScanAt result s label value (0x25 :: d :: rest)) :
    Unescaped s ↔ d = 0 ∨ rest.headD 0 = 0 := by
  rw [Unescaped, h.head, h.second, h.third, List.headD_cons]
  tauto

/-- The scan stays inside exactly if the bytes that are left let it. -/
theorem scansInside_iff {result : Nat} {s : Scan} {label value rest : List UInt8}
    (h : ScanAt result s label value rest) :
    ScansInside result s ↔ EndsInside label value rest := by
  -- the cases of the condition are those of a round
  fun_induction EndsInside label value rest generalizing s with
  | case1 label value =>
      exact iff_of_true (scansInside_nul h (sees_cons.mp h.seesRest).1) trivial
  | case2 label value c => exact scansInside_last h
  | case3 label value d rest ih =>
      rw [← unescaped_iff h]
      by_cases hplain : Unescaped s
      · rw [scansInside_char h hplain (by rw [h.head]; decide), ih h.char,
          and_iff_right hplain]
      · have hlt : s.offset < result := by
          have := h.stop
          rw [List.length_cons] at this
          omega
        exact iff_of_false (not_scansInside_of_escape hplain hlt) fun hends => hplain hends.1
  | case4 label value rest _ ih => rw [scansInside_empty_value h, ih h.empty_value]
  | case5 label value d rest hd _ ih => rw [scansInside_equals h hd, ih h.equals]
  | case6 label value d rest _ _ ih =>
      by_cases hskips : Skips label value
      · exact iff_of_true (scansInside_skips h hskips) (.inl hskips)
      · obtain ⟨details, hdetails⟩ := scansInside_ampersand h hskips
        rw [hdetails, ih (h.ampersand details), or_iff_right hskips]
  | case7 label value c d rest hpercent hequals hamp ih =>
      by_cases hnul : c = 0
      · exact iff_of_true (scansInside_nul h (h.head.trans hnul)) (.inl hnul)
      · have hplain : Unescaped s := unescaped_of_ne (by rwa [h.head])
        rw [scansInside_char h hplain
          (by rw [h.head]; exact not_or.mpr ⟨hequals, not_or.mpr ⟨hamp, hnul⟩⟩),
          ih h.char, or_iff_right hnul]

/-- What `fread` stores. -/
def readBody (stdin : List UInt8) : List UInt8 := stdin.take (inputSize - 1)

/-- The variables before the first round. -/
def scanStart (body : List UInt8) (junk : Mem) : Scan where
  input i :=
    if i < body.length then body.getD i 0 else if i = body.length then 0 else junk i
  offset := 0
  labelStart := 0
  valueStart := 0
  details _ := none

theorem userDetails_eq (stdin : List UInt8) (junk : Mem) :
    userDetails stdin junk =
      if (readBody stdin).length = 0 then some .noInput
      else scanLoop (readBody stdin).length inputSize (scanStart (readBody stdin) junk) := rfl

theorem scanAt_start (body : List UInt8) (junk : Mem) :
    ScanAt body.length (scanStart body junk) [] [] body where
  seesRest := sees_input
  stop := Nat.zero_add _
  seesLabel := sees_nil
  labelStop := rfl
  seesValue := sees_nil
  valueStop := rfl

/-- The scanner ends without leaving the part of the buffer that was read exactly if
the body has no escape where it looks for one and it does not step over the end. -/
theorem scanner_inside_iff (stdin : List UInt8) (junk : Mem) :
    (readBody stdin ≠ [] →
      ScansInside (readBody stdin).length (scanStart (readBody stdin) junk)) ↔
      EndsInside [] [] (readBody stdin) := by
  rw [← scansInside_iff (scanAt_start (readBody stdin) junk)]
  constructor
  · intro h
    by_cases hempty : readBody stdin = []
    · rw [scansInside_iff (scanAt_start _ junk), hempty]
      trivial
    · exact h hempty
  · exact fun h _ => h

/-- An empty last value is stepped over, and the scan goes on at index 7; an escape
moves the bytes up to index 13 of a body of eleven. -/
theorem scanner_overruns :
    ∃ (emptyEmail email : List UInt8) (junk : Mem),
      emptyEmail = ascii ['e', 'm', 'a', 'i', 'l', '='] ∧
      email = ascii ['e', 'm', 'a', 'i', 'l', '=', 'a', '%', '4', '0', 'b'] ∧
      7 ∈ scanAccesses 6 7 (scanStart emptyEmail junk) ∧
      ¬ ScansInside emptyEmail.length (scanStart emptyEmail junk) ∧
      13 ∈ scanAccesses 11 7 (scanStart email junk) ∧
      ¬ ScansInside email.length (scanStart email junk) := by
  refine ⟨_, _, fun _ => 0x41, rfl, rfl, by decide, ?_, by decide, ?_⟩
  · rw [scansInside_iff (scanAt_start _ _)]
    simp [EndsInside, ascii]
  · rw [scansInside_iff (scanAt_start _ _)]
    simp [EndsInside, ascii]

end Speedway.Cgi
