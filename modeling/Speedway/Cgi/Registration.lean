import Mathlib.Data.List.Forall2
import Speedway.Cgi.FormDecoding

/-!
# Decoding the registration form

A text that the parser sees is the one written unless it starts with a
character that is escaped or holds a space. The labels of the form are seen as
written, so the object is right exactly if the values of its members are.
-/

namespace Speedway.Cgi

open Speedway.Lib Speedway.Lib.Form

section Kept

/-- A value that the parser keeps: its first character stands for itself, and no
character is a space. -/
def Kept (value : List UInt8) : Prop :=
  (∀ b ∈ value.head?, unreserved b = true) ∧ ∀ b ∈ value, b ≠ 0x20

theorem plusOf_eq_iff {b : UInt8} : plusOf b = b ↔ b ≠ 0x20 := by
  constructor
  · rintro h rfl
    exact absurd h (by decide)
  · exact fun h => if_neg h

theorem map_plusOf_eq_iff {text : List UInt8} : text.map plusOf = text ↔ ∀ b ∈ text, b ≠ 0x20 := by
  induction text with
  | nil => simp
  | cons b text ih =>
      rw [List.map_cons, List.cons_eq_cons, plusOf_eq_iff, ih, List.forall_mem_cons]

theorem half_eq_iff {value : List UInt8} : half value = value ↔ Kept value := by
  cases value with
  | nil => simp [half, Kept]
  | cons b bs =>
      have hhead : (∀ c ∈ (b :: bs).head?, unreserved c = true) ↔ unreserved b = true := by simp
      rw [Kept, hhead, List.forall_mem_cons]
      constructor
      · intro h
        by_cases hu : unreserved b = true
        · rw [half, encodeByte, if_pos hu, List.singleton_append, List.cons_eq_cons] at h
          exact ⟨hu, (unreserved_spec hu).2.2, map_plusOf_eq_iff.mp h.2⟩
        · rw [half, encodeByte, if_neg hu] at h
          split at h
          · next hspace =>
              rw [List.singleton_append, List.cons_eq_cons] at h
              rw [hspace] at h
              exact absurd h.1 (by decide)
          · have hlength := congrArg List.length h
            simp only [List.length_append, List.length_cons, List.length_map, List.length_nil]
              at hlength
            omega
      · rintro ⟨hu, -, hspace⟩
        rw [half, encodeByte, if_pos hu, List.singleton_append, map_plusOf_eq_iff.mpr hspace]

/-- What the parser sees as plain text is what was written. -/
theorem kept_of_half {value : List UInt8} (h : ∀ b ∈ half value, unreserved b = true) :
    Kept value := by
  cases value with
  | nil => simp [Kept]
  | cons b bs =>
      have hu : unreserved b = true := by
        by_contra hb
        rw [half, encodeByte, if_neg hb] at h
        split at h
        · exact absurd (h 0x2b (by simp)) (by decide)
        · exact absurd (h 0x25 (by simp)) (by decide)
      refine ⟨by simpa using hu, List.forall_mem_cons.mpr ⟨(unreserved_spec hu).2.2, ?_⟩⟩
      rintro c hc rfl
      have hplus : (0x2b : UInt8) ∈ half (b :: bs) := by
        rw [half]
        exact List.mem_append_right _ (List.mem_map.mpr ⟨0x20, hc, rfl⟩)
      exact absurd (h 0x2b hplus) (by decide)

theorem kept_of_unreserved {text : List UInt8} (h : ∀ b ∈ text, unreserved b = true) :
    Kept text :=
  ⟨fun b hb => h b (List.mem_of_mem_head? hb), fun b hb => (unreserved_spec (h b hb)).2.2⟩

/-- A plain name is seen only where it was written. -/
theorem half_eq_name {text name : List UInt8} (hname : ∀ b ∈ name, unreserved b = true) :
    half text = name ↔ text = name := by
  constructor
  · rintro rfl
    exact (half_eq_iff.mpr (kept_of_half hname)).symm
  · rintro rfl
    exact half_eq_iff.mpr (kept_of_unreserved hname)

theorem map_plusOf_eq_name {text name : List UInt8} (hname : ∀ b ∈ name, unreserved b = true) :
    text.map plusOf = name ↔ text = name := by
  constructor
  · rintro rfl
    refine (map_plusOf_eq_iff.mpr ?_).symm
    rintro b hb rfl
    exact absurd (hname 0x2b (List.mem_map.mpr ⟨0x20, hb, rfl⟩)) (by decide)
  · rintro rfl
    exact map_plusOf_eq_iff.mpr (kept_of_unreserved hname).2

theorem Field.label_unreserved (f : Field) : ∀ b ∈ f.label, unreserved b = true := by
  cases f <;> exact List.all_eq_true.mp rfl

/-- The bypass number is shorter than the buffer for it. -/
theorem filter_eq_of_bypass {value : List UInt8} (h : phoneNumber value = bypassNumber) :
    value.filter (fun p => !(p == 0x2d || p == 0x2e)) = bypassNumber := by
  rw [← h, phoneNumber, eq_comm, List.take_eq_self_iff]
  have hlength := congrArg List.length h
  rw [phoneNumber, List.length_take] at hlength
  have : bypassNumber.length = 10 := rfl
  omega

/-- A phone number that skips the registration is plain text. -/
theorem unreserved_of_bypass {value : List UInt8} (h : phoneNumber value = bypassNumber) :
    ∀ b ∈ value, unreserved b = true := by
  have hall := filter_eq_of_bypass h
  intro b hb
  by_cases hkeep : (!(b == 0x2d || b == 0x2e)) = true
  · have hmem : b ∈ bypassNumber := hall ▸ List.mem_filter.mpr ⟨hb, hkeep⟩
    have hbypass : ∀ c ∈ bypassNumber, unreserved c = true := List.all_eq_true.mp rfl
    exact hbypass b hmem
  · have hdash : b = 0x2d ∨ b = 0x2e := by simpa [or_iff_not_imp_left] using hkeep
    rcases hdash with rfl | rfl <;> decide

theorem phoneNumber_half {value : List UInt8} :
    phoneNumber (half value) = bypassNumber ↔ phoneNumber value = bypassNumber := by
  constructor
  · intro h
    rwa [half_eq_iff.mpr (kept_of_half (unreserved_of_bypass h))] at h
  · intro h
    rwa [half_eq_iff.mpr (kept_of_unreserved (unreserved_of_bypass h))]

end Kept

section Object

variable {label value : List UInt8} {details details' : Details} {f : Field}

theorem Field.label_inj {f g : Field} (h : f.label = g.label) : f = g := by
  cases f <;> cases g <;> first | rfl | exact absurd h (by decide)

theorem sessionid_ne_label (f : Field) :
    ascii ['s', 'e', 's', 's', 'i', 'o', 'n', 'i', 'd'] ≠ f.label := by
  cases f <;> decide

theorem update_label (g : Field) : Function.update details g (some value) f =
    if g.label = f.label then some value else details f := by
  by_cases h : f = g
  · rw [h, Function.update_self, if_pos rfl]
  · rw [Function.update_of_ne h, if_neg fun hlabel => h (Field.label_inj hlabel).symm]

/-- The registration is skipped exactly on a phone number that asks for it. -/
theorem handlePair_eq_none_iff : handlePair label value details = none ↔
    label = Field.phone.label ∧ phoneNumber value = bypassNumber := by
  constructor
  · intro h
    simp only [handlePair] at h
    split at h; · exact absurd h (Option.some_ne_none _)
    split at h; · exact absurd h (Option.some_ne_none _)
    split at h; · exact absurd h (Option.some_ne_none _)
    split at h; · exact absurd h (Option.some_ne_none _)
    split at h
    · next hphone =>
        split at h
        · next hnumber => exact ⟨hphone, hnumber⟩
        · exact absurd h (Option.some_ne_none _)
    · split at h <;> exact absurd h (Option.some_ne_none _)
  · rintro ⟨rfl, hnumber⟩
    rw [handlePair, if_neg (by decide), if_neg (by decide), if_neg (by decide), if_neg (by decide),
      if_pos rfl, if_pos hnumber]

/-- A pair sets the member with its label and no other. -/
theorem handlePair_some (h : handlePair label value details = some details') (hf : f ≠ .phone) :
    details' f = if label = f.label then some value else details f := by
  simp only [handlePair] at h
  split at h
  · next hlabel =>
      cases h
      rw [hlabel, if_neg (sessionid_ne_label f)]
  split at h
  · next hlabel =>
      cases h
      rw [hlabel, update_label]
  split at h
  · next hlabel =>
      cases h
      rw [hlabel, update_label]
  split at h
  · next hlabel =>
      cases h
      rw [hlabel, update_label]
  split at h
  · next hlabel =>
      split at h
      · cases h
      · cases h
        rw [hlabel, Function.update_of_ne hf, if_neg fun heq => hf (Field.label_inj heq).symm]
  split at h
  · next hlabel =>
      cases h
      rw [hlabel, update_label]
  · next h₁ h₂ h₃ h₄ h₅ h₆ =>
      cases h
      rw [if_neg]
      intro hlabel
      cases f <;> contradiction

/-- A field that skips the registration. -/
def SkipsRegistration (field : List UInt8 × List UInt8) : Prop :=
  field.1 = Field.phone.label ∧ phoneNumber field.2 = bypassNumber

theorem handlePairs_bypass_iff {pairs : List (List UInt8 × List UInt8)} :
    handlePairs pairs details = .bypass ↔ ∃ pair ∈ pairs, SkipsRegistration pair := by
  induction pairs generalizing details with
  | nil => simp [handlePairs]
  | cons pair pairs ih =>
      rw [List.exists_mem_cons_iff, SkipsRegistration, ← @handlePair_eq_none_iff _ _ details,
        handlePairs]
      cases handlePair pair.1 pair.2 details with
      | none => simp
      | some details' => simpa using ih

/-- A member holds the last value given to its label. -/
theorem handlePairs_written {pairs : List (List UInt8 × List UInt8)}
    (h : handlePairs pairs details = .written details') (hf : f ≠ .phone) :
    details' f = (pairs.reverse.lookup f.label).or (details f) := by
  induction pairs generalizing details with
  | nil =>
      cases h
      rfl
  | cons pair pairs ih =>
      obtain ⟨label, value⟩ := pair
      rw [handlePairs] at h
      cases hpair : handlePair label value details with
      | none =>
          rw [hpair] at h
          cases h
      | some next =>
          rw [hpair] at h
          rw [ih h, handlePair_some hpair hf, List.reverse_cons, List.lookup_append,
            Option.or_assoc]
          congr 1
          by_cases hlabel : label = f.label
          · simp [hlabel]
          · have hne : (f.label == label) = false := by
              simpa using fun h => hlabel h.symm
            simp [List.lookup_cons, hlabel, hne]

theorem handlePairs_ne_noInput {pairs : List (List UInt8 × List UInt8)} :
    handlePairs pairs details ≠ .noInput := by
  induction pairs generalizing details with
  | nil => exact Outcome.noConfusion
  | cons pair pairs ih =>
      rw [handlePairs]
      cases handlePair pair.1 pair.2 details with
      | none => exact Outcome.noConfusion
      | some details' => exact ih

/-- A pair that the parser sees for a field. -/
structure SeenAs (pair field : List UInt8 × List UInt8) : Prop where
  value : pair.2 = half field.2
  label : ∀ f : Field, pair.1 = f.label ↔ field.1 = f.label

/-- The fields as the parser sees them. -/
def seenPairs : List (List UInt8 × List UInt8) → List (List UInt8 × List UInt8)
  | [] => []
  | field :: fields => (field.1.map plusOf, half field.2) :: seenTail fields

theorem seenPairs_seenAs (fields : List (List UInt8 × List UInt8)) :
    List.Forall₂ SeenAs (seenPairs fields) fields := by
  cases fields with
  | nil => exact .nil
  | cons field fields =>
      refine .cons ⟨rfl, fun f => map_plusOf_eq_name f.label_unreserved⟩ ?_
      rw [seenTail, List.forall₂_map_left_iff, List.forall₂_same]
      exact fun field _ => ⟨rfl, fun f => half_eq_name f.label_unreserved⟩

theorem lookup_seen {pairs fields : List (List UInt8 × List UInt8)}
    (h : List.Forall₂ SeenAs pairs fields) (f : Field) :
    pairs.lookup f.label = (fields.lookup f.label).map half := by
  induction h with
  | nil => rfl
  | @cons pair field pairs fields hseen _ ih =>
      obtain ⟨label, value⟩ := pair
      obtain ⟨label', value'⟩ := field
      by_cases hlabel : label' = f.label
      · have hlabel' : label = f.label := (hseen.label f).mpr hlabel
        have hvalue : value = half value' := hseen.value
        simp [hlabel, hlabel', hvalue]
      · have hlabel' : label ≠ f.label := fun h => hlabel ((hseen.label f).mp h)
        have hne : (f.label == label) = false := by simpa using hlabel'.symm
        have hne' : (f.label == label') = false := by simpa using fun h => hlabel h.symm
        simp [List.lookup_cons, hne, hne', ih]

end Object

section Form

variable {fields : List (List UInt8 × List UInt8)}

/-- What the handler is for: the object written holds the last value of each label
of a member, and none is written without input or if a phone number asks for it. -/
def DecodesForm (fields : List (List UInt8 × List UInt8)) : Option Outcome → Prop
  | some (.written details) => ∀ f, f ≠ Field.phone → details f = fields.reverse.lookup f.label
  | some .bypass => ∃ field ∈ fields, SkipsRegistration field
  | some .noInput => fields = []
  | none => False

theorem seenPairs_skips_iff : (∃ pair ∈ seenPairs fields, SkipsRegistration pair) ↔
    ∃ field ∈ fields, SkipsRegistration field := by
  have h := seenPairs_seenAs fields
  generalize seenPairs fields = pairs at h
  induction h with
  | nil => simp
  | cons hseen _ ih =>
      rw [List.exists_mem_cons_iff, List.exists_mem_cons_iff]
      apply or_congr _ ih
      rw [SkipsRegistration, SkipsRegistration, hseen.label, hseen.value, phoneNumber_half]

/-- The buffer holds the input and the 0 after it. -/
theorem sees_input {input : List UInt8} {junk : Mem} :
    Sees (fun i => if i < input.length then input.getD i 0
      else if i = input.length then 0 else junk i) 0 (input ++ [0]) := by
  intro i b hb
  rw [Nat.zero_add]
  have hi := (List.getElem?_eq_some_iff.mp hb).1
  rw [List.length_append, List.length_singleton] at hi
  by_cases hlt : i < input.length
  · rw [List.getElem?_append_left hlt] at hb
    simp only [hlt, if_true, List.getD, hb, Option.getD_some]
  · obtain rfl : i = input.length := by omega
    simpa using hb

/-- The form ends with a value, or with a field without a label that is not the first one. -/
def EndsRead (fields : List (List UInt8 × List UInt8)) : Prop :=
  ∀ field ∈ fields.getLast?, field.2 ≠ [] ∨ field.1 = [] ∧ fields.length ≠ 1

/-- The handler on a form without separators in its texts. -/
theorem userDetails_encodePairs (hne : fields ≠ []) (hplain : ∀ field ∈ fields, PlainField field)
    (hlast : EndsRead fields) (hsize : (encodePairs fields).length < inputSize) (junk : Mem) :
    userDetails (encodePairs fields) junk =
      some (handlePairs (seenPairs fields) fun _ => none) := by
  cases fields with
  | nil => exact absurd rfl hne
  | cons field fields =>
      obtain ⟨hfield, hplain'⟩ := List.forall_mem_cons.mp hplain
      have hpos : (encodePairs (field :: fields)).length ≠ 0 := by
        simp [encodePairs, encodePair]
      have htake : (encodePairs (field :: fields)).take (inputSize - 1) =
          encodePairs (field :: fields) := List.take_of_length_le (by omega)
      have hempty : field.2 = [] → (encodeTail fields).head? = some 0x26 := by
        intro hnil
        cases fields with
        | nil => exact absurd (hlast field rfl) (by simp [hnil])
        | cons field' fields => rfl
      have hlast' : ∀ field ∈ fields.getLast?, field.2 ≠ [] ∨ field.1 = [] := by
        cases fields with
        | nil =>
            intro field hfield
            cases hfield
        | cons field' fields =>
            rw [EndsRead, List.getLast?_cons_cons] at hlast
            exact fun field hfield => (hlast field hfield).imp_right And.left
      simp only [userDetails, htake]
      rw [if_neg hpos]
      generalize hinput : encodePairs (field :: fields) = input at hsize ⊢
      have htext : input = encode field.1 ++ 0x3d :: (encode field.2 ++ encodeTail fields) := by
        rw [← hinput, encodePairs, encodePair, List.append_assoc, List.cons_append]
      generalize hs : Scan.mk (fun i => if i < input.length then input.getD i 0
        else if i = input.length then 0 else junk i) 0 0 0 (fun _ => none) = s
      have hrest : Rest input.length s.input s.offset
          (encode field.1 ++ 0x3d :: (encode field.2 ++ encodeTail fields)) := by
        rw [← hs, ← htext]
        exact ⟨sees_input, Nat.le_of_eq (Nat.zero_add _)⟩
      obtain ⟨n, t, hrounds, hn, hdetails, hend, hlabel, hvalue⟩ := rounds_pair
        (reads_encode hfield.label) List.not_mem_nil sees_nil (by rw [← hs]; rfl) hfield.value
        hempty
        hrest
      rw [htext, List.length_append, List.length_cons, List.length_append] at hsize
      obtain ⟨k, hk⟩ : ∃ k, inputSize = n + k := ⟨inputSize - n, by omega⟩
      rw [hk, hrounds, scan_tail hplain' hlast' hend (by omega), hlabel, hvalue, hdetails, ← hs,
        seenPairs, handlePairs, List.nil_append]
      cases handlePair (field.1.map plusOf) (half field.2) fun _ => none <;> rfl

/-- The object is right exactly if no value of a member starts with an escaped
character or holds a space, or no object is asked for. -/
theorem form_decoded_iff (hplain : ∀ field ∈ fields, PlainField field)
    (hlast : EndsRead fields) (hsize : (encodePairs fields).length < inputSize) (junk : Mem) :
    DecodesForm fields (userDetails (encodePairs fields) junk) ↔
      (∃ field ∈ fields, SkipsRegistration field) ∨
        ∀ f, f ≠ Field.phone → ∀ value ∈ fields.reverse.lookup f.label, Kept value := by
  by_cases hne : fields = []
  · subst hne
    simp [DecodesForm, userDetails, encodePairs]
  rw [userDetails_encodePairs hne hplain hlast hsize, ← seenPairs_skips_iff]
  cases hpairs : handlePairs (seenPairs fields) fun _ => none with
  | noInput => exact absurd hpairs handlePairs_ne_noInput
  | bypass =>
      have hskips := handlePairs_bypass_iff.mp hpairs
      exact iff_of_true (seenPairs_skips_iff.mp hskips) (.inl hskips)
  | written details =>
      have hskips : ¬ ∃ pair ∈ seenPairs fields, SkipsRegistration pair := fun h => by
        rw [handlePairs_bypass_iff.mpr h] at hpairs
        exact nomatch hpairs
      rw [or_iff_right hskips, DecodesForm]
      apply forall_congr'
      intro f
      apply forall_congr'
      intro hf
      rw [handlePairs_written hpairs hf, Option.or_none,
        lookup_seen (List.forall₂_reverse_iff.mpr (seenPairs_seenAs fields))]
      cases fields.reverse.lookup f.label with
      | none => simp
      | some value => simpa using half_eq_iff

/-- A first name between fields without a label, as in `=x&first=Ann%251&=`. -/
def strayFields : List (List UInt8 × List UInt8) :=
  [([], ascii ['x']), (Field.firstName.label, ascii ['A', 'n', 'n', '%', '1']), ([], [])]

theorem form_decoded_stray :
    (encodePairs strayFields).length < inputSize ∧
      DecodesForm strayFields (userDetails (encodePairs strayFields) fun _ => 0xff) := by
  have hplain : ∀ field ∈ strayFields, PlainField field := by
    refine List.forall_mem_cons.mpr ⟨⟨List.forall_mem_nil _, ?_⟩, List.forall_mem_cons.mpr
      ⟨⟨?_, ?_⟩, List.forall_mem_singleton.mpr ⟨List.forall_mem_nil _, List.forall_mem_nil _⟩⟩⟩
    all_goals exact @of_decide_eq_true _ (List.decidableBAll _ _) rfl
  have hkept : ∀ f, f ≠ Field.phone →
      ∀ value ∈ strayFields.reverse.lookup f.label, Kept value := by
    intro f _ value hvalue
    cases f with
    | firstName =>
        obtain rfl := Option.mem_some_iff.mp hvalue
        refine ⟨?_, @of_decide_eq_true _ (List.decidableBAll _ _) rfl⟩
        intro b hb
        obtain rfl := Option.mem_some_iff.mp hb
        rfl
    | _ => exact nomatch hvalue
  have hlast : EndsRead strayFields := by
    intro field hfield
    obtain rfl := Option.mem_some_iff.mp hfield
    exact .inr ⟨rfl, by decide⟩
  refine ⟨by decide, ?_⟩
  rw [form_decoded_iff hplain hlast (by decide)]
  exact .inr hkept

/-- A form with the first name only. -/
def firstForm (value : List UInt8) : List (List UInt8 × List UInt8) :=
  [(Field.firstName.label, value)]

/-- A member of the object written. -/
def memberOf : Option Outcome → Field → Option (List UInt8)
  | some (.written details), f => details f
  | _, _ => none

theorem not_decodes_first {value : List UInt8} {out : Option Outcome}
    (h : memberOf out .firstName ≠ some value) : ¬ DecodesForm (firstForm value) out := by
  intro hdecodes
  match out with
  | some (.written details) => exact h (hdecodes .firstName (by decide))
  | some .bypass =>
      obtain ⟨field, hfield, hlabel, -⟩ := hdecodes
      obtain rfl := List.mem_singleton.mp hfield
      have hlabel' : Field.firstName.label = Field.phone.label := hlabel
      exact absurd hlabel' (by decide)
  | some .noInput => exact nomatch hdecodes

/-- First names that are misread: with a space, with an escaped character at the
start, with a separator, and an empty one before leftovers of the buffer. -/
theorem form_misread :
    (∀ value ∈ [ascii ['A', ' ', 'B'], ascii ['(', 'A'], ascii ['A', '&', 'B'],
        ascii ['A', '=', 'B']],
      ¬ DecodesForm (firstForm value) (userDetails (encodePairs (firstForm value)) fun _ => 0)) ∧
    ¬ DecodesForm (firstForm [])
      (userDetails (encodePairs (firstForm [])) fun i => if i = 7 then 0x3d else if i = 8 then 0x78
        else 0) := by
  have h : (∀ value ∈ [ascii ['A', ' ', 'B'], ascii ['(', 'A'], ascii ['A', '&', 'B'],
        ascii ['A', '=', 'B']],
      memberOf (userDetails (encodePairs (firstForm value)) fun _ => 0) .firstName ≠ some value) ∧
      memberOf (userDetails (encodePairs (firstForm [])) fun i => if i = 7 then 0x3d
        else if i = 8 then 0x78 else 0) .firstName ≠ some [] := by
    decide +kernel
  exact ⟨fun value hvalue => not_decodes_first (h.1 value hvalue), not_decodes_first h.2⟩

end Form

end Speedway.Cgi
