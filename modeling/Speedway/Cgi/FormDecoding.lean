import Mathlib.Data.List.TakeWhile
import Speedway.Lib.FormEncoding
import Speedway.Cgi.UserDetails

/-!
# The scan of a form

The parser looks at decoded characters again as separators, never turns `+`
into a space and skips the first character after every separator. On a form
whose texts have no separators and that ends with a value it hands the texts
seen this way to `handlePair`, pair by pair.
-/

namespace Speedway.Cgi

open Speedway.Lib Speedway.Lib.Form

/-- The parser goes from `s` to `s'` in `n` rounds. -/
def Rounds (result n : Nat) (s s' : Scan) : Prop :=
  ∀ fuel, scanLoop result (n + fuel) s = scanLoop result fuel s'

theorem Rounds.refl {result : Nat} {s : Scan} : Rounds result 0 s s := fun fuel => by
  rw [Nat.zero_add]

theorem Rounds.trans {result n n' : Nat} {s s' s'' : Scan} (h : Rounds result n s s')
    (h' : Rounds result n' s' s'') : Rounds result (n + n') s s'' := fun fuel => by
  rw [Nat.add_assoc, h, h']

/-- The bytes `bs` stand at offset `o`. -/
def Sees (m : Mem) (o : Nat) (bs : List UInt8) : Prop :=
  ∀ i b, bs[i]? = some b → m (o + i) = b

section Sees

variable {m m' : Mem} {o : Nat} {b : UInt8} {bs cs : List UInt8}

theorem sees_nil : Sees m o [] := fun i b h => by simp at h

theorem sees_cons : Sees m o (b :: bs) ↔ m o = b ∧ Sees m (o + 1) bs := by
  constructor
  · intro h
    refine ⟨h 0 b rfl, fun i c hc => ?_⟩
    rw [Nat.add_assoc, Nat.add_comm 1]
    exact h (i + 1) c (by simpa using hc)
  · rintro ⟨hb, hbs⟩ i c hc
    cases i with
    | zero =>
        obtain rfl : b = c := by simpa using hc
        exact hb
    | succ i =>
        have := hbs i c (by simpa using hc)
        rwa [Nat.add_assoc, Nat.add_comm 1] at this

theorem sees_append : Sees m o (bs ++ cs) ↔ Sees m o bs ∧ Sees m (o + bs.length) cs := by
  induction bs generalizing o with
  | nil => simp [sees_nil]
  | cons b bs ih =>
      rw [List.cons_append, sees_cons, sees_cons, ih, List.length_cons, and_assoc,
        show o + 1 + bs.length = o + (bs.length + 1) by omega]

/-- What is seen depends on the bytes looked at. -/
theorem Sees.congr (h : Sees m o bs) (hm : ∀ i, o ≤ i → i < o + bs.length → m' i = m i) :
    Sees m' o bs := by
  intro i b hb
  have hi := (List.getElem?_eq_some_iff.mp hb).1
  rw [hm (o + i) (by omega) (by omega)]
  exact h i b hb

/-- A string is what stands before the first 0 of its bytes. -/
theorem cString_eq_takeWhile {n : Nat} (h : Sees m o (bs ++ [0]))
    (hn : bs.length < n) : cString m n o = bs.takeWhile (· != 0) := by
  induction bs generalizing n o with
  | nil =>
      obtain ⟨n, rfl⟩ := Nat.exists_eq_succ_of_ne_zero (show n ≠ 0 by omega)
      rw [List.nil_append, sees_cons] at h
      rw [cString, if_pos h.1, List.takeWhile_nil]
  | cons b bs ih =>
      obtain ⟨n, rfl⟩ := Nat.exists_eq_succ_of_ne_zero (show n ≠ 0 by omega)
      rw [List.cons_append, sees_cons] at h
      rw [cString, h.1, ih h.2 (Nat.lt_of_succ_lt_succ hn), List.takeWhile_cons]
      by_cases hb : b = 0 <;> simp [hb]

theorem cString_eq {n : Nat} (h : Sees m o (bs ++ [0])) (hbs : (0 : UInt8) ∉ bs)
    (hn : bs.length < n) : cString m n o = bs := by
  rw [cString_eq_takeWhile h hn, List.takeWhile_eq_self_iff]
  intro b hb
  rw [bne_iff_ne]
  exact fun hzero => hbs (hzero ▸ hb)

end Sees

/-- A character at which the parser does something. -/
def Separator (b : UInt8) : Prop := b = 0x3d ∨ b = 0x26 ∨ b = 0

instance : DecidablePred Separator := fun _ => inferInstanceAs (Decidable (_ ∨ _ ∨ _))

/-- The parser turns `src` into `out`: plain characters and escapes of characters
that are not separators. -/
inductive Reads : List UInt8 → List UInt8 → Prop where
  | nil : Reads [] []
  | plain {c : UInt8} {src out : List UInt8} (hc : ¬ Separator c) (hp : c ≠ 0x25)
      (h : Reads src out) : Reads (c :: src) (c :: out)
  | escape {a b : UInt8} {src out : List UInt8} (ha : a ≠ 0) (hb : b ≠ 0)
      (hc : ¬ Separator (strtoul a b)) (h : Reads src out) :
      Reads (0x25 :: a :: b :: src) (strtoul a b :: out)

theorem Reads.append {src src' out out' : List UInt8} (h : Reads src out) (h' : Reads src' out') :
    Reads (src ++ src') (out ++ out') := by
  induction h with
  | nil => exact h'
  | plain hc hp _ ih => exact .plain hc hp ih
  | escape ha hb hc _ ih => exact .escape ha hb hc ih

theorem Reads.length_le {src out : List UInt8} (h : Reads src out) : out.length ≤ src.length := by
  induction h with
  | nil => exact Nat.le_refl _
  | plain _ _ _ ih => exact Nat.succ_le_succ ih
  | escape _ _ _ _ ih =>
      simp only [List.length_cons]
      omega

/-- The characters read are not separators. -/
theorem Reads.not_separator {src out : List UInt8} (h : Reads src out) :
    ∀ b ∈ out, ¬ Separator b := by
  induction h with
  | nil => simp
  | plain hc _ _ ih => exact List.forall_mem_cons.mpr ⟨hc, ih⟩
  | escape _ _ hc _ ih => exact List.forall_mem_cons.mpr ⟨hc, ih⟩

section Rounds

variable {result : Nat} {s : Scan} {rest : List UInt8}

/-- A round for a character that is not a separator. -/
theorem scanLoop_char (fuel : Nat)
    (h : ¬ Separator (decodeAt result s.offset s.input).1) :
    scanLoop result (fuel + 1) s = scanLoop result fuel
      { s with input := (decodeAt result s.offset s.input).2, offset := s.offset + 1 } := by
  have h₁ : ¬ (decodeAt result s.offset s.input).1 = 0x3d := fun hc => h (.inl hc)
  have h₂ : ¬ ((decodeAt result s.offset s.input).1 = 0x26 ∨
      (decodeAt result s.offset s.input).1 = 0) := fun hc => h (.inr hc)
  simp only [scanLoop]
  rw [if_neg h₁, if_neg h₂]

theorem decodeAt_escape {o : Nat} {m : Mem} {a b : UInt8} (ha : a ≠ 0) (hb : b ≠ 0)
    (hpercent : m o = 0x25) (hfirst : m (o + 1) = a) (hsecond : m (o + 2) = b) :
    decodeAt result o m =
      (strtoul a b, (m.copy (o + 1) (m.shift (o + 3)) (result - o)).fill o (strtoul a b) 1) := by
  simp only [decodeAt, hpercent, hfirst, hsecond]
  rw [if_pos ⟨trivial, ha, hb⟩]

/-- What is left of the input at an offset: text and the final 0, inside the part
that an escape moves. -/
structure Rest (result : Nat) (m : Mem) (o : Nat) (rest : List UInt8) : Prop where
  sees : Sees m o (rest ++ [0])
  fits : o + rest.length ≤ result

/-- Text is decoded in place; what stands before it stays. -/
theorem rounds_reads {src out : List UInt8} (h : Reads src out)
    (hrest : Rest result s.input s.offset (src ++ rest)) :
    ∃ m, Rounds result out.length s { s with input := m, offset := s.offset + out.length } ∧
      Sees m s.offset out ∧ Rest result m (s.offset + out.length) rest ∧
      ∀ i, i < s.offset → m i = s.input i := by
  induction h generalizing s with
  | nil => exact ⟨s.input, .refl, sees_nil, hrest, fun _ _ => rfl⟩
  | @plain c src out hc hp _ ih =>
      have hsees := hrest.sees
      have hfits := hrest.fits
      rw [List.cons_append, List.cons_append, sees_cons] at hsees
      rw [List.cons_append, List.length_cons] at hfits
      have hdecode : decodeAt result s.offset s.input = (c, s.input) := by
        rw [decodeAt, hsees.1, if_neg (fun hesc => hp hesc.1)]
      obtain ⟨m, hrounds, hout, hrest', hbefore⟩ := ih (s := { s with offset := s.offset + 1 })
        ⟨hsees.2, show s.offset + 1 + _ ≤ _ by omega⟩
      refine ⟨m, ?_, ?_, ?_, fun i hi => hbefore i (Nat.lt_succ_of_lt hi)⟩
      · intro fuel
        rw [List.length_cons, show out.length + 1 + fuel = out.length + fuel + 1 by omega,
          scanLoop_char _ (by rw [hdecode]; exact hc), hdecode, hrounds fuel]
        rw [show s.offset + (out.length + 1) = s.offset + 1 + out.length by omega]
      · rw [sees_cons]
        exact ⟨(hbefore s.offset (Nat.lt_succ_self _)).trans hsees.1, hout⟩
      · rw [List.length_cons, show s.offset + (out.length + 1) = s.offset + 1 + out.length by omega]
        exact hrest'
  | @escape a b src out ha hb hc _ ih =>
      have hsees := hrest.sees
      have hfits := hrest.fits
      rw [List.cons_append, List.cons_append, List.cons_append, List.cons_append, List.cons_append,
        List.cons_append, sees_cons, sees_cons, sees_cons] at hsees
      obtain ⟨hpercent, hfirst, hsecond, htail⟩ := hsees
      simp only [List.cons_append, List.length_cons] at hfits
      have hdecode := @decodeAt_escape result _ _ _ _ ha hb hpercent hfirst hsecond
      -- the buffer after the escape was replaced
      generalize hm₁ : (s.input.copy (s.offset + 1) (s.input.shift (s.offset + 3))
        (result - s.offset)).fill s.offset (strtoul a b) 1 = m₁ at hdecode
      have hhead : m₁ s.offset = strtoul a b := by
        rw [← hm₁, Mem.fill_inside (by omega)]
      have hsame (i : Nat) (hi : i < s.offset) : m₁ i = s.input i := by
        rw [← hm₁, Mem.fill, if_neg (by omega), Mem.copy_outside (by omega)]
      have hmoved : Rest result m₁ (s.offset + 1) (src ++ rest) := by
        refine ⟨fun i c hci => ?_, by omega⟩
        have hi := (List.getElem?_eq_some_iff.mp hci).1
        rw [List.length_append, List.length_singleton] at hi
        rw [← hm₁, Mem.fill, if_neg (by omega), Mem.copy, if_pos (by omega), Mem.shift_apply,
          ← htail i c hci]
        congr 1
        omega
      obtain ⟨m, hrounds, hout, hrest', hbefore⟩ :=
        ih (s := { s with input := m₁, offset := s.offset + 1 }) hmoved
      refine ⟨m, ?_, ?_, ?_, fun i hi =>
        (hbefore i (Nat.lt_succ_of_lt hi)).trans (hsame i hi)⟩
      · intro fuel
        rw [List.length_cons, show out.length + 1 + fuel = out.length + fuel + 1 by omega,
          scanLoop_char _ (by rw [hdecode]; exact hc), hdecode, hrounds fuel]
        rw [show s.offset + (out.length + 1) = s.offset + 1 + out.length by omega]
      · rw [sees_cons]
        exact ⟨(hbefore s.offset (Nat.lt_succ_self _)).trans hhead, hout⟩
      · rw [List.length_cons, show s.offset + (out.length + 1) = s.offset + 1 + out.length by omega]
        exact hrest'

end Rounds

section Encoded

/-- A space stays the `+` it is written as. -/
def plusOf (b : UInt8) : UInt8 := if b = 0x20 then 0x2b else b

/-- The text that the parser sees after a separator: the first character stays as
it is written. -/
def half : List UInt8 → List UInt8
  | [] => []
  | b :: bs => encodeByte b ++ bs.map plusOf

set_option maxRecDepth 10000 in
theorem strtoul_hexDigit : ∀ n : Fin 256,
    strtoul (hexDigit (n.val / 16)) (hexDigit (n.val % 16)) = UInt8.ofNat n.val := by
  decide

theorem hexDigit_plain : ∀ n : Fin 16, ¬ Separator (hexDigit n.val) ∧ hexDigit n.val ≠ 0x25 := by
  decide

set_option maxRecDepth 10000 in
theorem unreserved_plain : ∀ n : Fin 256, unreserved (UInt8.ofNat n.val) = true →
    ¬ Separator (UInt8.ofNat n.val) ∧ UInt8.ofNat n.val ≠ 0x25 ∧ UInt8.ofNat n.val ≠ 0x20 := by
  decide

/-- The two digits of an escape. -/
theorem escape_digits (b : UInt8) :
    strtoul (hexDigit (b.toNat / 16)) (hexDigit (b.toNat % 16)) = b ∧
      (¬ Separator (hexDigit (b.toNat / 16)) ∧ hexDigit (b.toNat / 16) ≠ 0x25) ∧
      ¬ Separator (hexDigit (b.toNat % 16)) ∧ hexDigit (b.toNat % 16) ≠ 0x25 := by
  have hlt := b.toNat_lt
  refine ⟨?_, hexDigit_plain ⟨b.toNat / 16, by omega⟩, hexDigit_plain ⟨b.toNat % 16, by omega⟩⟩
  have h := strtoul_hexDigit ⟨b.toNat, by omega⟩
  rwa [UInt8.ofNat_toNat] at h

theorem unreserved_spec {b : UInt8} (h : unreserved b = true) :
    ¬ Separator b ∧ b ≠ 0x25 ∧ b ≠ 0x20 := by
  have hlt := b.toNat_lt
  have hspec := unreserved_plain ⟨b.toNat, by omega⟩
  simp only [UInt8.ofNat_toNat] at hspec
  exact hspec h

theorem reads_encodeByte {b : UInt8} (hb : ¬ Separator b) : Reads (encodeByte b) [plusOf b] := by
  obtain ⟨hval, ⟨hfirst, -⟩, hsecond, -⟩ := escape_digits b
  simp only [encodeByte, plusOf]
  split
  · next hu =>
      obtain ⟨-, hpercent, hspace⟩ := unreserved_spec hu
      rw [if_neg hspace]
      exact .plain hb hpercent .nil
  · split
    · exact .plain (by decide) (by decide) .nil
    · have hb' : ¬ Separator (strtoul (hexDigit (b.toNat / 16)) (hexDigit (b.toNat % 16))) := by
        rwa [hval]
      have h := Reads.escape (fun h0 => hfirst (.inr (.inr h0)))
        (fun h0 => hsecond (.inr (.inr h0))) hb' .nil
      rwa [hval] at h

theorem reads_encode {text : List UInt8} (h : ∀ b ∈ text, ¬ Separator b) :
    Reads (encode text) (text.map plusOf) := by
  induction text with
  | nil => exact .nil
  | cons b text ih =>
      rw [List.forall_mem_cons] at h
      exact (reads_encodeByte h.1).append (ih h.2)

/-- The written form of a character: its first byte is no separator, and the bytes
after it are plain. -/
theorem encodeByte_cons (b : UInt8) :
    ∃ e es, encodeByte b = e :: es ∧ ¬ Separator e ∧ Reads es es := by
  obtain ⟨-, ⟨hfirst, hfirst'⟩, hsecond, hsecond'⟩ := escape_digits b
  simp only [encodeByte]
  split
  · next hu => exact ⟨b, [], rfl, (unreserved_spec hu).1, .nil⟩
  · split
    · exact ⟨0x2b, [], rfl, by decide, .nil⟩
    · exact ⟨0x25, _, rfl, by decide, .plain hfirst hfirst' (.plain hsecond hsecond' .nil)⟩

/-- A text after a separator: the first byte is skipped and the rest is read. -/
theorem encode_after_separator {b : UInt8} {bs : List UInt8} (h : ∀ c ∈ bs, ¬ Separator c) :
    ∃ e src out, encode (b :: bs) = e :: src ∧ half (b :: bs) = e :: out ∧ ¬ Separator e ∧
      Reads src out := by
  obtain ⟨e, es, he, hsep, hes⟩ := encodeByte_cons b
  refine ⟨e, es ++ encode bs, es ++ bs.map plusOf, ?_, ?_, hsep, hes.append (reads_encode h)⟩
  · rw [encode_cons, he, List.cons_append]
  · rw [half, he, List.cons_append]

end Encoded

section Fields

variable {result : Nat} {s : Scan} {rest : List UInt8}

/-- The bytes from an offset on, before its last one. -/
theorem Rest.head {m : Mem} {o : Nat} {c : UInt8} (h : Rest result m o (c :: rest)) :
    m o = c ∧ Rest result m (o + 1) rest := by
  have hsees := h.sees
  have hfits := h.fits
  rw [List.cons_append, sees_cons] at hsees
  rw [List.length_cons] at hfits
  exact ⟨hsees.1, hsees.2, by omega⟩

/-- A 0 stored before the rest does not matter. -/
theorem Rest.fill {m : Mem} {o i : Nat} (h : Rest result m o rest) (hi : i < o) :
    Rest result (m.fill i 0 1) o rest :=
  ⟨h.sees.congr fun j hj _ => by rw [Mem.fill, if_neg (by omega)], h.fits⟩

theorem decodeAt_plain {o : Nat} {m : Mem} (h : m o ≠ 0x25) : decodeAt result o m = (m o, m) := by
  rw [decodeAt, if_neg (fun hesc => h hesc.1)]

/-- From `=` to the end of a value that is not empty, or empty before `&`. -/
theorem rounds_value {value : List UInt8} (hsep : ∀ b ∈ value, ¬ Separator b)
    (hrest : Rest result s.input s.offset (0x3d :: (encode value ++ rest)))
    (hempty : value = [] → rest.head? = some 0x26) :
    ∃ n m e start, Rounds result n s { s with input := m, offset := e, valueStart := start } ∧
      n ≤ 1 + (encode value).length ∧ s.offset < e ∧ Rest result m e rest ∧
      m s.offset = 0 ∧ (∀ i, i < s.offset → m i = s.input i) ∧
      cString (m.fill e 0 1) (e + 1 - start) start = half value := by
  obtain ⟨hequals, hafter⟩ := hrest.head
  have hdecode : decodeAt result s.offset s.input = (0x3d, s.input) := by
    rw [decodeAt_plain (by rw [hequals]; decide), hequals]
  have hzero : (s.input.fill s.offset 0 1) s.offset = 0 := Mem.fill_inside (by omega)
  have hbefore (i : Nat) (hi : i < s.offset) : (s.input.fill s.offset 0 1) i = s.input i := by
    rw [Mem.fill, if_neg (by omega)]
  have hfilled := hafter.fill (Nat.lt_succ_self s.offset)
  cases value with
  | nil =>
      -- the value is the 0 that replaces `=`
      obtain ⟨r, hr⟩ : ∃ r, rest = 0x26 :: r := by
        have h := hempty rfl
        cases rest with
        | nil => simp at h
        | cons c r =>
            obtain rfl : c = 0x26 := by simpa using h
            exact ⟨r, rfl⟩
      rw [encode_nil, List.nil_append] at hfilled
      have hnext : (s.input.fill s.offset 0 1) (s.offset + 1) = 0x26 := by
        rw [hr] at hfilled
        exact hfilled.head.1
      refine ⟨1, _, s.offset + 1, s.offset, fun fuel => ?_, by simp, Nat.lt_succ_self _, hfilled,
        hzero, hbefore, ?_⟩
      · rw [Nat.add_comm 1 fuel]
        simp only [scanLoop, hdecode, if_true, hnext]
      · apply cString_eq _ List.not_mem_nil (by simp)
        rw [List.nil_append, sees_cons]
        refine ⟨?_, sees_nil⟩
        rw [Mem.fill, if_neg (by omega)]
        exact hzero
  | cons b bs =>
      rw [List.forall_mem_cons] at hsep
      obtain ⟨e₀, src, out, hencode, hhalf, hsep₀, hreads⟩ := encode_after_separator (b := b) hsep.2
      rw [hencode, List.cons_append] at hfilled
      obtain ⟨hfirst, hskipped⟩ := hfilled.head
      have hnext : ¬ (s.input.fill s.offset 0 1) (s.offset + 1) = 0x26 := by
        rw [hfirst]
        exact fun h => hsep₀ (.inr (.inl h))
      obtain ⟨m, hrounds, hout, hend, hkept⟩ := rounds_reads
        (s := { s with
          input := s.input.fill s.offset 0 1
          valueStart := s.offset + 1
          offset := s.offset + 2 }) hreads hskipped
      refine ⟨1 + out.length, m, s.offset + 2 + out.length, s.offset + 1, ?_, ?_, by omega, hend,
        ?_, fun i hi => ?_, ?_⟩
      · intro fuel
        rw [Nat.add_assoc, Nat.add_comm 1, ← hrounds fuel]
        simp only [scanLoop, hdecode, if_true]
        rw [if_neg hnext]
      · have := hreads.length_le
        rw [hencode, List.length_cons]
        omega
      · exact (hkept s.offset (show s.offset < s.offset + 2 by omega)).trans hzero
      · exact (hkept i (show i < s.offset + 2 by omega)).trans (hbefore i hi)
      · rw [hhalf]
        apply cString_eq
        · rw [List.cons_append, sees_cons, sees_append, sees_cons]
          refine ⟨?_, hout.congr fun i h₁ h₂ => ?_, ?_, sees_nil⟩
          · rw [Mem.fill, if_neg (by omega)]
            exact (hkept (s.offset + 1) (show s.offset + 1 < s.offset + 2 by omega)).trans hfirst
          · have h₂' : i < s.offset + 1 + 1 + out.length := h₂
            rw [Mem.fill, if_neg (by omega)]
          · exact Mem.fill_inside (by omega)
        · intro hmem
          rcases List.mem_cons.mp hmem with h0 | h0
          · exact hsep₀ (.inr (.inr h0.symm))
          · exact hreads.not_separator 0 h0 (.inr (.inr rfl))
        · rw [List.length_cons]
          omega

/-- The label of a pair that ends at the offset. -/
def Scan.labelText (s : Scan) : List UInt8 :=
  cString (s.input.fill s.offset 0 1) (s.offset + 1 - s.labelStart) s.labelStart

/-- Its value. -/
def Scan.valueText (s : Scan) : List UInt8 :=
  cString (s.input.fill s.offset 0 1) (s.offset + 1 - s.valueStart) s.valueStart

/-- The state after a pair that is not the last one. -/
def Scan.nextPair (s : Scan) (details : Details) : Scan :=
  { s with
    input := s.input.fill s.offset 0 1
    details := details
    labelStart := s.offset + 1
    offset := s.offset + 2 }

/-- A round at the end of a pair. -/
theorem scanLoop_pair_end (fuel : Nat) {c : UInt8} (hc : c = 0x26 ∨ c = 0)
    (hsees : s.input s.offset = c) :
    scanLoop result (fuel + 1) s =
      match handlePair s.labelText s.valueText s.details with
      | none => some .bypass
      | some details =>
          if c = 0 then some (.written details)
          else scanLoop result fuel (s.nextPair details) := by
  have hpercent : s.input s.offset ≠ 0x25 := by
    rw [hsees]
    rcases hc with rfl | rfl <;> decide
  have hequals : ¬ c = 0x3d := by
    rcases hc with rfl | rfl <;> decide
  simp only [scanLoop, decodeAt_plain hpercent, hsees]
  refine (if_neg hequals).trans ((if_pos hc).trans ?_)
  rw [Scan.labelText, Scan.valueText]
  cases handlePair _ _ s.details <;> rfl

/-- The uses made of pairs, one after the other. -/
def handlePairs : List (List UInt8 × List UInt8) → Details → Outcome
  | [], details => .written details
  | pair :: pairs, details =>
      match handlePair pair.1 pair.2 details with
      | none => .bypass
      | some details => handlePairs pairs details

/-- The fields after the first one, as the parser sees them. -/
def seenTail (fields : List (List UInt8 × List UInt8)) : List (List UInt8 × List UInt8) :=
  fields.map fun field => (half field.1, half field.2)

/-- A field whose texts have no separators. -/
structure PlainField (field : List UInt8 × List UInt8) : Prop where
  label : ∀ b ∈ field.1, ¬ Separator b
  value : ∀ b ∈ field.2, ¬ Separator b

/-- From inside a label, of which `pre` was read already, to the end of its value. -/
theorem rounds_pair {pre src out value : List UInt8} (hreads : Reads src out)
    (hpre : (0 : UInt8) ∉ pre) (hsees : Sees s.input s.labelStart pre)
    (hoffset : s.labelStart + pre.length = s.offset) (hsep : ∀ b ∈ value, ¬ Separator b)
    (hempty : value = [] → rest.head? = some 0x26)
    (hrest : Rest result s.input s.offset (src ++ 0x3d :: (encode value ++ rest))) :
    ∃ n t, Rounds result n s t ∧ n ≤ src.length + 1 + (encode value).length ∧
      t.details = s.details ∧ Rest result t.input t.offset rest ∧
      t.labelText = pre ++ out ∧ t.valueText = half value := by
  obtain ⟨m₁, hlabel, hout, hrest₁, hkept₁⟩ := rounds_reads hreads hrest
  obtain ⟨n, m₂, e, start, hvalue, hn, he, hrest₂, hzero, hkept₂, hstring⟩ :=
    rounds_value (s := { s with input := m₁, offset := s.offset + out.length }) hsep hrest₁ hempty
  have he' : s.offset + out.length < e := he
  refine ⟨out.length + n, _, hlabel.trans hvalue, ?_, rfl, hrest₂, ?_, hstring⟩
  · have := hreads.length_le
    omega
  · show cString (m₂.fill e 0 1) (e + 1 - s.labelStart) s.labelStart = pre ++ out
    apply cString_eq
    · rw [sees_append, sees_append, List.length_append, sees_cons]
      refine ⟨⟨hsees.congr fun i h₁ h₂ => ?_, ?_⟩, ?_, sees_nil⟩
      · rw [Mem.fill, if_neg (by omega), hkept₂ i (show i < s.offset + out.length by omega)]
        exact hkept₁ i (by omega)
      · rw [hoffset]
        apply hout.congr
        intro i h₁ h₂
        rw [Mem.fill, if_neg (by omega)]
        exact hkept₂ i h₂
      · rw [← Nat.add_assoc, hoffset, Mem.fill, if_neg (by omega)]
        exact hzero
    · intro hmem
      rcases List.mem_append.mp hmem with h | h
      · exact hpre h
      · exact hreads.not_separator 0 h (.inr (.inr rfl))
    · rw [List.length_append]
      omega

/-- A label that no member has is passed over. -/
theorem handlePair_other {label value : List UInt8} {details : Details}
    (h : ∀ f : Field, label ≠ f.label) : handlePair label value details = some details := by
  simp only [handlePair]
  split
  · rfl
  · rw [if_neg (h .firstName), if_neg (h .lastName), if_neg (h .company), if_neg (h .phone),
      if_neg (h .email)]

theorem equals_ne_label (text : List UInt8) (f : Field) : 0x3d :: text ≠ f.label := by
  intro h
  cases f <;> exact absurd (List.cons.inj h).1 (by decide)

/-- After a separator the `=` of an empty label is skipped, and the value is taken for a label
that starts with it. -/
theorem rounds_unlabelled {value : List UInt8} (hsep : ∀ b ∈ value, ¬ Separator b)
    (hstart : s.input s.labelStart = 0x3d) (hoffset : s.labelStart + 1 = s.offset)
    (hrest : Rest result s.input s.offset (encode value ++ rest)) :
    ∃ n t, Rounds result n s t ∧ n ≤ (encode value).length ∧ t.details = s.details ∧
      Rest result t.input t.offset rest ∧ ∃ text, t.labelText = 0x3d :: text := by
  have hreads := reads_encode hsep
  obtain ⟨m, hrounds, -, hend, hkept⟩ := rounds_reads hreads hrest
  refine ⟨_, _, hrounds, hreads.length_le, rfl, hend, ?_⟩
  have hfirst : (m.fill (s.offset + (value.map plusOf).length) 0 1) s.labelStart = 0x3d := by
    rw [Mem.fill, if_neg (by omega), hkept _ (by omega), hstart]
  obtain ⟨k, hk⟩ : ∃ k, s.offset + (value.map plusOf).length + 1 - s.labelStart = k + 1 :=
    ⟨s.offset + (value.map plusOf).length - s.labelStart, by omega⟩
  refine ⟨cString (m.fill (s.offset + (value.map plusOf).length) 0 1) k (s.labelStart + 1), ?_⟩
  show cString _ (s.offset + (value.map plusOf).length + 1 - s.labelStart) s.labelStart = _
  rw [hk, cString, hfirst, if_neg (by decide)]

/-- The scan of the fields that are left, from the end of a pair. -/
theorem scan_tail {fields : List (List UInt8 × List UInt8)} {fuel : Nat}
    (hplain : ∀ field ∈ fields, PlainField field)
    (hlast : ∀ field ∈ fields.getLast?, field.2 ≠ [] ∨ field.1 = [])
    (hrest : Rest result s.input s.offset (encodeTail fields))
    (hfuel : (encodeTail fields).length < fuel) :
    scanLoop result fuel s =
      match handlePair s.labelText s.valueText s.details with
      | none => some .bypass
      | some details => some (handlePairs (seenTail fields) details) := by
  obtain ⟨k, rfl⟩ : ∃ k, fuel = k + 1 := ⟨fuel - 1, by omega⟩
  induction fields generalizing s k with
  | nil =>
      rw [scanLoop_pair_end k (.inr rfl) (hrest.sees 0 0 rfl)]
      cases handlePair s.labelText s.valueText s.details <;> rfl
  | cons field fields ih =>
      obtain ⟨hfield, hplain'⟩ := List.forall_mem_cons.mp hplain
      obtain ⟨label, value⟩ := field
      have hvalue : ∀ b ∈ value, ¬ Separator b := hfield.value
      have hlast' : ∀ field ∈ fields.getLast?, field.2 ≠ [] ∨ field.1 = [] := by
        cases fields with
        | nil => exact nofun
        | cons field' fields => rwa [List.getLast?_cons_cons] at hlast
      rw [encodeTail_cons] at hrest hfuel
      obtain ⟨hamp, hnext⟩ := hrest.head
      rw [scanLoop_pair_end k (.inl rfl) hamp]
      cases handlePair s.labelText s.valueText s.details with
      | none => rfl
      | some details =>
          -- the first byte of the next label is skipped
          have hfilled := hnext.fill (Nat.lt_succ_self s.offset)
          rw [encodePair, List.append_assoc, List.cons_append] at hfilled hfuel
          simp only [List.length_append, List.length_cons] at hfilled hfuel
          show scanLoop result k (s.nextPair details) =
            some (handlePairs ((half label, half value) :: seenTail fields) details)
          rw [handlePairs]
          cases label with
          | nil =>
              obtain ⟨hequals, hafter⟩ := hfilled.head
              obtain ⟨n, t, hrounds, hn, hdetails, hend, text, htext⟩ :=
                rounds_unlabelled (s := s.nextPair details) hvalue hequals rfl hafter
              obtain ⟨k', rfl⟩ : ∃ k', k = n + (k' + 1) := ⟨k - n - 1, by omega⟩
              have hnone : ∀ f : Field, half [] ≠ f.label := by
                intro f
                cases f <;> exact (List.cons_ne_nil _ _).symm
              rw [hrounds, ih hplain' hlast' hend k' (by omega), htext, hdetails,
                handlePair_other (equals_ne_label text), handlePair_other hnone]
              rfl
          | cons b bs =>
              obtain ⟨e, src, out, hencode, hhalf, hsep, hreads⟩ :=
                encode_after_separator (b := b) (List.forall_mem_cons.mp hfield.label).2
              rw [hencode, List.cons_append] at hfilled
              rw [hencode, List.length_cons] at hfuel
              obtain ⟨hfirst, hskipped⟩ := hfilled.head
              have hskip : (0 : UInt8) ∉ [e] := by
                rw [List.mem_singleton]
                exact fun h0 => hsep (.inr (.inr h0.symm))
              have hempty : value = [] → (encodeTail fields).head? = some 0x26 := by
                intro hnil
                cases fields with
                | nil => exact absurd (hlast _ rfl) (by simp [hnil])
                | cons field' fields => rfl
              obtain ⟨n, t, hrounds, hn, hdetails, hend, hlabel, htext⟩ :=
                rounds_pair (s := s.nextPair details) hreads hskip
                  (sees_cons.mpr ⟨hfirst, sees_nil⟩) rfl hvalue hempty hskipped
              obtain ⟨k', rfl⟩ : ∃ k', k = n + (k' + 1) := ⟨k - n - 1, by omega⟩
              rw [hrounds, ih hplain' hlast' hend k' (by omega), hlabel, htext, hdetails,
                List.singleton_append, ← hhalf]
              show (match handlePair (half (b :: bs)) (half value) details with
                | none => some Outcome.bypass
                | some details => some (handlePairs (seenTail fields) details)) = _
              cases handlePair (half (b :: bs)) (half value) details <;> rfl

end Fields

end Speedway.Cgi
