import Mathlib.Data.List.TakeWhile

/-!
# Assignments, matches and substitutions of awk

The parts of POSIX awk with which scripts edit lines: the value of a `-v name=value`
operand, in which escape sequences are read as in a string of the program, the test for
a literal text, and `sub`, in whose replacement `&` stands for the matched text.
-/

namespace Speedway.Lib.Awk

/-- How far the reading of an escape sequence has come: at most `left` further digits
belong to an octal number. -/
inductive Reading where
  | plain
  | backslash
  | octal (left value : Nat)

/-- The escape sequences of one character. -/
def escapeChar : Char → Option Char
  | '"' => some '"'
  | '/' => some '/'
  | '\\' => some '\\'
  | 'a' => some '\x07'
  | 'b' => some '\x08'
  | 'f' => some '\x0c'
  | 'n' => some '\n'
  | 'r' => some '\x0d'
  | 't' => some '\t'
  | 'v' => some '\x0b'
  | _ => none

def isOctal (c : Char) : Bool := '0' ≤ c && c ≤ '7'

/-- The value that an operand assigns. What a backslash before another character means
is undefined and chosen by the implementation; a last backslash stands for itself. -/
def assigned (undef : Char → List Char) : Reading → List Char → List Char
  | .plain, [] => []
  | .plain, c :: cs =>
      if c = '\\' then assigned undef .backslash cs else c :: assigned undef .plain cs
  | .backslash, [] => ['\\']
  | .backslash, c :: cs =>
      match escapeChar c with
      | some d => d :: assigned undef .plain cs
      | none =>
          if isOctal c then assigned undef (.octal 2 (c.toNat - '0'.toNat)) cs
          else undef c ++ assigned undef .plain cs
  | .octal _ value, [] => [Char.ofNat value]
  | .octal left value, c :: cs =>
      if left ≠ 0 ∧ isOctal c = true then
        assigned undef (.octal (left - 1) (8 * value + (c.toNat - '0'.toNat))) cs
      else
        Char.ofNat value ::
          if c = '\\' then assigned undef .backslash cs else c :: assigned undef .plain cs

/-- What `sub` puts in the place of the matched text. -/
def replaced (matched : List Char) : List Char → List Char
  | [] => []
  | [c] => if c = '&' then matched else [c]
  | c :: d :: cs =>
      if c = '\\' ∧ (d = '&' ∨ d = '\\') then d :: replaced matched cs
      else (if c = '&' then matched else [c]) ++ replaced matched (d :: cs)

/-- A line contains a literal text. -/
def occurs (p : List Char) : List Char → Bool
  | [] => p.isEmpty
  | c :: cs => p.isPrefixOf (c :: cs) || occurs p cs

/-- `sub` for an expression of which `find` gives the match at the start of a text and
what follows it. The leftmost match is replaced. -/
def sub (find : List Char → Option (List Char × List Char)) (repl : List Char) :
    List Char → List Char
  | [] =>
      match find [] with
      | some (matched, rest) => replaced matched repl ++ rest
      | none => []
  | c :: cs =>
      match find (c :: cs) with
      | some (matched, rest) => replaced matched repl ++ rest
      | none => c :: sub find repl cs

/-- The match of a literal text and everything up to the next `q`. -/
def upTo (q : Char) (lit l : List Char) : Option (List Char × List Char) :=
  if lit.isPrefixOf l then
    match (l.drop lit.length).dropWhile (· != q) with
    | [] => none
    | _ :: rest => some (lit ++ (l.drop lit.length).takeWhile (· != q) ++ [q], rest)
  else none

section Assignment

variable {undef : Char → List Char} {cs v : List Char}

/-- A value without backslashes before its last character is assigned as it is. -/
theorem assigned_eq_self (h : '\\' ∉ v.dropLast) : assigned undef .plain v = v := by
  induction v with
  | nil => rfl
  | cons c cs ih =>
      by_cases hc : c = '\\'
      · cases cs with
        | nil => rw [hc, assigned, if_pos rfl, assigned]
        | cons d cs => exact absurd (hc ▸ List.mem_cons_self) h
      · have htail : '\\' ∉ cs.dropLast := fun hmem => h (by
          cases cs with
          | nil => exact absurd hmem List.not_mem_nil
          | cons d cs => exact List.mem_cons_of_mem c hmem)
        rw [assigned, if_neg hc, ih htail]

/-- The most characters that a reading gives if an undefined sequence gives one. -/
def Reading.bound : Reading → Nat → Nat
  | .plain, n => n
  | .backslash, n => max n 1
  | .octal _ _, n => n + 1

theorem length_assigned_le (hundef : ∀ c, (undef c).length = 1) (reading : Reading) :
    (assigned undef reading cs).length ≤ reading.bound cs.length := by
  induction cs generalizing reading with
  | nil => cases reading <;> simp [assigned, Reading.bound]
  | cons c cs ih =>
      have hplain := ih .plain
      have hbackslash := ih .backslash
      cases reading with
      | plain =>
          rw [assigned]
          split
          · simp only [Reading.bound, List.length_cons] at hbackslash ⊢
            omega
          · simp only [Reading.bound, List.length_cons] at hplain ⊢
            omega
      | backslash =>
          rw [assigned]
          simp only [Reading.bound, List.length_cons] at hplain ⊢
          split
          · rw [List.length_cons]
            omega
          · split
            · have hoctal := ih (.octal 2 (c.toNat - '0'.toNat))
              simp only [Reading.bound] at hoctal
              omega
            · rw [List.length_append, hundef]
              omega
      | octal left value =>
          rw [assigned]
          simp only [Reading.bound, List.length_cons] at hplain hbackslash ⊢
          split
          · have hoctal := ih (.octal (left - 1) (8 * value + (c.toNat - '0'.toNat)))
            simp only [Reading.bound] at hoctal
            omega
          · rw [List.length_cons]
            split
            · omega
            · rw [List.length_cons]
              omega

/-- Any other value gets shorter. -/
theorem length_assigned_lt (hundef : ∀ c, (undef c).length = 1) (h : '\\' ∈ v.dropLast) :
    (assigned undef .plain v).length < v.length := by
  induction v with
  | nil => exact absurd h List.not_mem_nil
  | cons c cs ih =>
      cases cs with
      | nil => exact absurd h List.not_mem_nil
      | cons d cs =>
          rw [assigned]
          split
          · have hle := @length_assigned_le _ (d :: cs) hundef .backslash
            simp only [Reading.bound, List.length_cons] at hle ⊢
            omega
          next hc =>
            have htail : '\\' ∈ (d :: cs).dropLast := by
              rcases List.mem_cons.mp h with heq | hmem
              · exact absurd heq.symm hc
              · exact hmem
            have := ih htail
            simp only [List.length_cons] at this ⊢
            omega

end Assignment

section Replacement

variable {matched a b v : List Char} {c q : Char}

theorem replaced_cons (hamp : c ≠ '&') (hback : c ≠ '\\') :
    replaced matched (c :: b) = c :: replaced matched b := by
  cases b with
  | nil => exact if_neg hamp
  | cons d b =>
      rw [replaced, if_neg fun hesc => hback hesc.1, if_neg hamp, List.singleton_append]

theorem replaced_append (h : ∀ c ∈ a, c ≠ '&' ∧ c ≠ '\\') :
    replaced matched (a ++ b) = a ++ replaced matched b := by
  induction a with
  | nil => rfl
  | cons c a ih =>
      obtain ⟨⟨hamp, hback⟩, htail⟩ := List.forall_mem_cons.mp h
      rw [List.cons_append, replaced_cons hamp hback, ih htail, List.cons_append]

/-- A character after the replacement does not change its meaning. -/
theorem replaced_concat (hamp : q ≠ '&') (hback : q ≠ '\\') :
    replaced matched (v ++ [q]) = replaced matched v ++ [q] := by
  fun_induction replaced matched v with
  | case1 => exact if_neg hamp
  | case2 =>
      rw [List.singleton_append, replaced, if_neg fun hesc => hesc.2.elim hamp hback, if_pos rfl,
        replaced_cons hamp hback, replaced]
  | case3 c hc =>
      rw [List.singleton_append, replaced, if_neg fun hesc => hesc.2.elim hamp hback, if_neg hc,
        replaced_cons hamp hback, replaced, List.singleton_append]
  | case4 c d cs hesc ih =>
      rw [List.cons_append, List.cons_append, replaced, if_pos hesc, ih, List.cons_append]
  | case5 c d cs hesc ih =>
      rw [List.cons_append, List.cons_append, replaced, if_neg hesc, ← List.cons_append, ih,
        List.append_assoc]

/-- A replacement without `&` and without backslashes before its last character. -/
theorem replaced_eq_self (hamp : '&' ∉ v) (hback : '\\' ∉ v.dropLast) :
    replaced matched v = v := by
  fun_induction replaced matched v with
  | case1 => rfl
  | case2 => exact absurd List.mem_cons_self hamp
  | case3 c hc => rfl
  | case4 c d cs hesc ih => exact absurd (hesc.1 ▸ List.mem_cons_self) hback
  | case5 c d cs hesc ih =>
      have hc : c ≠ '&' := fun heq => hamp (heq ▸ List.mem_cons_self)
      rw [if_neg hc, ih (fun hmem => hamp (List.mem_cons_of_mem c hmem))
        (fun hmem => hback (List.mem_cons_of_mem c hmem)), List.singleton_append]

/-- A replacement with `&` brings in the matched text. -/
theorem mem_replaced (hq : q ∈ matched) (hamp : '&' ∈ v) (hback : '\\' ∉ v.dropLast) :
    q ∈ replaced matched v := by
  fun_induction replaced matched v with
  | case1 => exact absurd hamp List.not_mem_nil
  | case2 => exact hq
  | case3 c hc => exact absurd (List.mem_singleton.mp hamp).symm hc
  | case4 c d cs hesc ih => exact absurd (hesc.1 ▸ List.mem_cons_self) hback
  | case5 c d cs hesc ih =>
      by_cases hc : c = '&'
      · rw [if_pos hc]
        exact List.mem_append_left _ hq
      · refine List.mem_append_right _ (ih ?_ fun hmem => hback (List.mem_cons_of_mem c hmem))
        exact (List.mem_cons.mp hamp).resolve_left fun heq => hc heq.symm

/-- Without the matched text a replacement does not get longer. -/
theorem mem_replaced_or_length_le (hq : q ∈ matched) :
    q ∈ replaced matched v ∨ (replaced matched v).length ≤ v.length := by
  fun_induction replaced matched v with
  | case1 => exact .inr (Nat.le_refl _)
  | case2 => exact .inl hq
  | case3 c hc => exact .inr (Nat.le_refl _)
  | case4 c d cs hesc ih =>
      rcases ih with hmem | hle
      · exact .inl (List.mem_cons_of_mem d hmem)
      · refine .inr ?_
        simp only [List.length_cons]
        omega
  | case5 c d cs hesc ih =>
      by_cases hc : c = '&'
      · rw [if_pos hc]
        exact .inl (List.mem_append_left _ hq)
      · rcases ih with hmem | hle
        · exact .inl (List.mem_append_right _ hmem)
        · refine .inr ?_
          rw [if_neg hc, List.length_append, List.length_singleton, List.length_cons]
          omega

/-- A value that is assigned and then used as a replacement arrives unchanged, whatever
the undefined sequences mean, exactly if it has no `&` and no backslash before its
last character. -/
theorem replaced_assigned_iff (hq : q ∈ matched) (hv : q ∉ v) :
    (∀ undef, replaced matched (assigned undef .plain v) = v) ↔
      '&' ∉ v ∧ '\\' ∉ v.dropLast := by
  constructor
  · intro h
    have hback : '\\' ∉ v.dropLast := fun hmem => by
      have hlt := @length_assigned_lt (fun c => [c]) _ (fun _ => rfl) hmem
      rcases mem_replaced_or_length_le (v := assigned (fun c => [c]) .plain v) hq with hin | hle
      · rw [h] at hin
        exact hv hin
      · rw [h] at hle
        omega
    refine ⟨fun hamp => hv ?_, hback⟩
    have hin := mem_replaced hq hamp hback
    rwa [← @assigned_eq_self (fun c => [c]) _ hback, h] at hin
  · rintro ⟨hamp, hback⟩ undef
    rw [assigned_eq_self hback, replaced_eq_self hamp hback]

end Replacement

section Matches

variable {p l pre : List Char} {c : Char}

theorem occurs_iff : occurs p l = true ↔ p <:+: l := by
  induction l with
  | nil => rw [occurs, List.isEmpty_iff, List.infix_nil]
  | cons c l ih =>
      rw [occurs, Bool.or_eq_true, List.isPrefixOf_iff_prefix, ih, List.infix_cons_iff]

/-- A text that starts with a character does not occur where this is missing. -/
theorem not_occurs_of_not_mem (h : c ∉ l) : occurs (c :: p) l = false := by
  rw [Bool.eq_false_iff, Ne, occurs_iff]
  intro hinside
  exact h (hinside.subset List.mem_cons_self)

theorem occurs_append_of_not_mem (h : c ∉ pre) :
    occurs (c :: p) (pre ++ l) = occurs (c :: p) l := by
  induction pre with
  | nil => rfl
  | cons d pre ih =>
      rw [List.mem_cons, not_or] at h
      rw [List.cons_append, occurs, ih h.2, List.isPrefixOf_cons_cons, beq_false_of_ne h.1,
        Bool.false_and, Bool.false_or]

end Matches

section Substitution

variable {lit pre t rest repl : List Char} {c q : Char}

theorem upTo_eq_some (ht : q ∉ t) :
    upTo q lit (lit ++ (t ++ q :: rest)) = some (lit ++ t ++ [q], rest) := by
  have hall : ∀ d ∈ t, (d != q) = true := fun d hd =>
    bne_iff_ne.mpr fun heq => ht (heq ▸ hd)
  have hlit := List.isPrefixOf_iff_prefix.mpr (List.prefix_append lit (t ++ q :: rest))
  rw [upTo, if_pos hlit, List.drop_left,
    List.dropWhile_append_of_pos hall, List.takeWhile_append_of_pos hall]
  simp

/-- The first `lit` is replaced with what follows up to the next `q`. -/
theorem sub_upTo (hpre : c ∉ pre) (ht : q ∉ t) :
    sub (upTo q (c :: lit)) repl (pre ++ (c :: lit ++ (t ++ q :: rest))) =
      pre ++ (replaced (c :: lit ++ t ++ [q]) repl ++ rest) := by
  induction pre with
  | nil =>
      rw [List.nil_append, List.nil_append, List.cons_append, sub, ← List.cons_append,
        upTo_eq_some ht]
  | cons d pre ih =>
      rw [List.mem_cons, not_or] at hpre
      have hnone : ∀ l, upTo q (c :: lit) (d :: l) = none := fun l => by
        rw [upTo, List.isPrefixOf_cons_cons, beq_false_of_ne hpre.1, Bool.false_and,
          if_neg Bool.false_ne_true]
      rw [List.cons_append, sub, hnone, List.cons_append]
      exact congrArg _ (ih hpre.2)

/-- A substitution that changes a line leaves a replacement in it. -/
theorem sub_eq_or_infix (find : List Char → Option (List Char × List Char)) (l : List Char) :
    sub find repl l = l ∨ ∃ matched, replaced matched repl <:+: sub find repl l := by
  induction l with
  | nil =>
      rw [sub]
      split
      next matched rest _ => exact .inr ⟨matched, (List.prefix_append _ _).isInfix⟩
      · exact .inl rfl
  | cons c l ih =>
      rw [sub]
      split
      next matched rest _ => exact .inr ⟨matched, (List.prefix_append _ _).isInfix⟩
      · rcases ih with heq | ⟨matched, hinside⟩
        · exact .inl (by rw [heq])
        · exact .inr ⟨matched, hinside.trans (List.suffix_cons _ _).isInfix⟩

end Substitution

end Speedway.Lib.Awk
