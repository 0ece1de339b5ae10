import Mathlib.Data.List.Basic
import Mathlib.Data.List.Nodup
import Mathlib.Data.List.TakeWhile
import Mathlib.Tactic

/-!
# Texts with separators

A text can be cut at every separator, which gives fields that may be empty, or taken
apart by calls that skip runs of separators, which gives the fields that are not
empty. The second list numbers the fields differently as soon as one is empty.
-/

namespace Speedway.Lib.Separated

variable {α : Type*} [DecidableEq α]

/-- A part of a text with the place where it starts. -/
structure Piece (α : Type*) where
  start : Nat
  text : List α
  deriving DecidableEq

def Piece.given (piece : Piece α) : Bool := decide (piece.text ≠ [])

/-- The fields of a text that starts at `off`. -/
def fields (sep : α) (off : Nat) : List α → List (Piece α)
  | [] => [⟨off, []⟩]
  | c :: rest =>
      if c = sep then ⟨off, []⟩ :: fields sep (off + 1) rest
      else match fields sep (off + 1) rest with
        | [] => [⟨off, [c]⟩]
        | field :: others => ⟨off, c :: field.text⟩ :: others

/-- One call: the separators are skipped, then the piece goes up to the next one. The
rest is what the next call gets. -/
def token (sep : α) (off : Nat) (rest : List α) : Option (Piece α × Nat × List α) :=
  let start := off + (rest.takeWhile (· == sep)).length
  match rest.dropWhile (· == sep) with
  | [] => none
  | c :: tail =>
      let text := (c :: tail).takeWhile (· != sep)
      some (⟨start, text⟩, start + text.length + 1, (c :: tail).drop (text.length + 1))

/-- The pieces that repeated calls return. -/
def tokens (sep : α) : Nat → Nat → List α → List (Piece α)
  | 0, _, _ => []
  | fuel + 1, off, rest => match token sep off rest with
      | none => []
      | some (piece, off', rest') => piece :: tokens sep fuel off' rest'

section Fields

variable {sep : α}

/-- The first field goes up to the first separator. -/
theorem fields_eq (off : Nat) (text : List α) :
    fields sep off text = ⟨off, text.takeWhile (· != sep)⟩ ::
      if sep ∈ text then
        fields sep (off + (text.takeWhile (· != sep)).length + 1)
          (text.drop ((text.takeWhile (· != sep)).length + 1))
      else [] := by
  induction text generalizing off with
  | nil => simp [fields]
  | cons c rest ih =>
      by_cases hc : c = sep
      · simp [fields, hc]
      · have hmem : sep ∈ c :: rest ↔ sep ∈ rest := by
          simp [Ne.symm hc]
        have htake : (c :: rest).takeWhile (· != sep) = c :: rest.takeWhile (· != sep) := by
          simp [hc]
        rw [fields, if_neg hc, ih (off + 1), htake]
        simp only [hmem, List.length_cons, List.drop_succ_cons]
        rw [show off + 1 + (rest.takeWhile (· != sep)).length + 1 =
          off + ((rest.takeWhile (· != sep)).length + 1) + 1 by omega]

theorem fields_start (off : Nat) (text : List α) :
    ∀ field ∈ fields sep off text, off ≤ field.start := by
  induction text generalizing off with
  | nil => simp [fields]
  | cons c rest ih =>
      intro field hfield
      rw [fields] at hfield
      split_ifs at hfield with hc
      · rcases List.mem_cons.mp hfield with rfl | hlater
        · exact le_rfl
        · exact (Nat.le_succ off).trans (ih (off + 1) field hlater)
      · split at hfield
        next => simp_all
        next first others heq =>
          rcases List.mem_cons.mp hfield with rfl | hlater
          · exact le_rfl
          · exact (Nat.le_succ off).trans (ih (off + 1) field (heq ▸ List.mem_cons_of_mem _ hlater))

/-- The fields start at different places. -/
theorem fields_pairwise (off : Nat) (text : List α) :
    (fields sep off text).Pairwise fun a b => a.start < b.start := by
  induction text generalizing off with
  | nil => simp [fields]
  | cons c rest ih =>
      rw [fields]
      split_ifs with hc
      · refine List.pairwise_cons.mpr ⟨?_, ih (off + 1)⟩
        intro field hfield
        exact fields_start (off + 1) rest field hfield
      · have hrest := ih (off + 1)
        have hstart : ∀ field ∈ fields sep (off + 1) rest, off + 1 ≤ field.start :=
          fields_start (off + 1) rest
        split
        next => exact List.pairwise_singleton _ _
        next first others heq =>
          rw [heq] at hrest hstart
          refine List.pairwise_cons.mpr ⟨?_, (List.pairwise_cons.mp hrest).2⟩
          intro field hfield
          exact hstart field (List.mem_cons_of_mem _ hfield)

theorem fields_nodup (off : Nat) (text : List α) : (fields sep off text).Nodup := by
  refine (fields_pairwise off text).imp ?_
  intro a b hlt heq
  exact absurd (congrArg Piece.start heq) hlt.ne

end Fields

section Tokens

variable {sep : α}

/-- A field that is empty is never a piece. -/
theorem filter_fields_skip (off : Nat) (text : List α) :
    (fields sep off text).filter Piece.given =
      (fields sep (off + (text.takeWhile (· == sep)).length)
        (text.dropWhile (· == sep))).filter Piece.given := by
  induction text generalizing off with
  | nil => rfl
  | cons c rest ih =>
      by_cases hc : c = sep
      · have hskip : (fields sep off (c :: rest)).filter Piece.given =
            (fields sep (off + 1) rest).filter Piece.given := by
          simp [fields, hc, Piece.given]
        rw [hskip, ih (off + 1)]
        simp only [hc, beq_self_eq_true, List.takeWhile_cons_of_pos, List.dropWhile_cons_of_pos,
          List.length_cons]
        rw [show off + 1 + (rest.takeWhile (· == sep)).length =
          off + ((rest.takeWhile (· == sep)).length + 1) by omega]
      · simp [hc]

/-- After the first field, the rest of the text gives the others. -/
theorem filter_fields_first (off : Nat) (text : List α) :
    (fields sep off text).filter Piece.given =
      [⟨off, text.takeWhile (· != sep)⟩].filter Piece.given ++
        (fields sep (off + (text.takeWhile (· != sep)).length + 1)
          (text.drop ((text.takeWhile (· != sep)).length + 1))).filter Piece.given := by
  rw [fields_eq off text, ← List.singleton_append, List.filter_append]
  congr 1
  split_ifs with hmem
  · rfl
  · have hall : text.takeWhile (· != sep) = text := by
      apply List.takeWhile_eq_self_iff.mpr
      intro c hc
      exact bne_iff_ne.mpr fun heq => hmem (heq ▸ hc)
    rw [hall, List.drop_eq_nil_of_le (Nat.le_succ _)]
    simp [fields, Piece.given]

/-- All calls together return the fields that are not empty. -/
theorem tokens_eq {fuel : Nat} {text : List α} (off : Nat) (hfuel : text.length < fuel) :
    tokens sep fuel off text = (fields sep off text).filter Piece.given := by
  induction fuel generalizing off text with
  | zero => omega
  | succ fuel ih =>
      rw [filter_fields_skip off text, tokens, token]
      have hlength := (List.dropWhile_suffix (· == sep) (l := text)).length_le
      have hhead := List.head?_dropWhile_not (· == sep) text
      generalize text.dropWhile (· == sep) = rest at hlength hhead
      generalize off + (text.takeWhile (· == sep)).length = start
      cases rest with
      | nil => simp [fields, Piece.given]
      | cons c tail =>
          have hc : c ≠ sep := by simpa using hhead
          have htext : (c :: tail).takeWhile (· != sep) ≠ [] := by simp [hc]
          have hrest : ((c :: tail).drop
              (((c :: tail).takeWhile (· != sep)).length + 1)).length < fuel := by
            rw [List.length_cons] at hlength
            rw [List.length_drop, List.length_cons]
            omega
          rw [filter_fields_first start (c :: tail)]
          simp only [Piece.given, htext, ih _ hrest, List.filter_cons_of_pos, ne_eq,
            not_false_eq_true, decide_true, List.filter_nil, List.singleton_append]

end Tokens

section Numbering

variable {β : Type*} {p : β → Bool} {l : List β} {i : Nat}

/-- What the filter keeps has the same number as before. -/
def Unshifted (p : β → Bool) (l : List β) (i : Nat) : Prop :=
  if (l[i]?.filter p).isSome then ∀ x ∈ l.take i, p x else (l.filter p).length ≤ i

instance (p : β → Bool) (l : List β) (i : Nat) : Decidable (Unshifted p l i) :=
  inferInstanceAs (Decidable
    (if (l[i]?.filter p).isSome then ∀ x ∈ l.take i, p x else (l.filter p).length ≤ i))

theorem filter_getElem?_of_all {x : β} (hx : l[i]? = some x) (hp : p x)
    (hall : ∀ y ∈ l.take i, p y) : (l.filter p)[i]? = some x := by
  obtain ⟨hi, hget⟩ := List.getElem?_eq_some_iff.mp hx
  have hlength : (l.take i).length = i := List.length_take_of_le hi.le
  have hcut : l = l.take i ++ x :: l.drop (i + 1) := by
    rw [← hget, ← List.drop_eq_getElem_cons hi, List.take_append_drop]
  rw [hcut, List.filter_append, List.filter_eq_self.mpr hall, List.filter_cons_of_pos hp,
    List.getElem?_append_right hlength.le, hlength, Nat.sub_self, List.getElem?_cons_zero]

/-- With an element before it that is not kept, an element of the list moves to a
lower number. -/
theorem all_of_filter_getElem? {x : β} (hnodup : l.Nodup) (hx : l[i]? = some x)
    (hkept : (l.filter p)[i]? = some x) : ∀ y ∈ l.take i, p y := by
  by_contra hnot
  obtain ⟨hi, hget⟩ := List.getElem?_eq_some_iff.mp hx
  have hcut : l = l.take (i + 1) ++ l.drop (i + 1) := (List.take_append_drop _ _).symm
  have hshort : ((l.take (i + 1)).filter p).length ≤ i := by
    have hlt : ((l.take i).filter p).length < i := by
      rcases (List.length_filter_le p (l.take i)).lt_or_eq with hlt | heq
      · exact hlt.trans_le (List.length_take_le _ _)
      · exact absurd (List.length_filter_eq_length_iff.mp heq) hnot
    rw [← List.take_append_getElem hi, List.filter_append, List.length_append]
    have hone := List.length_filter_le p [l[i]]
    rw [List.length_singleton] at hone
    omega
  have hlater : x ∈ l.drop (i + 1) := by
    rw [hcut, List.filter_append, List.getElem?_append_right hshort] at hkept
    exact List.mem_of_mem_filter (List.mem_of_getElem? hkept)
  have hearlier : x ∈ l.take (i + 1) := by
    rw [← List.take_append_getElem hi, ← hget]
    exact List.mem_append_right _ List.mem_cons_self
  exact List.disjoint_of_nodup_append (hcut ▸ hnodup) hearlier hlater

theorem filter_getElem?_eq_iff (hnodup : l.Nodup) :
    (l.filter p)[i]? = l[i]?.filter p ↔ Unshifted p l i := by
  rw [Unshifted]
  by_cases hgiven : (l[i]?.filter p).isSome
  · rw [if_pos hgiven]
    obtain ⟨x, hfilter⟩ := Option.isSome_iff_exists.mp hgiven
    obtain ⟨hx, hp⟩ := Option.filter_eq_some_iff.mp hfilter
    rw [hfilter]
    constructor
    · exact all_of_filter_getElem? hnodup hx
    · exact filter_getElem?_of_all hx hp
  · rw [if_neg hgiven, Option.not_isSome_iff_eq_none.mp hgiven]
    exact List.getElem?_eq_none_iff

theorem toList_inj {a b : Option β} : a.toList = b.toList ↔ a = b := by
  cases a <;> cases b <;> simp

/-- The element of one number among all numbered ones. -/
theorem filterMap_zipIdx {n k : Nat} (hk : n ≤ k) :
    ((l.zipIdx n).filterMap fun x => if k = x.2 then some x.1 else none) =
      l[k - n]?.toList := by
  induction l generalizing n with
  | nil => simp
  | cons x rest ih =>
      rw [List.zipIdx_cons, List.filterMap_cons]
      rcases hk.eq_or_lt with rfl | hlt
      · have hnone : ((rest.zipIdx (n + 1)).filterMap
            fun x => if n = x.2 then some x.1 else none) = [] := by
          apply List.filterMap_eq_nil_iff.mpr
          intro y hy
          rw [if_neg]
          exact (Nat.lt_of_succ_le (List.le_snd_of_mem_zipIdx hy)).ne
        simp [hnone]
      · rw [if_neg hlt.ne', ih hlt, show k - n = k - (n + 1) + 1 by omega]
        rfl

end Numbering

end Speedway.Lib.Separated
