import Speedway.Lib.Awk

/-!
# Updates of the modem status file

`update_json` of `status_gather.sh` gives an entry of the status file a new value and
the time of the update. It edits the file line by line with awk, with a flag that is set
between the name of the entry and its `lastUpdate`, and uses the new value as the
replacement of `sub`.
-/

namespace Speedway.Status

open Speedway.Lib.Awk

/-- The keys of an entry, in the order of their lines. -/
inductive Key where
  | name
  | value
  | lastChange
  | lastUpdate
  deriving DecidableEq

def Key.text : Key → List Char
  | .name => ['n', 'a', 'm', 'e']
  | .value => ['v', 'a', 'l', 'u', 'e']
  | .lastChange => ['l', 'a', 's', 't', 'C', 'h', 'a', 'n', 'g', 'e']
  | .lastUpdate => ['l', 'a', 's', 't', 'U', 'p', 'd', 'a', 't', 'e']

/-- A key with its quotes and the colon. -/
def Key.colon (k : Key) : List Char := '"' :: (k.text ++ ['"', ':'])

/-- A key up to the quote that opens its text. -/
def Key.opening (k : Key) : List Char := k.colon ++ [' ', '"']

/-- The variables of the script that are assigned on its command line. -/
structure Vars where
  name : List Char
  value : List Char
  time : List Char

/-- The new text of a key as the replacement in a substitution. -/
def replacement (k : Key) (text : List Char) : List Char := k.opening ++ (text ++ ['"'])

/-- `sub` for the text of a key. -/
def subText (k : Key) (text line : List Char) : List Char :=
  sub (upTo '"' k.opening) (replacement k text) line

/-- The rule of the script, with the flag before and after the line. The name is used
as an expression but has no characters that mean something there. -/
def editLine (vars : Vars) (found : Bool) (line : List Char) : Bool × List Char :=
  let found := found || occurs (Key.name.opening ++ (vars.name ++ ['"'])) line
  let line := if found && occurs Key.value.colon line then subText .value vars.value line else line
  if found && occurs Key.lastUpdate.colon line then
    (false, subText .lastUpdate vars.time line)
  else (found, line)

def editLines (vars : Vars) : Bool → List (List Char) → List (List Char)
  | _, [] => []
  | found, line :: lines =>
      (editLine vars found line).2 :: editLines vars (editLine vars found line).1 lines

/-- `update_json`, for an awk that reads undefined escape sequences as `undef` does. -/
def updateJson (undef : Char → List Char) (field value current_time : List Char)
    (file : List (List Char)) : List (List Char) :=
  editLines
    { name := assigned undef .plain field
      value := assigned undef .plain value
      time := assigned undef .plain current_time } false file

/-- Every quote in a text has a backslash before it. -/
inductive Guarded : List Char → Prop where
  | nil : Guarded []
  | char {c : Char} {cs : List Char} (hc : c ≠ '"') (h : Guarded cs) : Guarded (c :: cs)
  | escape {c : Char} {cs : List Char} (h : Guarded cs) : Guarded ('\\' :: c :: cs)

/-- What stands in a line before a key and after its text: blanks and punctuation. -/
structure Layout where
  indent : List Char
  tail : List Char
  indentQuote : '"' ∉ indent
  tailQuote : '"' ∉ tail
  tailColon : ':' ∉ tail

/-- The line of a key. -/
def keyLine (layout : Layout) (k : Key) (text : List Char) : List Char :=
  layout.indent ++ (k.opening ++ (text ++ '"' :: layout.tail))

/-- An entry of the file. -/
structure Entry where
  layout : Key → Layout
  text : Key → List Char
  guarded : ∀ k, Guarded (text k)

/-- The four lines of an entry. -/
def entryLines (layout : Key → Layout) (text : Key → List Char) : List (List Char) :=
  [keyLine (layout .name) .name (text .name), keyLine (layout .value) .value (text .value),
    keyLine (layout .lastChange) .lastChange (text .lastChange),
    keyLine (layout .lastUpdate) .lastUpdate (text .lastUpdate)]

/-- The file consists of entries and of lines without a name. -/
inductive Item where
  | entry (e : Entry)
  | other (line : List Char) (noName : occurs Key.name.opening line = false)

def Item.lines : Item → List (List Char)
  | .entry e => entryLines e.layout e.text
  | .other line _ => [line]

/-- The lines of an item after an update. -/
def Item.updated (field value time : List Char) : Item → List (List Char)
  | .entry e =>
      if e.text .name = field then
        entryLines e.layout
          (Function.update (Function.update e.text .value value) .lastUpdate time)
      else entryLines e.layout e.text
  | .other line _ => [line]

section Texts

variable {k k' : Key} {f text tail x : List Char}

theorem guarded_of_not_mem (h : '"' ∉ text) : Guarded text := by
  induction text with
  | nil => exact .nil
  | cons c cs ih =>
      rw [List.mem_cons, not_or] at h
      exact .char (fun heq => h.1 heq.symm) (ih h.2)

/-- Neither quotes nor backslashes. -/
def Plain (f : List Char) : Prop := ∀ c ∈ f, c ≠ '"' ∧ c ≠ '\\'

/-- A plain text and a quote are found at the start of a guarded text only if they are
all of it. -/
theorem prefix_guarded_iff (h : Guarded text) (hf : Plain f) :
    f ++ '"' :: x <+: text ++ '"' :: tail ↔ f = text ∧ x <+: tail := by
  induction h generalizing f with
  | nil =>
      cases f with
      | nil => simp
      | cons a f => simpa using fun heq => absurd heq (hf a List.mem_cons_self).1
  | @char c cs hc _ ih =>
      cases f with
      | nil => simpa using fun heq => absurd heq.symm hc
      | cons a f =>
          rw [List.cons_append, List.cons_append, List.cons_prefix_cons,
            ih fun d hd => hf d (List.mem_cons_of_mem a hd), List.cons.injEq, and_assoc]
  | @escape c cs _ ih =>
      cases f with
      | nil => simp
      | cons a f =>
          have ha := (hf a List.mem_cons_self).2
          simp [ha]

theorem Key.text_plain (k : Key) : Plain k.text := by
  cases k <;> simp [Plain, Key.text]

theorem Key.text_inj (h : k.text = k'.text) : k = k' := by
  cases k <;> cases k' <;> first | rfl | simp [Key.text] at h

/-- A key does not start with a colon. -/
theorem Key.not_prefix_colon (k : Key) : ¬ k.text ++ '"' :: x <+: ':' :: tail := by
  cases k <;> simp [Key.text]

theorem Key.quote_not_mem (k : Key) : '"' ∉ k.text := fun hmem => (k.text_plain _ hmem).1 rfl

theorem occurs_cons_key {c : Char} {l : List Char} :
    occurs (k.colon ++ x) (c :: l) = true ↔
      c = '"' ∧ k.text ++ '"' :: ':' :: x <+: l ∨ occurs (k.colon ++ x) l = true := by
  rw [occurs, Bool.or_eq_true, List.isPrefixOf_iff_prefix, Key.colon, List.cons_append,
    List.append_assoc, List.cons_prefix_cons, eq_comm (a := c)]
  rfl

theorem not_occurs_cons_key {c : Char} {l : List Char}
    (hc : c = '"' → ¬ k.text ++ '"' :: ':' :: x <+: l) (hl : occurs (k.colon ++ x) l = false) :
    occurs (k.colon ++ x) (c :: l) = false := by
  rw [Bool.eq_false_iff, Ne, occurs_cons_key, hl]
  rintro (⟨heq, hstarts⟩ | hfalse)
  · exact hc heq hstarts
  · exact absurd hfalse Bool.false_ne_true

theorem not_prefix_guarded (h : Guarded text) (hcolon : ':' ∉ tail) :
    ¬ k.text ++ '"' :: ':' :: x <+: text ++ '"' :: tail := by
  rw [prefix_guarded_iff h k.text_plain]
  exact fun hstarts => hcolon (hstarts.2.subset List.mem_cons_self)

/-- A key is not found in a text. -/
theorem not_occurs_guarded (h : Guarded text) (htail : '"' ∉ tail) (hcolon : ':' ∉ tail) :
    occurs (k.colon ++ x) (text ++ '"' :: tail) = false := by
  induction h with
  | nil =>
      refine not_occurs_cons_key (fun _ hstarts => htail (hstarts.subset ?_))
        (not_occurs_of_not_mem htail)
      exact List.mem_append_right _ List.mem_cons_self
  | char hc _ ih => exact not_occurs_cons_key (fun heq => absurd heq hc) ih
  | escape hguarded ih =>
      exact not_occurs_cons_key (fun heq => absurd heq (by decide))
        (not_occurs_cons_key (fun _ => not_prefix_guarded hguarded hcolon) ih)

/-- The only key found in a line is its own. -/
theorem occurs_keyLine {layout : Layout} (h : Guarded text) :
    occurs (k.colon ++ x) (keyLine layout k' text) = true ↔
      k = k' ∧ x <+: ' ' :: '"' :: (text ++ '"' :: layout.tail) := by
  have hskip {pre : List Char} (l : List Char) (hpre : '"' ∉ pre) :
      occurs (k.colon ++ x) (pre ++ l) = occurs (k.colon ++ x) l := occurs_append_of_not_mem hpre
  have hrest : occurs (k.colon ++ x)
      (k'.text ++ '"' :: ':' :: ' ' :: '"' :: (text ++ '"' :: layout.tail)) = false := by
    rw [hskip _ k'.quote_not_mem]
    refine not_occurs_cons_key (fun _ => k.not_prefix_colon) ?_
    refine not_occurs_cons_key (fun heq => absurd heq (by decide)) ?_
    refine not_occurs_cons_key (fun heq => absurd heq (by decide)) ?_
    exact not_occurs_cons_key (fun _ => not_prefix_guarded h layout.tailColon)
      (not_occurs_guarded h layout.tailQuote layout.tailColon)
  have hopening : k'.opening ++ (text ++ '"' :: layout.tail) =
      '"' :: (k'.text ++ '"' :: ':' :: ' ' :: '"' :: (text ++ '"' :: layout.tail)) := by
    simp [Key.opening, Key.colon]
  rw [keyLine, hskip _ layout.indentQuote, hopening, occurs_cons_key, hrest,
    prefix_guarded_iff (guarded_of_not_mem k'.quote_not_mem) k.text_plain, List.cons_prefix_cons]
  constructor
  · rintro (⟨-, htext, -, hx⟩ | hfalse)
    · exact ⟨Key.text_inj htext, hx⟩
    · exact absurd hfalse Bool.false_ne_true
  · rintro ⟨rfl, hx⟩
    exact .inl ⟨rfl, rfl, rfl, hx⟩

theorem occurs_colon_keyLine {layout : Layout} (h : Guarded text) :
    occurs k.colon (keyLine layout k' text) = decide (k = k') := by
  rw [Bool.eq_iff_iff, decide_eq_true_iff, ← List.append_nil k.colon, occurs_keyLine h]
  exact and_iff_left List.nil_prefix

/-- A plain name is found in the line of this name. -/
theorem occurs_name_keyLine {layout : Layout} (h : Guarded text) (hf : Plain f) :
    occurs (Key.name.opening ++ (f ++ ['"'])) (keyLine layout k text) =
      decide (k = .name ∧ text = f) := by
  rw [Bool.eq_iff_iff, decide_eq_true_iff, Key.opening, List.append_assoc, occurs_keyLine h]
  rw [List.cons_append, List.cons_append, List.nil_append, List.cons_prefix_cons,
    List.cons_prefix_cons, prefix_guarded_iff h hf]
  constructor
  · rintro ⟨hk, -, -, htext, -⟩
    exact ⟨hk.symm, htext.symm⟩
  · rintro ⟨hk, htext⟩
    exact ⟨hk.symm, rfl, rfl, htext.symm, List.nil_prefix⟩

end Texts

section Substitution

variable {k : Key} {layout : Layout} {text new w : List Char}

theorem Key.opening_plain (k : Key) : ∀ c ∈ k.opening, c ≠ '&' ∧ c ≠ '\\' := by
  cases k <;> simp [Key.opening, Key.colon, Key.text]

/-- The text is replaced up to its first quote. -/
theorem subText_keyLine {before rest : List Char} (hbefore : '"' ∉ before)
    (htext : text ++ '"' :: layout.tail = before ++ '"' :: rest) :
    subText k new (keyLine layout k text) =
      layout.indent ++ (k.opening ++
        (replaced (k.opening ++ before ++ ['"']) new ++ '"' :: rest)) := by
  have hsub := @sub_upTo (k.text ++ ['"', ':'] ++ [' ', '"']) layout.indent before rest
    (replacement k new) '"' '"' layout.indentQuote hbefore
  rw [subText, keyLine, htext]
  refine hsub.trans ?_
  rw [replacement, replaced_append k.opening_plain, replaced_concat (by decide) (by decide)]
  simp [Key.opening, Key.colon]

theorem keyLine_inj {a b : List Char} :
    layout.indent ++ (k.opening ++ a) = layout.indent ++ (k.opening ++ b) ↔ a = b := by
  rw [List.append_cancel_left_eq, List.append_cancel_left_eq]

/-- A text arrives in its line exactly if the old one has no quote and the replacement
gives it back. -/
theorem subText_eq_iff (hw : '"' ∉ w) :
    subText k new (keyLine layout k text) = keyLine layout k w ↔
      '"' ∉ text ∧ replaced (k.opening ++ text ++ ['"']) new = w := by
  by_cases hquote : '"' ∈ text
  · -- what is left of the old text stands behind the new one
    obtain ⟨before, after, rfl, hbefore⟩ := List.eq_append_cons_of_mem hquote
    refine iff_of_false (fun heq => hw ?_) fun h => h.1 hquote
    have hsplit : (before ++ '"' :: after) ++ '"' :: layout.tail =
        before ++ '"' :: (after ++ '"' :: layout.tail) := by simp
    rw [subText_keyLine hbefore hsplit, keyLine, keyLine_inj, ← List.cons_append,
      ← List.append_assoc, List.append_left_inj] at heq
    rw [← heq]
    exact List.mem_append_right _ List.mem_cons_self
  · rw [subText_keyLine hquote rfl, keyLine, keyLine_inj, List.append_left_inj,
      and_iff_right hquote]

end Substitution

section Lines

variable {vars : Vars} {layout : Layout} {text w : List Char}

theorem editLine_other {line : List Char} (h : occurs Key.name.opening line = false) :
    editLine vars false line = (false, line) := by
  have hname : occurs (Key.name.opening ++ (vars.name ++ ['"'])) line = false := by
    rw [Bool.eq_false_iff, Ne, occurs_iff] at h ⊢
    exact fun hinside => h ((List.prefix_append _ _).isInfix.trans hinside)
  simp [editLine, hname]

/-- Without the flag a line stays as it is unless it has the name. -/
theorem editLine_unfound {k : Key} (h : Guarded text) (hname : Plain vars.name)
    (hne : k = .name → text ≠ vars.name) :
    editLine vars false (keyLine layout k text) = (false, keyLine layout k text) := by
  have hnot : ¬ (k = .name ∧ text = vars.name) := fun hboth => hne hboth.1 hboth.2
  simp [editLine, occurs_name_keyLine h hname, hnot]

/-- The line with the name sets the flag. -/
theorem editLine_name (hname : Plain vars.name) :
    editLine vars false (keyLine layout .name vars.name) =
      (true, keyLine layout .name vars.name) := by
  have hguarded : Guarded vars.name := guarded_of_not_mem fun hmem => (hname _ hmem).1 rfl
  simp [editLine, occurs_name_keyLine hguarded hname, occurs_colon_keyLine hguarded]

theorem editLine_lastChange (h : Guarded text) :
    editLine vars true (keyLine layout .lastChange text) =
      (true, keyLine layout .lastChange text) := by
  simp [editLine, occurs_colon_keyLine h]

theorem editLine_lastUpdate (h : Guarded text) :
    editLine vars true (keyLine layout .lastUpdate text) =
      (false, subText .lastUpdate vars.time (keyLine layout .lastUpdate text)) := by
  simp [editLine, occurs_colon_keyLine h]

/-- The time that may be put into a line stays visible there. -/
theorem subText_eq_or_occurs {k : Key} {new line : List Char} :
    subText k new line = line ∨ occurs k.colon (subText k new line) = true := by
  rcases sub_eq_or_infix (upTo '"' k.opening) line with heq | ⟨matched, hinside⟩
  · exact .inl heq
  · rw [replacement, replaced_append k.opening_plain] at hinside
    have hcolon : k.colon <:+: k.opening := (List.prefix_append _ _).isInfix
    exact .inr (occurs_iff.mpr (hcolon.trans ((List.prefix_append _ _).isInfix.trans hinside)))

/-- The line of the value, which is tested for `lastUpdate` after its substitution. -/
theorem editLine_value_iff (h : Guarded text) (hw : '"' ∉ w) :
    (editLine vars true (keyLine layout .value text)).2 = keyLine layout .value w ↔
      subText .value vars.value (keyLine layout .value text) = keyLine layout .value w := by
  have hvalue : occurs Key.value.colon (keyLine layout .value text) = true := by
    rw [occurs_colon_keyLine h]
    rfl
  have hnew : occurs Key.lastUpdate.colon (keyLine layout .value w) = false :=
    occurs_colon_keyLine (guarded_of_not_mem hw)
  simp only [editLine, Bool.true_or, Bool.true_and, hvalue, if_true]
  generalize subText .value vars.value (keyLine layout .value text) = line
  by_cases hupdate : occurs Key.lastUpdate.colon line = true
  · rw [if_pos hupdate]
    have hne : line ≠ keyLine layout .value w := fun heq => by
      rw [heq, hnew] at hupdate
      exact Bool.false_ne_true hupdate
    refine iff_of_false (fun (heq : subText .lastUpdate vars.time line = _) => ?_) hne
    rcases @subText_eq_or_occurs .lastUpdate vars.time line with hsame | hoccurs
    · exact hne (hsame.symm.trans heq)
    · rw [heq, hnew] at hoccurs
      exact Bool.false_ne_true hoccurs
  · rw [if_neg hupdate]

theorem editLine_value_found (h : Guarded text) (hw : '"' ∉ w)
    (hsub : subText .value vars.value (keyLine layout .value text) = keyLine layout .value w) :
    (editLine vars true (keyLine layout .value text)).1 = true := by
  have hnew : occurs Key.lastUpdate.colon (keyLine layout .value w) = false :=
    occurs_colon_keyLine (guarded_of_not_mem hw)
  simp [editLine, occurs_colon_keyLine h, hsub, hnew]

end Lines

/-- A text takes the place of the old one if it is assigned as `new`. -/
def Entry.Takes (e : Entry) (k : Key) (new w : List Char) : Prop :=
  '"' ∉ e.text k ∧ replaced (k.opening ++ e.text k ++ ['"']) new = w

section Run

variable {vars : Vars} {value time : List Char} {more rest : List (List Char)}

theorem editLines_entry {e : Entry} (hname : Plain vars.name) (hne : e.text .name ≠ vars.name) :
    editLines vars false (entryLines e.layout e.text ++ more) =
      entryLines e.layout e.text ++ editLines vars false more := by
  have hstep (k : Key) : editLine vars false (keyLine (e.layout k) k (e.text k)) =
      (false, keyLine (e.layout k) k (e.text k)) :=
    editLine_unfound (e.guarded k) hname fun hk => hk ▸ hne
  simp only [entryLines, List.cons_append, List.nil_append, editLines, hstep]

theorem entryLines_updated (e : Entry) :
    entryLines e.layout
        (Function.update (Function.update e.text .value value) .lastUpdate time) =
      [keyLine (e.layout .name) .name (e.text .name), keyLine (e.layout .value) .value value,
        keyLine (e.layout .lastChange) .lastChange (e.text .lastChange),
        keyLine (e.layout .lastUpdate) .lastUpdate time] := rfl

/-- The entry with the name: the flag is set in its first line and cleared in its last. -/
theorem editLines_named_iff {e : Entry} (hname : Plain vars.name) (he : e.text .name = vars.name)
    (hvalue : '"' ∉ value) (htime : '"' ∉ time) :
    editLines vars false (entryLines e.layout e.text ++ more) =
      entryLines e.layout
        (Function.update (Function.update e.text .value value) .lastUpdate time) ++ rest ↔
      (e.Takes .value vars.value value ∧ e.Takes .lastUpdate vars.time time) ∧
        editLines vars false more = rest := by
  have htakes : subText .value vars.value (keyLine (e.layout .value) .value (e.text .value)) =
      keyLine (e.layout .value) .value value ↔ e.Takes .value vars.value value :=
    subText_eq_iff hvalue
  have hupdate : subText .lastUpdate vars.time
      (keyLine (e.layout .lastUpdate) .lastUpdate (e.text .lastUpdate)) =
      keyLine (e.layout .lastUpdate) .lastUpdate time ↔ e.Takes .lastUpdate vars.time time :=
    subText_eq_iff htime
  rw [entryLines_updated, he]
  simp only [entryLines, List.cons_append, List.nil_append, editLines, he, editLine_name hname]
  rw [List.cons.injEq, and_iff_right rfl, List.cons.injEq,
    editLine_value_iff (e.guarded .value) hvalue, htakes]
  by_cases hsub : e.Takes .value vars.value value
  · rw [editLine_value_found (e.guarded .value) hvalue (htakes.mpr hsub),
      editLine_lastChange (e.guarded .lastChange), editLine_lastUpdate (e.guarded .lastUpdate),
      List.cons.injEq, and_iff_right rfl, List.cons.injEq, hupdate, and_assoc]
  · exact iff_of_false (fun h => hsub h.1) fun h => hsub h.1.1

/-- The whole file. -/
theorem editLines_file_iff (file : List Item) (hname : Plain vars.name) (hvalue : '"' ∉ value)
    (htime : '"' ∉ time) :
    editLines vars false (file.flatMap Item.lines) =
      file.flatMap (Item.updated vars.name value time) ↔
      ∀ e, Item.entry e ∈ file → e.text .name = vars.name →
        e.Takes .value vars.value value ∧ e.Takes .lastUpdate vars.time time := by
  induction file with
  | nil => simp [editLines]
  | cons item file ih =>
      rw [List.flatMap_cons, List.flatMap_cons]
      cases item with
      | other line noName =>
          rw [Item.lines, Item.updated, List.singleton_append, List.singleton_append, editLines,
            editLine_other noName, List.cons.injEq, and_iff_right rfl, ih]
          simp
      | entry e =>
          rw [Item.lines, Item.updated]
          by_cases he : e.text .name = vars.name
          · rw [if_pos he, editLines_named_iff hname he hvalue htime, ih]
            simp [he]
          · rw [if_neg he, editLines_entry hname he, List.append_cancel_left_eq, ih]
            simp [he]

end Run

/-- A name of letters, digits and underscores. -/
structure FieldName where
  chars : List Char
  word : ∀ c ∈ chars, c.isAlphanum = true ∨ c = '_'

/-- A value without quotes and control characters. -/
structure NewValue where
  chars : List Char
  noQuote : '"' ∉ chars
  noControl : ∀ c ∈ chars, 0x20 ≤ c.toNat ∧ c.toNat ≠ 0x7f

/-- What `date +%s` prints. -/
structure Seconds where
  chars : List Char
  digits : ∀ c ∈ chars, c.isDigit = true

/-- The update changes the entries with the name, and nothing else, as it should,
whichever awk runs it. -/
def UpdatesExactly (field : FieldName) (value : NewValue) (time : Seconds) (file : List Item) :
    Prop :=
  ∀ undef, updateJson undef field.chars value.chars time.chars (file.flatMap Item.lines) =
    file.flatMap (Item.updated field.chars value.chars time.chars)

theorem FieldName.plain (field : FieldName) : Plain field.chars := by
  intro c hc
  constructor <;> rintro rfl <;> exact absurd (field.word _ hc) (by decide)

theorem Seconds.not_mem (time : Seconds) {c : Char} (hc : c.isDigit = false) :
    c ∉ time.chars := fun hmem => by
  rw [time.digits c hmem] at hc
  exact Bool.false_ne_true hc.symm

theorem not_mem_dropLast {c : Char} {l : List Char} (h : c ∉ l) : c ∉ l.dropLast :=
  fun hmem => h ((List.dropLast_sublist l).subset hmem)

/-- The run of one awk. -/
theorem updateJson_eq_iff {undef : Char → List Char} (field : FieldName) (value : NewValue)
    (time : Seconds) (file : List Item) :
    updateJson undef field.chars value.chars time.chars (file.flatMap Item.lines) =
      file.flatMap (Item.updated field.chars value.chars time.chars) ↔
      ∀ e, Item.entry e ∈ file → e.text .name = field.chars →
        e.Takes .value (assigned undef .plain value.chars) value.chars ∧
          '"' ∉ e.text .lastUpdate := by
  have hfield : '\\' ∉ field.chars := fun hmem => (field.plain _ hmem).2 rfl
  have hback : '\\' ∉ time.chars.dropLast := not_mem_dropLast (time.not_mem (by decide))
  have htime (e : Entry) : e.Takes .lastUpdate time.chars time.chars ↔
      '"' ∉ e.text .lastUpdate :=
    and_iff_left (replaced_eq_self (time.not_mem (by decide)) hback)
  rw [updateJson, assigned_eq_self (not_mem_dropLast hfield), assigned_eq_self hback,
    editLines_file_iff file field.plain value.noQuote (time.not_mem (by decide))]
  simp only [htime]

/-- An update is exact if and only if for every entry with the name the new value has no
`&` and no backslash before its last character, and the texts it replaces have no quote. -/
theorem updateJson_exact_iff (field : FieldName) (value : NewValue) (time : Seconds)
    (file : List Item) :
    UpdatesExactly field value time file ↔
      ∀ e, Item.entry e ∈ file → e.text .name = field.chars →
        '&' ∉ value.chars ∧ '\\' ∉ value.chars.dropLast ∧
          '"' ∉ e.text .value ∧ '"' ∉ e.text .lastUpdate := by
  have harrives (e : Entry) :
      (∀ undef, replaced (Key.value.opening ++ e.text .value ++ ['"'])
        (assigned undef .plain value.chars) = value.chars) ↔
        '&' ∉ value.chars ∧ '\\' ∉ value.chars.dropLast :=
    replaced_assigned_iff (List.mem_append_right _ List.mem_cons_self) value.noQuote
  simp only [UpdatesExactly, updateJson_eq_iff]
  constructor
  · intro h e hmem he
    obtain ⟨hamp, hback⟩ := (harrives e).mp fun undef => (h undef e hmem he).1.2
    obtain ⟨⟨hquote, -⟩, hupdate⟩ := h (fun c => [c]) e hmem he
    exact ⟨hamp, hback, hquote, hupdate⟩
  · intro h undef e hmem he
    obtain ⟨hamp, hback, hquote, hupdate⟩ := h e hmem he
    exact ⟨⟨hquote, (harrives e).mpr ⟨hamp, hback⟩ undef⟩, hupdate⟩

/-- An access point name with `&` is written with the matched line in it. -/
theorem update_writes_matched_text :
    ∃ (field : FieldName) (value : NewValue) (time : Seconds) (e : Entry),
      field.chars = ['A', 'p', 'n', '_', 's'] ∧
      value.chars = ['A', '&', 'T'] ∧
      e.text .name = field.chars ∧
      e.text .value = ['o', 'l', 'd'] ∧
      (∀ undef, (updateJson undef field.chars value.chars time.chars
        (entryLines e.layout e.text))[1]? =
          some ([' ', ' '] ++ Key.value.opening ++ ['A'] ++ Key.value.opening ++
            ['o', 'l', 'd', '"', 'T', '"', ','])) ∧
      ¬ UpdatesExactly field value time [.entry e] := by
  refine ⟨⟨['A', 'p', 'n', '_', 's'], by simp⟩, ⟨['A', '&', 'T'], by decide, by simp⟩,
    ⟨['1', '7', '0', '0'], by simp⟩,
    { layout := fun k =>
        ⟨[' ', ' '], if k = .lastUpdate then [] else [','], by decide,
          by cases k <;> decide, by cases k <;> decide⟩
      text := fun k =>
        match k with
        | .name => ['A', 'p', 'n', '_', 's']
        | .value => ['o', 'l', 'd']
        | .lastChange => []
        | .lastUpdate => ['1', '6', '9', '9']
      guarded := fun k => guarded_of_not_mem (by cases k <;> decide) },
    rfl, rfl, rfl, rfl, fun undef => ?_, fun h => ?_⟩
  · rw [updateJson, assigned_eq_self (by decide), assigned_eq_self (by decide),
      assigned_eq_self (by decide)]
    decide
  · exact absurd (h fun c => [c]) (by decide)

end Speedway.Status
