import Famicom.Json.Printer
import Famicom.Json.Reader
import Mathlib.Data.List.Basic
import Mathlib.Data.Nat.Digits.Defs

/-!
JSON as it is written, and what is read of it. A draft is a value with the blanks around its tokens and the
spelling of its strings; it says which text it is, and which value.

    draft  ──text──▶   { "a" : [1,-2 ] ,"b\u0020c": null }
      │                              │
      └──value──▶  a: [1, -2]  ◀──read?
                   b c: null

Reading a draft's text gives its value (`read_draft`), however deep it is nested. An object that is printed is
a draft as well (`exists_draft_printObject`), so it is read as its members.
-/

namespace Famicom.Json

/-! ### Drafts -/

/-- What may stand between tokens. -/
abbrev Blanks := { blanks : List Char // blanks.all isBlank = true }

/-- A character that stands for itself in a string. -/
def isPlain (c : Char) : Bool := c != '"' && c != '\\' && ' ' ≤ c

/-- A part of a string: a character that stands for itself, one written by a letter, or a unit written by its
number. -/
inductive Stroke where
  | plain (c : { c : Char // isPlain c = true })
  | letter (c : { c : Char // (escaped? c).isSome = true })
  | unit (a b c d : { c : Char // (hexValue? c).isSome = true })

/-- The characters of a part. -/
def Stroke.text : Stroke → List Char
  | plain c => [c.val]
  | letter c => ['\\', c.val]
  | unit a b c d => ['\\', 'u', a.val, b.val, c.val, d.val]

/-- What a part is read as. -/
def Stroke.piece : Stroke → Piece
  | plain c => .char c.val
  | letter c => .char ((escaped? c.val).get c.property)
  | unit a b c d =>
    .unit ((((hexValue? a.val).get a.property * 16 + (hexValue? b.val).get b.property) * 16 +
      (hexValue? c.val).get c.property) * 16 + (hexValue? d.val).get d.property)

/-- The parts of a string between quotes. -/
def quoted (strokes : List Stroke) : List Char := '"' :: (strokes.flatMap Stroke.text ++ ['"'])

/-- The text that the parts of a string stand for. -/
def meaning (strokes : List Stroke) : Option String := (textOf (strokes.map Stroke.piece)).map String.ofList

/-- The digits of an integer and its sign. -/
def integerText (negative : Bool) (n : Nat) : List Char :=
  (if negative then ['-'] else []) ++ Nat.toDigits 10 n

mutual

/-- A value as it is written. -/
inductive Draft where
  | null
  | bool (value : Bool)
  | integer (negative : Bool) (n : Nat)
  | string (strokes : List Stroke)
  | emptyArray (gap : Blanks)
  | array (items : DraftItems)
  | emptyObject (gap : Blanks)
  | object (members : DraftMembers)

/-- The items of an array, at least one. -/
inductive DraftItems where
  | last (before : Blanks) (item : Draft) (after : Blanks)
  | more (before : Blanks) (item : Draft) (after : Blanks) (items : DraftItems)

/-- The members of an object, at least one. -/
inductive DraftMembers where
  | last (before : Blanks) (name : List Stroke) (gap space : Blanks) (value : Draft) (after : Blanks)
  | more (before : Blanks) (name : List Stroke) (gap space : Blanks) (value : Draft) (after : Blanks)
    (members : DraftMembers)

end

mutual

/-- The text of a draft. -/
def Draft.text : Draft → List Char
  | .null => "null".toList
  | .bool value => if value then "true".toList else "false".toList
  | .integer negative n => integerText negative n
  | .string strokes => quoted strokes
  | .emptyArray gap => '[' :: (gap.val ++ [']'])
  | .array items => '[' :: (items.text ++ [']'])
  | .emptyObject gap => '\x7b' :: (gap.val ++ ['\x7d'])
  | .object members => '\x7b' :: (members.text ++ ['\x7d'])

/-- The text between the brackets. -/
def DraftItems.text : DraftItems → List Char
  | .last before item after => before.val ++ (item.text ++ after.val)
  | .more before item after items => before.val ++ (item.text ++ (after.val ++ ',' :: items.text))

/-- The text between the braces. -/
def DraftMembers.text : DraftMembers → List Char
  | .last before name gap space value after =>
    before.val ++ (quoted name ++ (gap.val ++ ':' :: (space.val ++ (value.text ++ after.val))))
  | .more before name gap space value after members =>
    before.val ++ (quoted name ++ (gap.val ++ ':' :: (space.val ++ (value.text ++
      (after.val ++ ',' :: members.text)))))

end

mutual

/-- The value of a draft. -/
def Draft.value : Draft → Json
  | .null => .null
  | .bool value => .bool value
  | .integer negative n => .number (integerText negative n)
  | .string strokes => .string (meaning strokes)
  | .emptyArray _ => .array []
  | .array items => .array items.values
  | .emptyObject _ => .object []
  | .object members => .object members.values

/-- The values of items. -/
def DraftItems.values : DraftItems → List Json
  | .last _ item _ => [item.value]
  | .more _ item _ items => item.value :: items.values

/-- The values of members, with their names. -/
def DraftMembers.values : DraftMembers → List (Option String × Json)
  | .last _ name _ _ value _ => [(meaning name, value.value)]
  | .more _ name _ _ value _ members => (meaning name, value.value) :: members.values

end

/-! ### Blanks -/

theorem skipBlanks_append (b : Blanks) (text : List Char) : skipBlanks (b.val ++ text) = skipBlanks text :=
  List.dropWhile_append_of_pos (List.all_eq_true.mp b.property)

theorem skipBlanks_cons {c : Char} (h : isBlank c = false) (text : List Char) :
    skipBlanks (c :: text) = c :: text := by
  rw [skipBlanks, List.dropWhile_cons_of_neg (by simp [h])]

theorem skipBlanks_mark (b : Blanks) {c : Char} (h : isBlank c = false) (text : List Char) :
    skipBlanks (b.val ++ c :: text) = c :: text := by
  rw [skipBlanks_append, skipBlanks_cons h]

theorem skipBlanks_blanks (b : Blanks) : skipBlanks b.val = [] := by
  have h := skipBlanks_append b []
  rwa [List.append_nil] at h

/-! ### Strings -/

theorem pieces_plain {c : Char} (hc : isPlain c = true) (text : List Char) :
    pieces (c :: text) = (pieces text).map fun (ps, rest) => (.char c :: ps, rest) := by
  simp only [isPlain, Bool.and_eq_true, bne_iff_ne, decide_eq_true_eq] at hc
  obtain ⟨⟨hquote, hslash⟩, hvisible⟩ := hc
  have hstop : (c = '\\' || c < ' ') = false := by simpa [hslash] using hvisible
  -- The equation of the last case asks for a text that is not known yet, so the match is opened instead.
  rw [pieces.eq_def]
  split
  case h_4 heq =>
    obtain ⟨rfl, rfl⟩ := List.cons.inj heq
    rw [if_neg (by simpa using hstop)]
    cases pieces text <;> rfl
  all_goals simp_all

theorem pieces_letter {c d : Char} (hc : escaped? c = some d) (text : List Char) :
    pieces ('\\' :: c :: text) = (pieces text).map fun (ps, rest) => (.char d :: ps, rest) := by
  have hu : c ≠ 'u' := by rintro rfl; simp [escaped?] at hc
  rw [pieces.eq_def]
  split
  case h_3 heq =>
    obtain ⟨-, heq⟩ := List.cons.inj heq
    obtain ⟨rfl, rfl⟩ := List.cons.inj heq
    rw [hc]
    cases pieces text <;> rfl
  case h_4 hno heq =>
    obtain ⟨rfl, rfl⟩ := List.cons.inj heq
    exact absurd rfl (hno _ _ rfl)
  all_goals simp_all

theorem pieces_stroke (s : Stroke) (text : List Char) :
    pieces (s.text ++ text) = (pieces text).map fun (ps, rest) => (s.piece :: ps, rest) := by
  cases s with
  | plain c => exact pieces_plain c.property text
  | letter c => exact pieces_letter (Option.some_get c.property).symm text
  | unit a b c d =>
    have hdigit : ∀ e : { c : Char // (hexValue? c).isSome = true },
        hexValue? e.val = some ((hexValue? e.val).get e.property) := by
      intro e
      exact (Option.some_get e.property).symm
    show pieces ('\\' :: 'u' :: a.val :: b.val :: c.val :: d.val :: text) = _
    rw [pieces, hdigit a, hdigit b, hdigit c, hdigit d]
    cases pieces text <;> rfl

theorem pieces_strokes (strokes : List Stroke) (rest : List Char) :
    pieces (strokes.flatMap Stroke.text ++ '"' :: rest) = some (strokes.map Stroke.piece, rest) := by
  induction strokes with
  | nil => rfl
  | cons s strokes ih => rw [List.flatMap_cons, List.append_assoc, pieces_stroke, ih, List.map_cons]; rfl

/-! ### Integers -/

theorem isDigit_toDigits (n : Nat) : ∀ c ∈ Nat.toDigits 10 n, isDigit c = true := by
  intro c hc
  exact Nat.isDigit_of_mem_toDigits (by decide) (by decide) hc

/-- No number but 0 is written with a 0 in front. -/
theorem head_toDigits {n : Nat} (h : n ≠ 0) : (Nat.toDigits 10 n).head? ≠ some '0' := by
  induction n using Nat.strongRecOn with
  | _ n ih =>
    by_cases hlt : n < 10
    · have hdigit : ∀ d < 10, d ≠ 0 → d.digitChar ≠ '0' := by decide
      rw [Nat.toDigits_of_lt_base hlt, List.head?_cons, ne_eq, Option.some.injEq]
      exact hdigit n hlt h
    · rw [Nat.toDigits_of_base_le (by decide) (Nat.not_lt.mp hlt),
        List.head?_append_of_ne_nil _ Nat.toDigits_ne_nil]
      exact ih (n / 10) (by omega) (by omega)

theorem digitsValue_toDigits (n : Nat) : digitsValue (Nat.toDigits 10 n) = n := by
  have hcore : digitsValue (Nat.toDigits 10 n) = Nat.ofDigitChars 10 (Nat.toDigits 10 n) 0 := by
    simp only [digitsValue, digitValue, Nat.ofDigitChars, Nat.mul_comm]
  rw [hcore, Nat.ofDigitChars_ten_toDigits]

/-- Whether a number cannot go on with this text. -/
def ends : List Char → Bool
  | [] => true
  | c :: _ => !isDigit c && c != '.' && c != 'e' && c != 'E'

/-- Blanks and marks end a number. -/
theorem ends_append (b : Blanks) {text : List Char} (h : ends text = true) : ends (b.val ++ text) = true := by
  obtain ⟨blanks, hb⟩ := b
  cases blanks with
  | nil => exact h
  | cons c blanks =>
    have hc := List.all_eq_true.mp hb c List.mem_cons_self
    simp only [isBlank, Bool.or_eq_true, decide_eq_true_eq] at hc
    rcases hc with ((rfl | rfl) | rfl) | rfl <;> rfl

theorem digits?_append {digits rest : List Char} (hdigits : ∀ c ∈ digits, isDigit c = true)
    (hne : digits ≠ []) (hrest : ends rest = true) : digits? (digits ++ rest) = some (digits, rest) := by
  have htake : (digits ++ rest).takeWhile isDigit = digits := by
    rw [List.takeWhile_append_of_pos hdigits]
    cases rest with
    | nil => simp
    | cons c rest =>
      have hc : isDigit c = false := by
        simp only [ends, Bool.and_eq_true, Bool.not_eq_true'] at hrest
        exact hrest.1.1.1
      rw [List.takeWhile_cons_of_neg (by simp [hc]), List.append_nil]
  simp only [digits?, htake, List.isEmpty_iff, hne, if_false, List.drop_left']

theorem fraction?_ends {text : List Char} (h : ends text = true) : fraction? text = some ([], text) := by
  unfold fraction?
  split
  · simp [ends] at h
  · rfl

theorem exponent?_ends {text : List Char} (h : ends text = true) : exponent? text = some ([], text) := by
  unfold exponent?
  split
  · rename_i c rest
    simp only [ends, Bool.and_eq_true, bne_iff_ne] at h
    rw [if_neg (by simp [h.1.2, h.2])]
  · rfl

theorem whole?_toDigits (n : Nat) {rest : List Char} (h : ends rest = true) :
    whole? (Nat.toDigits 10 n ++ rest) = some (Nat.toDigits 10 n, rest) := by
  have hzero : 1 < (Nat.toDigits 10 n).length → (Nat.toDigits 10 n).head? ≠ some '0' := by
    by_cases hn : n = 0
    · subst hn
      decide
    · exact fun _ => head_toDigits hn
  rw [whole?, digits?_append (isDigit_toDigits n) Nat.toDigits_ne_nil h]
  simpa using hzero

theorem unsigned?_toDigits (n : Nat) {rest : List Char} (h : ends rest = true) :
    unsigned? (Nat.toDigits 10 n ++ rest) = some (Nat.toDigits 10 n, rest) := by
  simp [unsigned?, whole?_toDigits n h, fraction?_ends h, exponent?_ends h]

/-! ### Values that hold no others -/

/-- The first character of an integer is a sign or a digit. -/
theorem scalar?_digit {c : Char} (hc : isDigit c = true) (text : List Char) :
    scalar? (c :: text) = (unsigned? (c :: text)).map fun (spelling, rest) => (.number spelling, rest) := by
  unfold scalar?
  split
  case h_6 => rfl
  all_goals
    rename_i heq
    obtain ⟨rfl, -⟩ := List.cons.inj heq
    simp [isDigit] at hc

theorem scalar?_integer (negative : Bool) (n : Nat) {rest : List Char} (h : ends rest = true) :
    scalar? (integerText negative n ++ rest) = some (.number (integerText negative n), rest) := by
  cases negative with
  | true =>
    show (unsigned? (Nat.toDigits 10 n ++ rest)).map _ = _
    rw [unsigned?_toDigits n h]
    rfl
  | false =>
    show scalar? (Nat.toDigits 10 n ++ rest) = some (.number (Nat.toDigits 10 n), rest)
    have hread := unsigned?_toDigits n h
    have hdigit := isDigit_toDigits n
    cases hdigits : Nat.toDigits 10 n with
    | nil => exact absurd hdigits Nat.toDigits_ne_nil
    | cons c digits =>
      rw [hdigits] at hread hdigit
      rw [List.cons_append, scalar?_digit (hdigit c List.mem_cons_self), ← List.cons_append, hread]
      rfl

theorem scalar?_string (strokes : List Stroke) (rest : List Char) :
    scalar? (quoted strokes ++ rest) = some (.string (meaning strokes), rest) := by
  have hpieces := pieces_strokes strokes rest
  rw [quoted, List.cons_append, List.append_assoc]
  show (pieces (strokes.flatMap Stroke.text ++ '"' :: rest)).map _ = _
  rw [hpieces]
  rfl

/-- What opens no array and no object is read as a value that holds no others. -/
theorem value?_scalar {c : Char} (hblank : isBlank c = false) (harray : c ≠ '[') (hobject : c ≠ '\x7b')
    (before : Blanks) (fuel : Nat) (text : List Char) :
    value? (fuel + 1) (before.val ++ c :: text) = scalar? (c :: text) := by
  rw [value?, skipBlanks_mark before hblank]
  split
  case h_1 heq => exact absurd (List.cons.inj heq).1 harray
  case h_2 heq => exact absurd (List.cons.inj heq).1 hobject
  case h_3 => rfl

/-- How a value may begin. -/
def starts (c : Char) : Bool := !isBlank c && c != ']' && c != '\x7d'

/-- An integer begins with a sign or a digit. -/
theorem exists_head_integer (negative : Bool) (n : Nat) :
    ∃ c text, integerText negative n = c :: text ∧ (c = '-' ∨ isDigit c = true) := by
  cases negative with
  | true => exact ⟨_, _, rfl, Or.inl rfl⟩
  | false =>
    obtain ⟨c, digits, hdigits⟩ := List.exists_cons_of_ne_nil (@Nat.toDigits_ne_nil n 10)
    refine ⟨c, digits, hdigits, Or.inr (isDigit_toDigits n c ?_)⟩
    rw [hdigits]
    exact List.mem_cons_self

theorem starts_integer {c : Char} (h : c = '-' ∨ isDigit c = true) :
    starts c = true ∧ isBlank c = false ∧ c ≠ '[' ∧ c ≠ '\x7b' := by
  have hother : ∀ d : Char, d ≠ '-' → isDigit d = false → c ≠ d := by
    rintro d hminus hdigit rfl
    rcases h with rfl | h
    · exact hminus rfl
    · rw [h] at hdigit
      cases hdigit
  have hblank : isBlank c = false := by
    simp [isBlank, hother ' ' (by decide) (by decide), hother '\n' (by decide) (by decide),
      hother '\t' (by decide) (by decide), hother '\r' (by decide) (by decide)]
  refine ⟨?_, hblank, hother _ (by decide) (by decide), hother _ (by decide) (by decide)⟩
  simp [starts, hblank, hother ']' (by decide) (by decide), hother '\x7d' (by decide) (by decide)]

theorem Draft.exists_head (d : Draft) : ∃ c text, d.text = c :: text ∧ starts c = true := by
  cases d with
  | bool value => cases value <;> exact ⟨_, _, rfl, rfl⟩
  | integer negative n =>
    obtain ⟨c, text, htext, hc⟩ := exists_head_integer negative n
    exact ⟨c, text, htext, (starts_integer hc).1⟩
  | _ => exact ⟨_, _, rfl, rfl⟩

/-! ### Arrays and objects -/

section
variable {fuel : Nat} {text rest more : List Char} {v : Json} {vs : List Json} {name : Option String}
  {members : List (Option String × Json)}

theorem value?_array (before : Blanks) (hitems : items? fuel text = some (vs, rest))
    (hopen : ∀ rest, skipBlanks text ≠ ']' :: rest) :
    value? (fuel + 1) (before.val ++ '[' :: text) = some (.array vs, rest) := by
  rw [value?, skipBlanks_mark before (by decide)]
  simp only [hitems, Option.map_some]

theorem value?_object (before : Blanks) (hmembers : members? fuel text = some (members, rest))
    (hopen : ∀ rest, skipBlanks text ≠ '\x7d' :: rest) :
    value? (fuel + 1) (before.val ++ '\x7b' :: text) = some (.object members, rest) := by
  rw [value?, skipBlanks_mark before (by decide)]
  simp only [hmembers, Option.map_some]

theorem items?_last (after : Blanks) (hitem : value? fuel text = some (v, after.val ++ ']' :: rest)) :
    items? (fuel + 1) text = some ([v], rest) := by
  simp [items?, hitem, skipBlanks_mark after (show isBlank ']' = false by decide)]

theorem items?_more (after : Blanks) (hitem : value? fuel text = some (v, after.val ++ ',' :: more))
    (hmore : items? fuel more = some (vs, rest)) : items? (fuel + 1) text = some (v :: vs, rest) := by
  simp [items?, hitem, skipBlanks_mark after (show isBlank ',' = false by decide), hmore]

theorem name?_quoted (before gap : Blanks) (name : List Stroke) (text : List Char) :
    name? (before.val ++ (quoted name ++ (gap.val ++ ':' :: text))) = some (meaning name, text) := by
  have hcolon : skipBlanks (gap.val ++ ':' :: text) = ':' :: text := skipBlanks_mark gap (by decide) text
  have hquote : skipBlanks (before.val ++ (quoted name ++ (gap.val ++ ':' :: text))) =
      '"' :: (name.flatMap Stroke.text ++ '"' :: (gap.val ++ ':' :: text)) := by
    rw [skipBlanks_append, quoted, List.cons_append, skipBlanks_cons (by decide), List.append_assoc]
    rfl
  simp [name?, hquote, pieces_strokes, hcolon, meaning]

theorem members?_last (after : Blanks) (hname : name? text = some (name, more))
    (hvalue : value? fuel more = some (v, after.val ++ '\x7d' :: rest)) :
    members? (fuel + 1) text = some ([(name, v)], rest) := by
  simp [members?, hname, hvalue, skipBlanks_mark after (show isBlank '\x7d' = false by decide)]

theorem members?_more (after : Blanks) {next : List Char} (hname : name? text = some (name, more))
    (hvalue : value? fuel more = some (v, after.val ++ ',' :: next))
    (hnext : members? fuel next = some (members, rest)) :
    members? (fuel + 1) text = some ((name, v) :: members, rest) := by
  simp [members?, hname, hvalue, skipBlanks_mark after (show isBlank ',' = false by decide), hnext]

end

/-! ### Whole drafts -/

theorem Draft.text_ne_nil (d : Draft) : 0 < d.text.length := by
  obtain ⟨c, text, htext, -⟩ := d.exists_head
  rw [htext]
  exact Nat.zero_lt_succ _

/-- A value does not begin with a closing mark. -/
theorem Draft.opens (d : Draft) (before : Blanks) (text : List Char) {mark : Char}
    (hmark : starts mark = false) (rest : List Char) :
    skipBlanks (before.val ++ (d.text ++ text)) ≠ mark :: rest := by
  obtain ⟨c, tail, htext, hc⟩ := d.exists_head
  have hblank : isBlank c = false := by
    simp only [starts, Bool.and_eq_true, Bool.not_eq_true'] at hc
    exact hc.1.1
  rw [skipBlanks_append, htext, List.cons_append, skipBlanks_cons hblank]
  intro heq
  rw [(List.cons.inj heq).1, hmark] at hc
  exact absurd hc (by decide)

theorem DraftItems.opens (items : DraftItems) (text rest : List Char) :
    skipBlanks (items.text ++ text) ≠ ']' :: rest := by
  cases items with
  | last before item after =>
    rw [DraftItems.text, List.append_assoc, List.append_assoc]
    exact item.opens before _ (by decide) rest
  | more before item after items =>
    rw [DraftItems.text, List.append_assoc, List.append_assoc]
    exact item.opens before _ (by decide) rest

theorem DraftMembers.opens (members : DraftMembers) (text rest : List Char) :
    skipBlanks (members.text ++ text) ≠ '\x7d' :: rest := by
  have hquote : ∀ (before : Blanks) (name : List Stroke) (text : List Char),
      skipBlanks (before.val ++ (quoted name ++ text)) ≠ '\x7d' :: rest := by
    intro before name text
    rw [skipBlanks_append, quoted, List.cons_append, skipBlanks_cons (by decide)]
    simp
  cases members with
  | last before name gap space value after =>
    rw [DraftMembers.text, List.append_assoc, List.append_assoc]
    exact hquote before name _
  | more before name gap space value after members =>
    rw [DraftMembers.text, List.append_assoc, List.append_assoc]
    exact hquote before name _

/-- A value that holds no others is read by its first character. -/
theorem value?_text {text : List Char}
    (hhead : ∃ c tail, text = c :: tail ∧ isBlank c = false ∧ c ≠ '[' ∧ c ≠ '\x7b') (before : Blanks)
    (fuel : Nat) (rest : List Char) :
    value? (fuel + 1) (before.val ++ (text ++ rest)) = scalar? (text ++ rest) := by
  obtain ⟨c, tail, rfl, hblank, harray, hobject⟩ := hhead
  exact value?_scalar hblank harray hobject before fuel (tail ++ rest)

mutual

/-- A draft's text is read as its value, if fuel suffices for its characters. -/
theorem value?_draft (d : Draft) (before : Blanks) {fuel : Nat} (hfuel : d.text.length ≤ fuel)
    {rest : List Char} (hrest : ends rest = true) :
    value? fuel (before.val ++ (d.text ++ rest)) = some (d.value, rest) := by
  -- One unit of fuel goes with each value that is entered, and so does at least one character of the text.
  obtain ⟨fuel, rfl⟩ : ∃ k, fuel = k + 1 := ⟨fuel - 1, by have := d.text_ne_nil; omega⟩
  match d with
  | .null => exact value?_text ⟨_, _, rfl, by decide⟩ before fuel rest
  | .bool true => exact value?_text ⟨_, _, rfl, by decide⟩ before fuel rest
  | .bool false => exact value?_text ⟨_, _, rfl, by decide⟩ before fuel rest
  | .integer negative n =>
    obtain ⟨c, text, htext, hc⟩ := exists_head_integer negative n
    exact (value?_text ⟨c, text, htext, (starts_integer hc).2⟩ before fuel rest).trans
      (scalar?_integer negative n hrest)
  | .string strokes =>
    exact (value?_text ⟨_, _, rfl, by decide⟩ before fuel rest).trans (scalar?_string strokes rest)
  | .emptyArray gap =>
    have hclose : skipBlanks (gap.val ++ ([']'] ++ rest)) = ']' :: rest :=
      skipBlanks_mark gap (by decide) rest
    rw [Draft.text, List.cons_append, List.append_assoc, value?, skipBlanks_mark before (by decide)]
    simp only [hclose]
    rfl
  | .emptyObject gap =>
    have hclose : skipBlanks (gap.val ++ (['\x7d'] ++ rest)) = '\x7d' :: rest :=
      skipBlanks_mark gap (by decide) rest
    rw [Draft.text, List.cons_append, List.append_assoc, value?, skipBlanks_mark before (by decide)]
    simp only [hclose]
    rfl
  | .array items =>
    rw [Draft.text, List.length_cons, List.length_append, List.length_singleton] at hfuel
    rw [Draft.text, List.cons_append, List.append_assoc]
    exact value?_array before (items?_draft items (by omega) rest) (items.opens _)
  | .object members =>
    rw [Draft.text, List.length_cons, List.length_append, List.length_singleton] at hfuel
    rw [Draft.text, List.cons_append, List.append_assoc]
    exact value?_object before (members?_draft members (by omega) rest) (members.opens _)

theorem items?_draft (items : DraftItems) {fuel : Nat} (hfuel : items.text.length + 1 ≤ fuel)
    (rest : List Char) : items? fuel (items.text ++ ']' :: rest) = some (items.values, rest) := by
  obtain ⟨fuel, rfl⟩ : ∃ k, fuel = k + 1 := ⟨fuel - 1, by omega⟩
  match items with
  | .last before item after =>
    simp only [DraftItems.text, List.length_append, List.append_assoc] at hfuel ⊢
    exact items?_last after (value?_draft item before (by omega) (ends_append after rfl))
  | .more before item after items =>
    simp only [DraftItems.text, List.length_append, List.length_cons, List.append_assoc,
      List.cons_append] at hfuel ⊢
    exact items?_more after (value?_draft item before (by omega) (ends_append after rfl))
      (items?_draft items (by omega) rest)

theorem members?_draft (members : DraftMembers) {fuel : Nat} (hfuel : members.text.length + 1 ≤ fuel)
    (rest : List Char) : members? fuel (members.text ++ '\x7d' :: rest) = some (members.values, rest) := by
  obtain ⟨fuel, rfl⟩ : ∃ k, fuel = k + 1 := ⟨fuel - 1, by omega⟩
  match members with
  | .last before name gap space value after =>
    simp only [DraftMembers.text, List.length_append, List.length_cons, List.append_assoc,
      List.cons_append] at hfuel ⊢
    exact members?_last after (name?_quoted before gap name _)
      (value?_draft value space (by omega) (ends_append after rfl))
  | .more before name gap space value after members =>
    simp only [DraftMembers.text, List.length_append, List.length_cons, List.append_assoc,
      List.cons_append] at hfuel ⊢
    exact members?_more after (name?_quoted before gap name _)
      (value?_draft value space (by omega) (ends_append after rfl)) (members?_draft members (by omega) rest)

end

/-- A draft between blanks is read as its value. -/
theorem read_draft (before : Blanks) (d : Draft) (after : Blanks) :
    read? (String.ofList (before.val ++ (d.text ++ after.val))) = some d.value := by
  have hlength : d.text.length ≤ 2 * (String.ofList (before.val ++ (d.text ++ after.val))).length + 2 := by
    rw [String.length_ofList, List.length_append, List.length_append]
    omega
  have hends : ends after.val = true := by
    rw [← List.append_nil after.val]
    exact ends_append after rfl
  rw [read?, String.toList_ofList, value?_draft d before hlength hends]
  simp [skipBlanks_blanks]

/-! ### Printed values -/

/-- What is printed as it is read: texts need no escapes, arrays and objects are empty. -/
inductive Printable : Json → Prop where
  | null : Printable .null
  | bool (value : Bool) : Printable (.bool value)
  | integer (negative : Bool) (n : Nat) : Printable (.number (integerText negative n))
  | string {text : String} (h : text.toList.all isPlain = true) : Printable (.string (some text))
  | emptyArray : Printable (.array [])
  | emptyObject : Printable (.object [])

/-- A text without escapes, each character by itself. -/
def spell (text : List Char) (h : text.all isPlain = true) : List Stroke :=
  text.pmap (fun c hc => .plain ⟨c, hc⟩) (List.all_eq_true.mp h)

theorem quoted_spell (text : List Char) (h : text.all isPlain = true) :
    quoted (spell text h) = '"' :: (text ++ ['"']) := by
  suffices htext : (spell text h).flatMap Stroke.text = text by rw [quoted, htext]
  induction text with
  | nil => rfl
  | cons c text ih => exact congrArg (c :: ·) (ih (Bool.and_eq_true_iff.mp h).2)

theorem meaning_spell (text : List Char) (h : text.all isPlain = true) :
    meaning (spell text h) = some (String.ofList text) := by
  suffices hpieces : textOf ((spell text h).map Stroke.piece) = some text by
    rw [meaning, hpieces, Option.map_some]
  induction text with
  | nil => rfl
  | cons c text ih =>
    have htail : text.all isPlain = true := (Bool.and_eq_true_iff.mp h).2
    show (textOf ((spell text htail).map Stroke.piece)).map (c :: ·) = _
    rw [ih htail, Option.map_some]

theorem exists_strokes {text : String} (h : text.toList.all isPlain = true) :
    ∃ strokes, quoted strokes = ("\"" ++ text ++ "\"").toList ∧ meaning strokes = some text := by
  refine ⟨spell text.toList h, ?_, by rw [meaning_spell, String.ofList_toList]⟩
  rw [quoted_spell, String.toList_append, String.toList_append]
  rfl

theorem Printable.exists_draft {v : Json} (h : Printable v) :
    ∃ d : Draft, d.text = (printScalar v).toList ∧ d.value = v := by
  cases h with
  | null => exact ⟨.null, rfl, rfl⟩
  | bool value => exact ⟨.bool value, by cases value <;> rfl, rfl⟩
  | integer negative n => exact ⟨.integer negative n, String.toList_ofList.symm, rfl⟩
  | string h =>
    obtain ⟨strokes, htext, hmeaning⟩ := exists_strokes h
    exact ⟨.string strokes, htext, congrArg Json.string hmeaning⟩
  | emptyArray => exact ⟨.emptyArray ⟨[], rfl⟩, rfl, rfl⟩
  | emptyObject => exact ⟨.emptyObject ⟨[], rfl⟩, rfl, rfl⟩

/-- A member that is read as it is printed. -/
structure PrintableMember (member : String × Json) : Prop where
  name : member.1.toList.all isPlain = true
  value : Printable member.2

theorem PrintableMember.exists_draft {member : String × Json} (h : PrintableMember member) :
    ∃ name value,
      (printMember member).toList = ' ' :: ' ' :: (quoted name ++ ':' :: ' ' :: Draft.text value) ∧
      meaning name = some member.1 ∧ value.value = member.2 := by
  obtain ⟨name, hname, hmeaning⟩ := exists_strokes h.name
  obtain ⟨value, hvalue, hv⟩ := h.value.exists_draft
  refine ⟨name, value, ?_, hmeaning, hv⟩
  rw [printMember, hname, hvalue]
  simp [String.toList_append]

/-- Printed members stand on lines of their own. -/
theorem exists_members (member : String × Json) (members : List (String × Json))
    (h : ∀ m ∈ member :: members, PrintableMember m) :
    ∃ ms : DraftMembers,
      ms.text = '\n' :: ((String.intercalate ",\n" ((member :: members).map printMember)).toList ++ ['\n']) ∧
      ms.values = (member :: members).map fun m => (some m.1, m.2) := by
  have hindent : ['\n', ' ', ' '].all isBlank = true := rfl
  have hline : ['\n'].all isBlank = true := rfl
  have hspace : [' '].all isBlank = true := rfl
  induction members generalizing member with
  | nil =>
    obtain ⟨name, value, hprint, hmeaning, hvalue⟩ := (h member List.mem_cons_self).exists_draft
    refine ⟨.last ⟨_, hindent⟩ name ⟨[], rfl⟩ ⟨_, hspace⟩ value ⟨_, hline⟩, ?_, ?_⟩
    · simp [DraftMembers.text, hprint]
    · rw [DraftMembers.values, hmeaning, hvalue, List.map_singleton]
  | cons next members ih =>
    obtain ⟨name, value, hprint, hmeaning, hvalue⟩ := (h member List.mem_cons_self).exists_draft
    obtain ⟨ms, hms, hvalues⟩ := ih next fun m hm => h m (List.mem_cons_of_mem member hm)
    refine ⟨.more ⟨_, hindent⟩ name ⟨[], rfl⟩ ⟨_, hspace⟩ value ⟨[], rfl⟩ ms, ?_, ?_⟩
    · rw [List.map_cons, List.map_cons, String.intercalate_cons_cons, ← List.map_cons]
      simp [DraftMembers.text, hms, hprint]
    · rw [DraftMembers.values, hmeaning, hvalue, hvalues]
      rfl

/-- A printed object is a draft, and is read as the members that it was printed from. -/
theorem exists_draft_printObject {members : List (String × Json)} (h : ∀ m ∈ members, PrintableMember m) :
    ∃ d : Draft, d.text = (printObject members).toList ∧
      d.value = .object (members.map fun m => (some m.1, m.2)) := by
  cases members with
  | nil => exact ⟨.emptyObject ⟨['\n', '\n'], rfl⟩, rfl, rfl⟩
  | cons member members =>
    obtain ⟨ms, htext, hvalues⟩ := exists_members member members h
    refine ⟨.object ms, ?_, by rw [Draft.value, hvalues]⟩
    rw [Draft.text, htext, printObject]
    simp [String.toList_append]

end Famicom.Json
