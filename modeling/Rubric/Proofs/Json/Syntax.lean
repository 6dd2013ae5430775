import Mathlib.Data.Bool.AllAny

/-!
# The syntax of JSON texts

The syntax trees of all valid JSON texts, with the white space between their tokens, and how they
are written (`Document.chars`). White space may stand in front of and behind every value, and around
every comma and colon. An object is closed flush if no white space stands in front of its brace, or
if the last of it is a newline (`Value.isFlush`).
-/

namespace Rubric.JsonText

/-- White space between tokens. -/
def blanks : List Char :=
  [' ', '\t', '\r', '\n']

def digits : List Char :=
  ['0', '1', '2', '3', '4', '5', '6', '7', '8', '9']

def hexDigits : List Char :=
  digits ++ ['a', 'b', 'c', 'd', 'e', 'f', 'A', 'B', 'C', 'D', 'E', 'F']

/-- The characters that a backslash escapes by itself. -/
def escapable : List Char :=
  ['"', '\\', '/', 'b', 'f', 'n', 'r', 't']

/-- A character of a list. -/
abbrev OneOf (chars : List Char) :=
  { c : Char // c ∈ chars }

/-- A line end between tokens. -/
def newline : OneOf blanks :=
  ⟨'\n', by decide⟩

/-- White space in front of or behind a token. -/
abbrev Gap := List (OneOf blanks)

/-- A sequence of digits, which is not empty. -/
structure Digits where
  first : OneOf digits
  rest : List (OneOf digits)

/-- The digits in front of the point. The first of several is not zero. -/
inductive Whole where
  | zero
  | digits (first : OneOf (digits.drop 1)) (rest : List (OneOf digits))

/-- A power of ten. -/
structure Exponent where
  mark : OneOf ['e', 'E']
  sign : Option (OneOf ['+', '-'])
  digits : Digits

structure Number where
  negative : Bool
  whole : Whole
  fraction : Option Digits
  exponent : Option Exponent

/-- A character that stands for itself in a string. -/
abbrev Plain :=
  { c : Char // 0x20 ≤ c.toNat ∧ c ≠ '"' ∧ c ≠ '\\' }

/-- A character of a string, as it is written. -/
inductive Item where
  | plain (c : Plain)
  | escape (c : OneOf escapable)
  | code (a b c d : OneOf hexDigits)

/-- The three values with names. -/
inductive Constant where
  | true
  | false
  | null

mutual

inductive Value where
  | constant (c : Constant)
  | number (n : Number)
  | string (items : List Item)
  | emptyArray (gap : Gap)
  | array (elements : Elements)
  | emptyObject (gap : Gap)
  | object (members : Members)

/-- The values of an array that is not empty, each with the white space around it. -/
inductive Elements where
  | last (before : Gap) (value : Value) (behind : Gap)
  | more (before : Gap) (value : Value) (behind : Gap) (rest : Elements)

/-- The members of an object that is not empty, with the white space around names and values. -/
inductive Members where
  | last (before : Gap) (name : List Item) (colon : Gap) (inner : Gap) (value : Value)
    (behind : Gap)
  | more (before : Gap) (name : List Item) (colon : Gap) (inner : Gap) (value : Value)
    (behind : Gap) (rest : Members)

end

/-- A JSON text. -/
structure Document where
  before : Gap
  value : Value
  behind : Gap

/-! ## How it is written -/

/-- The characters as such. -/
def chars {p : Char → Prop} (cs : List { c : Char // p c }) : List Char :=
  cs.map (·.val)

def Digits.chars (d : Digits) : List Char :=
  d.first.val :: JsonText.chars d.rest

def Whole.chars : Whole → List Char
  | zero => ['0']
  | digits first rest => first.val :: JsonText.chars rest

def Exponent.chars (e : Exponent) : List Char :=
  e.mark.val :: (e.sign.toList.map (·.val) ++ e.digits.chars)

def fractionChars : Option Digits → List Char
  | none => []
  | some d => '.' :: d.chars

def exponentChars : Option Exponent → List Char
  | none => []
  | some e => e.chars

def Number.chars (n : Number) : List Char :=
  (if n.negative then ['-'] else []) ++
    (n.whole.chars ++ (fractionChars n.fraction ++ exponentChars n.exponent))

def Item.chars : Item → List Char
  | plain c => [c.val]
  | escape c => ['\\', c.val]
  | code a b c d => ['\\', 'u', a.val, b.val, c.val, d.val]

def itemsChars (items : List Item) : List Char :=
  items.flatMap Item.chars

/-- A string between its quotation marks. -/
def quotedChars (items : List Item) : List Char :=
  '"' :: (itemsChars items ++ ['"'])

def Constant.chars : Constant → List Char
  | true => ['t', 'r', 'u', 'e']
  | false => ['f', 'a', 'l', 's', 'e']
  | null => ['n', 'u', 'l', 'l']

mutual

def Value.chars : Value → List Char
  | .constant c => c.chars
  | .number n => n.chars
  | .string items => quotedChars items
  | .emptyArray gap => '[' :: (JsonText.chars gap ++ [']'])
  | .array elements => '[' :: (elements.chars ++ [']'])
  | .emptyObject gap => '\x7b' :: (JsonText.chars gap ++ ['\x7d'])
  | .object members => '\x7b' :: (members.chars ++ ['\x7d'])

def Elements.chars : Elements → List Char
  | .last before value behind =>
    JsonText.chars before ++ (value.chars ++ JsonText.chars behind)
  | .more before value behind rest =>
    JsonText.chars before ++ (value.chars ++ (JsonText.chars behind ++ ',' :: rest.chars))

def Members.chars : Members → List Char
  | .last before name colon inner value behind =>
    JsonText.chars before ++ (quotedChars name ++ (JsonText.chars colon ++ ':' ::
      (JsonText.chars inner ++ (value.chars ++ JsonText.chars behind))))
  | .more before name colon inner value behind rest =>
    JsonText.chars before ++ (quotedChars name ++ (JsonText.chars colon ++ ':' ::
      (JsonText.chars inner ++ (value.chars ++ (JsonText.chars behind ++ ',' :: rest.chars)))))

end

def Document.chars (d : Document) : List Char :=
  JsonText.chars d.before ++ (d.value.chars ++ JsonText.chars d.behind)

/-- The text itself. -/
def Document.text (d : Document) : String :=
  String.ofList d.chars

/-! ## The characters of tokens -/

theorem mem_of_mem_chars {all : List Char} {cs : List (OneOf all)} {c : Char} (h : c ∈ chars cs) :
    c ∈ all := by
  obtain ⟨d, _, rfl⟩ := List.mem_map.mp h
  exact d.property

theorem Digits.chars_subset (d : Digits) : d.chars ⊆ digits :=
  List.cons_subset.mpr ⟨d.first.property, fun _ => mem_of_mem_chars⟩

theorem Whole.chars_subset (w : Whole) : w.chars ⊆ JsonText.digits := by
  cases w with
  | zero => decide
  | digits first rest =>
    exact List.cons_subset.mpr ⟨List.mem_of_mem_drop first.property, fun _ => mem_of_mem_chars⟩

/-- The characters that values begin with. -/
def valueStarts : List Char :=
  't' :: 'f' :: 'n' :: '-' :: digits ++ ['"', '[', '\x7b']

/-- The characters that numbers are made of. -/
def numberChars : List Char :=
  ['-', '+', '.', 'e', 'E'] ++ digits

theorem Exponent.chars_subset (e : Exponent) : e.chars ⊆ numberChars := by
  obtain ⟨mark, sign, d⟩ := e
  have hmark : ['e', 'E'] ⊆ numberChars := by decide
  have hsign : ['+', '-'] ⊆ numberChars := by decide
  have hdigits : JsonText.digits ⊆ numberChars := by decide
  refine List.cons_subset.mpr ⟨hmark mark.property,
    List.append_subset.mpr ⟨?_, List.Subset.trans d.chars_subset hdigits⟩⟩
  cases sign with
  | none => exact List.nil_subset _
  | some sign => exact List.cons_subset.mpr ⟨hsign sign.property, List.nil_subset _⟩

theorem Number.chars_subset (n : Number) : n.chars ⊆ numberChars := by
  obtain ⟨negative, whole, fraction, exponent⟩ := n
  have hdigits : digits ⊆ numberChars := by decide
  have hfraction : fractionChars fraction ⊆ numberChars := by
    cases fraction with
    | none => exact List.nil_subset _
    | some d => exact List.cons_subset.mpr ⟨by decide, List.Subset.trans d.chars_subset hdigits⟩
  have hexponent : exponentChars exponent ⊆ numberChars := by
    cases exponent with
    | none => exact List.nil_subset _
    | some e => exact e.chars_subset
  have hsign : (if negative then ['-'] else []) ⊆ numberChars := by
    cases negative <;> decide
  exact List.append_subset.mpr
    ⟨hsign, List.append_subset.mpr ⟨List.Subset.trans whole.chars_subset hdigits,
    List.append_subset.mpr ⟨hfraction, hexponent⟩⟩⟩

/-- All characters of the text can be printed. -/
def Printable (text : List Char) : Prop :=
  ∀ c ∈ text, 0x20 ≤ c.toNat

/-- So there is no newline among them. -/
theorem Printable.flat {text : List Char} (h : Printable text) : '\n' ∉ text :=
  fun hmem => absurd (h _ hmem) (by decide)

theorem Number.printable (n : Number) : Printable n.chars := by
  have hall : ∀ c ∈ numberChars, 0x20 ≤ c.toNat := List.all_iff_forall_prop.mp (by decide)
  exact fun c hc => hall c (n.chars_subset hc)

theorem Constant.printable (c : Constant) : Printable c.chars := by
  cases c <;> exact List.all_iff_forall_prop.mp (by decide)

theorem Item.printable (item : Item) : Printable item.chars := by
  have hescapable : ∀ c ∈ escapable, 0x20 ≤ c.toNat := List.all_iff_forall_prop.mp (by decide)
  have hhex : ∀ c ∈ hexDigits, 0x20 ≤ c.toNat := List.all_iff_forall_prop.mp (by decide)
  cases item with
  | plain c => exact List.forall_mem_singleton.mpr c.property.1
  | escape c => simp [Printable, chars, hescapable c.val c.property]
  | code a b c d =>
    simp [Printable, chars, hhex a.val a.property, hhex b.val b.property, hhex c.val c.property,
      hhex d.val d.property]

theorem quotedChars_printable (items : List Item) : Printable (quotedChars items) := by
  intro c hc
  rcases List.mem_cons.mp hc with rfl | hc
  · decide
  · rcases List.mem_append.mp hc with hc | hc
    · obtain ⟨item, _, hc⟩ := List.mem_flatMap.mp hc
      exact item.printable c hc
    · cases List.mem_singleton.mp hc
      decide

/-! ## What may follow -/

/-- The characters behind a value. -/
def stops : List Char :=
  blanks ++ [',', ']', '\x7d']

/-- What may stand behind the digits of a number. -/
def behindDigits : List Char :=
  '.' :: 'e' :: 'E' :: stops

/-- If the text goes on, it does so with one of the characters. -/
def Ahead (cs : List Char) (rest : List Char) : Prop :=
  ∀ c, rest.head? = some c → c ∈ cs

section
variable {cs ds rest : List Char}

theorem Ahead.cons {c : Char} (h : c ∈ cs) : Ahead cs (c :: rest) := by
  intro d hd
  cases hd
  exact h

theorem Ahead.mono (h : Ahead cs rest) (hs : cs ⊆ ds) : Ahead ds rest :=
  fun c hc => hs (h c hc)

theorem exponent_ahead (e : Option Exponent) (hrest : Ahead stops rest) :
    Ahead ('e' :: 'E' :: stops) (exponentChars e ++ rest) := by
  cases e with
  | none => exact hrest.mono (by decide)
  | some e =>
    have hsub : ['e', 'E'] ⊆ 'e' :: 'E' :: stops := by decide
    exact .cons (hsub e.mark.property)

theorem fraction_ahead (f : Option Digits) (e : Option Exponent) (hrest : Ahead stops rest) :
    Ahead behindDigits (fractionChars f ++ (exponentChars e ++ rest)) := by
  cases f with
  | none => exact (exponent_ahead e hrest).mono (by decide)
  | some f => exact .cons (by decide)

theorem whole_ahead (w : Whole) : Ahead digits (w.chars ++ rest) := by
  cases w with
  | zero => exact .cons (by decide)
  | digits first more => exact .cons (List.mem_of_mem_drop first.property)

theorem number_ahead (n : Number) : Ahead ('-' :: digits) (n.chars ++ rest) := by
  rw [Number.chars, List.append_assoc]
  split
  · exact .cons (by decide)
  · rw [List.append_assoc]
    exact (whole_ahead n.whole).mono (by decide)

end

theorem number_chars_ne_nil (n : Number) : n.chars ≠ [] := by
  rw [Number.chars]
  cases n.whole <;> simp [Whole.chars]

/-! ## Flush braces -/

/-- What follows stands at the start of a line, or directly behind what is in front of the gap. -/
def Gap.isFlush (gap : Gap) : Bool :=
  match gap.getLast? with
  | none => true
  | some c => c.val == '\n'

mutual

/-- Each object in the value is closed flush, unless it is empty. -/
def Value.isFlush : Value → Bool
  | .constant _ | .number _ | .string _ | .emptyArray _ | .emptyObject _ => true
  | .array elements => elements.isFlush
  | .object members => members.isFlush

def Elements.isFlush : Elements → Bool
  | .last _ value _ => value.isFlush
  | .more _ value _ rest => value.isFlush && rest.isFlush

/-- Each object in the members is closed flush, and so is the object that they are of. -/
def Members.isFlush : Members → Bool
  | .last _ _ _ _ value behind => value.isFlush && Gap.isFlush behind
  | .more _ _ _ _ value _ rest => value.isFlush && rest.isFlush

end

end Rubric.JsonText
