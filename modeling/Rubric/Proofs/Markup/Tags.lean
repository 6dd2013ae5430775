import Rubric.Proofs.Markup.Html

/-!
# Markup as tags and characters

A reader of markup goes through it character by character, in one of a few modes (`Mode.read`), and
hands on the tags, with their attributes, and the characters between them, entities undone
(`items`). Escaped text comes out as its own characters (`items_escapeText`). The value of an
attribute goes on to the next quote, whatever stands in it (`items_quoted`), and a quote inside ends
it early (`head?_tags_quoted_ne`).
-/

namespace Rubric.Markup

/-- A tag. The values of attributes are left as they stand. -/
structure Tag where
  closing : Bool := false
  name : List Char := []
  attributes : List (List Char × List Char) := []
deriving DecidableEq, Repr

/-- The tag with one more attribute. -/
def Tag.add (t : Tag) (key value : List Char) : Tag :=
  { t with attributes := t.attributes ++ [(key, value)] }

/-- What markup consists of. -/
inductive Item where
  | char (c : Char)
  | tag (t : Tag)
deriving DecidableEq, Repr

/-- The tag that the item is. -/
def Item.tag? : Item → Option Tag
  | tag t => some t
  | char _ => none

/-- Where a reader is. -/
inductive Mode where
  | text
  /-- behind an ampersand -/
  | entity (name : List Char)
  /-- behind a less-than sign -/
  | less
  /-- in the name of a tag -/
  | word (t : Tag)
  /-- between the attributes of a tag -/
  | blank (t : Tag)
  | key (t : Tag) (key : List Char)
  | equals (t : Tag) (key : List Char)
  | quoted (t : Tag) (key : List Char) (quote : Char) (value : List Char)
  /-- in a value without quotes -/
  | bare (t : Tag) (key value : List Char)
deriving DecidableEq, Repr

namespace Mode

/-- The characters that separate attributes. -/
def blanks : List Char :=
  [' ', '\t', '\n', '\r', '\x0c', '/']

/-- The entities of characters. -/
def entities : List (List Char × Char) :=
  [("amp".toList, '&'), ("lt".toList, '<'), ("gt".toList, '>'), ("quot".toList, '"')]

/-- Reads a character of text. -/
def readText (c : Char) : Mode × List Item :=
  if c = '<' then (less, []) else if c = '&' then (entity [], []) else (text, [.char c])

/-- Reads a character. What turns out to be no tag and no entity is text. -/
def read : Mode → Char → Mode × List Item
  | text, c => readText c
  | entity name, c =>
    if c = ';' then
      match entities.lookup name with
      | some d => (text, [.char d])
      | none => (text, ('&' :: (name ++ [';'])).map .char)
    else if c.isAlphanum then (entity (name ++ [c]), [])
    else ((readText c).1, ('&' :: name).map .char ++ (readText c).2)
  | less, c =>
    if c = '/' then (word { closing := true }, [])
    else if c.isAlpha then (word { name := [c] }, [])
    else ((readText c).1, .char '<' :: (readText c).2)
  | word t, c =>
    if c = '>' then (text, [.tag t])
    else if blanks.contains c then (blank t, [])
    else (word { t with name := t.name ++ [c] }, [])
  | blank t, c =>
    if c = '>' then (text, [.tag t])
    else if blanks.contains c then (blank t, [])
    else (key t [c], [])
  | key t k, c =>
    if c = '=' then (equals t k, [])
    else if c = '>' then (text, [.tag (t.add k [])])
    else if blanks.contains c then (blank (t.add k []), [])
    else (key t (k ++ [c]), [])
  | equals t k, c =>
    if c = '"' || c = '\'' then (quoted t k c [], [])
    else if c = '>' then (text, [.tag (t.add k [])])
    else if blanks.contains c then (equals t k, [])
    else (bare t k [c], [])
  | quoted t k quote value, c =>
    if c = quote then (blank (t.add k value), []) else (quoted t k quote (value ++ [c]), [])
  | bare t k value, c =>
    if c = '>' then (text, [.tag (t.add k value)])
    else if blanks.contains c then (blank (t.add k value), [])
    else (bare t k (value ++ [c]), [])

end Mode

/-- The items that are read from a mode on. A tag without an end is none. -/
def items : Mode → List Char → List Item
  | .less, [] => [.char '<']
  | .entity name, [] => ('&' :: name).map .char
  | _, [] => []
  | mode, c :: rest => (mode.read c).2 ++ items (mode.read c).1 rest

/-- The tags that are read from a mode on. -/
def tags (mode : Mode) (s : List Char) : List Tag :=
  (items mode s).filterMap Item.tag?

theorem items_cons (mode : Mode) (c : Char) (rest : List Char) :
    items mode (c :: rest) = (mode.read c).2 ++ items (mode.read c).1 rest := by
  cases mode <;> rfl

theorem tags_cons (mode : Mode) (c : Char) (rest : List Char) :
    tags mode (c :: rest) =
      (mode.read c).2.filterMap Item.tag? ++ tags (mode.read c).1 rest := by
  rw [tags, items_cons, List.filterMap_append, tags]

/-! ## Text -/

theorem items_escapeChar (c : Char) (rest : List Char) :
    items .text (escapeChar c ++ rest) = .char c :: items .text rest := by
  unfold escapeChar
  split
  · next h =>
    subst h
    rfl
  · next hamp =>
    split
    · next h =>
      subst h
      rfl
    · next hlt =>
      split
      · next h =>
        subst h
        rfl
      · simp [items_cons, Mode.read, Mode.readText, hamp, hlt]

theorem items_escapeText (s rest : List Char) :
    items .text (escapeText s ++ rest) = s.map .char ++ items .text rest := by
  induction s with
  | nil => rfl
  | cons c s ih =>
    rw [escapeText, List.flatMap_cons, List.append_assoc, items_escapeChar, ← escapeText, ih]
    rfl

/-! ## Values -/

section
variable {t : Tag} {key : List Char} {quote : Char} {value : List Char}

/-- A value without the quote is read as it is. -/
theorem items_quoted (h : quote ∉ value) (front rest : List Char) :
    items (.quoted t key quote front) (value ++ quote :: rest) =
      items (.blank (t.add key (front ++ value))) rest := by
  induction value generalizing front with
  | nil => simp [items_cons, Mode.read]
  | cons c value ih =>
    simp only [List.mem_cons, not_or] at h
    rw [List.cons_append, items_cons, Mode.read, if_neg (Ne.symm h.1)]
    simpa using ih h.2 (front ++ [c])

/-- The tag that is being read. -/
def Mode.tag? : Mode → Option Tag
  | .word t | .blank t | .key t _ | .equals t _ | .quoted t _ _ _ | .bare t _ _ => some t
  | .text | .entity _ | .less => none

/-- A tag is read on, or comes to its end. It keeps its attributes. -/
theorem Mode.read_tag {mode : Mode} (h : mode.tag? = some t) (c : Char) :
    ((mode.read c).2 = [] ∧ ∃ t', (mode.read c).1.tag? = some t' ∧
      t.attributes <+: t'.attributes) ∨
    ∃ t', (mode.read c).2 = [.tag t'] ∧ t.attributes <+: t'.attributes := by
  cases mode with
  | text | entity _ | less => cases h
  | _ =>
    cases h
    simp only [Mode.read]
    split_ifs <;> simp [Mode.tag?, Tag.add]

theorem attributes_prefix {mode : Mode} (h : mode.tag? = some t) (s : List Char) :
    ∀ t' ∈ (tags mode s).head?, t.attributes <+: t'.attributes := by
  induction s generalizing mode t with
  | nil =>
    cases mode with
    | text | entity _ | less => cases h
    | _ => exact fun _ h => nomatch h
  | cons c s ih =>
    intro t' ht'
    rw [tags_cons] at ht'
    rcases Mode.read_tag h c with ⟨hnone, t₁, htag, hprefix⟩ | ⟨t₁, hsome, hprefix⟩
    · rw [hnone] at ht'
      exact hprefix.trans (ih htag t' ht')
    · rw [hsome] at ht'
      cases ht'
      exact hprefix

/-- A quote in a value ends it early, and the tag is not the one that was meant. -/
theorem head?_tags_quoted_ne (h : quote ∈ value) (rest : List Char) :
    (tags (.quoted t key quote []) (value ++ rest)).head? ≠ some (t.add key value) := by
  obtain ⟨front, back, rfl, hfront⟩ := List.eq_append_cons_of_mem h
  rw [List.append_assoc, List.cons_append, tags, items_quoted hfront, ← tags]
  intro hhead
  have hprefix := attributes_prefix rfl _ _ hhead
  rw [Tag.add, Tag.add, List.prefix_append_right_inj] at hprefix
  have heq := List.prefix_iff_eq_take.mp hprefix
  simp at heq

end

end Rubric.Markup
