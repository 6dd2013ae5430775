import Rubric.Json.Reader
import Rubric.Proofs.Json.Syntax
import Rubric.Proofs.Text.Lines

/-!
# The tokens of JSON texts

A text is woven from tokens if these stand in it in their order, with white space around them
(`Woven`). A JSON text is woven from the tokens of its value (`Value.woven`), and so it is whichever
line ends it has (`Woven.unifyNewlines`).
-/

namespace Rubric.JsonText

/-! ## Tokens -/

/-- The characters that a token can begin with. -/
def tokenStarts : List Char :=
  valueStarts ++ [']', '\x7d', ',', ':']

/-- A text that begins like a token and has no control characters. -/
structure IsToken (t : List Char) : Prop where
  starts : ∃ c rest, t = c :: rest ∧ c ∈ tokenStarts
  printable : Printable t

mutual

/-- The tokens of a value, as they are written. -/
def Value.tokens : Value → List (List Char)
  | .constant c => [c.chars]
  | .number n => [n.chars]
  | .string items => [quotedChars items]
  | .emptyArray _ => [['['], [']']]
  | .array elements => ['['] :: (elements.tokens ++ [[']']])
  | .emptyObject _ => [['\x7b'], ['\x7d']]
  | .object members => ['\x7b'] :: (members.tokens ++ [['\x7d']])

def Elements.tokens : Elements → List (List Char)
  | .last _ value _ => value.tokens
  | .more _ value _ rest => value.tokens ++ [','] :: rest.tokens

def Members.tokens : Members → List (List Char)
  | .last _ name _ _ value _ => quotedChars name :: [':'] :: value.tokens
  | .more _ name _ _ value _ rest =>
    quotedChars name :: [':'] :: (value.tokens ++ [','] :: rest.tokens)

end

/-- A single character is a token. -/
theorem isToken_singleton {c : Char} (h : c ∈ tokenStarts) : IsToken [c] := by
  have hall : ∀ c ∈ tokenStarts, 0x20 ≤ c.toNat := List.all_iff_forall_prop.mp (by decide)
  exact ⟨⟨c, [], rfl, h⟩, List.forall_mem_singleton.mpr (hall c h)⟩

theorem Constant.isToken (c : Constant) : IsToken c.chars := by
  refine ⟨?_, c.printable⟩
  cases c <;> exact ⟨_, _, rfl, by decide⟩

theorem Number.exists_chars (n : Number) : ∃ c more, n.chars = c :: more ∧ c ∈ '-' :: digits := by
  obtain ⟨c, more, heq⟩ := List.exists_cons_of_ne_nil (number_chars_ne_nil n)
  have hahead : Ahead ('-' :: digits) (n.chars ++ []) := number_ahead n
  rw [heq] at hahead
  exact ⟨c, more, heq, hahead c rfl⟩

theorem Number.isToken (n : Number) : IsToken n.chars := by
  obtain ⟨c, more, heq, hc⟩ := n.exists_chars
  have hsub : '-' :: digits ⊆ tokenStarts := by decide
  exact ⟨⟨c, more, heq, hsub hc⟩, n.printable⟩

theorem isToken_quoted (items : List Item) : IsToken (quotedChars items) :=
  ⟨⟨_, _, rfl, by decide⟩, quotedChars_printable items⟩

theorem Value.exists_tokens (value : Value) :
    ∃ c more tail, value.tokens = (c :: more) :: tail ∧ c ∈ valueStarts := by
  cases value with
  | constant c => cases c <;> exact ⟨_, _, _, rfl, by decide⟩
  | number n =>
    obtain ⟨c, more, heq, hc⟩ := n.exists_chars
    have hsub : '-' :: digits ⊆ valueStarts := by decide
    exact ⟨c, more, [], by rw [Value.tokens, heq], hsub hc⟩
  | string | emptyArray | array | emptyObject | object => exact ⟨_, _, _, rfl, by decide⟩

/-! ## Woven texts -/

/-- The text is made of the tokens in their order, with white space around them. -/
inductive Woven : List (List Char) → List Char → Prop
  | nil : Woven [] []
  | blank : c ∈ blanks → Woven ts text → Woven ts (c :: text)
  | token : IsToken t → Woven ts text → Woven (t :: ts) (t ++ text)

namespace Woven
variable {c : Char} {t text more : List Char} {ts us : List (List Char)}

theorem append (h : Woven ts text) (h' : Woven us more) : Woven (ts ++ us) (text ++ more) := by
  induction h with
  | nil => exact h'
  | blank hc _ ih => exact .blank hc ih
  | token ht _ ih =>
    rw [List.append_assoc]
    exact .token ht ih

theorem of_blanks (h : text ⊆ blanks) : Woven [] text := by
  induction text with
  | nil => exact .nil
  | cons c text ih =>
    obtain ⟨hc, htext⟩ := List.cons_subset.mp h
    exact .blank hc (ih htext)

theorem singleton (ht : IsToken t) : Woven [t] t := by
  have h := Woven.token ht .nil
  rwa [List.append_nil] at h

theorem gap (gap : Gap) (h : Woven ts text) : Woven ts (chars gap ++ text) :=
  (of_blanks fun _ => mem_of_mem_chars).append h

theorem char (hc : c ∈ tokenStarts) (h : Woven ts text) : Woven ([c] :: ts) (c :: text) :=
  .token (isToken_singleton hc) h

/-- A woven text begins with white space or like a token. -/
theorem ahead (h : Woven ts text) : Ahead (blanks ++ tokenStarts) text := by
  cases h with
  | nil => exact fun _ h => nomatch h
  | blank hc => exact .cons (List.mem_append_left _ hc)
  | token ht =>
    obtain ⟨c, rest, rfl, hc⟩ := ht.starts
    exact .cons (List.mem_append_right _ hc)

/-- There are no more tokens than characters. -/
theorem length_le (h : Woven ts text) : ts.length ≤ text.length := by
  induction h with
  | nil => exact Nat.le_refl _
  | blank _ _ ih => exact Nat.le_succ_of_le ih
  | token ht _ ih =>
    obtain ⟨c, rest, rfl, _⟩ := ht.starts
    simp only [List.cons_append, List.length_cons, List.length_append]
    omega

theorem isDocumentBlank_of_mem {c : Char} (h : c ∈ blanks) : Json.isDocumentBlank c = true := by
  have hall : ∀ c ∈ blanks, Json.isDocumentBlank c = true :=
    List.all_iff_forall_prop.mp (by decide)
  exact hall c h

/-- White space is skipped up to the next token. -/
theorem skipBlank_cons (position : Nat) (h : Woven (t :: ts) text) :
    ∃ next rest, Woven ts rest ∧ IsToken t ∧
      Json.skipBlank position text = ⟨next, t ++ rest⟩ := by
  generalize heq : t :: ts = all at h
  induction h generalizing position with
  | nil => cases heq
  | blank hc _ ih =>
    obtain ⟨next, rest, hrest, ht, hskip⟩ := ih (position + 1) heq
    refine ⟨next, rest, hrest, ht, ?_⟩
    rw [Json.skipBlank, if_pos (isDocumentBlank_of_mem hc), hskip]
  | token ht hrest =>
    cases heq
    refine ⟨position, _, hrest, ht, ?_⟩
    obtain ⟨c, more, rfl, hc⟩ := ht.starts
    have hstarts : ∀ c ∈ tokenStarts, ¬ Json.isDocumentBlank c = true :=
      List.all_iff_forall_prop.mp (by decide)
    rw [List.cons_append, Json.skipBlank, if_neg (hstarts c hc)]

theorem skipBlank_nil (position : Nat) (h : Woven [] text) :
    (Json.skipBlank position text).rest = [] := by
  generalize heq : [] = all at h
  induction h generalizing position with
  | nil => rfl
  | blank hc _ ih =>
    rw [Json.skipBlank, if_pos (isDocumentBlank_of_mem hc)]
    exact ih _ heq
  | token => cases heq

end Woven

theorem unifyNewlines_append {x : List Char} (hx : '\r' ∉ x) (rest : List Char) :
    Text.unifyNewlines (x ++ rest) = x ++ Text.unifyNewlines rest := by
  induction x with
  | nil => rfl
  | cons c x ih =>
    simp only [List.mem_cons, not_or] at hx
    rw [List.cons_append, Text.unifyNewlines, ih hx.2, List.cons_append]
    · exact fun _ h _ => hx.1 h.symm
    · exact fun h => hx.1 h.symm

/-- The text is woven from the same tokens with other line ends. -/
theorem Woven.unifyNewlines {ts : List (List Char)} {text : List Char} (h : Woven ts text) :
    Woven ts (Text.unifyNewlines text) := by
  induction h with
  | nil => exact .nil
  | @blank c ts text hc _ ih =>
    have hnewline (rest : List Char) :
        Text.unifyNewlines ('\n' :: rest) = '\n' :: Text.unifyNewlines rest :=
      unifyNewlines_append (x := ['\n']) (by decide) rest
    by_cases hr : c = '\r'
    · subst hr
      by_cases hn : ∃ rest, text = '\n' :: rest
      · obtain ⟨rest, rfl⟩ := hn
        rwa [Text.unifyNewlines, ← hnewline]
      · rw [Text.unifyNewlines]
        · exact .blank (by decide) ih
        · exact fun rest h => hn ⟨rest, h⟩
    · have happend := unifyNewlines_append (x := [c]) (by simpa using Ne.symm hr) text
      rw [List.singleton_append, List.singleton_append] at happend
      rw [happend]
      exact .blank hc ih
  | token ht _ ih =>
    have hflat : '\r' ∉ _ := fun hmem => absurd (ht.printable _ hmem) (by decide)
    rw [unifyNewlines_append hflat]
    exact .token ht ih

/-! ## Values -/

mutual

/-- A value is written as its tokens. -/
theorem Value.woven : ∀ (value : Value) {ts : List (List Char)} {text : List Char},
    Woven ts text → Woven (value.tokens ++ ts) (value.chars ++ text)
  | .constant c, _, _, h => .token c.isToken h
  | .number n, _, _, h => .token n.isToken h
  | .string items, _, _, h => .token (isToken_quoted items) h
  | .emptyArray gap, _, _, h | .emptyObject gap, _, _, h => by
    simp only [Value.tokens, Value.chars, List.cons_append, List.append_assoc, List.nil_append]
    exact .char (by decide) (.gap gap (.char (by decide) h))
  | .array elements, _, _, h => by
    simp only [Value.tokens, Value.chars, List.cons_append, List.append_assoc, List.nil_append]
    exact .char (by decide) (Elements.woven elements (.char (by decide) h))
  | .object members, _, _, h => by
    simp only [Value.tokens, Value.chars, List.cons_append, List.append_assoc, List.nil_append]
    exact .char (by decide) (Members.woven members (.char (by decide) h))

theorem Elements.woven : ∀ (elements : Elements) {ts : List (List Char)} {text : List Char},
    Woven ts text → Woven (elements.tokens ++ ts) (elements.chars ++ text)
  | .last before value behind, _, _, h => by
    simp only [Elements.tokens, Elements.chars, List.append_assoc]
    exact .gap before (Value.woven value (.gap behind h))
  | .more before value behind rest, _, _, h => by
    simp only [Elements.tokens, Elements.chars, List.cons_append, List.append_assoc]
    exact .gap before (Value.woven value (.gap behind
      (.char (by decide) (Elements.woven rest h))))

theorem Members.woven : ∀ (members : Members) {ts : List (List Char)} {text : List Char},
    Woven ts text → Woven (members.tokens ++ ts) (members.chars ++ text)
  | .last before name colon inner value behind, _, _, h => by
    simp only [Members.tokens, Members.chars, List.cons_append, List.append_assoc]
    exact .gap before (.token (isToken_quoted name) (.gap colon
      (.char (by decide) (.gap inner (Value.woven value (.gap behind h))))))
  | .more before name colon inner value behind rest, _, _, h => by
    simp only [Members.tokens, Members.chars, List.cons_append, List.append_assoc]
    exact .gap before (.token (isToken_quoted name) (.gap colon (.char (by decide) (.gap inner
      (Value.woven value (.gap behind (.char (by decide) (Members.woven rest h))))))))

end

theorem Document.woven (d : Document) : Woven d.value.tokens d.chars := by
  have h := Woven.gap d.before (d.value.woven (.gap d.behind .nil))
  rwa [List.append_nil, List.append_nil] at h

end Rubric.JsonText
