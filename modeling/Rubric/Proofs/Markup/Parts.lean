import Mathlib.Data.List.DropRight
import Rubric.Proofs.Markup.Tags

/-!
# HTML in parts

The body of a document is a list of parts, each a character or a piece with a color (`body_eq`). To
trim the newlines at its end is to leave out parts (`trimNewlines_markup`). A reader finds just the
parts that were written if and only if no quote stands in the value of an attribute (`items_part`,
`tags_render_iff`).
-/

namespace Rubric.Markup.Html

/-- A part of the body. -/
inductive Part where
  | char (c : Char)
  | colored (token : ThemedToken)

/-- The tag in front of a piece with a color. -/
def spanTag (token : ThemedToken) : Tag :=
  { name := "span".toList, attributes := [("style".toList, (css token).toList)] }

/-- The tag of an element without attributes. -/
def plainTag (name : String) : Tag :=
  { name := name.toList }

/-- The tag behind an element. -/
def endTag (name : String) : Tag :=
  { closing := true, name := name.toList }

/-- What is written for a piece with a color. -/
def span (token : ThemedToken) : List Char :=
  "<span style=\"".toList ++ (css token).toList ++ "\">".toList ++
    escapeText token.content.toList ++ "</span>".toList

namespace Part

def isNewline : Part → Bool
  | char c => c == '\n'
  | colored _ => false

/-- What is written for a part. -/
def markup : Part → List Char
  | char c => escapeChar c
  | colored token => span token

/-- What is meant by a part. -/
def items : Part → List Item
  | char c => [.char c]
  | colored token =>
    .tag (spanTag token) :: (token.content.toList.map .char ++ [.tag (endTag "span")])

def tags : Part → List Tag
  | char _ => []
  | colored token => [spanTag token, endTag "span"]

/-- The piece of the part has a property, if the part is one with a color. -/
def Has (P : ThemedToken → Prop) : Part → Prop
  | char _ => True
  | colored token => P token

end Part

/-- No quote stands in the color of the piece. -/
def Quoteless (token : ThemedToken) : Prop :=
  '"' ∉ token.color.text.toList

/-- The parts of a piece. -/
def parts (token : ThemedToken) : List Part :=
  if token.color.isNull then token.content.toList.map .char else [.colored token]

/-- The parts of the body of a document. -/
def bodyParts (lines : List ThemedLine) : List Part :=
  lines.flatMap fun line => line.flatMap parts ++ [.char '\n']

/-! ## What is written -/

theorem flatMap_markup_parts (token : ThemedToken) :
    (parts token).flatMap Part.markup = piece token := by
  unfold parts piece
  cases token.color.isNull with
  | true => exact List.flatMap_map ..
  | false => exact List.flatMap_singleton ..

theorem body_eq (lines : List ThemedLine) : body lines = (bodyParts lines).flatMap Part.markup := by
  have hline (line : ThemedLine) : line.flatMap piece ++ ['\n'] =
      (line.flatMap parts ++ [Part.char '\n']).flatMap Part.markup := by
    simp only [List.flatMap_append, List.flatMap_assoc, flatMap_markup_parts,
      List.flatMap_singleton]
    rfl
  simp only [body, bodyParts, List.flatMap_assoc, hline]

theorem getLast?_markup {part : Part} (h : part.isNewline = false) :
    part.markup ≠ [] ∧ part.markup.getLast? ≠ some '\n' := by
  cases part with
  | char c =>
    have hc : c ≠ '\n' := by simpa [Part.isNewline] using h
    simp only [Part.markup, escapeChar]
    split_ifs <;> simp [hc]
  | colored token =>
    have hend (s : List Char) :
        s ++ "</span>".toList ≠ [] ∧ (s ++ "</span>".toList).getLast? ≠ some '\n' := by
      simp [List.getLast?_append]
    exact hend _

theorem markup_of_isNewline {part : Part} (h : part.isNewline = true) : part.markup = ['\n'] := by
  cases part with
  | char c =>
    cases eq_of_beq h
    rfl
  | colored token => cases h

/-- To trim newlines is to leave out the parts that are newlines. -/
theorem trimNewlines_markup (ps : List Part) :
    trimNewlines (ps.flatMap Part.markup) = (ps.rdropWhile Part.isNewline).flatMap Part.markup := by
  induction ps using List.reverseRecOn with
  | nil => rfl
  | append_singleton ps part ih =>
    rw [List.flatMap_append, List.flatMap_singleton]
    by_cases h : part.isNewline = true
    · rw [markup_of_isNewline h, trimNewlines_concat, ih, List.rdropWhile_concat_pos _ _ _ h]
    · obtain ⟨hne, hlast⟩ := getLast?_markup (Bool.eq_false_iff.mpr h)
      rw [List.rdropWhile_concat_neg _ _ _ h, List.flatMap_append, List.flatMap_singleton,
        trimNewlines_of_getLast?]
      rwa [List.getLast?_append_of_ne_nil _ hne]

/-- The declarations behind that of the color. -/
def fontCss (style : FontStyle) : List Char :=
  (if style.italic then "; font-style: italic".toList else []) ++
    (if style.bold then "; font-weight: bold".toList else []) ++
    (if style.underline then "; text-decoration: underline".toList else [])

theorem toList_css (token : ThemedToken) :
    (css token).toList =
      "color: ".toList ++ token.color.text.toList ++ fontCss token.fontStyle := by
  obtain ⟨content, color, ⟨bold, italic, underline⟩⟩ := token
  cases bold <;> cases italic <;> cases underline <;>
    simp [css, declarations, fontCss, String.intercalate_cons_cons, String.intercalate_singleton]

/-- What the declarations have of quotes and ampersands comes from the color. -/
theorem mem_css {token : ThemedToken} {c : Char} (hc : c ∈ ['"', '&']) :
    c ∈ (css token).toList ↔ c ∈ token.color.text.toList := by
  have hcolor : ∀ c ∈ ['"', '&'], c ∉ "color: ".toList :=
    List.all_iff_forall_prop.mp (by decide)
  have hfont : ∀ style, ∀ c ∈ ['"', '&'], c ∉ fontCss style := by
    rintro ⟨bold, italic, underline⟩
    cases bold <;> cases italic <;> cases underline <;>
      exact List.all_iff_forall_prop.mp (by decide)
  simp only [toList_css, List.mem_append, hcolor c hc, hfont _ c hc, false_or, or_false]

theorem quote_mem_css {token : ThemedToken} :
    '"' ∈ (css token).toList ↔ '"' ∈ token.color.text.toList :=
  mem_css (by decide)

/-! ## What is read -/

section
variable (rest : List Char)

theorem items_span : items .text ("<span style=\"".toList ++ rest) =
    items (.quoted { name := "span".toList } "style".toList '"' []) rest := rfl

theorem valueEnd : "\">".toList ++ rest = '"' :: '>' :: rest := rfl

theorem items_tagEnd (t : Tag) : items (.blank t) ('>' :: rest) = .tag t :: items .text rest := rfl

theorem items_spanEnd :
    items .text ("</span>".toList ++ rest) = .tag (endTag "span") :: items .text rest := rfl

end

/-- A part without quotes in its style is read as it is meant. -/
theorem items_part {part : Part} (h : part.Has Quoteless) (rest : List Char) :
    items .text (part.markup ++ rest) = part.items ++ items .text rest := by
  cases part with
  | char c => exact items_escapeChar c rest
  | colored token =>
    have hcss : '"' ∉ (css token).toList := fun hmem => h (quote_mem_css.mp hmem)
    unfold Part.markup span
    simp only [List.append_assoc]
    rw [items_span, valueEnd, items_quoted hcss, items_tagEnd, items_escapeText, items_spanEnd]
    simp only [Part.items, List.cons_append, List.append_assoc, List.nil_append]
    rfl

theorem items_parts {ps : List Part} (h : ∀ part ∈ ps, part.Has Quoteless) (rest : List Char) :
    items .text (ps.flatMap Part.markup ++ rest) = ps.flatMap Part.items ++ items .text rest := by
  induction ps with
  | nil => rfl
  | cons part ps ih =>
    obtain ⟨hpart, hps⟩ := List.forall_mem_cons.mp h
    rw [List.flatMap_cons, List.append_assoc, items_part hpart, ih hps, List.flatMap_cons,
      List.append_assoc]

/-! ## The tags of a document -/

/-- The tag in front of a document. -/
def preTag (background : Json) : Tag where
  name := "pre".toList
  attributes := [("class".toList, "shiki".toList),
    ("style".toList, "background-color: ".toList ++ (backgroundText background).toList)]

/-- What is meant by the name of a language. -/
def labelItems : Option String → List Item
  | none => []
  | some name =>
    if name.isEmpty then []
    else
      .tag { name := "div".toList, attributes := [("class".toList, "language-id".toList)] } ::
        (name.toList.map .char ++ [.tag (endTag "div")])

/-- The tags that are meant to be in a document. -/
def ownTags (background : Json) (language : Option String) (lines : List ThemedLine) : List Tag :=
  preTag background :: (labelItems language).filterMap Item.tag? ++ plainTag "code" ::
    ((bodyParts lines).flatMap Part.tags ++ [endTag "code", endTag "pre"])

theorem tags_items (part : Part) : part.items.filterMap Item.tag? = part.tags := by
  cases part with
  | char c => rfl
  | colored token =>
    have hnone : (token.content.toList.map Item.char).filterMap Item.tag? = [] := by
      simp [List.filterMap_map, Function.comp_def, Item.tag?]
    simp only [Part.items, List.filterMap_cons, List.filterMap_append, hnone]
    rfl

/-- The tags of parts are those that are meant if and only if there is no quote in a style: the tag
with the first such style is another. -/
theorem tags_parts_iff (ps : List Part) (rest : List Char) :
    tags .text (ps.flatMap Part.markup ++ rest) = ps.flatMap Part.tags ++ tags .text rest ↔
      ∀ part ∈ ps, part.Has Quoteless := by
  induction ps with
  | nil => simp
  | cons part ps ih =>
    rw [List.flatMap_cons, List.append_assoc, List.flatMap_cons, List.append_assoc,
      List.forall_mem_cons, ← ih]
    by_cases h : part.Has Quoteless
    · rw [tags, items_part h, List.filterMap_append, tags_items, ← tags, List.append_cancel_left_eq]
      simp [h]
    · refine iff_of_false (fun heq => ?_) fun hall => h hall.1
      cases part with
      | char c => exact h trivial
      | colored token =>
        have hcss : '"' ∈ (css token).toList := quote_mem_css.mpr (Classical.not_not.mp h)
        unfold Part.markup span at heq
        simp only [List.append_assoc] at heq
        rw [tags, items_span, ← tags] at heq
        exact head?_tags_quoted_ne hcss _ (congrArg List.head? heq)

theorem mem_rdropWhile_newlines {ps : List Part} {part : Part} (h : part ∈ ps)
    (hpart : part.isNewline = false) : part ∈ ps.rdropWhile Part.isNewline := by
  rw [← List.rdropWhile_append_rtakeWhile (p := Part.isNewline) (l := ps)] at h
  rcases List.mem_append.mp h with h | h
  · exact h
  · rw [List.mem_rtakeWhile_imp h] at hpart
    cases hpart

theorem has_rdropWhile {P : ThemedToken → Prop} {ps : List Part} :
    (∀ part ∈ ps.rdropWhile Part.isNewline, part.Has P) ↔ ∀ part ∈ ps, part.Has P := by
  refine ⟨fun h part hpart => ?_, fun h part hpart =>
    h part ((List.rdropWhile_prefix _ _).subset hpart)⟩
  cases part with
  | char c => trivial
  | colored token => exact h _ (mem_rdropWhile_newlines hpart rfl)

theorem tags_rdropWhile (ps : List Part) :
    (ps.rdropWhile Part.isNewline).flatMap Part.tags = ps.flatMap Part.tags := by
  have hnone : (ps.rtakeWhile Part.isNewline).flatMap Part.tags = [] := by
    refine List.flatMap_eq_nil_iff.mpr fun part hpart => ?_
    cases part with
    | char c => rfl
    | colored token => cases List.mem_rtakeWhile_imp hpart
  conv_rhs => rw [← List.rdropWhile_append_rtakeWhile (p := Part.isNewline) (l := ps)]
  rw [List.flatMap_append, hnone, List.append_nil]

theorem has_bodyParts {P : ThemedToken → Prop} {lines : List ThemedLine} :
    (∀ part ∈ bodyParts lines, part.Has P) ↔
      ∀ line ∈ lines, ∀ token ∈ line, token.color.isNull = false → P token := by
  have htoken (token : ThemedToken) :
      (∀ part ∈ parts token, part.Has P) ↔ (token.color.isNull = false → P token) := by
    unfold parts
    cases token.color.isNull <;> simp [Part.Has]
  have hline (line : ThemedLine) : (∀ part ∈ line.flatMap parts ++ [.char '\n'], part.Has P) ↔
      ∀ token ∈ line, token.color.isNull = false → P token := by
    simp only [List.forall_mem_append, List.forall_mem_flatMap, htoken]
    simp [Part.Has]
  simp only [bodyParts, List.forall_mem_flatMap, hline]

section
variable (rest : List Char)

theorem items_pre : items .text ("<pre class=\"shiki\" style=\"".toList ++ rest) =
    items (.quoted
      { name := "pre".toList, attributes := [("class".toList, "shiki".toList)] } "style".toList '"'
      []) rest := rfl

theorem items_code :
    items .text ("<code>".toList ++ rest) = .tag (plainTag "code") :: items .text rest := rfl

theorem items_close :
    items .text "</code></pre>".toList = [.tag (endTag "code"), .tag (endTag "pre")] := rfl

theorem items_label (language : Option String) :
    items .text (languageLabel language ++ rest) = labelItems language ++ items .text rest := by
  have hopening (rest : List Char) : items .text ("<div class=\"language-id\">".toList ++ rest) =
      .tag { name := "div".toList, attributes := [("class".toList, "language-id".toList)] } ::
        items .text rest := rfl
  have hclosing (rest : List Char) :
      items .text ("</div>".toList ++ rest) = .tag (endTag "div") :: items .text rest := rfl
  cases language with
  | none => rfl
  | some name =>
    unfold languageLabel labelItems
    by_cases h : name.isEmpty = true
    · simp only [if_pos h]
      rfl
    · simp only [if_neg h, List.append_assoc, List.cons_append, List.nil_append]
      rw [hopening, items_escapeText, hclosing]

end

/-- The markup of a document, behind its first tag. -/
def inside (language : Option String) (lines : List ThemedLine) : List Char :=
  languageLabel language ++ ("<code>".toList ++ (trimNewlines (body lines) ++
    "</code></pre>".toList))

theorem toList_render (background : Json) (language : Option String) (lines : List ThemedLine) :
    (render background language lines).toList =
      "<pre class=\"shiki\" style=\"".toList ++
        (("background-color: ".toList ++ (backgroundText background).toList) ++
          '"' :: '>' :: inside language lines) := by
  have hpre : "<pre class=\"shiki\" style=\"background-color: ".toList =
    "<pre class=\"shiki\" style=\"".toList ++ "background-color: ".toList := by decide
  unfold render inside
  rw [String.toList_ofList, hpre]
  simp only [List.append_assoc, List.cons_append, valueEnd]

section
variable {background : Json} {language : Option String} {lines : List ThemedLine}

theorem quote_mem_background :
    '"' ∈ "background-color: ".toList ++ (backgroundText background).toList ↔
      '"' ∈ (backgroundText background).toList := by
  have hfixed : '"' ∉ "background-color: ".toList := by decide
  simp only [List.mem_append, hfixed, false_or]

/-- Behind a background without quotes a document goes on as it is meant. -/
theorem items_render (hb : '"' ∉ (backgroundText background).toList) :
    items .text (render background language lines).toList =
      .tag (preTag background) :: items .text (inside language lines) := by
  rw [toList_render, items_pre, items_quoted fun h => hb (quote_mem_background.mp h), items_tagEnd]
  rfl

theorem items_inside : items .text (inside language lines) =
    labelItems language ++ .tag (plainTag "code") ::
      items .text (((bodyParts lines).rdropWhile Part.isNewline).flatMap Part.markup ++
        "</code></pre>".toList) := by
  rw [inside, items_label, items_code, body_eq, trimNewlines_markup]

theorem tags_inside_iff (language : Option String) :
    tags .text (inside language lines) =
      (labelItems language).filterMap Item.tag? ++ plainTag "code" ::
        ((bodyParts lines).flatMap Part.tags ++ [endTag "code", endTag "pre"]) ↔
      ∀ line ∈ lines, ∀ token ∈ line, token.color.isNull = false → Quoteless token := by
  have hclose : tags .text "</code></pre>".toList = [endTag "code", endTag "pre"] := rfl
  have hbody := tags_parts_iff ((bodyParts lines).rdropWhile Part.isNewline) "</code></pre>".toList
  rw [has_rdropWhile, has_bodyParts, tags_rdropWhile, hclose] at hbody
  rw [← hbody, tags, items_inside, List.filterMap_append, List.append_cancel_left_eq]
  simp [tags, Item.tag?]

/-- **The tags of a document.** They are those that are meant if and only if no quote stands in the
background or in a color. -/
theorem tags_render_iff :
    tags .text (render background language lines).toList = ownTags background language lines ↔
      '"' ∉ (backgroundText background).toList ∧
        ∀ line ∈ lines, ∀ token ∈ line, token.color.isNull = false → Quoteless token := by
  by_cases hb : '"' ∈ (backgroundText background).toList
  · refine iff_of_false (fun heq => ?_) fun h => h.1 hb
    rw [toList_render, tags, items_pre, ← tags] at heq
    exact head?_tags_quoted_ne (quote_mem_background.mpr hb) _ (congrArg List.head? heq)
  · rw [and_iff_right hb, ← tags_inside_iff language, ownTags, tags, items_render hb]
    simp [tags, Item.tag?]

end

end Rubric.Markup.Html
