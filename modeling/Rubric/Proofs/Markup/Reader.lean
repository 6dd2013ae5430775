import Rubric.Proofs.Markup.Parts

/-!
# A reader of HTML documents

`Document.read` undoes the rendering: it goes through the items of the markup and gives back the
background, the name of the language, and for each line its runs of text in one style. Of a document
that was rendered it finds what was put in (`read_render`), neighbouring pieces without color as
one, and without the lines at its end for which nothing is written.
-/

namespace Rubric.Markup.Html

/-- A color, and a font style. -/
abbrev RunStyle := List Char × FontStyle

/-- Text in one style, or without any. -/
structure Run where
  content : List Char
  style : Option RunStyle := none
deriving DecidableEq, Repr

/-- What is read of a document. -/
structure Document where
  background : List Char
  language : Option (List Char)
  lines : List (List Run)
deriving DecidableEq, Repr

namespace Run

/-- What is to be seen of a piece. -/
def ofToken (token : ThemedToken) : Run where
  content := token.content.toList
  style := if token.color.isNull then none else some (token.color.text.toList, token.fontStyle)

/-- A newline between lines. -/
def newline : Run :=
  ⟨['\n'], none⟩

/-- Text without a style, if there is any. -/
def plain (text : List Char) : List Run :=
  if text.isEmpty then [] else [⟨text, none⟩]

/-- The runs behind some text without a style, neighbours without a style made one. -/
def merge : (text : List Char) → List Run → List Run
  | text, [] => plain text
  | text, ⟨content, none⟩ :: rest => merge (text ++ content) rest
  | text, ⟨content, some style⟩ :: rest => plain text ++ ⟨content, some style⟩ :: merge [] rest

/-- The runs of each line. A newline at the end is not taken for the beginning of a line. -/
def lines (runs : List Run) : List (List Run) :=
  if runs.isEmpty then [] else (runs.splitOn newline).map (merge [])

end Run

/-! ## The reader -/

namespace Document

/-- Reads the style of a piece from its declarations. -/
def readCss (css : List Char) : Option RunStyle :=
  match Text.splitAt ';' css with
  | [] => none
  | first :: rest =>
    (first.dropPrefix? "color: ".toList).map fun color =>
      (color,
        { italic := rest.contains " font-style: italic".toList
          bold := rest.contains " font-weight: bold".toList
          underline := rest.contains " text-decoration: underline".toList })

/-- Reads the style of a piece from its tag. -/
def readSpan (t : Tag) : Option RunStyle :=
  match t.attributes with
  | [(key, value)] =>
    if t.closing = false ∧ t.name = "span".toList ∧ key = "style".toList then
      readCss (unescape value)
    else none
  | _ => none

/-- Reads the background from the first tag. -/
def readPre (t : Tag) : Option (List Char) :=
  match t.attributes with
  | [shiki, (key, value)] =>
    if t.closing = false ∧ t.name = "pre".toList ∧ shiki = ("class".toList, "shiki".toList) ∧
        key = "style".toList then
      (unescape value).dropPrefix? "background-color: ".toList
    else none
  | _ => none

/-- Reads up to the end of the name of the language. -/
def readName : (name : List Char) → List Item → Option (List Char × List Item)
  | name, .char c :: rest => readName (name ++ [c]) rest
  | name, .tag t :: rest => if t = endTag "div" then some (name, rest) else none
  | _, [] => none

/-- Reads the name of the language, if there is one. -/
def readLabel : List Item → Option (Option (List Char) × List Item)
  | .tag t :: rest =>
    if t = { name := "div".toList, attributes := [("class".toList, "language-id".toList)] } then
      (readName [] rest).map fun (name, rest) => (some name, rest)
    else some (none, .tag t :: rest)
  | rest => some (none, rest)

/-- Reads the runs up to the end of the document, each character without a style as one. -/
def readRuns : (inside : Option Run) → List Item → Option (List Run)
  | none, .char c :: rest => (readRuns none rest).map (⟨[c], none⟩ :: ·)
  | none, .tag t :: rest =>
    if t = endTag "code" then
      if rest = [.tag (endTag "pre")] then some [] else none
    else (readSpan t).bind fun style => readRuns (some ⟨[], some style⟩) rest
  | some run, .char c :: rest => readRuns (some { run with content := run.content ++ [c] }) rest
  | some run, .tag t :: rest =>
    if t = endTag "span" then (readRuns none rest).map (run :: ·) else none
  | _, [] => none

/-- Reads a document. -/
def read (markup : String) : Option Document :=
  match items .text markup.toList with
  | .tag t :: rest => do
    let background ← readPre t
    let (language, rest) ← readLabel rest
    match rest with
    | .tag t :: rest =>
      if t = plainTag "code" then
        return { background, language, lines := Run.lines (← readRuns none rest) }
      else none
    | _ => none
  | _ => none

end Document

/-! ## Styles -/

theorem unescape_eq_self {s : List Char} (h : '&' ∉ s) : unescape s = s := by
  induction s with
  | nil => rfl
  | cons c s ih =>
    simp only [List.mem_cons, not_or] at h
    unfold unescape
    split <;> simp_all

theorem dropPrefix?_append_self (front s : List Char) : (front ++ s).dropPrefix? front = some s :=
  List.dropPrefix?_eq_some_iff.mpr ⟨front, rfl, beq_self_eq_true front⟩

/-- The declarations behind that of the color, one by one. -/
def fontDeclarations (style : FontStyle) : List (List Char) :=
  (if style.italic then [" font-style: italic".toList] else []) ++
    (if style.bold then [" font-weight: bold".toList] else []) ++
    (if style.underline then [" text-decoration: underline".toList] else [])

theorem splitFrom_fontCss (piece : List Char) (style : FontStyle) :
    Text.splitFrom ';' piece (fontCss style) = piece.reverse :: fontDeclarations style := by
  obtain ⟨bold, italic, underline⟩ := style
  cases bold <;> cases italic <;> cases underline <;> rfl

theorem readCss_css {token : ThemedToken} (h : ';' ∉ token.color.text.toList) :
    Document.readCss (css token).toList = some (token.color.text.toList, token.fontStyle) := by
  have hcolor : ';' ∉ "color: ".toList ++ token.color.text.toList :=
    List.not_mem_append (by decide) h
  have hsplit : Text.splitAt ';' (css token).toList =
      ("color: ".toList ++ token.color.text.toList) :: fontDeclarations token.fontStyle := by
    rw [toList_css, Text.splitAt, Text.splitFrom_append hcolor, List.append_nil,
      splitFrom_fontCss, List.reverse_reverse]
  have hfont : ∀ style : FontStyle,
      (⟨(fontDeclarations style).contains " font-weight: bold".toList,
        (fontDeclarations style).contains " font-style: italic".toList,
        (fontDeclarations style).contains " text-decoration: underline".toList⟩ : FontStyle) =
        style := by
    rintro ⟨bold, italic, underline⟩
    cases bold <;> cases italic <;> cases underline <;> decide
  simp only [Document.readCss, hsplit, dropPrefix?_append_self, Option.map_some, hfont]

/-! ## Runs -/

/-- No quote, no ampersand and no semicolon stands in the color of the piece. -/
def PlainColor (token : ThemedToken) : Prop :=
  '"' ∉ token.color.text.toList ∧ '&' ∉ token.color.text.toList ∧ ';' ∉ token.color.text.toList

theorem readSpan_spanTag {token : ThemedToken} (h : PlainColor token) :
    Document.readSpan (spanTag token) = some (token.color.text.toList, token.fontStyle) := by
  have hcss : '&' ∉ (css token).toList := fun hmem => h.2.1 ((mem_css (by decide)).mp hmem)
  simp only [Document.readSpan, spanTag, unescape_eq_self hcss, readCss_css h.2.2]
  rfl

namespace Document

theorem readRuns_text (run : Run) (content : List Char) (rest : List Item) :
    readRuns (some run) (content.map .char ++ rest) =
      readRuns (some { run with content := run.content ++ content }) rest := by
  induction content generalizing run with
  | nil => simp
  | cons c content ih => simp [readRuns, ih]

end Document

/-- What is to be seen of a part. -/
def Part.run : Part → Run
  | char c => ⟨[c], none⟩
  | colored token => ⟨token.content.toList, some (token.color.text.toList, token.fontStyle)⟩

theorem readRuns_parts {ps : List Part} (h : ∀ part ∈ ps, part.Has PlainColor) :
    Document.readRuns none (ps.flatMap Part.items ++ [.tag (endTag "code"), .tag (endTag "pre")]) =
      some (ps.map Part.run) := by
  induction ps with
  | nil => rfl
  | cons part ps ih =>
    obtain ⟨hpart, hps⟩ := List.forall_mem_cons.mp h
    cases part with
    | char c =>
      simp [Part.items, Document.readRuns, ih hps, Part.run]
    | colored token =>
      have hcode : spanTag token ≠ endTag "code" :=
        fun heq => Bool.false_ne_true (congrArg Tag.closing heq)
      simp [Part.items, Document.readRuns, hcode, readSpan_spanTag hpart, Document.readRuns_text,
        ih hps, Part.run]

/-! ## Lines -/

section
variable {α β : Type} {f : α → List β} {x : β} {items : List α}

theorem flatMap_concat_append (items : List α) (a : α) :
    items.flatMap (fun a => f a ++ [x]) ++ f a = [x].intercalate ((items ++ [a]).map f) := by
  induction items with
  | nil => simp
  | cons b items ih =>
    rw [List.flatMap_cons, List.append_assoc, ih]
    cases items with
    | nil => simp [List.intercalate_cons_cons]
    | cons b' items => simp [List.intercalate_cons_cons]

/-- Items with an end behind each, without the ends behind the last that is not empty, are the items
up to that one with ends between them. -/
theorem rdropWhile_flatMap_concat [DecidableEq β] (h : ∀ a ∈ items, x ∉ f a) :
    (items.flatMap fun a => f a ++ [x]).rdropWhile (· == x) =
      [x].intercalate ((items.rdropWhile fun a => (f a).isEmpty).map f) := by
  induction items using List.reverseRecOn with
  | nil => rfl
  | append_singleton items a ih =>
    have hitems : ∀ a ∈ items, x ∉ f a := fun b hb => h b (List.mem_append_left _ hb)
    rw [List.flatMap_append, List.flatMap_singleton, ← List.append_assoc,
      List.rdropWhile_concat_pos _ _ _ (by simp)]
    by_cases ha : f a = []
    · rw [ha, List.append_nil, ih hitems, List.rdropWhile_concat_pos _ _ _ (by simp [ha])]
    · rw [List.rdropWhile_concat_neg _ _ _ (by simp [ha]), ← flatMap_concat_append]
      refine List.rdropWhile_eq_self_iff.mpr fun hne => ?_
      have hlast : (items.flatMap (fun a => f a ++ [x]) ++ f a).getLast hne = (f a).getLast ha :=
        List.getLast_append_of_ne_nil _ ha
      have hx : x ∉ f a := h a (by simp)
      rw [hlast, beq_iff_eq]
      exact fun heq => hx (heq ▸ List.getLast_mem ha)

end

/-- The runs of a line as they are read, each character without a color as one. -/
def lineRuns (line : ThemedLine) : List Run :=
  (line.flatMap parts).map Part.run

theorem merge_chars (text content : List Char) (rest : List Run) :
    Run.merge text (content.map (fun c => ⟨[c], none⟩) ++ rest) =
      Run.merge (text ++ content) rest := by
  induction content generalizing text with
  | nil => simp
  | cons c content ih => simp [Run.merge, ih]

theorem merge_lineRuns (text : List Char) (line : ThemedLine) :
    Run.merge text (lineRuns line) = Run.merge text (line.map Run.ofToken) := by
  induction line generalizing text with
  | nil => rfl
  | cons token line ih =>
    have hsplit : lineRuns (token :: line) = (parts token).map Part.run ++ lineRuns line := by
      simp [lineRuns]
    rw [hsplit, List.map_cons, Run.ofToken]
    unfold parts
    cases token.color.isNull with
    | true =>
      have hchars : (token.content.toList.map Part.char).map Part.run =
          token.content.toList.map fun c => ⟨[c], none⟩ := by
        simp [Part.run]
      simp only [if_true, hchars, merge_chars, ih, Run.merge]
    | false => simp [Part.run, Run.merge, ih]

theorem newline_not_mem_lineRuns {line : ThemedLine}
    (h : ∀ token ∈ line, '\n' ∉ token.content.toList) : Run.newline ∉ lineRuns line := by
  intro hmem
  obtain ⟨part, hpart, hrun⟩ := List.mem_map.mp hmem
  obtain ⟨token, htoken, hpart⟩ := List.mem_flatMap.mp hpart
  unfold parts at hpart
  split at hpart
  · obtain ⟨c, hc, rfl⟩ := List.mem_map.mp hpart
    simp only [Part.run, Run.newline, Run.mk.injEq, List.cons.injEq, and_true] at hrun
    exact h token htoken (hrun ▸ hc)
  · cases List.mem_singleton.mp hpart
    cases congrArg Run.style hrun

/-- Nothing is written for a line that has nothing to read, and the other way round. -/
theorem isEmpty_lineRuns (line : ThemedLine) :
    (lineRuns line).isEmpty = (line.flatMap piece).isEmpty := by
  have hpiece : line.flatMap piece = (line.flatMap parts).flatMap Part.markup := by
    rw [List.flatMap_assoc]
    simp only [flatMap_markup_parts]
  rw [hpiece, lineRuns]
  cases line.flatMap parts with
  | nil => rfl
  | cons part ps =>
    have hpart : part.markup ≠ [] := by
      cases hn : part.isNewline with
      | true => simp [markup_of_isNewline hn]
      | false => exact (getLast?_markup hn).1
    simp [hpart]

theorem map_run_rdropWhile (ps : List Part) :
    (ps.rdropWhile Part.isNewline).map Part.run =
      (ps.map Part.run).rdropWhile (· == Run.newline) := by
  have hnewline : ((· == Run.newline) ∘ Part.run) = Part.isNewline := by
    funext part
    rw [Bool.eq_iff_iff]
    cases part <;> simp [Part.run, Run.newline, Part.isNewline]
  rw [List.rdropWhile, List.rdropWhile, ← List.map_reverse, List.dropWhile_map, hnewline,
    List.map_reverse]

theorem lines_intercalate {ls : List (List Run)} (h : ∀ l ∈ ls, Run.newline ∉ l)
    (hlast : ∀ hne : ls ≠ [], ls.getLast hne ≠ []) :
    Run.lines ([Run.newline].intercalate ls) = ls.map (Run.merge []) := by
  cases ls with
  | nil => rfl
  | cons l ls =>
    have hsplit := List.splitOn_intercalate Run.newline h (List.cons_ne_nil l ls)
    have hne : [Run.newline].intercalate (l :: ls) ≠ [] := by
      intro hempty
      rw [hempty] at hsplit
      cases hsplit
      exact hlast (List.cons_ne_nil _ _) rfl
    rw [Run.lines, if_neg (by simpa using hne), hsplit]

/-- The lines that are read are those that were written, up to the last for which something is. -/
theorem lines_bodyParts {lines : List ThemedLine}
    (h : ∀ line ∈ lines, ∀ token ∈ line, '\n' ∉ token.content.toList) :
    Run.lines (((bodyParts lines).rdropWhile Part.isNewline).map Part.run) =
      (lines.rdropWhile fun line => (line.flatMap piece).isEmpty).map
        fun line => Run.merge [] (line.map Run.ofToken) := by
  have hbody : (bodyParts lines).map Part.run =
      lines.flatMap fun line => lineRuns line ++ [Run.newline] := by
    simp [bodyParts, List.map_flatMap, lineRuns, Part.run, Run.newline]
  have hmem : ∀ line ∈ lines, Run.newline ∉ lineRuns line := fun line hline =>
    newline_not_mem_lineRuns (h line hline)
  rw [map_run_rdropWhile, hbody, rdropWhile_flatMap_concat hmem, lines_intercalate]
  · simp only [isEmpty_lineRuns, List.map_map, Function.comp_def, merge_lineRuns]
  · exact List.forall_mem_map.mpr fun line hline =>
      hmem line ((List.rdropWhile_prefix _ _).subset hline)
  · intro hne
    have hlast := List.rdropWhile_last_not (fun line => (lineRuns line).isEmpty) lines
      (by simpa using hne)
    rw [List.getLast_map]
    simpa using hlast

/-! ## Documents -/

theorem readPre_preTag {background : Json} (h : '&' ∉ (backgroundText background).toList) :
    Document.readPre (preTag background) = some (backgroundText background).toList := by
  have hvalue : '&' ∉ "background-color: ".toList ++ (backgroundText background).toList :=
    List.not_mem_append (by decide) h
  simp only [Document.readPre, preTag, unescape_eq_self hvalue, dropPrefix?_append_self]
  rfl

theorem readName_text (name content : List Char) (rest : List Item) :
    Document.readName name (content.map .char ++ .tag (endTag "div") :: rest) =
      some (name ++ content, rest) := by
  induction content generalizing name with
  | nil => simp [Document.readName]
  | cons c content ih => simp [Document.readName, ih]

/-- The name of a language, if it is shown. -/
def shownName (language : Option String) : Option (List Char) :=
  (language.filter fun name => !name.isEmpty).map String.toList

theorem readLabel_labelItems (language : Option String) (rest : List Item) :
    Document.readLabel (labelItems language ++ .tag (plainTag "code") :: rest) =
      some (shownName language, .tag (plainTag "code") :: rest) := by
  have hcode : Document.readLabel (.tag (plainTag "code") :: rest) =
      some (none, .tag (plainTag "code") :: rest) := by
    rw [Document.readLabel, if_neg (by decide)]
  cases language with
  | none => exact hcode
  | some name =>
    by_cases h : name.isEmpty = true
    · simpa [labelItems, shownName, Option.filter_some, h] using hcode
    · simp [labelItems, shownName, Option.filter_some, h, Document.readLabel, readName_text]

/-- What a reader finds of lines: their runs, neighbours without a color made one, and no line
behind the last for which something is written. -/
def shownLines (lines : List ThemedLine) : List (List Run) :=
  (lines.rdropWhile fun line => (line.flatMap piece).isEmpty).map
    fun line => Run.merge [] (line.map Run.ofToken)

/-- A rendered document is read as what it was made of. -/
theorem read_render {background : Json} (language : Option String) {lines : List ThemedLine}
    (hquote : '"' ∉ (backgroundText background).toList)
    (hamp : '&' ∉ (backgroundText background).toList)
    (hlines : ∀ line ∈ lines, ∀ token ∈ line, '\n' ∉ token.content.toList ∧
      (token.color.isNull = false → PlainColor token)) :
    Document.read (render background language lines) = some
      { background := (backgroundText background).toList
        language := shownName language
        lines := shownLines lines } := by
  have hquoteless : ∀ part ∈ (bodyParts lines).rdropWhile Part.isNewline, part.Has Quoteless :=
    has_rdropWhile.mpr (has_bodyParts.mpr fun line hline token htoken hcolor =>
      ((hlines line hline token htoken).2 hcolor).1)
  have hplain : ∀ part ∈ (bodyParts lines).rdropWhile Part.isNewline, part.Has PlainColor :=
    has_rdropWhile.mpr (has_bodyParts.mpr fun line hline token htoken =>
      (hlines line hline token htoken).2)
  have hlabel := readLabel_labelItems language
    (((bodyParts lines).rdropWhile Part.isNewline).flatMap Part.items ++
      [.tag (endTag "code"), .tag (endTag "pre")])
  have hbody := lines_bodyParts fun line hline token htoken => (hlines line hline token htoken).1
  simp only [Document.read, items_render hquote, readPre_preTag hamp, items_inside,
    items_parts hquoteless, items_close, hlabel, readRuns_parts hplain, Option.bind_eq_bind,
    Option.bind_some, if_true, Option.pure_def, hbody, shownLines]

end Rubric.Markup.Html
