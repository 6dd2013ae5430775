import Rubric.Proofs.Markup.Reader
import Rubric.Proofs.Session.Classes

/-!
# The HTML of a highlighter

A rendered document is read as what it was made of, and for a text without a language it has the
escaped text in its `code` element (`html_undone`). The colors of the pieces come from the theme
(`Highlighter.lines_colors`). No source text can bring a tag into the markup; a background or a
color can, by a quote and by nothing else (`html_own_tags`).
-/

namespace Rubric

open Markup Markup.Html

/-! ## Texts without a language -/

namespace Markup.Html

theorem escapeText_eq_flatMap_markup (s : List Char) :
    escapeText s = (s.map Part.char).flatMap Part.markup := by
  rw [List.flatMap_map]
  rfl

/-- To escape a text without the newlines at its end is to escape it and then trim them. -/
theorem trimNewlines_escapeText (s : List Char) :
    trimNewlines (escapeText s) = escapeText (trimNewlines s) := by
  have htrim : (s.map Part.char).rdropWhile Part.isNewline = (trimNewlines s).map Part.char := by
    rw [List.rdropWhile, ← List.map_reverse, List.dropWhile_map, ← List.map_reverse]
    rfl
  rw [escapeText_eq_flatMap_markup, trimNewlines_markup, htrim, ← escapeText_eq_flatMap_markup]

theorem flatMap_escapeText (pieces : List (List Char)) :
    pieces.flatMap (fun s => escapeText s ++ ['\n']) =
      escapeText (pieces.flatMap (· ++ ['\n'])) := by
  rw [escapeText, List.flatMap_assoc]
  simp only [List.flatMap_append]
  rfl

theorem body_plainLines (code : String) :
    body (Highlighter.plainLines code) = escapeText (code.toList ++ ['\n']) := by
  have hline (text : List Char) :
      (if (String.ofList text).isEmpty then []
        else [({ content := String.ofList text } : ThemedToken)]).flatMap piece =
        escapeText text := by
    by_cases h : (String.ofList text).isEmpty = true
    · have htext : text = [] := by simpa using h
      simp [htext, escapeText]
    · rw [if_neg h]
      simp [piece, Json.isNull]
  rw [body, Highlighter.plainLines, Text.lines, Text.split, List.map_map, List.flatMap_map]
  simp only [Function.comp_apply, hline]
  rw [flatMap_escapeText, Text.flatMap_splitAt]

theorem trimNewlines_body_plainLines (code : String) :
    trimNewlines (body (Highlighter.plainLines code)) =
      escapeText (trimNewlines code.toList) := by
  rw [body_plainLines, trimNewlines_escapeText, trimNewlines_concat]

end Markup.Html

/-! ## The colors of pieces -/

namespace Painting
variable {theme : Theme}

theorem token_color (line : Array Char) (t : RawToken) :
    Ensures (Follows theme) (token line t) (Yields fun piece => piece.color ∈ theme.colors) :=
  (style_ensures t.scopes).followed fun _ hs =>
    ((follows_lasting theme).number _).anyValue.followed fun _ _ =>
      ensures_value (Theme.color_mem_of_resolve hs)

theorem lines_color (engine : Regex.Engine) (g : CompiledGrammar) (s : State) (firstLine : Bool)
    (texts : List (List Char)) :
    Ensures (Follows theme) (lines engine g s firstLine texts)
      (Yields fun lines => ∀ line ∈ lines, ∀ piece ∈ line, piece.color ∈ theme.colors) := by
  induction texts generalizing s firstLine with
  | nil => exact ensures_value fun _ h => nomatch h
  | cons text rest ih =>
    refine (ensures_lift _ trivial).anyValue.followed fun behind _ => ?_
    refine (yields_mapM fun t => token_color _ t).followed fun first hfirst => ?_
    refine (ih behind.1 false).followed fun others hothers => ?_
    exact ensures_value (List.forall_mem_cons.mpr ⟨hfirst, hothers⟩)

end Painting

namespace Highlighter
open Painting

/-- The pieces with a color have it from the theme. -/
theorem lines_colors (h : Highlighter) (code lang : String) :
    Ensures (Follows h.theme) (h.lines code lang)
      (Yields fun lines => ∀ line ∈ lines, ∀ piece ∈ line, piece.color.isNull = false →
        piece.color ∈ h.theme.colors) := by
  unfold lines
  cases hlang : Language.isPlaintext lang with
  | true =>
    refine ensures_value fun line hline piece hpiece hcolor => ?_
    rw [color_plainLines (List.mem_flatten.mpr ⟨line, hline, hpiece⟩)] at hcolor
    cases hcolor
  | false =>
    unfold tokens
    rw [hlang]
    refine ((ensures_lift _ trivial).anyValue.followed fun g _ => ?_)
    exact (lines_color h.engine g g.start true (sourceLines code)).mono
      fun _ hlines lines hr line hline piece hpiece _ => hlines lines hr line hline piece hpiece

end Highlighter

/-- No quote stands in the background, or in a color that the theme can give. -/
structure Theme.Quoteless (theme : Theme) : Prop where
  background : '"' ∉ (backgroundText theme.background).toList
  colors : ∀ color ∈ theme.colors, color.isNull = false → '"' ∉ color.text.toList

/-! ## Main results -/

/-- **A document can be read back.** Let no quote and no ampersand stand in the background, and
neither of them, and no semicolon, in a color; let no piece have a newline. Then a reader of the
markup finds the background, the name of the language if one is shown, and the runs of each line:
the pieces with a color with their text, color and font style, the text between them as one, and no
line behind the last for which something is written. The `code` element of a text without a language
has the text escaped, but for the newlines at its end, and nothing else. -/
theorem html_undone :
    (∀ (background : Json) (language : Option String) (lines : List ThemedLine),
      '"' ∉ (backgroundText background).toList → '&' ∉ (backgroundText background).toList →
      (∀ line ∈ lines, ∀ token ∈ line, '\n' ∉ token.content.toList ∧
        (token.color.isNull = false → PlainColor token)) →
      Document.read (render background language lines) = some
        { background := (backgroundText background).toList
          language := shownName language
          lines := shownLines lines }) ∧
    ∀ (h : Highlighter) (palette : Palette) (code lang : String),
      Language.isPlaintext lang = true →
      palette.run (h.html code lang) = (.ok (String.ofList (
        "<pre class=\"shiki\" style=\"background-color: ".toList ++
          (backgroundText h.theme.background).toList ++ "\">".toList ++ "<code>".toList ++
          escapeText (trimNewlines code.toList) ++ "</code></pre>".toList)), palette) := by
  refine ⟨fun background language lines hquote hamp hlines =>
    read_render language hquote hamp hlines, fun h palette code lang hlang => ?_⟩
  have hlines : palette.run (h.lines code lang) = (.ok (Highlighter.plainLines code), palette) := by
    rw [Highlighter.lines, if_pos hlang]
    rfl
  rw [Highlighter.html, Painting.run_bind_ok hlines]
  have hrender : render h.theme.background none (Highlighter.plainLines code) = String.ofList (
      "<pre class=\"shiki\" style=\"background-color: ".toList ++
        (backgroundText h.theme.background).toList ++ "\">".toList ++ "<code>".toList ++
        escapeText (trimNewlines code.toList) ++ "</code></pre>".toList) := by
    unfold render
    rw [trimNewlines_body_plainLines, languageLabel, List.append_nil]
  rw [← hrender]
  rfl

/-- Texts that look like tags and entities, and lines of which nothing is left. -/
theorem html_undone_like_markup :
    Document.read (render .null (some "<x>")
      [[{ content := "a<b" }, { content := "&amp;" },
        { content := "</span>", color := .str "#fff", fontStyle := { bold := true } }], [],
        [{ content := "b", color := .str "" }, { content := "" }], [{ content := "" }], []]) =
      some
        { background := "#fff".toList
          language := some "<x>".toList
          lines :=
            [[⟨"a<b&amp;".toList, none⟩,
              ⟨"</span>".toList, some ("#fff".toList, { bold := true })⟩], [],
              [⟨"b".toList, some ([], {})⟩]] } ∧
    (Palette.run { styles := { theme := Bundle.nord } }
      ((Highlighter.mk .standard Bundle.nord []).html "\n<b>\n\n" "text")).1 =
      .ok ("<pre class=\"shiki\" style=\"background-color: #2e3440\">" ++
        "<code>\n&lt;b&gt;</code></pre>") := by
  refine ⟨(html_undone.1 _ _ _ (by decide) (by decide) ?_).trans (by decide), ?_⟩
  · simp [PlainColor, Json.isNull, Json.text]
  · rw [html_undone.2 _ _ _ _ (by decide)]
    exact congrArg Except.ok (by decide)

/-- **Which tags there are.** After whatever calls, let a source text have HTML. The tags in it are
those that are meant if and only if no quote stands in the background or in the color of a piece. So
under a theme without quotes they are, whatever the source text and the language. -/
theorem html_own_tags (h : Highlighter) (palette : Palette) (hp : h.Reaches palette)
    (code lang markup : String) (hmarkup : (palette.run (h.html code lang)).1 = .ok markup) :
    ∃ lines, (palette.run (h.lines code lang)).1 = .ok lines ∧
      (tags .text markup.toList = ownTags h.theme.background none lines ↔
        '"' ∉ (backgroundText h.theme.background).toList ∧
          ∀ line ∈ lines, ∀ token ∈ line, token.color.isNull = false → Quoteless token) ∧
      (h.theme.Quoteless → tags .text markup.toList = ownTags h.theme.background none lines) := by
  obtain ⟨hcolors, _⟩ := h.lines_colors code lang palette hp.follows
  cases hrun : palette.run (h.lines code lang) with
  | mk r palette' =>
    cases r with
    | error e =>
      rw [Highlighter.html, Painting.run_bind_error hrun] at hmarkup
      cases hmarkup
    | ok lines =>
      have hrender : render h.theme.background none lines = markup := by
        rw [Highlighter.html, Painting.run_bind_ok hrun] at hmarkup
        cases hmarkup
        rfl
      rw [hrun] at hcolors
      refine ⟨lines, rfl, hrender ▸ tags_render_iff, fun hquoteless => ?_⟩
      refine hrender ▸ tags_render_iff.mpr ⟨hquoteless.background, ?_⟩
      intro line hline token htoken hcolor
      exact hquoteless.colors _ (hcolors lines rfl line hline token htoken hcolor) hcolor

/-- A highlighter in two colors, for a language without rules. -/
def Highlighter.plain : Highlighter where
  engine := .standard
  theme := ⟨.str "plain", .str "#000", .str "#fff", []⟩
  grammars := [("none", ⟨⟨.str "source.none", [], []⟩, .root (.str "source.none") []⟩)]

/-- A text that looks like a tag. -/
theorem html_own_tags_plain : ∃ markup,
    (Highlighter.plain.palette.run (Highlighter.plain.html "<b>" "none")).1 = .ok markup ∧
    tags .text markup.toList =
      [preTag (.str "#000"), plainTag "code",
        spanTag { content := "<b>", color := .str "#fff" }, endTag "span", endTag "code",
        endTag "pre"] := by
  refine ⟨_, rfl, ?_⟩
  obtain ⟨lines, hlines, -, htags⟩ :=
    html_own_tags Highlighter.plain _ .start "<b>" "none" _ rfl
  cases hlines
  exact (htags ⟨by decide, by decide⟩).trans (by decide)

/-- A theme whose colors go on behind their attributes. -/
def Theme.escaping : Json :=
  .obj [("name", .str "escaping"),
    ("colors", .obj [("editor.background", .str "\"><script>")]),
    ("tokenColors", .arr [.obj [("settings", .obj [("foreground", .str "\"><b>")])]])]

/-- Quotes in the background and in a color bring tags into the markup. -/
theorem html_own_tags_escaping : ∃ h markup,
    Highlighter.create .standard [] (.value Theme.escaping)
      (some [.language (.ofLetters "none" [])]) = .ok h ∧
    (h.palette.run (h.html "x" "none")).1 = .ok markup ∧
    plainTag "script" ∈ tags .text markup.toList ∧ plainTag "b" ∈ tags .text markup.toList := by
  refine ⟨_, _, rfl, rfl, ?_⟩
  decide +kernel

end Rubric
