import Rubric.Proofs.Markup.Svg
import Rubric.Proofs.Session.Colors
import Rubric.Proofs.Theme.Reader

/-!
# Sessions without a color

A theme object can give itself null for a foreground. A piece that no rule gives a color then has
none, and null is numbered like a color. From then on the colors of the session cannot be listed,
and no SVG comes out (`null_numbered`).
-/

namespace Rubric

/-! ## Themes without a foreground -/

theorem nord_readable : ∀ rule ∈ Bundle.nord.rules, rule.Readable := by
  have hcolors : ∀ color ∈ Bundle.nord.colors, color.isNull = false := by decide
  have hparts : ∀ rule ∈ Bundle.nord.rules, rule.selector ≠ [] := by decide
  refine fun rule hmem => ⟨hparts rule hmem, fun hnull => ?_⟩
  cases hcolors .null (List.mem_cons_of_mem _ (List.mem_filterMap.mpr ⟨rule, hmem, hnull⟩))

/-- A theme made from an object has no foreground just if the object has a name and the last
foreground that it gives itself is null. -/
theorem ThemeChoice.chosen_obj {members : List (String × Json)} {theme : Theme}
    (h : (ThemeChoice.value (.obj members)).chosen = .ok theme) :
    (theme.foreground = .null ↔ ((Json.member? members "name").getD (.str "")).isSet = true ∧
      (themeForegrounds members).getLast? = some .null) ∧ ∀ rule ∈ theme.rules, rule.Readable := by
  obtain ⟨made, hmade, h⟩ := bind_eq_ok.mp h
  cases pure_eq_ok.mp h
  obtain ⟨hforeground, hname, hread⟩ := Theme.ofJson_ok (mapError_eq_ok.mp hmade)
  have hreadable : ∀ rule ∈ made.rules, rule.Readable := fun rule hmem => (hread rule hmem).readable
  have hname : made.name = (Json.member? members "name").getD (.str "") := hname
  rw [Theme.ifNamed, ← hname]
  split
  · next hset =>
    refine ⟨?_, hreadable⟩
    rw [hforeground, and_iff_right hset]
    cases (themeForegrounds members).getLast? with
    | none => exact iff_of_false nofun nofun
    | some color => rw [Option.getD_some, Option.some_inj]
  · next hset => exact ⟨iff_of_false nofun fun h => hset h.1, nord_readable⟩

/-! ## Numbering no color -/

/-- If a call numbers null, the theme has no foreground. -/
theorem Highlighter.foreground_of_null_inks {h : Highlighter} {c : Session.Call}
    (hreadable : ∀ rule ∈ h.theme.rules, rule.Readable) (hnull : .null ∈ h.inks c) :
    h.theme.foreground = .null := by
  rcases List.mem_cons.mp (mem_colors_of_inks hnull) with hforeground | hrule
  · exact hforeground.symm
  · obtain ⟨rule, hmem, hcolor⟩ := List.mem_filterMap.mp hrule
    exact absurd hcolor (hreadable rule hmem).color

namespace Session
variable {s : Session}

/-- If the lines of a text are there, its SVG comes out unless null is numbered behind them. -/
theorem answer_svg_eq (hs : s.Sound) (hfollows : Painting.Follows s.highlighter.theme s.palette)
    {code lang : String} {lines : List ThemedLine} (hlines : (s.lines code lang).1 = .ok lines) :
    if .null ∈ (s.after [⟨.svg, .str code, .str lang⟩]).palette.colors.colors then
      s.answer ⟨.svg, .str code, .str lang⟩ = .error .guarded
    else ∃ markup, s.answer ⟨.svg, .str code, .str lang⟩ = .ok (.text markup) := by
  have hanswer : s.answer ⟨.svg, .str code, .str lang⟩ = ((do
      Markup.Svg.render s.highlighter.theme.background (some (s.lines code lang).2.palette.colors)
        (← (s.lines code lang).1)) >>= fun markup => .ok (.text markup)) := rfl
  have hrender := Markup.Svg.render_eq s.highlighter.theme.background
    (s.lines code lang).2.palette.colors (isKey_lines hs hfollows hlines)
  have hpalette : (s.after [⟨.svg, .str code, .str lang⟩]).palette =
      (s.lines code lang).2.palette := rfl
  rw [hpalette, hanswer, hlines]
  split at hrender
  · next hnull => rw [if_pos hnull, ok_bind, hrender]; rfl
  · next hnull =>
    obtain ⟨markup, hmarkup⟩ := hrender
    rw [if_neg hnull]
    exact ⟨markup, bind_eq_ok.mpr ⟨markup, hmarkup, rfl⟩⟩

end Session

/-- **Where no color is numbered.** Let a session be made from the object of a theme. After any
calls null is among its colors if and only if one of them has numbered it, which happens only if the
theme has no foreground: if the last one that the object gives itself is null. The colors can be
listed, and a text whose lines are there has an SVG, if and only if null is not among the colors. -/
theorem null_numbered (engine : Regex.Engine) (files : Files) (members : List (String × Json))
    (choices : Option (List LanguageChoice)) (start : Session)
    (hc : Session.create engine files (.value (.obj members)) choices = .ok start) :
    (start.highlighter.theme.foreground = .null ↔
      ((Json.member? members "name").getD (.str "")).isSet = true ∧
        (themeForegrounds members).getLast? = some .null) ∧
    (∀ c, .null ∈ start.highlighter.inks c → start.highlighter.theme.foreground = .null) ∧
    ∀ calls : List Session.Call,
      (.null ∈ (start.after calls).palette.colors.colors ↔
        ∃ c ∈ calls, .null ∈ start.highlighter.inks c) ∧
      ((start.after calls).palette.colors.items = .error .guarded ↔
        .null ∈ (start.after calls).palette.colors.colors) ∧
      ∀ code lang lines, ((start.after calls).lines code lang).1 = .ok lines →
        if .null ∈
          (start.after (calls ++ [⟨.svg, .str code, .str lang⟩])).palette.colors.colors then
          (start.after calls).answer ⟨.svg, .str code, .str lang⟩ = .error .guarded
        else ∃ markup,
          (start.after calls).answer ⟨.svg, .str code, .str lang⟩ = .ok (.text markup) := by
  obtain ⟨hcreate, hpalette, hsound⟩ := Session.create_ok hc
  obtain ⟨_, hchosen, _⟩ := Highlighter.create_ok hcreate
  obtain ⟨hforeground, hreadable⟩ := ThemeChoice.chosen_obj hchosen
  have hstart : Painting.Follows start.highlighter.theme start.palette := by
    rw [hpalette]
    exact StyleCache.Of.start _
  refine ⟨hforeground, fun c => Highlighter.foreground_of_null_inks hreadable,
    fun calls => ⟨?_, ?_, ?_⟩⟩
  · have hnone : Json.null ∉ start.palette.colors.colors := by
      rw [hpalette]
      exact List.not_mem_nil
    rw [(Session.after_colors hsound hstart calls).2, ColorMap.null_mem_foldl_insert,
      or_iff_right hnone, List.mem_flatMap]
  · rw [ColorMap.items_eq]
    split
    · next hnull => exact iff_of_true rfl hnull
    · next hnull => exact iff_of_false nofun hnull
  · intro code lang lines hlines
    obtain ⟨hs, hhighlighter, hfollows⟩ :=
      Session.after_keeps (Painting.follows_lasting _) hsound hstart calls
    rw [Session.after_append]
    exact Session.answer_svg_eq hs (hhighlighter ▸ hfollows) hlines

/-- The object of a theme whose only color is null. -/
def colorless : List (String × Json) :=
  [("name", .str "none"), ("colors", .obj [("foreground", .null)])]

/-- In a language without rules, a text numbers null, and its colors cannot be listed. -/
theorem null_numbered_colorless : ∃ start,
    Session.create .standard [] (.value (.obj colorless)) (some [.language (.ofLetters "one" [])]) =
      .ok start ∧
    start.highlighter.theme.foreground = .null ∧
    .null ∈ (start.after [⟨.html, .str "a", .str "one"⟩]).palette.colors.colors ∧
    (start.after [⟨.html, .str "a", .str "one"⟩]).palette.colors.items = .error .guarded := by
  obtain ⟨start, hc, hinks⟩ : ∃ start,
      Session.create .standard [] (.value (.obj colorless))
        (some [.language (.ofLetters "one" [])]) =
        .ok start ∧ start.highlighter.inks ⟨.html, .str "a", .str "one"⟩ = [.null] :=
    ⟨_, rfl, rfl⟩
  obtain ⟨hforeground, _, hcalls⟩ := null_numbered _ _ _ _ start hc
  obtain ⟨hnull, hitems, _⟩ := hcalls [⟨.html, .str "a", .str "one"⟩]
  have hmem :=
    hnull.mpr ⟨_, List.mem_singleton_self _, by rw [hinks]; exact List.mem_singleton_self _⟩
  exact ⟨start, hc, hforeground.mpr ⟨rfl, rfl⟩, hmem, hitems.mpr hmem⟩

/-- The first text is answered, but then there is no SVG, not even of a text without a language. -/
theorem svg_after_colorless : ∃ start lines,
    Session.create .standard [] (.value (.obj colorless)) (some [.language (.ofLetters "one" [])]) =
      .ok start ∧
    start.answer ⟨.tokens, .str "a", .str "one"⟩ = .ok (.lines lines) ∧
    (start.after [⟨.tokens, .str "a", .str "one"⟩]).answer ⟨.svg, .str "", .str "text"⟩ =
      .error .guarded :=
  ⟨_, _, rfl, rfl, rfl⟩

end Rubric
