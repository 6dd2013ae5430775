import Rubric.Proofs.Bundle.Loading
import Rubric.Proofs.ColorMap
import Rubric.Proofs.Document.Painting
import Rubric.Proofs.Document.Spots

/-!
# More lines behind a document

A document with a newline and more text behind it begins with the lines of the document
(`sourceLines_append`). Each line is highlighted with a newline at its end, the last one too, so
these lines have the tokens and the pieces that they have alone (`linesTokens_append`,
`Painting.lines_append`), and the colors of what follows are numbered behind theirs.
-/

namespace Rubric

theorem sourceLines_append (front more : String) :
    sourceLines (front ++ "\n" ++ more) = sourceLines front ++ sourceLines more := by
  have hlist : (front ++ "\n" ++ more).toList = front.toList ++ '\n' :: more.toList := by
    simp only [String.toList_append, List.append_assoc]
    rfl
  rw [sourceLines, hlist]
  exact Text.splitFrom_append_cons '\n' [] front.toList more.toList

theorem length_sourceLines (code : String) :
    (sourceLines code).length = code.toList.count '\n' + 1 :=
  Text.length_splitFrom '\n' [] code.toList

section
variable {engine : Regex.Engine} {g : CompiledGrammar} {s : State} {firstLine : Bool}
  {lines front more : List (List Char)} {tokens : List (List RawToken)}

theorem length_linesTokens (h : linesTokens engine g s firstLine lines = .ok tokens) :
    tokens.length = lines.length := by
  induction lines generalizing s firstLine tokens with
  | nil =>
    cases h
    rfl
  | cons line rest ih =>
    obtain ⟨_, _, h⟩ := bind_eq_ok.mp h
    obtain ⟨others, hrest, h⟩ := bind_eq_ok.mp h
    cases pure_eq_ok.mp h
    rw [List.length_cons, List.length_cons, ih hrest]

/-- The tokens of the lines in front do not depend on what follows. -/
theorem linesTokens_append (h : linesTokens engine g s firstLine (front ++ more) = .ok tokens) :
    ∃ first, linesTokens engine g s firstLine front = .ok first ∧ first <+: tokens := by
  induction front generalizing s firstLine tokens with
  | nil => exact ⟨[], rfl, List.nil_prefix⟩
  | cons line rest ih =>
    obtain ⟨behind, hline, h⟩ := bind_eq_ok.mp h
    obtain ⟨others, hothers, h⟩ := bind_eq_ok.mp h
    cases pure_eq_ok.mp h
    obtain ⟨first, hfirst, hprefix⟩ := ih hothers
    refine ⟨behind.2 :: first, ?_, (List.prefix_cons_inj _).mpr hprefix⟩
    exact bind_eq_ok.mpr ⟨behind, hline, bind_eq_ok.mpr ⟨first, hfirst, rfl⟩⟩

end

/-! ## In color -/

namespace Painting
variable {engine : Regex.Engine} {g : CompiledGrammar} {s : State}

/-- Colors that are numbered stay so. -/
theorem grown_lasting (colors : List Json) :
    Lasting fun palette => colors <+: palette.colors.colors where
  style scopes palette hI := by
    rw [style_run]
    split <;> exact ⟨trivial, hI⟩
  number color palette hI := by
    rw [number_run]
    split
    · next h => exact ⟨trivial, hI.trans (ColorMap.add_prefix h)⟩
    · exact ⟨trivial, hI⟩

theorem lift_ok_bind (a : α) (f : α → Painting β) : (lift (.ok a) >>= f) = f a :=
  rfl

/-- The lines that follow are painted when those in front have been, on the palette that these have
left. -/
theorem lines_append (firstLine : Bool) (front more : List (List Char)) :
    lines engine g s firstLine (front ++ more) = (do
      let first ← lines engine g s firstLine front
      let behind ← lift (linesState engine g s firstLine front)
      let rest ← lines engine g behind (firstLine && front.isEmpty) more
      return first ++ rest) := by
  induction front generalizing s firstLine with
  | nil => simp [lines, linesState, lift_ok_bind]
  | cons text front ih =>
    simp only [List.cons_append, lines, linesState]
    cases lineTokens engine g s firstLine text with
    | error e => rfl
    | ok behind =>
      simp only [ih, lift_ok_bind, ok_bind, bind_assoc, pure_bind, List.isEmpty_cons,
        Bool.false_and, Bool.and_false, List.cons_append]

theorem lines_length (firstLine : Bool) (texts : List (List Char)) :
    Ensures (fun _ => True) (lines engine g s firstLine texts)
      (Yields fun pieces => pieces.length = texts.length) := by
  induction texts generalizing s firstLine with
  | nil => exact ensures_value rfl
  | cons text rest ih =>
    refine (ensures_lift _ trivial).anyValue.followed fun behind _ => ?_
    have hline : Ensures (fun _ => True) (line text behind.2) fun _ => True :=
      fun _ _ => ⟨trivial, trivial⟩
    refine hline.anyValue.followed fun first _ => (ih false).followed fun others hothers => ?_
    exact ensures_value (by rw [List.length_cons, List.length_cons, hothers])

/-- The pieces of the lines in front do not depend on what follows, and their colors are numbered
first. -/
theorem run_lines_append (engine : Regex.Engine) (g : CompiledGrammar) (s : State)
    (firstLine : Bool) (front more : List (List Char)) (palette : Palette) :
    (∀ pieces, (palette.run (lines engine g s firstLine (front ++ more))).1 = .ok pieces →
      ∃ first, (palette.run (lines engine g s firstLine front)).1 = .ok first ∧
        first <+: pieces) ∧
    (palette.run (lines engine g s firstLine front)).2.colors.colors <+:
      (palette.run (lines engine g s firstLine (front ++ more))).2.colors.colors := by
  rw [lines_append]
  cases hfront : palette.run (lines engine g s firstLine front) with
  | mk r between =>
    cases r with
    | error e =>
      rw [run_bind_error hfront]
      exact ⟨fun _ h => (by cases h), List.prefix_rfl⟩
    | ok first =>
      rw [run_bind_ok hfront]
      have hgrown : Ensures (fun palette => between.colors.colors <+: palette.colors.colors)
          (do
            let behind ← lift (linesState engine g s firstLine front)
            let rest ← lines engine g behind (firstLine && front.isEmpty) more
            return first ++ rest) (Yields fun pieces => first <+: pieces) := by
        refine (ensures_lift _ trivial).anyValue.followed fun behind _ => ?_
        have hmore := keep_lines (grown_lasting between.colors.colors) engine g behind
          (firstLine && front.isEmpty) more
        refine hmore.anyValue.followed fun rest _ => ?_
        exact ensures_value (List.prefix_append first rest)
      obtain ⟨hpieces, hcolors⟩ := hgrown between List.prefix_rfl
      exact ⟨fun pieces h => ⟨first, rfl, hpieces pieces h⟩, hcolors⟩

end Painting

/-- **Lines that are appended leave those in front as they are.** If a text that goes on behind a
newline has tokens, the text in front of the newline has them too: they are those of as many lines
as it has. The same holds of the pieces on any palette, and whether they can be painted or not, the
colors that are numbered after the text in front are the first ones after the whole text. -/
theorem appended_lines_stable (engine : Regex.Engine) (g : CompiledGrammar) (front more : String) :
    (∀ tokens, rawTokens engine g (front ++ "\n" ++ more) = .ok tokens →
      ∃ first, rawTokens engine g front = .ok first ∧ first <+: tokens ∧
        first.length = front.toList.count '\n' + 1) ∧
    ∀ palette : Palette,
      (∀ lines, (palette.run (themedTokens engine g (front ++ "\n" ++ more))).1 = .ok lines →
        ∃ first, (palette.run (themedTokens engine g front)).1 = .ok first ∧ first <+: lines ∧
          first.length = front.toList.count '\n' + 1) ∧
      (palette.run (themedTokens engine g front)).2.colors.colors <+:
        (palette.run (themedTokens engine g (front ++ "\n" ++ more))).2.colors.colors := by
  rw [rawTokens, themedTokens, sourceLines_append]
  refine ⟨fun tokens h => ?_, fun palette => ?_⟩
  · obtain ⟨first, hfirst, hprefix⟩ := linesTokens_append h
    exact ⟨first, hfirst, hprefix, (length_linesTokens hfirst).trans (length_sourceLines front)⟩
  · obtain ⟨hpieces, hcolors⟩ := Painting.run_lines_append engine g g.start true
      (sourceLines front) (sourceLines more) palette
    refine ⟨fun lines h => ?_, hcolors⟩
    obtain ⟨first, hfirst, hprefix⟩ := hpieces lines h
    have hlength := (Painting.lines_length true (sourceLines front) palette trivial).1 first hfirst
    exact ⟨first, hfirst, hprefix, hlength.trans (length_sourceLines front)⟩

/-- Black on white. -/
def Theme.plain : Theme where
  name := .str "plain"
  background := .str "white"
  foreground := .str "black"
  rules := []

/-- In the middle of a list. -/
theorem appended_lines_stable_json : ∃ g, CompiledGrammar.ofGrammar Bundle.json = .ok g ∧
    (∃ tokens first, rawTokens .standard g ("[1," ++ "\n" ++ "2]") = .ok tokens ∧
      rawTokens .standard g "[1," = .ok first ∧ first <+: tokens ∧ first.length = 1) ∧
    ∃ lines first,
      ((⟨{}, { theme := .plain }⟩ : Palette).run
        (themedTokens .standard g ("[1," ++ "\n" ++ "2]"))).1 = .ok lines ∧
      ((⟨{}, { theme := .plain }⟩ : Palette).run
        (themedTokens .standard g "[1,")).1 = .ok first ∧ first <+: lines ∧ first.length = 1 := by
  obtain ⟨g, hg, _⟩ := (Bundle.json_steady Regex.Engine.standard_sound).ofGrammar_total
  have hbundled : g.Bundled := ⟨Bundle.json, by simp [Language.bundledGrammars], hg⟩
  obtain ⟨hsteady, hstart⟩ := hbundled.steady Regex.Engine.standard_sound
  obtain ⟨scope, hunder⟩ := hbundled.under
  obtain ⟨htokens, hpieces⟩ := appended_lines_stable .standard g "[1," "2]"
  refine ⟨g, hg, ?_, ?_⟩
  · obtain ⟨tokens, h⟩ :=
      linesTokens_total true (sourceLines ("[1," ++ "\n" ++ "2]")) hsteady hstart
    obtain ⟨first, hfirst, hprefix, hlength⟩ := htokens tokens h
    exact ⟨tokens, first, h, hfirst, hprefix, hlength⟩
  · have hplain : Theme.plain.Harmless := .of_forall (by decide)
    have hranked : Theme.plain.Ranked := fun _ h => absurd h List.not_mem_nil
    obtain ⟨lines, h, _⟩ := (Painting.lines_gives true hranked hplain hsteady hstart hunder
      (fun _ => Text.not_mem_of_mem_splitAt) ⟨{}, { theme := .plain }⟩ (StyleCache.Of.start _)).1
    obtain ⟨first, hfirst, hprefix, hlength⟩ := (hpieces _).1 lines h
    exact ⟨lines, first, h, hfirst, hprefix, hlength⟩

end Rubric
