import Rubric.Proofs.ColorMap
import Rubric.Proofs.Document.Painting

/-!
# Which pieces a palette has taken up

A painting may fail in the middle of a line, and what was numbered until then stays. So the pieces
that are brought up by lines are laid out one after another, with the faults between them
(`Theme.drafts`), and it is those in front of the first fault that count (`untilFault`), where a
color that cannot be numbered is a fault as well (`Theme.inked`). The palette numbers just their
colors, in order (`Painting.lines_numbers`).
-/

namespace Rubric

/-- The values in front of the first fault. -/
def untilFault : List (Outcome α) → List α
  | .ok a :: rest => a :: untilFault rest
  | _ => []

section
variable {ι α : Type} {f : ι → Outcome α} {items : List ι} {results : List α}

theorem untilFault_of_mapM (rest : List (Outcome α)) (h : items.mapM f = .ok results) :
    untilFault (items.map f ++ rest) = results ++ untilFault rest := by
  induction items generalizing results with
  | nil =>
    cases h
    rfl
  | cons i others ih =>
    rw [List.mapM_cons] at h
    obtain ⟨a, ha, h⟩ := bind_eq_ok.mp h
    obtain ⟨results', hresults, h⟩ := bind_eq_ok.mp h
    cases pure_eq_ok.mp h
    rw [List.map_cons, List.cons_append, ha, untilFault, ih hresults, List.cons_append]

theorem untilFault_map (h : items.mapM f = .ok results) : untilFault (items.map f) = results := by
  have hall := untilFault_of_mapM [] h
  have hnone : untilFault ([] : List (Outcome α)) = [] := rfl
  rwa [List.append_nil, hnone, List.append_nil] at hall

theorem untilFault_of_mapM_error {e : Fault} (rest : List (Outcome α))
    (h : items.mapM f = .error e) :
    untilFault (items.map f ++ rest) = untilFault (items.map f) := by
  induction items with
  | nil => cases h
  | cons i others ih =>
    rw [List.map_cons, List.cons_append]
    rw [List.mapM_cons] at h
    cases hi : f i with
    | error e => rfl
    | ok a =>
      rw [hi, ok_bind] at h
      cases hothers : others.mapM f with
      | error e' =>
        rw [hothers] at h
        cases h
        rw [untilFault, untilFault, ih hothers]
      | ok results =>
        rw [hothers] at h
        cases h

end

theorem mem_of_mem_untilFault {outcomes : List (Outcome α)} {a : α} (h : a ∈ untilFault outcomes) :
    .ok a ∈ outcomes := by
  induction outcomes with
  | nil => cases h
  | cons r rest ih =>
    cases r with
    | error e => cases h
    | ok b =>
      rcases List.mem_cons.mp h with rfl | h
      · exact List.mem_cons_self ..
      · exact List.mem_cons_of_mem _ (ih h)

/-! ## Pieces of tokens -/

/-- The piece of a token. Its scopes have to be keys, and texts. -/
def Theme.piece (theme : Theme) (line : List Char) (t : RawToken) : Outcome ThemedToken := do
  let style ← (t.scopes.mapM Json.asKey >>= theme.resolve).mapError .misuse
  return {
    content := String.ofList (t.text line)
    color := style.color
    fontStyle := style.fontStyle }

/-- The tokens of a line that show text. -/
def shownTokens (line : List Char) (tokens : List RawToken) : List RawToken :=
  tokens.filter fun t => t.start < min t.stop line.length

/-- The pieces of lines, from a state on, with the faults in between. -/
def Theme.drafts (theme : Theme) (engine : Regex.Engine) (g : CompiledGrammar) :
    State → (firstLine : Bool) → List (List Char) → List (Outcome ThemedToken)
  | _, _, [] => []
  | state, firstLine, line :: rest =>
    match lineTokens engine g state firstLine line with
    | .error e => [.error e]
    | .ok (state, tokens) =>
      (shownTokens line tokens).map (theme.piece line) ++ theme.drafts engine g state false rest

/-- The color of what is laid out is one of the theme's. -/
theorem Theme.color_mem_of_drafts {theme : Theme} {engine : Regex.Engine} {g : CompiledGrammar}
    {s : State} {firstLine : Bool} {texts : List (List Char)} {piece : ThemedToken}
    (h : .ok piece ∈ theme.drafts engine g s firstLine texts) : piece.color ∈ theme.colors := by
  induction texts generalizing s firstLine with
  | nil => cases h
  | cons text rest ih =>
    unfold drafts at h
    split at h
    · cases List.mem_singleton.mp h
    · rcases List.mem_append.mp h with h | h
      · obtain ⟨t, _, ht⟩ := List.mem_map.mp h
        obtain ⟨style, hstyle, ht⟩ := bind_eq_ok.mp ht
        cases pure_eq_ok.mp ht
        obtain ⟨_, _, hresolve⟩ := bind_eq_ok.mp (mapError_eq_ok.mp hstyle)
        exact color_mem_of_resolve hresolve
      · exact ih h

/-! ## Pieces whose colors are numbered -/

/-- The piece, if its color can be numbered. -/
def numbered (piece : Outcome ThemedToken) : Outcome ThemedToken := do
  let piece ← piece
  if piece.color.isKey then return piece else throw (.misuse .notKey)

/-- The pieces of lines whose colors are numbered, those in front of the first fault. -/
def Theme.inked (theme : Theme) (engine : Regex.Engine) (g : CompiledGrammar) (s : State)
    (firstLine : Bool) (texts : List (List Char)) : List ThemedToken :=
  untilFault ((theme.drafts engine g s firstLine texts).map numbered)

theorem numbered_eq_ok {r : Outcome ThemedToken} {piece : ThemedToken} :
    numbered r = .ok piece ↔ r = .ok piece ∧ piece.color.isKey = true := by
  rw [numbered, bind_eq_ok]
  constructor
  · rintro ⟨piece', rfl, h⟩
    split at h
    · next hkey =>
      cases pure_eq_ok.mp h
      exact ⟨rfl, hkey⟩
    · exact absurd h throw_ne_ok
  · rintro ⟨rfl, hkey⟩
    exact ⟨piece, rfl, if_pos hkey⟩

theorem numbered_pure (piece : ThemedToken) :
    numbered (pure piece) = if piece.color.isKey then pure piece else throw (.misuse .notKey) :=
  rfl

/-- The color of a numbered piece is one of the theme's. -/
theorem Theme.color_mem_of_inked {theme : Theme} {engine : Regex.Engine} {g : CompiledGrammar}
    {s : State} {firstLine : Bool} {texts : List (List Char)} {piece : ThemedToken}
    (h : piece ∈ theme.inked engine g s firstLine texts) : piece.color ∈ theme.colors := by
  obtain ⟨r, hr, hnumbered⟩ := List.mem_map.mp (mem_of_mem_untilFault h)
  obtain ⟨rfl, _⟩ := numbered_eq_ok.mp hnumbered
  exact color_mem_of_drafts hr

theorem Theme.isKey_of_inked {theme : Theme} {engine : Regex.Engine} {g : CompiledGrammar}
    {s : State} {firstLine : Bool} {texts : List (List Char)} {piece : ThemedToken}
    (h : piece ∈ theme.inked engine g s firstLine texts) : piece.color.isKey = true := by
  obtain ⟨r, _, hnumbered⟩ := List.mem_map.mp (mem_of_mem_untilFault h)
  exact (numbered_eq_ok.mp hnumbered).2

/-- The palette follows the theme, and the colors that it numbers are those of the pieces, each at
its first occurrence. -/
structure Palette.Took (theme : Theme) (pieces : List ThemedToken) (palette : Palette) : Prop where
  follows : Painting.Follows theme palette
  colors : palette.colors.colors = (colorsOf pieces).eraseDups

namespace Palette.Took
variable {theme : Theme} {pieces more : List ThemedToken} {palette later : Palette}

theorem mem_colors (H : palette.Took theme pieces) {color : Json} :
    color ∈ palette.colors.colors ↔ color ≠ .null ∧ ∃ piece ∈ pieces, piece.color = color := by
  rw [H.colors, List.mem_eraseDups, mem_colorsOf]

/-- If the colors of the theme are texts, so are those that are numbered. -/
theorem texts (H : palette.Took theme pieces)
    (hcolors : ∀ color ∈ theme.colors, ∃ text, color = .str text)
    (hpieces : ∀ piece ∈ pieces, piece.color = .null ∨ piece.color ∈ theme.colors) :
    ∀ color ∈ palette.colors.colors, ∃ text, color = .str text := by
  intro color hmem
  obtain ⟨hnull, piece, hpiece, rfl⟩ := H.mem_colors.mp hmem
  exact hcolors _ ((hpieces piece hpiece).resolve_left hnull)

end Palette.Took

namespace Painting
variable {theme : Theme}

/-- On a palette that follows the theme, the painting has this outcome, and the palette numbers
these colors in order and goes on to follow the theme. -/
def Numbers (theme : Theme) (p : Painting α) (r : Outcome α) (colors : List Json) : Prop :=
  ∀ palette, Follows theme palette → (palette.run p).1 = r ∧ Follows theme (palette.run p).2 ∧
    (palette.run p).2.colors = colors.foldl ColorMap.insert palette.colors

section
variable {p : Painting α} {f : α → Painting β} {a : α} {r : Outcome β} {e : Fault}
  {colors more : List Json}

theorem numbers_lift (r : Outcome α) : Numbers theme (lift r) r [] :=
  fun _ hfollows => ⟨rfl, hfollows, rfl⟩

theorem numbers_pure (a : α) : Numbers theme (pure a) (.ok a) [] :=
  numbers_lift (.ok a)

namespace Numbers

theorem bind (H : Numbers theme p (.ok a) colors) (hf : Numbers theme (f a) r more) :
    Numbers theme (p >>= f) r (colors ++ more) := by
  intro palette hfollows
  obtain ⟨hr, hfollows', hcolors⟩ := H palette hfollows
  rw [run_bind_ok (Prod.ext hr rfl), List.foldl_append, ← hcolors]
  exact hf _ hfollows'

theorem bind_error (H : Numbers theme p (.error e) colors) :
    Numbers theme (p >>= f) (.error e) colors := by
  intro palette hfollows
  obtain ⟨hr, hlater⟩ := H palette hfollows
  rw [run_bind_error (Prod.ext hr rfl)]
  exact ⟨rfl, hlater⟩

/-- What is made of the value numbers no more. -/
theorem map (H : Numbers theme p (.ok a) colors) (q : α → β) :
    Numbers theme (p >>= fun a => pure (q a)) (.ok (q a)) colors := by
  rw [← List.append_nil colors]
  exact H.bind (numbers_pure (q a))

end Numbers

end

theorem style_numbers (scopes : List Json) :
    Numbers theme (style scopes) ((scopes.mapM Json.asKey >>= theme.resolve).mapError .misuse)
      [] := by
  intro palette hfollows
  obtain ⟨hr, hfollows'⟩ := style_outcome scopes palette hfollows
  refine ⟨hr, hfollows', ?_⟩
  rw [style_run]
  cases palette.styles.get scopes <;> rfl

theorem number_numbers {color : Json} (hkey : color.isKey = true) :
    Numbers theme (number color) (.ok ()) [color] := by
  intro palette hfollows
  have hadd : palette.colors.add color = .ok (palette.colors.insert color) := by
    rw [ColorMap.add, Json.asKey, if_pos hkey]
    rfl
  rw [number_run, hadd]
  exact ⟨rfl, hfollows, rfl⟩

theorem number_refuses {color : Json} (hkey : ¬ color.isKey = true) :
    Numbers theme (number color) (.error (.misuse .notKey)) [] := by
  intro palette hfollows
  have hadd : palette.colors.add color = .error .notKey := by
    rw [ColorMap.add, Json.asKey, if_neg hkey]
    rfl
  rw [number_run, hadd]
  exact ⟨rfl, hfollows, rfl⟩

theorem token_numbers (theme : Theme) (line : List Char) (t : RawToken) :
    Numbers theme (token line.toArray t) (numbered (theme.piece line t))
      ((untilFault [numbered (theme.piece line t)]).map (·.color)) := by
  have hstyle : Numbers theme (style t.scopes) _ [] := style_numbers t.scopes
  have hcontent : String.ofList (line.toArray.extract t.start t.stop).toList =
      String.ofList (t.text line) := by simp [RawToken.text]
  unfold token Theme.piece
  cases h : (t.scopes.mapM Json.asKey >>= theme.resolve).mapError Fault.misuse with
  | error e =>
    rw [h] at hstyle
    exact hstyle.bind_error
  | ok style =>
    rw [h] at hstyle
    simp only [hcontent, ok_bind, numbered_pure]
    split
    · next hkey => exact hstyle.bind ((number_numbers hkey).map _)
    · next hkey => exact hstyle.bind (number_refuses hkey).bind_error

theorem mapM_numbers (theme : Theme) (line : List Char) (tokens : List RawToken) :
    Numbers theme (tokens.mapM (token line.toArray)) (tokens.mapM (numbered <| theme.piece line ·))
      ((untilFault (tokens.map (numbered <| theme.piece line ·))).map (·.color)) := by
  induction tokens with
  | nil => exact numbers_pure []
  | cons t rest ih =>
    have htoken := token_numbers theme line t
    rw [List.mapM_cons, List.mapM_cons, List.map_cons]
    cases h : numbered (theme.piece line t) with
    | error e =>
      rw [h] at htoken
      exact htoken.bind_error
    | ok piece =>
      rw [h] at htoken
      refine htoken.bind ?_
      cases hrest : rest.mapM (numbered <| theme.piece line ·) with
      | error e =>
        rw [hrest] at ih
        exact ih.bind_error
      | ok pieces =>
        rw [hrest] at ih
        exact ih.map _

/-- The palette numbers the colors of the pieces in front of the first fault, and if there is none,
these are the pieces of the lines. -/
theorem lines_numbers (theme : Theme) (engine : Regex.Engine) (g : CompiledGrammar) (s : State)
    (firstLine : Bool) (texts : List (List Char)) :
    ∃ r, Numbers theme (lines engine g s firstLine texts) r
        ((theme.inked engine g s firstLine texts).map (·.color)) ∧
      ∀ pieces, r = .ok pieces → pieces.flatten = theme.inked engine g s firstLine texts := by
  induction texts generalizing s firstLine with
  | nil => exact ⟨.ok [], numbers_pure [], fun pieces h => by cases h; rfl⟩
  | cons text rest ih =>
    unfold lines Theme.inked Theme.drafts
    cases lineTokens engine g s firstLine text with
    | error e => exact ⟨.error e, (numbers_lift _).bind_error, fun pieces h => by cases h⟩
    | ok behind =>
      obtain ⟨s', tokens⟩ := behind
      obtain ⟨r, hrest, hpieces⟩ := ih s' false
      have hfirst : Numbers theme (line text tokens) _ _ :=
        mapM_numbers theme text (shownTokens text tokens)
      simp only [List.map_append, List.map_map]
      cases hr : (shownTokens text tokens).mapM (numbered <| theme.piece text ·) with
      | error e =>
        rw [hr] at hfirst
        rw [Function.comp_def, untilFault_of_mapM_error _ hr]
        exact ⟨.error e, (numbers_lift _).bind hfirst.bind_error, fun pieces h => by cases h⟩
      | ok first =>
        rw [hr, untilFault_map hr] at hfirst
        rw [Function.comp_def, untilFault_of_mapM _ hr, List.map_append]
        cases r with
        | error e =>
          refine ⟨.error e, (numbers_lift _).bind (hfirst.bind hrest.bind_error),
            fun pieces h => ?_⟩
          cases h
        | ok others =>
          refine ⟨.ok (first :: others), (numbers_lift _).bind (hfirst.bind (hrest.map _)),
            fun pieces h => ?_⟩
          cases h
          rw [List.flatten_cons, hpieces others rfl, Theme.inked]

end Painting

end Rubric
