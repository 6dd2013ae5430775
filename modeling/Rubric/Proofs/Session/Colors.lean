import Rubric.Proofs.Document.Coloring
import Rubric.Proofs.Session

/-!
# The colors that calls number

A call numbers the colors of the pieces that it lays out in front of the first fault, in order, and
a text without a language has none (`Highlighter.inks`). So whatever calls a session has had, its
map is made of these colors (`Session.after_colors`).
-/

namespace Rubric

namespace Highlighter
open Painting

/-- The pieces of a source text whose colors are numbered. -/
def inkedPieces (h : Highlighter) (code lang : String) : List ThemedToken :=
  if Language.isPlaintext lang then []
  else
    match h.grammarOf lang with
    | .ok g => h.theme.inked h.engine g g.start true (sourceLines code)
    | .error _ => []

/-- The colors that a call numbers, whether it fails or not. -/
def inks (h : Highlighter) (c : Session.Call) : List Json :=
  match c.code, c.lang with
  | .str code, .str lang => (h.inkedPieces code lang).map (·.color)
  | _, _ => []

variable {h : Highlighter} {piece : ThemedToken} {code lang : String}

theorem color_plainLines (hmem : piece ∈ (plainLines code).flatten) : piece.color = .null := by
  obtain ⟨line, hline, hpiece⟩ := List.mem_flatten.mp hmem
  obtain ⟨text, _, rfl⟩ := List.mem_map.mp hline
  split at hpiece
  · cases hpiece
  · cases List.mem_singleton.mp hpiece
    rfl

/-- A color that is numbered is one of the theme's. -/
theorem mem_colors_of_inks {c : Session.Call} {color : Json} (hmem : color ∈ h.inks c) :
    color ∈ h.theme.colors := by
  unfold inks at hmem
  split at hmem
  · obtain ⟨piece, hpiece, rfl⟩ := List.mem_map.mp hmem
    unfold inkedPieces at hpiece
    split at hpiece
    · cases hpiece
    · split at hpiece
      · exact Theme.color_mem_of_inked hpiece
      · cases hpiece
  · cases hmem

/-- A color that is numbered is a key. -/
theorem isKey_inkedPieces (hmem : piece ∈ h.inkedPieces code lang) : piece.color.isKey = true := by
  unfold inkedPieces at hmem
  split at hmem
  · cases hmem
  · split at hmem
    · exact Theme.isKey_of_inked hmem
    · cases hmem

theorem tokens_numbers (h : Highlighter) (code : String)
    (hlang : Language.isPlaintext lang = false) :
    ∃ r, Numbers h.theme (h.tokens code lang) r ((h.inkedPieces code lang).map (·.color)) ∧
      ∀ lines, r = .ok lines → lines.flatten = h.inkedPieces code lang := by
  simp only [tokens, inkedPieces, hlang, Bool.false_eq_true, if_false]
  cases h.grammarOf lang with
  | error e => exact ⟨.error e, (numbers_lift _).bind_error, fun lines hr => by cases hr⟩
  | ok g =>
    obtain ⟨r, hnumbers, hlines⟩ :=
      Painting.lines_numbers h.theme h.engine g g.start true (sourceLines code)
    exact ⟨r, (numbers_lift _).bind hnumbers, hlines⟩

/-- The pieces of the lines are numbered, those in front of the first fault. -/
theorem lines_numbers (h : Highlighter) (code lang : String) :
    ∃ r, Numbers h.theme (h.lines code lang) r ((h.inkedPieces code lang).map (·.color)) ∧
      ∀ lines, r = .ok lines → Language.isPlaintext lang = false →
        lines.flatten = h.inkedPieces code lang := by
  cases hlang : Language.isPlaintext lang with
  | false =>
    obtain ⟨r, hnumbers, hlines⟩ := tokens_numbers h code hlang
    refine ⟨r, ?_, fun lines hr _ => hlines lines hr⟩
    simp only [lines, hlang, Bool.false_eq_true, if_false]
    exact hnumbers
  | true =>
    simp only [lines, inkedPieces, hlang, if_true]
    exact ⟨.ok (plainLines code), numbers_pure _, fun _ _ h => absurd h.symm Bool.false_ne_true⟩

end Highlighter

namespace Session
variable {s : Session}

section
variable (hs : s.Sound) (hfollows : Painting.Follows s.highlighter.theme s.palette)
include hs hfollows

theorem lines_colors (code lang : String) :
    Painting.Follows s.highlighter.theme (s.lines code lang).2.palette ∧
      (s.lines code lang).2.palette.colors =
        ((s.highlighter.inkedPieces code lang).map (·.color)).foldl ColorMap.insert
          s.palette.colors ∧
      ∀ lines, (s.lines code lang).1 = .ok lines → Language.isPlaintext lang = false →
        lines.flatten = s.highlighter.inkedPieces code lang := by
  obtain ⟨r, hnumbers, hlines⟩ := s.highlighter.lines_numbers code lang
  obtain ⟨hr, hlater, hcolors⟩ := hnumbers s.palette hfollows
  have hanswers := lines_answers hs code lang
  rw [hanswers.palette, hanswers.outcome, hr]
  exact ⟨hlater, hcolors, hlines⟩

/-- The pieces of lines that are there have colors that are keys. -/
theorem isKey_lines {code lang : String} {lines : List ThemedLine}
    (hlines : (s.lines code lang).1 = .ok lines) :
    ∀ piece ∈ lines.flatten, piece.color.isKey = true := by
  intro piece hpiece
  cases hlang : Language.isPlaintext lang with
  | true =>
    rw [Session.lines, hlang, if_pos rfl] at hlines
    cases hlines
    rw [Highlighter.color_plainLines hpiece]
    rfl
  | false =>
    rw [(lines_colors hs hfollows code lang).2.2 lines hlines hlang] at hpiece
    exact Highlighter.isKey_inkedPieces hpiece

/-- A call numbers the colors of its pieces. -/
theorem call_colors (c : Call) :
    Painting.Follows s.highlighter.theme (s.call c.request c.code c.lang).2.palette ∧
      (s.call c.request c.code c.lang).2.palette.colors =
        (s.highlighter.inks c).foldl ColorMap.insert s.palette.colors := by
  obtain ⟨request, code, lang⟩ := c
  cases code with
  | str code =>
    cases lang with
    | str lang =>
      obtain ⟨hlater, hcolors, _⟩ := lines_colors hs hfollows code lang
      cases request with
      | html => exact ⟨hlater, hcolors⟩
      | svg => exact ⟨hlater, hcolors⟩
      | tokens =>
        simp only [call, Highlighter.inks]
        cases hlang : Language.isPlaintext lang with
        | true =>
          have htokens : s.tokens code lang = (.error (.plaintext lang), s) := by
            rw [tokens, hlang, if_pos rfl]
          have hnone : s.highlighter.inkedPieces code lang = [] := by
            rw [Highlighter.inkedPieces, hlang, if_pos rfl]
          rw [reply, htokens, hnone]
          exact ⟨hfollows, rfl⟩
        | false =>
          have htokens : s.tokens code lang = s.lines code lang := by
            rw [lines, hlang, if_neg Bool.false_ne_true]
          rw [reply, htokens]
          exact ⟨hlater, hcolors⟩
    | _ => exact ⟨hfollows, rfl⟩
  | _ => exact ⟨hfollows, rfl⟩

/-- After calls the map has the colors that all of them have numbered. -/
theorem after_colors (calls : List Call) :
    Painting.Follows s.highlighter.theme (s.after calls).palette ∧
      (s.after calls).palette.colors =
        (calls.flatMap s.highlighter.inks).foldl ColorMap.insert s.palette.colors := by
  induction calls generalizing s with
  | nil => exact ⟨hfollows, rfl⟩
  | cons c rest ih =>
    have hanswers := call_answers hs c.request c.code c.lang
    obtain ⟨hlater, hcolors⟩ := call_colors hs hfollows c
    rw [← hanswers.highlighter] at hlater
    obtain ⟨hlast, hall⟩ := ih hanswers.sound hlater
    rw [hanswers.highlighter] at hlast hall
    rw [List.flatMap_cons, List.foldl_append, ← hcolors]
    exact ⟨hlast, hall⟩

end

end Session

end Rubric
