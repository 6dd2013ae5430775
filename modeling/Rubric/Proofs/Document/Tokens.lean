import Mathlib.Data.List.Forall2
import Rubric.Proofs.Bundle.Steady

/-!
# The tokens of a document

Line by line the tokens of a document are the document, if the matches that are used are sound
(`regions_tile`). Under a steady grammar there always are tokens, and the matches are sound.
-/

namespace Rubric

/-- Highlighting the lines of a document, from a state on and with captures nested up to a depth,
uses a match. -/
inductive DocumentUses (engine : Regex.Engine) (g : CompiledGrammar) (depth : Nat) :
    State → (firstLine : Bool) → List (List Char) → Use → Prop
  | here : UsesWithin engine g.grammar depth (line ++ ['\n']).toArray s firstLine u →
    DocumentUses engine g depth s firstLine (line :: rest) u
  | later :
    highlightWithin engine g.grammar depth (line ++ ['\n']).toArray s firstLine =
      .ok (s', regions) →
    DocumentUses engine g depth s' false rest u →
    DocumentUses engine g depth s firstLine (line :: rest) u

theorem linesTokensWithin_spell {engine : Regex.Engine} {g : CompiledGrammar} {depth : Nat}
    {s : State} {firstLine : Bool} {lines : List (List Char)} {tokens : List (List RawToken)}
    (hu : ∀ u, DocumentUses engine g depth s firstLine lines u → u.Sound)
    (h : linesTokensWithin engine g depth s firstLine lines = .ok tokens) :
    List.Forall₂ Spell lines tokens := by
  induction lines generalizing s firstLine tokens with
  | nil => cases h; exact .nil
  | cons line rest ih =>
    obtain ⟨⟨s', ts⟩, hline, h⟩ := bind_eq_ok.mp h
    obtain ⟨more, hrest, h⟩ := bind_eq_ok.mp h
    obtain ⟨⟨s₁, regions⟩, hhigh, hline⟩ := bind_eq_ok.mp hline
    cases pure_eq_ok.mp hline
    cases pure_eq_ok.mp h
    have H := highlightWithin_tiles (fun u hu' => hu u (.here hu')) hhigh
    have hlen : line.length ≤ (line ++ ['\n']).toArray.size := by simp
    refine .cons ⟨fun t ht => lt_of_mem_tokensOfRegions H ht, ?_⟩
      (ih (fun u hu' => hu u (.later hhigh hu')) hrest)
    rw [flatMap_text_tokensOfRegions H hlen, List.drop_zero]

/-! ## Steady grammars -/

theorem documentUses_sound {engine : Regex.Engine} {g : CompiledGrammar} {s : State}
    {firstLine : Bool} {lines : List (List Char)} {u : Use} (hg : g.grammar.Steady engine)
    (hs : s.Steady engine g.grammar) (H : DocumentUses engine g captureDepth s firstLine lines u) :
    u.Sound := by
  induction H with
  | here h => exact uses_sound hg hs h
  | @later line s firstLine s' regions rest u h _ ih =>
    obtain ⟨_, _, h', hs'⟩ :=
      LineContext.highlight_total (line ++ ['\n']).toArray firstLine 158 hg hs
    cases h.symm.trans h'
    exact ih hs'

theorem linesTokens_total {engine : Regex.Engine} {g : CompiledGrammar} {s : State}
    (firstLine : Bool) (lines : List (List Char)) (hg : g.grammar.Steady engine)
    (hs : s.Steady engine g.grammar) :
    ∃ tokens, linesTokens engine g s firstLine lines = .ok tokens := by
  induction lines generalizing s firstLine with
  | nil => exact ⟨[], rfl⟩
  | cons line rest ih =>
    obtain ⟨s', first, hline, hs', _⟩ := lineTokens_total firstLine line hg hs
    obtain ⟨others, hrest⟩ := ih false hs'
    exact ⟨first :: others, bind_eq_ok.mpr ⟨_, hline, bind_eq_ok.mpr ⟨_, hrest, rfl⟩⟩⟩

/-! ## Every grammar -/

/-- **The regions of a line tile it.** Whatever the engine, the grammar, the state, the line and the
depth up to which captures are nested: if the line can be highlighted and each match that is used is
sound, then the regions cover the line from its start to its end, each beginning where the one
before it ends; so there is none exactly if the line is empty. The tokens of a document are its
lines, and none of them is empty. -/
theorem regions_tile (engine : Regex.Engine) (g : CompiledGrammar) (depth : Nat) :
    (∀ s (line : List Char) firstLine s' regions,
      highlightWithin engine g.grammar depth line.toArray s firstLine = .ok (s', regions) →
      (∀ u, UsesWithin engine g.grammar depth line.toArray s firstLine u → u.Sound) →
      Tiles 0 line.length regions ∧ (regions = [] ↔ line = [])) ∧
    ∀ code tokens, rawTokensWithin engine g depth code = .ok tokens →
      (∀ u, DocumentUses engine g depth g.start true (sourceLines code) u → u.Sound) →
      List.Forall₂ Spell (sourceLines code) tokens := by
  refine ⟨fun s line firstLine s' regions h hu => ?_, fun code tokens h hu =>
    linesTokensWithin_spell hu h⟩
  have H := highlightWithin_tiles hu h
  rw [List.size_toArray] at H
  refine ⟨H, H.eq_nil_iff.trans ?_⟩
  rw [eq_comm, List.length_eq_zero_iff]

/-- The grammar of JSON documents is steady, so its matches are sound. -/
theorem regions_tile_json : ∃ g, CompiledGrammar.ofGrammar Bundle.json = .ok g ∧
    (∃ s' regions,
      g.highlight .standard g.start "\x7b\"a\": [1, 2] \x7d\n".toList true = .ok (s', regions) ∧
        Tiles 0 15 regions) ∧
    ∃ tokens, rawTokens .standard g "\x7b\"a\":\n[]\x7d" = .ok tokens ∧
      List.Forall₂ Spell ["\x7b\"a\":".toList, "[]\x7d".toList] tokens := by
  have hsteady := Bundle.json_steady Regex.Engine.standard_sound
  obtain ⟨g, hg, hgrammar⟩ := hsteady.ofGrammar_total
  have hs : g.start.Steady .standard g.grammar := by
    rw [hgrammar]
    exact CompiledGrammar.start_steady hg
  rw [← hgrammar] at hsteady
  obtain ⟨s', regions, hline, _⟩ := LineContext.highlight_total
    "\x7b\"a\": [1, 2] \x7d\n".toList.toArray true 158 hsteady hs
  obtain ⟨tokens, htokens⟩ :=
    linesTokens_total true (sourceLines "\x7b\"a\":\n[]\x7d") hsteady hs
  have H := regions_tile .standard g captureDepth
  refine ⟨g, hg, ⟨s', regions, hline, ?_⟩, tokens, htokens, ?_⟩
  · exact (H.1 _ _ _ _ _ hline fun u hu => uses_sound hsteady hs hu).1
  · exact H.2 _ _ htokens fun u hu => documentUses_sound hsteady hs hu

end Rubric
