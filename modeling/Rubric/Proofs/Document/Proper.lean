import Rubric.Proofs.Document.Painting
import Rubric.Proofs.Line.Proper

/-!
# Documents with overlapping regions

Groups in look-arounds can make the regions of a line overlap, so that its tokens are not the line
(`regions_tile` asks for sound matches). They are proper all the same: at each state that lines lead
to, no region is empty, none reaches out of the line, and all are under the name of the grammar
(`regions_proper`).
-/

namespace Rubric

/-- The tokens lie in the line and are not empty, and each of them gets a piece of its own: painting
the line leaves none of them out. -/
structure ProperTokens (line : List Char) (tokens : List RawToken) : Prop where
  inside : ∀ t ∈ tokens, t.start < t.stop ∧ t.stop ≤ line.length
  painted : Painting.line line tokens = tokens.mapM (Painting.token line.toArray)

variable {engine : Regex.Engine} {g : CompiledGrammar} {depth : Nat} {s : State}

/-- Cutting off the newline leaves no region empty. -/
theorem tokensOfRegions_proper {size : Nat} {line : List Char} {regions : List Region}
    (H : Proper size regions) : ProperTokens line (tokensOfRegions line regions) := by
  have hinside : ∀ t ∈ tokensOfRegions line regions, t.start < t.stop ∧ t.stop ≤ line.length := by
    intro t ht
    obtain ⟨r, hr, rfl⟩ := List.mem_map.mp ht
    obtain ⟨hmem, hlt⟩ := List.mem_filter.mp hr
    exact ⟨Nat.lt_min.mpr ⟨(H r hmem).1, of_decide_eq_true hlt⟩, Nat.min_le_right ..⟩
  refine ⟨hinside, ?_⟩
  rw [Painting.line, List.filter_eq_self.mpr]
  intro t ht
  obtain ⟨hlt, hle⟩ := hinside t ht
  exact decide_eq_true (by omega)

theorem lineTokensWithin_proper {s' : State} {firstLine : Bool} {line : List Char}
    {tokens : List RawToken} (hE : engine.KeepsInside)
    (h : lineTokensWithin engine g depth s firstLine line = .ok (s', tokens)) :
    ProperTokens line tokens := by
  obtain ⟨⟨_, regions⟩, hhigh, h⟩ := bind_eq_ok.mp h
  cases pure_eq_ok.mp h
  exact tokensOfRegions_proper (highlightWithin_proper hE hhigh)

theorem linesTokensWithin_proper {firstLine : Bool} {lines : List (List Char)}
    {tokens : List (List RawToken)} (hE : engine.KeepsInside)
    (h : linesTokensWithin engine g depth s firstLine lines = .ok tokens) :
    List.Forall₂ ProperTokens lines tokens := by
  induction lines generalizing s firstLine tokens with
  | nil =>
    cases h
    exact .nil
  | cons line rest ih =>
    obtain ⟨_, hline, h⟩ := bind_eq_ok.mp h
    obtain ⟨_, hrest, h⟩ := bind_eq_ok.mp h
    cases pure_eq_ok.mp h
    exact .cons (lineTokensWithin_proper hE hline) (ih hrest)

/-- The scopes of all states that lines lead to are under the name of the grammar. -/
theorem CompiledGrammar.Reaches.under {grammar : Grammar} (hg : ofGrammar grammar = .ok g)
    (hs : g.Reaches engine depth s) : s.Under grammar.scopeName := by
  induction hs with
  | start =>
    obtain ⟨_, inner, _, hroot⟩ := ofGrammar_ok hg
    intro e he
    simp only [CompiledGrammar.start, CompiledRule.start, hroot, List.mem_singleton] at he
    cases he
    exact ⟨⟨[], rfl⟩, by simp⟩
  | line _ h ih => exact (highlightWithin_under ih h).1

/-- **Regions and tokens are proper.** Whatever the grammar and the depth up to which captures are
nested, if the matches and groups of the engine keep inside of the text: at each state that lines
lead to, from the start of a document on, the regions of a further line are not empty, lie in the
line, and have scopes that begin with the name of the grammar. So no token is empty, and each gets a
piece of its own. -/
theorem regions_proper {grammar : Grammar} (hE : engine.KeepsInside)
    (hg : CompiledGrammar.ofGrammar grammar = .ok g) (depth : Nat) :
    (∀ s, g.Reaches engine depth s → ∀ (line : List Char) firstLine,
      (∀ s' regions,
        highlightWithin engine g.grammar depth line.toArray s firstLine = .ok (s', regions) →
        ∀ r ∈ regions, r.start < r.stop ∧ r.stop ≤ line.length ∧
          Under grammar.scopeName r.scope) ∧
      ∀ s' tokens, lineTokensWithin engine g depth s firstLine line = .ok (s', tokens) →
        ProperTokens line tokens) ∧
    ∀ code tokens, rawTokensWithin engine g depth code = .ok tokens →
      List.Forall₂ ProperTokens (sourceLines code) tokens := by
  refine ⟨fun s hs line firstLine => ⟨fun s' regions h r hr => ?_, fun _ _ =>
    lineTokensWithin_proper hE⟩, fun _ _ => linesTokensWithin_proper hE⟩
  obtain ⟨hlt, hle⟩ := highlightWithin_proper hE h r hr
  exact ⟨hlt, hle, (highlightWithin_under (hs.under hg) h).2 r hr⟩

/-- A grammar that names a group behind the end of its match. -/
def lookingGrammar : Grammar where
  scopeName := .str "text.looking"
  patterns :=
    [{ single := some (.str "a(?=(b))")
       captures := [(1, { scopes := ["markup.ahead.looking"] })] }]
  repository := []

/-- The region of the group and what is left of the line overlap, and both are proper. -/
theorem regions_proper_looking : ∃ g s' regions tokens,
    CompiledGrammar.ofGrammar lookingGrammar = .ok g ∧
    g.highlight .standard g.start "ab\n".toList true = .ok (s', regions) ∧
    regions.map (fun r => (r.start, r.stop)) = [(0, 1), (1, 2), (1, 3)] ∧
    (∀ r ∈ regions, r.start < r.stop ∧ r.stop ≤ "ab\n".toList.length ∧
      Under (.str "text.looking") r.scope) ∧
    rawTokens .standard g "ab" = .ok tokens ∧
    List.Forall₂ ProperTokens (sourceLines "ab") tokens := by
  have hrun : (do
      let g ← CompiledGrammar.ofGrammar lookingGrammar
      let behind ← g.highlight .standard g.start "ab\n".toList true
      let _ ← rawTokens .standard g "ab"
      return behind.2.map fun r => (r.start, r.stop) :
        Outcome (List (Nat × Nat))).toOption = some [(0, 1), (1, 2), (1, 3)] := by
    decide +kernel
  obtain ⟨g, hg, hrun⟩ := bind_eq_ok.mp (toOption_eq_some.mp hrun)
  obtain ⟨⟨s', regions⟩, hline, hrun⟩ := bind_eq_ok.mp hrun
  obtain ⟨tokens, htokens, hrun⟩ := bind_eq_ok.mp hrun
  have H := regions_proper Regex.Engine.standard_keepsInside hg captureDepth
  exact ⟨g, s', regions, tokens, hg, hline, pure_eq_ok.mp hrun,
    (H.1 _ .start _ _).1 _ _ hline, htokens, H.2 _ _ htokens⟩

end Rubric
