import Rubric.Proofs.Line.Engines
import Rubric.Proofs.Registry.Faults

/-!
# The check of the patterns covers the engine

What loading a grammar checks is all that highlighting can hand to the engine, apart from what is
made at the time (`Registry.handed_patterns_checked`).
-/

namespace Rubric.Registry

variable {engine : Regex.Engine} {files : Files} {r : Registry} {scope : String}
  {g : CompiledGrammar}

/-- A grammar that loads was read, and its patterns are taken. -/
theorem reads_of_load (h : r.load engine files scope = .ok g) :
    ∃ grammar, r.Reads files scope grammar ∧ CompiledGrammar.ofGrammar grammar = .ok g ∧
      ∀ p ∈ grammar.checked, engine.Takes p := by
  by_cases hread : ∃ grammar, r.Reads files scope grammar
  case neg =>
    obtain ⟨e, he, _⟩ := load_error engine hread
    cases h.symm.trans he
  obtain ⟨grammar, hread⟩ := hread
  rcases load_of_reads engine hread with ⟨hall, hload⟩ | ⟨_, _, _, _, _, _, _, hload, _⟩
  · obtain ⟨_, _, hg⟩ := bind_eq_ok.mp (hload.symm.trans h)
    exact ⟨grammar, hread, hg, hall⟩
  · cases h.symm.trans hload

/-- **The check covers the engine.** With captures nested up to any depth, each pattern that
highlighting hands to the engine is one that was checked when the grammar was loaded, and the engine
takes those; or it is a closing or continuing pattern with its references replaced, or the pattern
in the place of a closing one. Nothing else is asked of the engine: with any other that reads these
patterns alike, all lines come out alike. -/
theorem handed_patterns_checked (h : r.load engine files scope = .ok g) (depth : Nat) :
    (∀ p, g.Hands engine depth p → g.grammar.Admits p) ∧
    (∀ p ∈ g.grammar.checked, engine.Takes p) ∧
    ∀ other, (∀ p, g.Hands engine depth p → engine.Agrees other p) →
      ∀ s, g.Reaches engine depth s → ∀ (line : List Char) firstLine,
        highlightWithin other g.grammar depth line.toArray s firstLine =
          highlightWithin engine g.grammar depth line.toArray s firstLine := by
  obtain ⟨grammar, _, hg, hall⟩ := reads_of_load h
  obtain ⟨rfl, _⟩ := CompiledGrammar.ofGrammar_ok hg
  exact ⟨fun p hp => hp.admitted hg, hall,
    fun other hother s hs => CompiledGrammar.highlight_congr hother hs⟩

/-- A text in quotes of either kind ends with a quote of its own kind: the pattern for it is made
when the text begins. -/
theorem handed_patterns_checked_quotes :
    ∃ g, (ofRule (.obj [("begin", .str "([\"'])"), ("end", .str "\\1")])).load .standard []
        "text.rule" = .ok g ∧
      g.Hands .standard captureDepth (.str "'") ∧ g.grammar.Admits (.str "'") := by
  have hrun : (do
      let g ← (ofRule (.obj [("begin", .str "([\"'])"), ("end", .str "\\1")])).load .standard []
        "text.rule"
      let c := g.context .standard captureDepth "'a'\n".toList true
      match ← c.choose g.start 0 none with
      | some (.candidate rule m) => do
        let compiled ← c.grammar.compileRule rule
        let entered ← c.enter g.start none m compiled
        return (compiled.ending?.isSome, entered.1.current.ending)
      | some (.closing _ _) => return (false, none)
      | none => return (false, none) : Outcome (Bool × Option (List Char))).toOption =
        some (true, some ['\'']) := by
    decide +kernel
  obtain ⟨g, hg, hrun⟩ := bind_eq_ok.mp (toOption_eq_some.mp hrun)
  obtain ⟨choice, hchoose, hrun⟩ := bind_eq_ok.mp hrun
  split at hrun
  case h_2 | h_3 => cases hrun
  case h_1 rule m =>
    obtain ⟨compiled, hc, hrun⟩ := bind_eq_ok.mp hrun
    obtain ⟨entered, henter, hrun⟩ := bind_eq_ok.mp hrun
    obtain ⟨hsome, hending⟩ := Prod.mk.inj (pure_eq_ok.mp hrun)
    obtain ⟨ending, hhas⟩ := Option.isSome_iff_exists.mp hsome
    have hpasses : (g.context .standard captureDepth "'a'\n".toList true).Passes g.start
        [(Place.start g.start).state.key] (.start g.start) := .start rfl
    have hhands : g.Hands .standard captureDepth (.str "'") :=
      .line .start (.opened hpasses (.mk hchoose hc hhas henter) hending)
    exact ⟨g, hg, hhands, (handed_patterns_checked hg captureDepth).1 _ hhands⟩

end Rubric.Registry
