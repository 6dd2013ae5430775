import Rubric.Highlighter
import Rubric.Proofs.Bundle.Steady
import Rubric.Proofs.Grammar.Loading
import Rubric.Proofs.Json.Members
import Rubric.Proofs.Line.Scopes

/-!
# Loading the languages that come with the library

Whatever is loaded under names of these languages is one of the bundled grammars, ready for use
(`Highlighter.create_bundled`). With a sound engine they all load, so a highlighter that is not told
any languages knows all of their names (`Highlighter.create_default`).
-/

namespace Rubric

/-- The grammar comes with the library, and is ready for use. -/
def CompiledGrammar.Bundled (g : CompiledGrammar) : Prop :=
  ∃ grammar ∈ Language.bundledGrammars.map (·.2), CompiledGrammar.ofGrammar grammar = .ok g

/-! ## The bundled grammars -/

namespace Bundle
variable {engine : Regex.Engine}

theorem scopeName {grammar : Grammar} (h : grammar ∈ Language.bundledGrammars.map (·.2)) :
    ∃ name, grammar.scopeName = .str name := by
  simp only [Language.bundledGrammars, List.map_cons, List.map_nil, List.mem_cons, List.not_mem_nil,
    or_false] at h
  rcases h with rfl | rfl | rfl | rfl <;> exact ⟨_, rfl⟩

theorem tidy : ∀ grammar ∈ Language.bundledGrammars.map (·.2), ∀ rule ∈ grammar.rules,
    rule.isTidy = true := by
  decide +kernel

theorem endsReferring_of_isQuoted {rule : Rule} (h : isQuoted rule = true) :
    rule.endsReferring = true := by
  have hrefers : Pattern.refers tripleClosing.toList = true ∧
      Pattern.refers quoteClosing.toList = true := by decide +kernel
  unfold isQuoted at h
  split at h
  · next opening closing _ hclosing =>
    simp only [Bool.and_eq_true, Bool.or_eq_true, beq_iff_eq] at h
    simp only [Rule.endsReferring, hclosing]
    rcases h.2 with rfl | rfl
    · exact hrefers.1
    · exact hrefers.2
  · cases h

/-- The bundled grammars pass the check of their patterns. -/
theorem check {grammar : Grammar} (hE : engine.Sound)
    (h : grammar ∈ Language.bundledGrammars.map (·.2)) (scope : String) :
    grammar.check engine scope = .ok () := by
  obtain ⟨_, hrules⟩ := checks grammar h
  exact Grammar.check_of_checks hE (fun rule hr => (hrules rule hr).1)
    (fun rule hr => (hrules rule hr).2.imp_right endsReferring_of_isQuoted) (tidy grammar h) scope

end Bundle

namespace CompiledGrammar.Bundled
variable {engine : Regex.Engine} {g : CompiledGrammar}

theorem steady (hE : engine.Sound) (H : g.Bundled) :
    g.grammar.Steady engine ∧ g.start.Steady engine g.grammar := by
  obtain ⟨grammar, hmem, hg⟩ := H
  obtain ⟨rfl, _⟩ := ofGrammar_ok hg
  exact ⟨Bundle.steady hE hmem, start_steady hg⟩

theorem under (H : g.Bundled) : ∃ name, g.start.Under (.str name) := by
  obtain ⟨grammar, hmem, hg⟩ := H
  obtain ⟨name, hname⟩ := Bundle.scopeName hmem
  obtain ⟨_, inner, _, hroot⟩ := ofGrammar_ok hg
  refine ⟨name, fun e he => ?_⟩
  cases List.mem_singleton.mp he
  refine ⟨⟨[], ?_⟩, fun h => absurd rfl h⟩
  rw [CompiledGrammar.start, hroot, hname]
  rfl

end CompiledGrammar.Bundled

/-! ## The registry -/

namespace Registry
variable {engine : Regex.Engine} {files : Files} {langs : List Language} {lang : Language}
  {stack : CallStack} {scope : String} {g : CompiledGrammar}

theorem load_ok {r : Registry} (h : r.load engine files scope = .ok g) :
    ∃ lang grammar, Json.member? r.languages scope = some lang ∧
      readLanguage r.stack files lang = .ok grammar ∧
        CompiledGrammar.ofGrammar grammar = .ok g := by
  obtain ⟨grammar, hread, hg⟩ := bind_eq_ok.mp h
  obtain ⟨_, _, hg⟩ := bind_eq_ok.mp hg
  unfold readGrammar at hread
  split at hread
  · exact absurd hread throw_ne_ok
  · next lang hlang =>
    obtain ⟨grammar', hgrammar, hread⟩ := bind_eq_ok.mp hread
    split at hread
    · obtain ⟨_, _, hread⟩ := bind_eq_ok.mp hread
      exact absurd hread throw_ne_ok
    · obtain ⟨_, _, hread⟩ := bind_eq_ok.mp hread
      cases pure_eq_ok.mp hread
      exact ⟨lang, grammar, hlang, hgrammar, hg⟩

theorem load_total {r : Registry} (grammar : Grammar) (hE : engine.Sound)
    (hroom : r.stack.holds (.expansion grammar) = true)
    (hlang : Json.member? r.languages scope = some lang)
    (hread : readLanguage r.stack files lang = .ok grammar)
    (hname : grammar.scopeName.same (.str scope) = true)
    (hmem : grammar ∈ Language.bundledGrammars.map (·.2)) :
    ∃ g, r.load engine files scope = .ok g := by
  obtain ⟨g, hg, _⟩ := (Bundle.steady hE hmem).ofGrammar_total
  refine ⟨g, bind_eq_ok.mpr ⟨grammar, ?_, ?_⟩⟩
  case refine_2 => rwa [CallStack.hold, if_pos hroom, ok_bind]
  simp only [readGrammar, hlang, hread, ok_bind, hname, Bool.not_true, Bool.false_eq_true, if_false,
    Bundle.check hE hmem]
  rfl

/-- With a sound engine all languages that come with the library load. -/
theorem load_all (hE : engine.Sound) (hmem : lang ∈ Language.all) :
    ∃ g, (ofLanguages Language.all).load engine files lang.scopeName = .ok g := by
  simp only [Language.all, List.mem_cons, List.not_mem_nil, or_false] at hmem
  rcases hmem with rfl | rfl | rfl | rfl
  · exact load_total Bundle.diff hE rfl rfl rfl rfl (by simp [Language.bundledGrammars])
  · exact load_total Bundle.ini hE rfl rfl rfl rfl (by simp [Language.bundledGrammars])
  · exact load_total Bundle.json hE rfl rfl rfl rfl (by simp [Language.bundledGrammars])
  · exact load_total Bundle.python hE rfl rfl rfl rfl (by simp [Language.bundledGrammars])

end Registry

end Rubric
