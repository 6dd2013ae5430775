import Rubric.Grammar.Compiled
import Rubric.Proofs.Outcome

/-!
# What rules are made into

A rule that can be made ready is no reference, and the patterns that it has say what it is made into
(`CompiledRule.Of`).
-/

namespace Rubric

/-- What a rule is made into, by the patterns that it has. -/
inductive CompiledRule.Of (g : Grammar) (rule : Rule) : CompiledRule → Prop
  | single : rule.reference = none → rule.single ≠ none → Of g rule (.single rule)
  | block : rule.reference = none → rule.single = none → rule.opening ≠ none →
    rule.continuing = some continuing → g.expand rule.children = .ok cs →
    Of g rule (.block rule continuing cs.pairs)
  | span : rule.reference = none → rule.single = none → rule.opening ≠ none →
    rule.continuing = none → g.expand rule.children = .ok cs →
    Of g rule (.span rule (rule.closing.getD (.str neverClosing)) cs.pairs)
  | group : rule.reference = none → rule.single = none → rule.opening = none →
    g.expand rule.children = .ok cs → Of g rule (.group rule cs.pairs)

namespace Grammar
variable {g : Grammar} {rule : Rule} {compiled : CompiledRule}

theorem of_compileRule (h : g.compileRule rule = .ok compiled) : compiled.Of g rule := by
  unfold compileRule at h
  split at h
  · cases h
  · next href hsingle =>
    cases h
    exact .single href (by simp [hsingle])
  · next href hsingle hopening hcontinuing =>
    obtain ⟨inner, hinner, h⟩ := bind_eq_ok.mp h
    cases pure_eq_ok.mp h
    exact .block href hsingle (by simp [hopening]) hcontinuing hinner
  · next href hsingle hopening hcontinuing =>
    obtain ⟨inner, hinner, h⟩ := bind_eq_ok.mp h
    cases pure_eq_ok.mp h
    exact .span href hsingle (by simp [hopening]) hcontinuing hinner
  · next href hsingle hopening =>
    obtain ⟨inner, hinner, h⟩ := bind_eq_ok.mp h
    cases pure_eq_ok.mp h
    exact .group href hsingle hopening hinner

theorem reference_of_compileRule (h : g.compileRule rule = .ok compiled) :
    rule.reference = none := by
  cases of_compileRule h <;> assumption

/-- A rule that was made ready comes from the rule itself. -/
theorem source?_compileRule (h : g.compileRule rule = .ok compiled) :
    compiled.source? = some rule := by
  cases of_compileRule h <;> rfl

/-- The candidates of a rule that was made ready are those that its children stand for. -/
theorem inner_of_compileRule (h : g.compileRule rule = .ok compiled) :
    compiled.inner = [] ∨
      ∃ cs, g.expand rule.children = .ok cs ∧ compiled.inner = cs.pairs := by
  cases of_compileRule h with
  | single => exact .inl rfl
  | block _ _ _ _ hinner | span _ _ _ _ hinner | group _ _ _ hinner => exact .inr ⟨_, hinner, rfl⟩

end Grammar

end Rubric
