import Rubric.Grammar.Expand

/-! Rules made ready for use: which kind of rule it is, and which patterns stand inside. -/

namespace Rubric

/-- Names of scopes, outermost first. The outermost is the scope name of the grammar. -/
abbrev Scope := List Json

/-- A rule with the candidates for its content. -/
inductive CompiledRule where
  /-- the grammar itself -/
  | root (scopeName : Json) (inner : List Candidate)
  /-- a rule without a pattern -/
  | group (rule : Rule) (inner : List Candidate)
  /-- a rule that matches once -/
  | single (rule : Rule)
  /-- a rule whose content runs up to a match of `closing` -/
  | span (rule : Rule) (closing : Json) (inner : List Candidate)
  /-- a rule whose content goes on as long as each line begins with a match of `continuing` -/
  | block (rule : Rule) (continuing : Json) (inner : List Candidate)
deriving Repr

namespace CompiledRule

/-- The rule of the grammar that was compiled. -/
def source? : CompiledRule → Option Rule
  | root _ _ => none
  | group rule _ | single rule | span rule _ _ | block rule _ _ => some rule

/-- The scopes of all that the rule matches. -/
def scopes : CompiledRule → Scope
  | root scopeName _ => [scopeName]
  | group rule _ | single rule | span rule _ _ | block rule _ _ => rule.scopes.map .str

/-- The captures of a match that the rule begins with. -/
def openingCaptures : CompiledRule → List (Int × Rule)
  | single rule => rule.captures
  | span rule _ _ | block rule _ _ => rule.openingCaptures
  | root _ _ | group _ _ => []

/-- The captures of a match that a line goes on with. -/
def continuingCaptures : CompiledRule → List (Int × Rule)
  | block rule _ _ => rule.continuingCaptures
  | _ => []

/-- The candidates for the content. -/
def inner : CompiledRule → List Candidate
  | root _ inner | group _ inner | span _ _ inner | block _ _ inner => inner
  | single _ => []

end CompiledRule

/-- A pattern that matches nowhere: it asks for a place and refuses it. It closes a rule that has no
closing pattern. -/
def neverClosing : String :=
  "(?!\\G)\\G"

namespace Grammar

/-- Makes a rule ready. A reference is no rule. -/
def compileRule (g : Grammar) (rule : Rule) : Outcome CompiledRule :=
  match rule.reference, rule.single, rule.opening, rule.continuing with
  | some _, _, _, _ => .error .guarded
  | none, some _, _, _ => .ok (.single rule)
  | none, none, some _, some continuing => do
    return .block rule continuing (← g.expand rule.children).pairs
  | none, none, some _, none => do
    return .span rule (rule.closing.getD (.str neverClosing)) (← g.expand rule.children).pairs
  | none, none, none, _ => do
    return .group rule (← g.expand rule.children).pairs

/-- Makes the grammar itself ready. -/
def compile (g : Grammar) : Outcome CompiledRule := do
  return .root g.scopeName (← g.expand g.patterns).pairs

end Grammar

end Rubric
