import Rubric.Grammar.Compiled

/-! What has been worked out of a grammar, kept for the next time: what references and lists of
rules stand for, and rules made ready. A failure is not kept. -/

namespace Rubric

/-- What has been worked out of a grammar, in the order in which it was. -/
structure Store where
  /-- what references stand for -/
  references : List (Json × Candidates) := []
  /-- what lists of rules stand for -/
  expansions : List (List Rule × Candidates) := []
  /-- rules made ready -/
  rules : List (Rule × CompiledRule) := []
deriving Repr

/-- A computation that can fail and keeps what was worked out even then. -/
abbrev Recall := ExceptT Fault (StateM Store)

/-- Runs a computation on a store. -/
def Store.run {α : Type} (store : Store) (x : Recall α) : Outcome α × Store :=
  StateT.run (ExceptT.run x) store

/-- An outcome that does not touch the store. -/
def Recall.lift {α : Type} (a : Outcome α) : Recall α :=
  ExceptT.mk (pure a)

/-- The place of a rule that was made ready. What is made ready once keeps its place. -/
def Store.place? (store : Store) (rule : Rule) : Option Nat :=
  store.rules.findIdx? (·.1 == rule)

/-- One of the tables of a store. -/
structure Shelf (κ α : Type) where
  read : Store → List (κ × α)
  write : Store → List (κ × α) → Store

namespace Shelf

def references : Shelf Json Candidates where
  read := Store.references
  write store references := { store with references }

def expansions : Shelf (List Rule) Candidates where
  read := Store.expansions
  write store expansions := { store with expansions }

def rules : Shelf Rule CompiledRule where
  read := Store.rules
  write store rules := { store with rules }

/-- What the shelf holds for a key. If that is nothing, it is worked out and put there. -/
def fetch {κ α : Type} [BEq κ] (shelf : Shelf κ α) (key : κ) (work : Recall α) : Recall α := do
  match (shelf.read (← get)).lookup key with
  | some a => return a
  | none =>
    let a ← work
    modify fun store => shelf.write store (shelf.read store ++ [(key, a)])
    return a

end Shelf

mutual

/-- What a rule stands for. `refer` says what a reference stands for. -/
def Rule.recallCandidates (refer : Json → Recall Candidates) : Rule → Recall Candidates
  | ⟨scopes, single, opening, closing, continuing, contentScopes, captures, openingCaptures,
      closingCaptures, continuingCaptures, reference, children⟩ =>
    match reference, single, opening with
    | some target, _, _ => refer target
    | none, none, none =>
      if children.isEmpty then return .empty
      else Shelf.expansions.fetch children (recallRulesCandidates refer children)
    | none, some pattern, _ | none, none, some pattern =>
      return .one pattern ⟨scopes, single, opening, closing, continuing, contentScopes, captures,
        openingCaptures, closingCaptures, continuingCaptures, reference, children⟩

/-- What the rules stand for, in order. -/
def recallRulesCandidates (refer : Json → Recall Candidates) :
    List Rule → Recall Candidates
  | [] => return .empty
  | rule :: rest => do
    let first ← rule.recallCandidates refer
    return first ++ (← recallRulesCandidates refer rest)

end

namespace Grammar

/-- What rules stand for, where `refer` says it of references. -/
def recallExpandWith (refer : Json → Recall Candidates) (rules : List Rule) :
    Recall Candidates :=
  if rulesAreKeys rules then Shelf.expansions.fetch rules (recallRulesCandidates refer rules)
  else throw (.misuse .notKey)

/-- What a reference stands for, through at most `depth` references that are not known yet. -/
def recallRefer (g : Grammar) : (depth : Nat) → Json → Recall Candidates
  | 0, target => Shelf.references.fetch target (throw .nesting)
  | depth + 1, target => Shelf.references.fetch target do
    recallExpandWith (g.recallRefer depth) (← Recall.lift (g.referred target))

/-- What rules stand for. -/
def recallExpand (g : Grammar) (rules : List Rule) : Recall Candidates :=
  recallExpandWith (g.recallRefer g.referenceDepth) rules

/-- Makes a rule ready. A reference is no rule. -/
def recallCompile (g : Grammar) (rule : Rule) : Recall CompiledRule :=
  match rule.reference, rule.single, rule.opening, rule.continuing with
  | some _, _, _, _ => throw .guarded
  | none, some _, _, _ => return .single rule
  | none, none, some _, some continuing => do
    return .block rule continuing (← g.recallExpand rule.children).pairs
  | none, none, some _, none => do
    return .span rule (rule.closing.getD (.str neverClosing)) (← g.recallExpand rule.children).pairs
  | none, none, none, _ => do
    return .group rule (← g.recallExpand rule.children).pairs

/-- A rule that is ready, made so only if it is not yet. -/
def recallRule (g : Grammar) (rule : Rule) : Recall CompiledRule :=
  Shelf.rules.fetch rule (g.recallCompile rule)

/-- Makes the grammar itself ready. -/
def recallRoot (g : Grammar) : Recall CompiledRule := do
  return .root g.scopeName (← g.recallExpand g.patterns).pairs

end Grammar

end Rubric
