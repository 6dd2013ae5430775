import Rubric.Fault
import Rubric.Grammar.Rule

/-! Which patterns a list of rules stands for. A reference is replaced by what it names, a rule
without a pattern of its own by its children, each in its place. -/

namespace Rubric

/-- A pattern with the rule that it belongs to. -/
abbrev Candidate := Json × Rule

/-- Patterns, and in a second list the rules that these belong to, each at the place of its pattern.
-/
structure Candidates where
  patterns : List Json
  owners : List Rule
  aligned : patterns.length = owners.length
deriving Repr

namespace Candidates

def empty : Candidates where
  patterns := []
  owners := []
  aligned := rfl

def one (pattern : Json) (owner : Rule) : Candidates where
  patterns := [pattern]
  owners := [owner]
  aligned := rfl

def append (front back : Candidates) : Candidates where
  patterns := front.patterns ++ back.patterns
  owners := front.owners ++ back.owners
  aligned := by rw [List.length_append, List.length_append, front.aligned, back.aligned]

instance : Append Candidates :=
  ⟨append⟩

/-- The patterns, each with its rule. -/
def pairs (cs : Candidates) : List Candidate :=
  cs.patterns.zip cs.owners

@[simp] theorem pairs_empty : empty.pairs = [] := rfl

@[simp] theorem pairs_append (front back : Candidates) :
    (front ++ back).pairs = front.pairs ++ back.pairs :=
  List.zip_append front.aligned

end Candidates

/-- The value can be looked up in a table, or is absent. -/
def isKeyOrAbsent : Option Json → Bool
  | some v => v.isKey
  | none => true

mutual

/-- Rules are looked up by their value, so no pattern and no reference in them may be a list or an
object. -/
def Rule.isKey : Rule → Bool
  | ⟨_, single, opening, closing, continuing, _, captures, openingCaptures, closingCaptures,
      continuingCaptures, reference, children⟩ =>
    isKeyOrAbsent single && isKeyOrAbsent opening && isKeyOrAbsent closing &&
      isKeyOrAbsent continuing && isKeyOrAbsent reference && capturesAreKeys captures &&
      capturesAreKeys openingCaptures && capturesAreKeys closingCaptures &&
      capturesAreKeys continuingCaptures && rulesAreKeys children

def capturesAreKeys : List (Int × Rule) → Bool
  | [] => true
  | (_, rule) :: rest => rule.isKey && capturesAreKeys rest

def rulesAreKeys : List Rule → Bool
  | [] => true
  | rule :: rest => rule.isKey && rulesAreKeys rest

end

mutual

/-- What a rule stands for. `refer` says what a reference stands for. -/
def Rule.candidates (refer : Json → Outcome Candidates) : Rule → Outcome Candidates
  | ⟨scopes, single, opening, closing, continuing, contentScopes, captures, openingCaptures,
      closingCaptures, continuingCaptures, reference, children⟩ =>
    match reference, single, opening with
    | some target, _, _ => refer target
    | none, none, none => rulesCandidates refer children
    | none, some pattern, _ | none, none, some pattern =>
      .ok (.one pattern ⟨scopes, single, opening, closing, continuing, contentScopes, captures,
        openingCaptures, closingCaptures, continuingCaptures, reference, children⟩)

/-- What the rules stand for, in order. -/
def rulesCandidates (refer : Json → Outcome Candidates) : List Rule → Outcome Candidates
  | [] => .ok .empty
  | rule :: rest => do
    let first ← rule.candidates refer
    return first ++ (← rulesCandidates refer rest)

end

namespace Grammar

/-- The rules behind a reference: the grammar itself, or the rule of a name behind `#`. Names that
are not in the repository, and other grammars, stand for nothing. -/
def referred (g : Grammar) : Json → Outcome (List Rule)
  | .str name =>
    if name == "$self" || name == "$base" then .ok g.patterns
    else
      match name.toList with
      | '#' :: rest =>
        match Json.member? g.repository (String.ofList rest) with
        | some rule => .ok [rule]
        | none => .ok []
      | _ => .ok []
  | v => .error (.misuse (if v.isKey then .lacks v "startswith" else .notKey))

/-- What rules stand for, where `refer` says it of references. -/
def expandWith (refer : Json → Outcome Candidates) (rules : List Rule) :
    Outcome Candidates :=
  if rulesAreKeys rules then rulesCandidates refer rules
  else .error (.misuse .notKey)

/-- What a reference stands for, through at most `depth` references. -/
def refer (g : Grammar) : (depth : Nat) → Json → Outcome Candidates
  | 0, _ => .error .nesting
  | depth + 1, target => do expandWith (g.refer depth) (← g.referred target)

/-- A chain of references that is longer than this passes some reference twice. -/
def referenceDepth (g : Grammar) : Nat :=
  g.repository.length + 3

/-- What a reference stands for. -/
def reference (g : Grammar) (target : Json) : Outcome Candidates :=
  g.refer g.referenceDepth target

/-- What rules stand for. -/
def expand (g : Grammar) (rules : List Rule) : Outcome Candidates :=
  expandWith g.reference rules

end Grammar

end Rubric
