import Rubric.Line.Captures
import Rubric.Pattern.Search

/-! One step through a line: the next match of the innermost open rule, and what it opens or closes.
-/

namespace Rubric

/-- The match that a step takes, with the rule that it is for. -/
inductive Choice where
  /-- it closes the innermost rule -/
  | closing (rule : Rule) (m : Regex.Match)
  /-- it is the match of a candidate -/
  | candidate (rule : Rule) (m : Regex.Match)

namespace Choice

/-- The match itself. -/
def found : Choice → Regex.Match
  | closing _ m | candidate _ m => m

end Choice

/-- What is given for a whole line. -/
structure LineContext where
  engine : Regex.Engine
  grammar : Grammar
  text : Array Char
  /-- the line is the first one of its document -/
  firstLine : Bool
  /-- the regions of texts that captures take for themselves -/
  inner : Highlights

/-- The outcome of a step. -/
structure Step where
  state : State
  /-- where the line goes on -/
  position : Nat
  /-- where `\G` matches -/
  anchor : Option Nat
  regions : List Region

namespace LineContext

/-- The anchors that may match in a search from a position. -/
def anchoring (c : LineContext) (position : Nat) (anchor : Option Nat) : Pattern.Anchoring :=
  ⟨c.firstLine, anchor == some position⟩

/-- The region between the position and a match, if there is one. -/
def gap (state : State) (position : Nat) (m : Regex.Match) : List Region :=
  if position < m.start then [⟨position, m.start, state.current.scope⟩] else []

/-- The regions of a match under a rule. -/
def regionsOf (c : LineContext) (scope : Scope) (m : Regex.Match) (captures : List (Int × Rule)) :
    Outcome (List Region) :=
  matchRegions c.grammar c.inner c.text scope m captures

/-- The entry of a rule that a match opens. -/
def opened (c : LineContext) (state : State) (m : Regex.Match) (rule : CompiledRule)
    (names : List String) (ending : Json) : Outcome Entry := do
  match ending with
  | .str pattern =>
    return {
      scope := state.current.scope ++ rule.scopes ++ names.map .str
      rule
      ending := some (← Pattern.expandWith c.text m pattern.toList)
      boundary := m.stop == c.text.size }
  | other => throw (.misuse (.wrongKind other))

/-- The state and the anchor behind a match that a rule begins with: a rule that matches once is
done with it, another rule is opened by it. -/
def enter (c : LineContext) (state : State) (anchor : Option Nat) (m : Regex.Match)
    (compiled : CompiledRule) : Outcome (State × Option Nat) := do
  match compiled with
  | .single _ => return (state, anchor)
  | .span rule closing _ =>
    return (state.push (← c.opened state m compiled rule.contentScopes closing), some m.stop)
  | .block rule continuing _ =>
    return (state.pushBlock (← c.opened state m compiled rule.contentScopes continuing),
      some m.stop)
  | .root _ _ | .group _ _ => throw .guarded

/-- The leftmost match of the candidates. -/
def findCandidate (c : LineContext) (position : Nat) (anchor : Option Nat)
    (candidates : List Candidate) : Outcome (Option (Nat × Regex.Match)) :=
  if candidates.isEmpty then .ok none
  else
    Pattern.findAny c.engine (c.anchoring position anchor) (candidates.map (·.1)) c.text position

/-- The choice among the candidates. -/
def chooseCandidate (c : LineContext) (position : Nat) (anchor : Option Nat)
    (candidates : List Candidate) : Outcome (Option Choice) := do
  match ← c.findCandidate position anchor candidates with
  | none => return none
  | some (index, m) => return (candidates[index]?).map fun (_, rule) => .candidate rule m

/-- The pattern of an entry. The entry at the bottom of a stack has none, and to search for it is
the fault of a pattern that closes a group it never opened. -/
def findEnding (c : LineContext) (entry : Entry) (position : Nat) (anchor : Option Nat) :
    Outcome (Option Regex.Match) :=
  match entry.ending with
  | some pattern =>
    Pattern.find c.engine (c.anchoring position anchor) (.str (String.ofList pattern)) c.text
      position
  | none => .error (.regex .unmatchedClose)

/-- The match that the next step takes, if anything matches. A match that closes the innermost rule
at the position itself comes before all candidates, further on only those that begin behind it. -/
def choose (c : LineContext) (state : State) (position : Nat) (anchor : Option Nat) :
    Outcome (Option Choice) :=
  match state.current.rule with
  | .single _ => .error .guarded
  | .span rule _ candidates => do
    match ← c.findEnding state.current position anchor with
    | none => c.chooseCandidate position anchor candidates
    | some ending =>
      if ending.start = position then return some (.closing rule ending)
      else
        match ← c.chooseCandidate position anchor candidates with
        | none => return some (.closing rule ending)
        | some choice =>
          if ending.start < choice.found.start then return some (.closing rule ending)
          else return some choice
  | .root _ candidates | .group _ candidates | .block _ _ candidates =>
    c.chooseCandidate position anchor candidates

/-- The step that closes the innermost rule. The scopes of its content do not hold for the match
that closes it. -/
def closingStep (c : LineContext) (state : State) (position : Nat) (rule : Rule) (m : Regex.Match) :
    Outcome Step := do
  let regions ← c.regionsOf (state.current.scopeAround rule) m rule.closingCaptures
  return ⟨state.pop, m.stop, none, gap state position m ++ regions⟩

/-- The step that the match of a candidate makes. -/
def candidateStep (c : LineContext) (state : State) (position : Nat) (anchor : Option Nat)
    (rule : Rule) (m : Regex.Match) : Outcome Step := do
  let compiled ← c.grammar.compileRule rule
  let (next, anchor) ← c.enter state anchor m compiled
  let regions ←
    c.regionsOf (state.current.scope ++ compiled.scopes) m compiled.openingCaptures
  return ⟨next, m.stop, anchor, gap state position m ++ regions⟩

/-- The step that takes a match. -/
def take (c : LineContext) (state : State) (position : Nat) (anchor : Option Nat) :
    Choice → Outcome Step
  | .closing rule m => c.closingStep state position rule m
  | .candidate rule m => c.candidateStep state position anchor rule m

/-- The next step through the line, if anything matches. -/
def step (c : LineContext) (state : State) (position : Nat) (anchor : Option Nat) :
    Outcome (Option Step) := do
  match ← c.choose state position anchor with
  | none => return none
  | some choice => return some (← c.take state position anchor choice)

end LineContext

end Rubric
