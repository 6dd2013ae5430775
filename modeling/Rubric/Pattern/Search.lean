import Rubric.Fault
import Rubric.Pattern.Anchors
import Rubric.Regex.Search

/-! Searching a line with the patterns of a grammar. A pattern is what the grammar holds in its
place, so it may turn out to be no text at all; that shows when the pattern is used. -/

namespace Rubric.Pattern

open Regex (Engine Matcher Match)

/-- The text of a pattern in which only the anchors allowed can match. Where both are allowed
nothing is looked at. -/
def barred (a : Anchoring) (pattern : Json) : Outcome Json :=
  match pattern with
  | .str s => .ok (.str (String.ofList (anchored a s.toList)))
  | other => if a.firstLine && a.here then .ok other else .error (.misuse (.wrongKind other))

/-- A pattern made ready. -/
def ready (engine : Engine) : Json → Outcome Matcher
  | .str s => (engine.compile s.toList).mapError .regex
  | other => .error (.misuse (.lacks other "encode"))

/-- A pattern made ready for a line. -/
def prepare (engine : Engine) (a : Anchoring) (pattern : Json) : Outcome Matcher := do
  ready engine (← barred a pattern)

/-- Patterns made ready for a line. -/
def prepareAll (engine : Engine) (a : Anchoring) (patterns : List Json) :
    Outcome (List Matcher) := do
  (← patterns.mapM (barred a)).mapM (ready engine)

/-- The leftmost match of a pattern at or behind a position. -/
def find (engine : Engine) (a : Anchoring) (pattern : Json) (text : Array Char) (position : Nat) :
    Outcome (Option Match) := do
  return (← prepare engine a pattern).search text position

/-- The match of a pattern at a position itself. -/
def findAt (engine : Engine) (a : Anchoring) (pattern : Json) (text : Array Char)
    (position : Nat) : Outcome (Option Match) := do
  return (← prepare engine a pattern).matchAt text position

/-- The leftmost match of any of the patterns, of several that match there the first, with its
index. -/
def findAny (engine : Engine) (a : Anchoring) (patterns : List Json) (text : Array Char)
    (position : Nat) : Outcome (Option (Nat × Match)) := do
  return Matcher.searchAny (← prepareAll engine a patterns) text position

end Rubric.Pattern
