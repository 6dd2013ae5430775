import Rubric.Json.Walk
import Rubric.Text.Split

/-! Selectors. A selector is a sequence of scope names, the outermost first, each a sequence of
segments. It matches a stack of scopes if each of its parts begins a scope of the stack, each deeper
than the part before. -/

namespace Rubric

/-- The segments of a scope name. -/
abbrev Segments := List String

/-- The parts of a selector, the outermost first. -/
abbrev Selector := List Segments

namespace Selector

/-- A character of a segment. -/
def isSegmentChar (c : Char) : Bool :=
  Text.isWord c || c == '+' || c == '#' || c == '$' || c == '-'

/-- A segment is not empty. -/
def isSegment (s : List Char) : Bool :=
  !s.isEmpty && s.all isSegmentChar

/-- The segments of a part. A part does not begin with a hyphen. -/
def segments? (part : String) : Option Segments :=
  let pieces := Text.splitAt '.' part.toList
  if part.toList.head? != some '-' && pieces.all isSegment then some (pieces.map String.ofList)
  else none

/-- Reads a selector. -/
def ofText (s : String) : Except SelectorFault Selector :=
  match Text.words s with
  | [] => .error (.blank s)
  | parts =>
    match parts.mapM segments? with
    | some selector => .ok selector
    | none => .error (.unsupported s)

/-- Reads a selector from a value, which has to be a text. -/
def ofJson : Json → Except SelectorFault Selector
  | .str s => ofText s
  | v => .error (.notText v)

/-- The part begins the scope. -/
def partMatches (part scope : Segments) : Bool :=
  part.isPrefixOf scope

/-- The selector matches a stack of scopes, the outermost first. Each part takes the first scope
that it begins. -/
def matchesStack : Selector → List Segments → Bool
  | [], _ => true
  | _ :: _, [] => false
  | part :: parts, scope :: stack =>
    if partMatches part scope then matchesStack parts stack else matchesStack (part :: parts) stack

/-- How closely a selector describes what it matches: the number of segments of its last part. One
without parts, which matches everything, has none. -/
def specificity (selector : Selector) : Except Misuse Nat :=
  match selector.getLast? with
  | some part => .ok part.length
  | none => .error .noItem

end Selector

end Rubric
