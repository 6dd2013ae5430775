import Rubric.Regex.Reader
import Rubric.Regex.Recursion

/-! From patterns to regular expressions. -/

namespace Rubric.Regex

/-- A regular expression with the bodies of its groups. -/
structure Expression where
  bodies : Bodies
  /-- the groups that are called, 0 for the whole expression -/
  called : List Nat
deriving DecidableEq, Repr

/-- The expression without the bodies of its groups. -/
def Expression.root (r : Expression) : Node :=
  r.bodies.getD 0 .empty

/-- The number of groups. -/
def Expression.groups (r : Expression) : Nat :=
  r.bodies.size - 1

/-- The group that a call means. -/
def Reading.target (r : Reading) : Reference × List Char → Except Error Nat
  | (.name name, shown) =>
    match r.names.filter (·.1 == name) with
    | [] => .error (.unknownName (String.ofList shown))
    | [(_, index)] => .ok index
    | _ => .error (.ambiguousCall (String.ofList shown))
  | (.number n, shown) | (.relative _ n, shown) =>
    if !r.names.isEmpty then .error .numberAmongNames
    else if r.groups < n then .error (.unknownGroup (String.ofList shown))
    else .ok n

/-- The new number of a group: its place among the named groups, if there are any. -/
def Reading.renumbered (r : Reading) (index : Nat) : Option Nat :=
  if r.names.isEmpty then some index
  else (r.names.findIdx? (·.2 == index)).map (· + 1)

/-- Gives groups, back-references and calls their numbers, and texts their parts. A group without a
new number no longer captures. -/
def Node.settled (group : Nat → Option Nat) (target : Nat → Nat) (node : Node) : Node :=
  node.transform fun
    | .group index body =>
      match group index with
      | some index => .group index body
      | none => body
    | .backref groups ignoreCase => .backref (groups.filterMap group) ignoreCase
    | .call place => .call (target place)
    | .folded parts => .folded (Text.foldedParts 0 parts.flatten)
    | node => node

/-- The expression that was read, once all of the pattern is known. -/
def Reading.finish (r : Reading) (node : Node) : Except Error Expression := do
  if r.unencodable then throw .badCodePoint
  if !r.names.isEmpty && r.numbered then throw .numberAmongNames
  if r.names.isEmpty && node.referred.any (r.groups < ·) then throw .badReference
  let targets := (← r.calls.mapM r.target).map fun index =>
    if index = 0 then 0 else (r.renumbered index).getD 0
  let node := node.settled r.renumbered fun place => targets.getD place 0
  let groups := if r.names.isEmpty then r.groups else r.names.length
  let bodies := node.bodies groups
  if bodies.called.any bodies.neverEnds then throw .neverEnding
  let node := (← node.measured bodies [0]).watching bodies
  return ⟨node.bodies groups, bodies.called⟩

/-- The regular expression that a pattern denotes. -/
def Expression.compile (pattern : List Char) : Except Error Expression := do
  let (node, r) ← (alternatives (4 * pattern.length + 4) 0 {}).run { rest := pattern }
  match r.rest with
  | [] => r.finish node
  | _ => throw .unmatchedClose

end Rubric.Regex
