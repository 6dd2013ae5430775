import Rubric.Regex.Error
import Rubric.Regex.Syntax

/-! How many characters an expression can consume. Look-behinds need it to know where to begin, and
refuse bodies that could look ahead or are too long; loops need it to know whether an iteration can
consume nothing. -/

namespace Rubric.Regex

namespace Extent

/-- Exactly so many characters. -/
def exactly (n : Nat) : Extent :=
  ⟨n, some n⟩

/-- Any number of characters. -/
def any : Extent :=
  ⟨0, none⟩

/-- One extent behind the other. -/
def add (a b : Extent) : Extent :=
  ⟨a.least + b.least, a.most.bind fun m => b.most.map (m + ·)⟩

/-- Either of two extents. -/
def either (a b : Extent) : Extent :=
  ⟨min a.least b.least, a.most.bind fun m => b.most.map (max m)⟩

/-- An extent at least `least` and at most `most` times. -/
def times (a : Extent) (least : Nat) (most : Option Nat) : Extent :=
  match most with
  | some 0 => exactly 0
  | most => ⟨a.least * least, most.bind fun n => a.most.map (· * n)⟩

end Extent

/-- The bodies of the groups of an expression by number, with the whole expression as number 0. -/
abbrev Bodies := Array Node

/-- The bodies of the groups of an expression, of which there are so many. -/
def Node.bodies (root : Node) (groups : Nat) : Bodies :=
  root.allParts.foldl
    (fun bodies node =>
      match node with
      | .group index body => bodies.setIfInBounds index body
      | _ => bodies)
    ((Array.replicate (groups + 1) Node.empty).setIfInBounds 0 root)

namespace Node

/-- The extent of an expression in the groups `entered`. `group` tells the extent of another
group. A call of a group inside itself can consume anything, a back-reference to a group inside
itself consumes nothing. -/
def extent (group : List Nat → Nat → Extent) : (entered : List Nat) → Node → Extent
  | _, empty | _, anchor _ | _, keep | _, lookAhead _ _ | _, lookBehind _ _ _ => .exactly 0
  | _, one _ => .exactly 1
  | _, folded ps =>
    ps.foldl (fun sum part => sum.add ⟨1, some part.length⟩) (.exactly 0)
  | _, lineBreak => .exactly 2
  | entered, seq a b => (a.extent group entered).add (b.extent group entered)
  | entered, alt a b => (a.extent group entered).either (b.extent group entered)
  | entered, Node.group index body => body.extent group (index :: entered)
  | entered, enclosed body => body.extent group entered
  | entered, atomic body => body.extent group entered
  | entered, loop min max _ _ body => (body.extent group entered).times min max
  | entered, backref groups _ =>
    if groups.any entered.contains then .exactly 0
    else
      match groups with
      | [] => .exactly 0
      | g :: gs => gs.foldl (fun sum g => sum.either (group entered g)) (group entered g)
  | entered, call index => if entered.contains index then .any else group entered index

/-- The extent of a group in other groups. -/
def groupExtent (bodies : Bodies) : (fuel : Nat) → (entered : List Nat) → Nat → Extent
  | 0, _, _ => .any
  | fuel + 1, entered, index =>
    (bodies.getD index .empty).extent (groupExtent bodies fuel) (index :: entered)

/-- The extent of an expression that stands in the groups `entered`. -/
def extentIn (bodies : Bodies) (entered : List Nat) (node : Node) : Extent :=
  node.extent (groupExtent bodies (bodies.size + 1)) entered

/-- An expression may stand in a look-behind: nothing in it looks ahead or at the end of the text,
nothing captures in a negative one, and no negative one stands in a positive one. The same goes for
the groups called, which `group` tells, unless they are being looked at. -/
def fitsBehind (group : List Nat → Nat → Bool) (negative : Bool) :
    (entered : List Nat) → Node → Bool
  | _, lookAhead _ _ | _, anchor .textEnd | _, anchor .lastLineEnd => false
  | entered, lookBehind inner _ body =>
    (negative || !inner) && body.fitsBehind group negative entered
  | entered, Node.group index body =>
    !negative && body.fitsBehind group negative (index :: entered)
  | entered, seq a b | entered, alt a b =>
    a.fitsBehind group negative entered && b.fitsBehind group negative entered
  | entered, enclosed body | entered, atomic body | entered, loop _ _ _ _ body =>
    body.fitsBehind group negative entered
  | entered, call index => entered.contains index || (!negative && group entered index)
  | _, _ => true

/-- A group may be called in a look-behind. -/
def groupFitsBehind (bodies : Bodies) (negative : Bool) :
    (fuel : Nat) → (entered : List Nat) → Nat → Bool
  | 0, _, _ => true
  | fuel + 1, entered, index =>
    (bodies.getD index .empty).fitsBehind (groupFitsBehind bodies negative fuel) negative
      (index :: entered)

/-- The most characters that a look-behind can look back. -/
def behindLimit : Nat :=
  65535

/-- A look-behind with its extent, which has to stay below the limit where it has one. -/
def behind (bodies : Bodies) (entered : List Nat) (negative : Bool) (body : Node) :
    Except Error Node :=
  let extent := body.extentIn bodies entered
  if !body.fitsBehind (groupFitsBehind bodies negative (bodies.size + 1)) negative entered then
    .error .badLookBehind
  else if behindLimit < extent.least || extent.most.any (behindLimit < ·) then
    .error .badLookBehind
  else .ok (lookBehind negative extent body)

/-- Gives the look-behinds of an expression their extents. -/
def measured (bodies : Bodies) : (entered : List Nat) → Node → Except Error Node
  | entered, seq a b => return seq (← a.measured bodies entered) (← b.measured bodies entered)
  | entered, alt a b => return alt (← a.measured bodies entered) (← b.measured bodies entered)
  | entered, Node.group index body =>
    return Node.group index (← body.measured bodies (index :: entered))
  | entered, enclosed body => return enclosed (← body.measured bodies entered)
  | entered, atomic body => return atomic (← body.measured bodies entered)
  | entered, lookAhead negative body =>
    return lookAhead negative (← body.measured bodies entered)
  | entered, lookBehind negative _ body => do
    behind bodies entered negative (← body.measured bodies entered)
  | entered, loop min max lazy watched body =>
    return loop min max lazy watched (← body.measured bodies entered)
  | _, node => return node

/-- A loop over the body can have iterations that consume nothing. -/
def canStay (bodies : Bodies) (body : Node) : Bool :=
  (body.extentIn bodies []).least == 0

/-- The groups that back-references in an expression mean. -/
def referred (node : Node) : List Nat :=
  node.allParts.flatMap fun
    | backref groups _ => groups
    | _ => []

/-- The groups that a loop over the body watches: those that are referred to in the body and whose
innermost loop with empty iterations is this one. What only looks ahead or back does not count. -/
def watchedIn (bodies : Bodies) (body : Node) : List Nat :=
  let inside : Node → Bool
    | lookAhead negative _ | lookBehind negative _ _ => negative
    | loop _ max _ _ inner => max == some 0 || !inner.canStay bodies
    | _ => true
  let referred := body.referred
  (body.parts inside []).filterMap fun
    | Node.group index _ => if referred.contains index then some index else none
    | _ => none

/-- Tells the loops of an expression which groups to watch, if there are back-references at all. -/
def watching (bodies : Bodies) (node : Node) : Node :=
  if node.referred.isEmpty then node
  else
    node.transform fun
      | loop min max lazy _ body =>
        loop min max lazy
          (if max != some 0 && body.canStay bodies then body.watchedIn bodies else []) body
      | node => node

end Node

end Rubric.Regex
