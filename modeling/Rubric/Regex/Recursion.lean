import Rubric.Regex.Extent

/-! Groups that call themselves. A call is refused when the called group can be left in no way
without another call of itself, or can reach that call without consuming a character. -/

namespace Rubric.Regex

/-- How an expression reaches a group. -/
structure Reach where
  /-- by every way through it -/
  must : Bool
  /-- without consuming a character first -/
  still : Bool
deriving DecidableEq, Repr

/-- Not at all. -/
def Reach.never : Reach := ⟨false, false⟩

namespace Node

/-- Every way through the expression consumes a character. `call` says so of the groups called. -/
def consumes (call : Nat → Bool) : Node → Bool
  | one _ | folded _ | lineBreak => true
  | seq a b => a.consumes call || b.consumes call
  | alt a b => a.consumes call && b.consumes call
  | Node.group _ body => body.consumes call
  | enclosed body => body.consumes call
  | atomic body => body.consumes call
  | loop min _ _ _ body => 0 < min && body.consumes call
  | Node.call index => call index
  | _ => false

/-- How the expression reaches the group `target`. `still` holds as long as no character was
consumed, `call` answers for the groups called. -/
def reach (consumed : Nat → Bool) (call : Nat → Bool → Reach) (target : Nat) (still : Bool) :
    Node → Reach
  | seq a b =>
    let x := a.reach consumed call target still
    if x.still then x
    else
      let y := b.reach consumed call target (still && !a.consumes consumed)
      ⟨x.must || y.must, y.still⟩
  | alt a b =>
    let x := a.reach consumed call target still
    if x.still then x
    else
      let y := b.reach consumed call target still
      ⟨x.must && y.must, y.still⟩
  | Node.group index body =>
    if index = target then ⟨true, still⟩ else body.reach consumed call target still
  | enclosed body => body.reach consumed call target still
  | atomic body => body.reach consumed call target still
  | lookAhead _ body => body.reach consumed call target still
  | lookBehind _ _ body => body.reach consumed call target still
  | loop min max _ _ body =>
    if max = some 0 then .never
    else
      let x := body.reach consumed call target still
      ⟨x.must && 0 < min, x.still⟩
  | Node.call index => call index still
  | _ => .never

/-- The groups that an expression calls outside of parts that are never matched. -/
def calls (node : Node) : List Nat :=
  let inside : Node → Bool
    | loop _ max _ _ _ => max != some 0
    | _ => true
  (node.parts inside []).filterMap fun
    | Node.call index => some index
    | _ => none

end Node

namespace Bodies

/-- Every way through the group consumes a character. A call of a group inside itself does not
count. -/
def groupConsumes (bodies : Bodies) : (fuel : Nat) → Nat → Bool
  | 0, _ => false
  | fuel + 1, index => (bodies.getD index .empty).consumes (groupConsumes bodies fuel)

/-- How a call of the group `index` reaches the group `target`. Groups already entered are passed
over. -/
def groupReach (bodies : Bodies) (target : Nat) :
    (fuel : Nat) → (entered : List Nat) → Nat → Bool → Reach
  | 0, _, _, _ => .never
  | fuel + 1, entered, index, still =>
    if index = target then ⟨true, still⟩
    else if entered.contains index then .never
    else
      (bodies.getD index .empty).reach (groupConsumes bodies bodies.size)
        (groupReach bodies target fuel (index :: entered)) target still

/-- A call of the group would never end. -/
def neverEnds (bodies : Bodies) (index : Nat) : Bool :=
  let x := (bodies.getD index .empty).reach (groupConsumes bodies bodies.size)
    (groupReach bodies index bodies.size []) index true
  x.must || x.still

/-- The groups that can be called when the waiting ones are, besides those already found. -/
def reachable (bodies : Bodies) : (fuel : Nat) → (found waiting : List Nat) → List Nat
  | 0, found, _ => found
  | _, found, [] => found
  | fuel + 1, found, index :: waiting =>
    if found.contains index then reachable bodies fuel found waiting
    else
      reachable bodies fuel (index :: found) ((bodies.getD index .empty).calls ++ waiting)

/-- The groups that are called when the whole expression is matched. -/
def called (bodies : Bodies) : List Nat :=
  let root := bodies.getD 0 .empty
  let calls := root.allParts.countP fun
    | .call _ => true
    | _ => false
  reachable bodies ((bodies.size + 1) * (calls + 1)) [] root.calls

end Bodies

end Rubric.Regex
