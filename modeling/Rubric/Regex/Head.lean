import Rubric.Regex.Syntax
import Rubric.Text.Folding

/-! The characters with which a match can begin. A search tries no other places. -/

namespace Rubric.Regex

/-- What is known of the first character that an expression consumes. -/
inductive Head where
  /-- it consumes none -/
  | still
  /-- it consumes one of the set first -/
  | starts (set : CharSet)
  | unknown
deriving DecidableEq, Repr

namespace Head

/-- The head of a choice. -/
def either : Head → Head → Head
  | starts a, starts b => starts (.union a b)
  | still, still => still
  | _, _ => unknown

/-- The head of what may be left out. -/
def optional : Head → Head
  | still => still
  | _ => unknown

/-- A match with this head can begin at the position. -/
def allows (head : Head) (text : Array Char) (position : Nat) : Bool :=
  match head with
  | starts set => (text[position]?).any set.contains
  | _ => true

end Head

/-- The first characters of a text that is compared without regard to case. -/
def foldedHead (part : List Nat) : CharSet :=
  .unions (.anyCase (.single (part.headD 0)) :: (Text.spelledLetters part).map .single)

/-- The head of an expression. -/
def Node.head : Node → Head
  | empty | anchor _ | keep | lookAhead _ _ | lookBehind _ _ _ => .still
  | one set => .starts set
  | folded [] => .still
  | folded (part :: _) => .starts (foldedHead part)
  | lineBreak => .starts .lineEnds
  | seq a b =>
    match a.head with
    | .still => b.head
    | head => head
  | alt a b => a.head.either b.head
  | group _ body | enclosed body | atomic body => body.head
  | loop min max _ _ body =>
    if max = some 0 then .still
    else if min = 0 then body.head.optional
    else body.head
  | backref _ _ | call _ => .unknown

end Rubric.Regex
