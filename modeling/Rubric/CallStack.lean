import Rubric.Grammar.Expand
import Rubric.Json.Walk

/-! The stack of nested calls. The calls for a grammar are nested as deep as its document, its
values and its rules are, and no stack has room for calls of any depth. How much fits is not decided
here, since it depends on what is on the stack already. -/

namespace Rubric

/-- Work whose calls are nested in each other. -/
inductive Work where
  /-- reading the document that a text holds -/
  | document (text : List Char)
  /-- reading the rules of a grammar from its value, and going through them for their patterns,
  which nests fewer calls -/
  | rules (v : Json)
  /-- writing a value in a message -/
  | message (v : Json)
  /-- writing out what the patterns of a grammar stand for -/
  | expansion (g : Grammar)

/-- A stack, by the work that it has room for. This work comes to its end, or fails by itself,
before its calls are nested too deep. -/
structure CallStack where
  holds : Work → Bool

namespace CallStack

/-- A stack that has room for all work. -/
def unlimited : CallStack where
  holds _ := true

/-- Makes sure that there is room for the work. -/
def hold (stack : CallStack) (work : Work) : Outcome Unit :=
  if stack.holds work then .ok () else .error .nesting

end CallStack

namespace Json

/-- A number is written with so many digits. -/
def digitCount (n : Int) : Nat :=
  (Nat.toDigits 10 n.natAbs).length

mutual

/-- The first integer in a value that has more digits than are written. -/
def longInteger? : Json → Option Int
  | int n => if digitLimit < digitCount n then some n else none
  | arr items => longItem? items
  | obj members => longMember? members
  | _ => none

def longItem? : List Json → Option Int
  | [] => none
  | x :: xs => (longInteger? x).or (longItem? xs)

def longMember? : List (String × Json) → Option Int
  | [] => none
  | (_, x) :: xs => (longInteger? x).or (longMember? xs)

end

end Json

/-- Makes sure that the value can be written in a message. -/
def CallStack.write (stack : CallStack) (v : Json) : Outcome Unit := do
  stack.hold (.message v)
  match v.longInteger? with
  | some n => throw (.misuse (.tooManyDigits (Json.digitCount n)))
  | none => return

end Rubric
