import Rubric.Fault
import Rubric.Text.Blank

/-! Taking a value apart whose form is only expected: members of an object, items of a list, words
of a text. A value of another form is a misuse. -/

namespace Rubric.Json

mutual

/-- How deep lists and objects are nested. -/
def depth : Json → Nat
  | arr items => itemsDepth items + 1
  | obj members => membersDepth members + 1
  | _ => 0

def itemsDepth : List Json → Nat
  | [] => 0
  | x :: xs => max (depth x) (itemsDepth xs)

def membersDepth : List (String × Json) → Nat
  | [] => 0
  | (_, x) :: xs => max (depth x) (membersDepth xs)

end

/-- The members of an object that is asked for a member. -/
def asObject : Json → Except Misuse (List (String × Json))
  | obj members => .ok members
  | v => .error (.lacks v "get")

/-- All members of an object. -/
def entries : Json → Except Misuse (List (String × Json))
  | obj members => .ok members
  | v => .error (.lacks v "items")

/-- The items of a list, the characters of a text or the names of an object. -/
def walk : Json → Except Misuse (List Json)
  | arr items => .ok items
  | str s => .ok (s.toList.map fun c => str (String.singleton c))
  | obj members => .ok (members.map fun (name, _) => str name)
  | v => .error (.notIterable v)

/-- The words of a text. -/
def words : Json → Except Misuse (List String)
  | str s => .ok (Text.words s)
  | v => .error (.lacks v "split")

/-- A text that is asked for an operation. -/
def asText (operation : String) : Json → Except Misuse String
  | str s => .ok s
  | v => .error (.lacks v operation)

/-- A value that can be the key of a table, as such. -/
def asKey (v : Json) : Except Misuse Json :=
  if v.isKey then .ok v else .error .notKey

end Rubric.Json
