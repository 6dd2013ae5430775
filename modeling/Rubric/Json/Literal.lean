import Rubric.Json.Value
import Rubric.Number.Shortest
import Rubric.Text.Quoted

/-! The literal form of a value, as messages quote it: texts in quotes, lists in brackets, objects
in braces with `name: value`, and the words `None`, `True` and `False`. -/

namespace Rubric.Json

/-- The items with `", "` between them. -/
def commaSeparated (items : List String) : String :=
  ", ".intercalate items

mutual

/-- The literal form of a value. -/
def literal : Json → String
  | null => "None"
  | bool b => if b then "True" else "False"
  | int n => toString n
  | real x => x.textWith "inf" "nan"
  | str s => Text.quoted s
  | arr items => "[" ++ commaSeparated (literals items) ++ "]"
  | obj members => "\x7b" ++ commaSeparated (memberLiterals members) ++ "\x7d"

def literals : List Json → List String
  | [] => []
  | x :: xs => literal x :: literals xs

def memberLiterals : List (String × Json) → List String
  | [] => []
  | (name, x) :: xs => (Text.quoted name ++ ": " ++ literal x) :: memberLiterals xs

end

/-- The text of a value inside a longer text: a string as it is, anything else as its literal. -/
def text : Json → String
  | str s => s
  | v => literal v

end Rubric.Json
