import Rubric.Json.Value
import Rubric.Number.Shortest
import Rubric.Text.Quoted

/-! Writing a value as a JSON document on one line. Quotes, backslashes and control characters
are escaped; every other character stands for itself. -/

namespace Rubric.Json

/-- One character inside a string of a document. -/
def escapeChar (c : Char) : List Char :=
  if c = '"' || c = '\\' then ['\\', c]
  else if c = '\n' then ['\\', 'n']
  else if c = '\r' then ['\\', 'r']
  else if c = '\t' then ['\\', 't']
  else if c.toNat < 0x20 then '\\' :: 'u' :: Text.hexDigits 4 c.toNat
  else [c]

/-- A string of a document, behind the text written so far. -/
def writeString (before s : String) : String :=
  (s.toList.foldl (fun acc c => (escapeChar c).foldl String.push acc) (before.push '"')).push '"'

mutual

/-- The document text of a value, behind the text written so far. -/
def write (before : String) : Json → String
  | null => before ++ "null"
  | bool b => before ++ (if b then "true" else "false")
  | int n => before ++ toString n
  | real x => before ++ x.textWith "Infinity" "NaN"
  | str s => writeString before s
  | arr [] => before ++ "[]"
  | arr (x :: xs) => writeItems (write (before.push '[') x) xs
  | obj [] => before ++ "\x7b\x7d"
  | obj ((name, x) :: xs) =>
    writeMembers (write ((writeString (before.push '\x7b') name).push ':') x) xs

/-- The items after the first, with the bracket that ends the list. -/
def writeItems (before : String) : List Json → String
  | [] => before.push ']'
  | x :: xs => writeItems (write (before.push ',') x) xs

/-- The members after the first, with the brace that ends the object. -/
def writeMembers (before : String) : List (String × Json) → String
  | [] => before.push '\x7d'
  | (name, x) :: xs => writeMembers (write ((writeString (before.push ',') name).push ':') x) xs

end

/-- The value as a JSON document. -/
def document (v : Json) : String :=
  write "" v

end Rubric.Json
