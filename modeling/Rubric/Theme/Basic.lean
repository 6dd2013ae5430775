import Rubric.Theme.Selector

/-! Themes. -/

namespace Rubric

/-- The styles of a font that a theme can set. -/
structure FontStyle where
  bold : Bool := false
  italic : Bool := false
  underline : Bool := false
deriving DecidableEq, Repr

namespace FontStyle

/-- The style that a list of words sets. Other words are passed over. -/
def ofWords (words : List String) : FontStyle where
  bold := words.contains "bold"
  italic := words.contains "italic"
  underline := words.contains "underline"

/-- The words for a style, in alphabetical order. -/
def words (style : FontStyle) : List String :=
  (if style.bold then ["bold"] else []) ++ (if style.italic then ["italic"] else []) ++
    (if style.underline then ["underline"] else [])

/-- Reads a style from a value. Null sets none. -/
def ofJson : Json → Except Misuse (Option FontStyle)
  | .null => .ok none
  | v => do return some (ofWords (← v.words))

end FontStyle

/-- What a theme says of the scopes that a selector matches. -/
structure ThemeRule where
  selector : Selector
  foreground : Option Json := none
  fontStyle : Option FontStyle := none
deriving BEq, Repr

/-- A theme. Colors are kept as they stand in it, null for none. -/
structure Theme where
  name : Json
  background : Json
  foreground : Json
  rules : List ThemeRule
deriving BEq, Repr

end Rubric
