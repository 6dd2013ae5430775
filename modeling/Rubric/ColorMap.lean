import Rubric.Json.Walk

/-! Numbers for colors. Colors are numbered from 1 on in the order in which they are added, and keep
their numbers; 0 stands for no color. -/

namespace Rubric

/-- The numbered colors, the first of which has the number 1. -/
structure ColorMap where
  colors : List Json := []
deriving Repr

namespace ColorMap

/-- How many colors are numbered. -/
def size (m : ColorMap) : Nat :=
  m.colors.length

/-- The number of a color, 0 if it has none. -/
def indexOf (m : ColorMap) (color : Json) : Nat :=
  match m.colors.findIdx? (Json.same color) with
  | some i => i + 1
  | none => 0

/-- The color has a number. -/
def contains (m : ColorMap) (color : Json) : Bool :=
  m.colors.any (Json.same color)

/-- The map in which the color has a number. -/
def insert (m : ColorMap) (color : Json) : ColorMap :=
  if m.contains color then m else { colors := m.colors ++ [color] }

/-- Numbers a color, which has to be a key. -/
def add (m : ColorMap) (color : Json) : Except Misuse ColorMap := do
  return m.insert (← color.asKey)

/-- The number of a color, 0 for none and for an unknown one. -/
def get (m : ColorMap) : Json → Except Misuse Nat
  | .null => .ok 0
  | color => do return m.indexOf (← color.asKey)

/-- Numbers colors in order. -/
def addAll (m : ColorMap) : List Json → Except Misuse ColorMap
  | [] => .ok m
  | color :: rest => do (← m.add color).addAll rest

/-- The map of a list of colors. -/
def ofList (colors : List Json) : Except Misuse ColorMap :=
  addAll {} colors

/-- The colors with their numbers. -/
def numbered (m : ColorMap) : List (Nat × Json) :=
  (m.colors.zipIdx 1).map Prod.swap

/-- The colors with their numbers. To number no color is a fault that shows here. -/
def items (m : ColorMap) : Outcome (List (Nat × Json)) :=
  if m.colors.any Json.isNull then .error .guarded else .ok m.numbered

end ColorMap

end Rubric
