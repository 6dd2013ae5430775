import Rubric.Markup.Html
import Rubric.Text.Blank

/-! Highlighted lines as SVG: one `text` element for each line, and one class for each numbered
color. -/

namespace Rubric.Markup.Svg

/-- The distance from one line to the next. -/
def lineHeight : Nat :=
  16

/-- Where lines begin. -/
def leftEdge : Nat :=
  10

/-- How far a blank at the start of a line moves the line to the right. -/
def blankWidth : Nat :=
  5

/-- The text has no character but blanks. -/
def isBlank (content : String) : Bool :=
  content.toList.all Text.isBlank

/-- Where a line begins. -/
def edge : ThemedLine → Nat
  | [] => leftEdge
  | token :: _ =>
    if isBlank token.content then leftEdge + blankWidth * token.content.length else leftEdge

/-- A piece. A blank one stands for itself. -/
def piece (colors : ColorMap) (token : ThemedToken) : Except Misuse String := do
  if isBlank token.content then return token.content
  let index ← colors.get token.color
  let opening := if index = 0 then "<tspan>" else "<tspan class=\"s-c-" ++ toString index ++ "\">"
  return opening ++ escape token.content ++ "</tspan>"

/-- How the line at a place begins, counted from 0. -/
def lineStart (index : Nat) (tokens : ThemedLine) : String :=
  "<text x=\"" ++ toString (edge tokens) ++ "\" y=\"" ++ toString (lineHeight * (index + 1)) ++
    "\">"

/-- The line at a place. -/
def line (colors : ColorMap) (index : Nat) (tokens : ThemedLine) : Except Misuse String := do
  if tokens.isEmpty then return lineStart index tokens ++ "</text>"
  let pieces ← tokens.mapM (piece colors)
  return lineStart index tokens ++ "<tspan>" ++ "".intercalate pieces ++ "</tspan></text>"

/-- The lines from a place on. -/
def linesFrom (colors : ColorMap) : (index : Nat) → List ThemedLine → Except Misuse (List String)
  | _, [] => .ok []
  | index, tokens :: rest => do
    let first ← line colors index tokens
    return first :: (← linesFrom colors (index + 1) rest)

/-- The class of a numbered color. -/
def colorClass (index : Nat) (color : Json) : String :=
  ".s-c-" ++ toString index ++ "\x7b fill: " ++ color.text ++ ";\x7d"

/-- The element around lines, with a class for each numbered color. -/
def frame (background : Json) (classes : List (Nat × Json)) (texts : List String) : String :=
  "\n".intercalate <|
    ["<svg width=\"100%\" height=\"100%\" xmlns=\"http://www.w3.org/2000/svg\">",
     "<style>" ++ "".intercalate (classes.map fun (index, color) => colorClass index color) ++
       "</style>",
     "<rect width=\"100%\" height=\"100%\" fill=\"" ++ backgroundText background ++ "\" />"] ++
    texts ++ ["</svg>"]

/-- The map of the colors of the pieces. -/
def mapOf (lines : List ThemedLine) : Except Misuse ColorMap :=
  ColorMap.ofList (colorsOf lines.flatten)

/-- The lines as one element, with the colors of a map, or with those of the lines alone. -/
def render (background : Json) (colors : Option ColorMap) (lines : List ThemedLine) :
    Outcome String := do
  let colors ← match colors with
    | some colors => pure colors
    | none => (mapOf lines).mapError .misuse
  let classes ← colors.items
  let texts ← (linesFrom colors 0 lines).mapError .misuse
  return frame background classes texts

end Rubric.Markup.Svg
