import Rubric.ColorMap
import Rubric.Document.RawToken
import Rubric.Theme.Style

/-! Documents in color. Styles are looked up in the cache of the theme, and each color is numbered
when a token first has it. What was looked up and numbered stays, even if a later line fails. -/

namespace Rubric

/-- A piece of text in one style. -/
structure ThemedToken where
  content : String
  /-- null for no color -/
  color : Json := .null
  fontStyle : FontStyle := {}
deriving BEq, Repr

/-- A line of pieces. -/
abbrev ThemedLine := List ThemedToken

/-- The colors of the pieces that have one. -/
def colorsOf (pieces : List ThemedToken) : List Json :=
  pieces.filterMap fun piece => if piece.color.isNull then none else some piece.color

/-- What the tokens of one theme have brought up. -/
structure Palette where
  colors : ColorMap := {}
  styles : StyleCache
deriving Repr

/-- A computation that can fail and keeps what the palette has taken up even then. -/
abbrev Painting := ExceptT Fault (StateM Palette)

namespace Painting

/-- An outcome that does not touch the palette. -/
def lift {α : Type} (a : Outcome α) : Painting α :=
  ExceptT.mk (pure a)

/-- The style of a stack of scopes. -/
def style (scopes : List Json) : Painting Style := do
  let palette ← get
  let (style, styles) ← lift ((palette.styles.get scopes).mapError .misuse)
  set { palette with styles }
  return style

/-- Numbers a color. -/
def number (color : Json) : Painting Unit := do
  let palette ← get
  set { palette with colors := ← lift ((palette.colors.add color).mapError .misuse) }

/-- The piece of a token. -/
def token (line : Array Char) (t : RawToken) : Painting ThemedToken := do
  let style ← style t.scopes
  number style.color
  return {
    content := String.ofList (line.extract t.start t.stop).toList
    color := style.color
    fontStyle := style.fontStyle }

/-- The pieces of a line. Tokens without text are left out. -/
def line (line : List Char) (tokens : List RawToken) : Painting ThemedLine :=
  (tokens.filter fun t => t.start < min t.stop line.length).mapM (token line.toArray)

/-- The pieces of lines, from a state on. -/
def lines (engine : Regex.Engine) (g : CompiledGrammar) :
    State → (firstLine : Bool) → List (List Char) → Painting (List ThemedLine)
  | _, _, [] => return []
  | state, firstLine, text :: rest => do
    let (state, tokens) ← lift (lineTokens engine g state firstLine text)
    let first ← line text tokens
    return first :: (← lines engine g state false rest)

end Painting

/-- The pieces of a document, line by line. -/
def themedTokens (engine : Regex.Engine) (g : CompiledGrammar) (code : String) :
    Painting (List ThemedLine) :=
  Painting.lines engine g g.start true (sourceLines code)

/-- Runs a painting on a palette. -/
def Palette.run {α : Type} (palette : Palette) (p : Painting α) : Outcome α × Palette :=
  StateT.run (ExceptT.run p) palette

end Rubric
