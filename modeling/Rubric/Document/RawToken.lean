import Rubric.Line.Highlight
import Rubric.Text.Split

/-! Documents: lines highlighted one after another, the stack of open rules carried on from each to
the next. -/

namespace Rubric

/-- A part of a line, from `start` up to `stop`, with its scopes, the innermost first. -/
structure RawToken where
  start : Nat
  stop : Nat
  scopes : List Json
deriving Repr

/-- A grammar that is ready for use. -/
structure CompiledGrammar where
  grammar : Grammar
  root : CompiledRule
deriving Repr

namespace CompiledGrammar

/-- Makes a grammar ready. -/
def ofGrammar (grammar : Grammar) : Outcome CompiledGrammar := do
  return { grammar, root := ← grammar.compile }

/-- The state at the start of a document. -/
def start (g : CompiledGrammar) : State :=
  g.root.start []

/-- The state behind a line, and its regions. -/
def highlight (g : CompiledGrammar) (engine : Regex.Engine) (state : State) (line : List Char)
    (firstLine : Bool) : Outcome (State × List Region) :=
  highlightLine engine g.grammar state line firstLine

end CompiledGrammar

/-- The tokens of a line that was highlighted with a newline at its end, which belongs to none of
them. -/
def tokensOfRegions (line : List Char) (regions : List Region) : List RawToken :=
  (regions.filter (·.start < line.length)).map fun r =>
    ⟨r.start, min r.stop line.length, r.scope.reverse⟩

/-- The tokens of a line, and the state behind it, with captures nested up to a depth. Grammars
expect the newline to be present. -/
def lineTokensWithin (engine : Regex.Engine) (g : CompiledGrammar) (depth : Nat) (state : State)
    (firstLine : Bool) (line : List Char) : Outcome (State × List RawToken) := do
  let (state, regions) ←
    highlightWithin engine g.grammar depth (line ++ ['\n']).toArray state firstLine
  return (state, tokensOfRegions line regions)

/-- The tokens of lines, from a state on, with captures nested up to a depth. -/
def linesTokensWithin (engine : Regex.Engine) (g : CompiledGrammar) (depth : Nat) :
    State → (firstLine : Bool) → List (List Char) → Outcome (List (List RawToken))
  | _, _, [] => .ok []
  | state, firstLine, line :: rest => do
    let (state, tokens) ← lineTokensWithin engine g depth state firstLine line
    return tokens :: (← linesTokensWithin engine g depth state false rest)

/-- The tokens of a line, and the state behind it. -/
def lineTokens (engine : Regex.Engine) (g : CompiledGrammar) (state : State) (firstLine : Bool)
    (line : List Char) : Outcome (State × List RawToken) :=
  lineTokensWithin engine g captureDepth state firstLine line

/-- The tokens of lines, from a state on. -/
def linesTokens (engine : Regex.Engine) (g : CompiledGrammar) (state : State) (firstLine : Bool)
    (lines : List (List Char)) : Outcome (List (List RawToken)) :=
  linesTokensWithin engine g captureDepth state firstLine lines

/-- The lines of a source text, as characters. -/
def sourceLines (code : String) : List (List Char) :=
  Text.splitAt '\n' code.toList

/-- The tokens of a document, line by line, with captures nested up to a depth. -/
def rawTokensWithin (engine : Regex.Engine) (g : CompiledGrammar) (depth : Nat) (code : String) :
    Outcome (List (List RawToken)) :=
  linesTokensWithin engine g depth g.start true (sourceLines code)

/-- The tokens of a document, line by line. -/
def rawTokens (engine : Regex.Engine) (g : CompiledGrammar) (code : String) :
    Outcome (List (List RawToken)) :=
  linesTokens engine g g.start true (sourceLines code)

end Rubric
