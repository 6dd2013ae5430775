import Rubric.Bundle.DiffGrammar
import Rubric.Bundle.IniGrammar
import Rubric.Bundle.JsonGrammar
import Rubric.Bundle.MonokaiTheme
import Rubric.Bundle.NordTheme
import Rubric.Bundle.PythonGrammar
import Rubric.ColorMap
import Rubric.Document.RawToken
import Rubric.Document.ThemedToken
import Rubric.Fault
import Rubric.Grammar.Check
import Rubric.Grammar.Compiled
import Rubric.Grammar.Expand
import Rubric.Grammar.Reader
import Rubric.Grammar.Rule
import Rubric.Highlighter
import Rubric.Json.Literal
import Rubric.Json.Reader
import Rubric.Json.Value
import Rubric.Json.Walk
import Rubric.Json.Writer
import Rubric.Language
import Rubric.Line.Captures
import Rubric.Line.Highlight
import Rubric.Line.State
import Rubric.Line.Step
import Rubric.Markup.Escape
import Rubric.Markup.Html
import Rubric.Markup.Svg
import Rubric.Number.Binary
import Rubric.Number.Shortest
import Rubric.Pattern.Anchors
import Rubric.Pattern.Backreference
import Rubric.Pattern.Search
import Rubric.Regex.CharSet
import Rubric.Regex.Class
import Rubric.Regex.Compile
import Rubric.Regex.Error
import Rubric.Regex.Escape
import Rubric.Regex.Extent
import Rubric.Regex.Head
import Rubric.Regex.Matcher
import Rubric.Regex.Name
import Rubric.Regex.NamedSet
import Rubric.Regex.Property
import Rubric.Regex.Quantifier
import Rubric.Regex.Reader
import Rubric.Regex.Recursion
import Rubric.Regex.Search
import Rubric.Regex.Syntax
import Rubric.Registry
import Rubric.Text.Blank
import Rubric.Text.Block
import Rubric.Text.Case
import Rubric.Text.Category
import Rubric.Text.CodeSet
import Rubric.Text.Folding
import Rubric.Text.Integer
import Rubric.Text.Quoted
import Rubric.Text.Script
import Rubric.Text.Split
import Rubric.Text.Trait
import Rubric.Text.Utf8
import Rubric.Text.Word
import Rubric.Theme.Basic
import Rubric.Theme.Bundled
import Rubric.Theme.Reader
import Rubric.Theme.Selector
import Rubric.Theme.Style
import Rubric.Proofs.Line.Course
import Rubric.Proofs.Line.Nesting
import Rubric.Proofs.Grammar.Compiling
import Rubric.Proofs.Line.Tiling
import Rubric.Proofs.Line.Stack
import Rubric.Proofs.Line.Standing
import Rubric.Proofs.Regex.Leads
import Rubric.Proofs.Grammar.Rules
import Rubric.Proofs.Regex.Layout
import Rubric.Proofs.Pattern.Search
import Rubric.Proofs.Line.Steady
import Rubric.Proofs.Pattern.Backreference
import Rubric.Proofs.Text.Case
import Rubric.Proofs.Grammar.Checked
import Rubric.Proofs.Bundle.Steady
import Rubric.Proofs.Document.Tokens
import Rubric.Proofs.Markup.Html
import Rubric.Proofs.Line.Scopes
import Rubric.Proofs.Document.Painting
import Rubric.Proofs.Grammar.Loading
import Rubric.Proofs.Bundle.Loading
import Rubric.Proofs.Highlighter
import Rubric.Proofs.Registry
import Rubric.Session
import Rubric.Proofs.Json.Syntax
import Rubric.Proofs.Pattern.Leftmost
import Rubric.Proofs.Line.Choosing
import Rubric.Proofs.Pattern.Hits
import Rubric.Proofs.Bundle.JsonPatterns
import Rubric.Proofs.Document.Spots
import Rubric.Proofs.Bundle.JsonRules
import Rubric.Proofs.Bundle.JsonSpots
import Rubric.Proofs.Bundle.JsonTexts
import Rubric.Proofs.ColorMap
import Rubric.Proofs.Document.Appending
import Rubric.Proofs.Session
import Rubric.Proofs.Session.Classes
import Rubric.Proofs.Grammar.Circles
import Rubric.Proofs.Registry.Faults
import Rubric.Proofs.Registry.Patterns
import Rubric.Proofs.Highlighter.Html
import Rubric.Proofs.Document.Proper
import Rubric.Proofs.Line.Precedence
import Rubric.Proofs.Line.Coverage
import Rubric.Proofs.Markup.Drawing
import Rubric.Proofs.Line.Layers
import Rubric.Proofs.Line.Cuts
import Rubric.Proofs.Line.Moves
import Rubric.Proofs.Line.Trail
import Rubric.Proofs.Line.Unanchored
import Rubric.Proofs.Line.Faults
import Rubric.Proofs.Line.Calls
import Rubric.Proofs.Line.Ends
import Rubric.Proofs.Line.Termination
import Rubric.Proofs.Line.Guard
import Rubric.Proofs.Theme.Winner
import Rubric.Proofs.Grammar.Flattening
import Rubric.Proofs.Theme.Reader
import Rubric.Proofs.Session.Colors
import Rubric.Proofs.Session.NoColor
import Rubric.Proofs.Line.Refused
import Rubric.Proofs.Theme.Matching
import Rubric.Proofs.Text.Words
import Rubric.Proofs.Theme.Spelling
import Rubric.Proofs.Theme.Usable
import Rubric.Proofs.Pattern.Anchors
import Rubric.Proofs.Pattern.Pieces
import Rubric.Proofs.Regex.Regrouped
import Rubric.Proofs.Regex.Parts
import Rubric.Proofs.Regex.Words
import Rubric.Proofs.Regex.Templates
import Rubric.Proofs.Regex.Literal
import Rubric.Proofs.Pattern.Expansion
import Rubric.Proofs.Pattern.Masking
import Rubric.Proofs.Line.Unending
import Rubric.Proofs.Json.Spacing
import Rubric.Proofs.Json.Meaning
import Rubric.Proofs.Theme.Comments
import Rubric.Proofs.Regex.Shape
import Rubric.Proofs.Regex.Barring
import Rubric.Proofs.Regex.Heads
import Rubric.Proofs.Regex.Yields
import Rubric.Proofs.Pattern.Disabling
import Rubric.Proofs.Pattern.Disabled
import Rubric.Proofs.Line.SharedCaptures
import Rubric.Proofs.Pattern.Escapes
