import Rubric.Document.ThemedToken
import Rubric.Markup.Escape

/-! Highlighted lines as HTML: a `pre` element with one `span` for each piece that has a color. -/

namespace Rubric.Markup

/-- The background of a document whose theme has none. -/
def defaultBackground : String :=
  "#fff"

/-- The background as it is written: the default in the place of a value that is not set. -/
def backgroundText (background : Json) : String :=
  if background.isSet then background.text else defaultBackground

namespace Html

/-- The declarations for a piece with a color. -/
def declarations (token : ThemedToken) : List String :=
  ["color: " ++ token.color.text] ++
    (if token.fontStyle.italic then ["font-style: italic"] else []) ++
    (if token.fontStyle.bold then ["font-weight: bold"] else []) ++
    (if token.fontStyle.underline then ["text-decoration: underline"] else [])

/-- The style attribute of a piece with a color. -/
def css (token : ThemedToken) : String :=
  "; ".intercalate (declarations token)

/-- A piece. -/
def piece (token : ThemedToken) : List Char :=
  let content := escapeText token.content.toList
  if token.color.isNull then content
  else
    "<span style=\"".toList ++ (css token).toList ++ "\">".toList ++ content ++ "</span>".toList

/-- The lines, each with a newline behind it. -/
def body (lines : List ThemedLine) : List Char :=
  lines.flatMap fun line => line.flatMap piece ++ ['\n']

/-- The text without the newlines at its end. -/
def trimNewlines (s : List Char) : List Char :=
  (s.reverse.dropWhile (· == '\n')).reverse

/-- The name of the language, if it is to be shown. -/
def languageLabel : Option String → List Char
  | none => []
  | some name =>
    if name.isEmpty then []
    else
      "<div class=\"language-id\">".toList ++ escapeText name.toList ++ "</div>".toList

/-- The name of a language from a value. One that is not set is not shown. -/
def readLanguage (v : Json) : Except Misuse (Option String) :=
  if v.isSet then (v.asText "replace").map some else .ok none

/-- The lines as one element. There are no blank lines at its end. -/
def render (background : Json) (language : Option String) (lines : List ThemedLine) : String :=
  String.ofList <|
    "<pre class=\"shiki\" style=\"background-color: ".toList ++
      (backgroundText background).toList ++ "\">".toList ++ languageLabel language ++
      "<code>".toList ++ trimNewlines (body lines) ++ "</code></pre>".toList

end Html

end Rubric.Markup
