import Rubric.Document.ThemedToken
import Rubric.Markup.Svg
import Rubric.Registry
import Rubric.Theme.Bundled
import Rubric.Theme.Reader

/-! A highlighter: a theme and the grammars of some languages, all loaded at the start. The numbers
of colors and the styles looked up are shared by all of its calls. -/

namespace Rubric

/-- What a caller asks a theme by: a value, which is a theme, a name or nothing, or a theme itself.
-/
inductive ThemeChoice where
  | value (v : Json)
  | given (theme : Theme)

/-- A theme with a name, or else the default one. -/
def Theme.ifNamed (theme : Theme) : Theme :=
  if theme.name.isSet then theme else Theme.standard

/-- The theme of a choice. An object is a theme; what is no name of a theme stands for the default
one. -/
def ThemeChoice.chosen : ThemeChoice → Outcome Theme
  | .given theme => .ok theme.ifNamed
  | .value (.obj members) => do
    return (← (Theme.ofJson (.str "") (.obj members)).mapError .misuse).ifNamed
  | .value v =>
    if v.isSet then
      match Theme.named v with
      | .ok theme => .ok theme
      | .error _ => .ok Theme.standard
    else .ok Theme.standard

/-- A theme with the grammars of some languages by name. -/
structure Highlighter where
  engine : Regex.Engine
  theme : Theme
  grammars : List (String × CompiledGrammar)

namespace Highlighter

/-- The grammars under all names of their languages. A name of two languages goes to the later one.
-/
def byName (langs : List (Language × CompiledGrammar)) : List (String × CompiledGrammar) :=
  langs.foldl
    (fun known (lang, g) => lang.names.foldl (fun known name => Json.put known name g) known) []

/-- A highlighter for a theme and languages, those that come with the library if none are given. -/
def create (engine : Regex.Engine) (files : Files) (theme : ThemeChoice)
    (langs : Option (List LanguageChoice)) : Outcome Highlighter := do
  let theme ← theme.chosen
  let choices := langs.getD (Language.common.map fun name => .named (.str name))
  let langs ← Language.ofChoices choices
  let registry := Registry.ofLanguages langs
  let grammars ← langs.mapM fun lang => registry.load engine files lang.scopeName
  return { engine, theme, grammars := byName (langs.zip grammars) }

/-- The palette before the first call. -/
def palette (h : Highlighter) : Palette where
  styles := { theme := h.theme }

/-- The names of all languages, in alphabetical order. -/
def languageNames (h : Highlighter) : List String :=
  (h.grammars.map (·.1)).mergeSort fun a b => a ≤ b

/-- The grammar of a language. -/
def grammarOf (h : Highlighter) (lang : String) : Outcome CompiledGrammar :=
  match Json.member? h.grammars lang with
  | some g => .ok g
  | none => .error (.unknownLanguage (.str lang))

/-- The tokens of a source text. A text without a language has none. -/
def tokens (h : Highlighter) (code lang : String) : Painting (List ThemedLine) := do
  if Language.isPlaintext lang then throw (.plaintext lang)
  themedTokens h.engine (← Painting.lift (h.grammarOf lang)) code

/-- The lines of a text without a language, each one piece without a color. -/
def plainLines (code : String) : List ThemedLine :=
  (Text.lines code).map fun line => if line.isEmpty then [] else [{ content := line }]

/-- The lines of a source text. -/
def lines (h : Highlighter) (code lang : String) : Painting (List ThemedLine) :=
  if Language.isPlaintext lang then return plainLines code else h.tokens code lang

/-- The source text as HTML. -/
def html (h : Highlighter) (code lang : String) : Painting String := do
  return Markup.Html.render h.theme.background none (← h.lines code lang)

/-- The source text as SVG, in which a color has one class for the lifetime of the highlighter. -/
def svg (h : Highlighter) (code lang : String) : Painting String := do
  let lines ← h.lines code lang
  Painting.lift (Markup.Svg.render h.theme.background (some (← get).colors) lines)

/-- What a call asks for. -/
inductive Request where
  | tokens
  | html
  | svg
deriving DecidableEq, Repr

/-- What a call answers. -/
inductive Reply where
  | lines (lines : List ThemedLine)
  | text (s : String)

/-- A call. -/
def reply (h : Highlighter) (code lang : String) : Request → Painting Reply
  | .tokens => do return .lines (← h.tokens code lang)
  | .html => do return .text (← h.html code lang)
  | .svg => do return .text (← h.svg code lang)

/-- Why a call fails whose arguments are not both texts: the language is looked at first, then the
source text. -/
def refusal (h : Highlighter) (code lang : Json) : Fault :=
  match lang with
  | .str name =>
    if Language.isPlaintext name || (Json.member? h.grammars name).isSome then
      .misuse (.lacks code "split")
    else .unknownLanguage lang
  | v => if v.isKey then .unknownLanguage v else .misuse .notKey

/-- A call with arguments of any kind. -/
def call (h : Highlighter) (request : Request) (code lang : Json) : Painting Reply :=
  match code, lang with
  | .str code, .str lang => h.reply code lang request
  | code, .str lang =>
    if request = .tokens && Language.isPlaintext lang then throw (.plaintext lang)
    else throw (h.refusal code (.str lang))
  | code, lang => throw (h.refusal code lang)

end Highlighter

end Rubric
