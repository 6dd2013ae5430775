import Rubric.Highlighter
import Rubric.Line.Recall

/-! A highlighter in use. What one call works out of a grammar, looks up in the theme or numbers is
there for the next. -/

namespace Rubric

namespace Recall

/-- The tokens of a line, and the state behind it. -/
def lineTokens (engine : Regex.Engine) (g : CompiledGrammar) (state : State) (firstLine : Bool)
    (line : List Char) : Recall (State × List RawToken) := do
  let (state, regions) ←
    highlightWithin engine g.grammar captureDepth (line ++ ['\n']).toArray state firstLine
  return (state, tokensOfRegions line regions)

end Recall

/-! ## Documents -/

/-- A computation that can fail and keeps what the palette and the store have taken up even then. -/
abbrev Drawing := ExceptT Fault (StateM (Palette × Store))

namespace Drawing

/-- Runs a drawing. -/
def run {α : Type} (x : Drawing α) (palette : Palette) (store : Store) :
    Outcome α × Palette × Store :=
  StateT.run (m := Id) (ExceptT.run x) (palette, store)

/-- A painting leaves the store alone. -/
def ofPainting {α : Type} (p : Painting α) : Drawing α :=
  ExceptT.mk fun (palette, store) =>
    let (r, palette) := palette.run p
    (r, palette, store)

/-- What is worked out of a grammar leaves the palette alone. -/
def ofRecall {α : Type} (x : Recall α) : Drawing α :=
  ExceptT.mk fun (palette, store) =>
    let (r, store) := store.run x
    (r, palette, store)

/-- The pieces of lines, from a state on. -/
def lines (engine : Regex.Engine) (g : CompiledGrammar) :
    State → (firstLine : Bool) → List (List Char) → Drawing (List ThemedLine)
  | _, _, [] => return []
  | state, firstLine, text :: rest => do
    let (state, tokens) ← ofRecall (Recall.lineTokens engine g state firstLine text)
    let first ← ofPainting (Painting.line text tokens)
    return first :: (← lines engine g state false rest)

end Drawing

/-! ## Calls -/

/-- A grammar at work, under the names of its language. -/
structure Desk where
  names : List String
  grammar : CompiledGrammar
  store : Store

/-- Makes a grammar ready. -/
def Desk.ofGrammar (names : List String) (g : Grammar) : Outcome Desk := do
  let made := Store.run {} g.recallRoot
  return { names, grammar := { grammar := g, root := ← made.1 }, store := made.2 }

/-- The tokens of a source text, and the palette behind it. -/
def Desk.tokens (desk : Desk) (engine : Regex.Engine) (palette : Palette) (code : String) :
    (Outcome (List ThemedLine) × Palette) × Desk :=
  let drawing := Drawing.lines engine desk.grammar desk.grammar.start true (sourceLines code)
  let (r, palette, store) := drawing.run palette desk.store
  ((r, palette), { desk with store })

/-- A highlighter with all that its calls so far have taken up. A name is that of the last desk that
has it. -/
structure Session where
  highlighter : Highlighter
  desks : List Desk
  palette : Palette

namespace Session

/-- The session of a highlighter before the first call. -/
def create (engine : Regex.Engine) (files : Files) (theme : ThemeChoice)
    (langs : Option (List LanguageChoice)) : Outcome Session := do
  let theme ← theme.chosen
  let choices := langs.getD (Language.common.map fun name => .named (.str name))
  let langs ← Language.ofChoices choices
  let registry := Registry.ofLanguages langs
  let desks ← langs.mapM fun lang => do
    Desk.ofGrammar lang.names (← registry.readGrammar engine files lang.scopeName)
  let grammars := Highlighter.byName (langs.zip (desks.map (·.grammar)))
  let highlighter : Highlighter := { engine, theme, grammars }
  return { highlighter, desks, palette := highlighter.palette }

/-- Works at the last desk of a name, if there is one. -/
def atDesk {α : Type} (name : String) (work : Desk → α × Desk) :
    List Desk → Option (α × List Desk)
  | [] => none
  | desk :: rest =>
    match atDesk name work rest with
    | some (a, rest) => some (a, desk :: rest)
    | none =>
      if desk.names.contains name then
        let (a, desk) := work desk
        some (a, desk :: rest)
      else none

/-- The tokens of a source text. A text without a language has none. -/
def tokens (s : Session) (code lang : String) : Outcome (List ThemedLine) × Session :=
  if Language.isPlaintext lang then (.error (.plaintext lang), s)
  else
    match atDesk lang (·.tokens s.highlighter.engine s.palette code) s.desks with
    | some ((r, palette), desks) => (r, { s with desks, palette })
    | none => (.error (.unknownLanguage (.str lang)), s)

/-- The lines of a source text. -/
def lines (s : Session) (code lang : String) : Outcome (List ThemedLine) × Session :=
  if Language.isPlaintext lang then (.ok (Highlighter.plainLines code), s) else s.tokens code lang

/-- The source text as HTML. -/
def html (s : Session) (code lang : String) : Outcome String × Session :=
  let (lines, next) := s.lines code lang
  (do return Markup.Html.render s.highlighter.theme.background none (← lines), next)

/-- The source text as SVG. -/
def svg (s : Session) (code lang : String) : Outcome String × Session :=
  let (lines, next) := s.lines code lang
  (do Markup.Svg.render s.highlighter.theme.background (some next.palette.colors) (← lines), next)

/-- A call. -/
def reply (s : Session) (code lang : String) :
    Highlighter.Request → Outcome Highlighter.Reply × Session
  | .tokens =>
    let (lines, next) := s.tokens code lang
    (do return .lines (← lines), next)
  | .html =>
    let (markup, next) := s.html code lang
    (do return .text (← markup), next)
  | .svg =>
    let (markup, next) := s.svg code lang
    (do return .text (← markup), next)

/-- A call with arguments of any kind. One whose arguments are not both texts fails at once. -/
def call (s : Session) (request : Highlighter.Request) (code lang : Json) :
    Outcome Highlighter.Reply × Session :=
  match code, lang with
  | .str code, .str lang => s.reply code lang request
  | code, lang => ((s.palette.run (s.highlighter.call request code lang)).1, s)

end Session

end Rubric
