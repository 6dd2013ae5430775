import Rubric.Theme.Basic

/-! Themes from JSON values and from files, in which whole lines may be comments. -/

namespace Rubric

/-- The names under which a theme gives a color, the preferred one first. -/
def foregroundNames : List String :=
  ["editor.foreground", "foreground"]

def backgroundNames : List String :=
  ["editor.background", "background"]

/-- The default of a theme without a foreground. -/
def defaultForeground : Json :=
  .str "#000000"

/-- The pattern stands somewhere in the text. -/
def occursIn (pattern : List Char) : List Char → Bool
  | [] => pattern.isEmpty
  | c :: rest => pattern.isPrefixOf (c :: rest) || occursIn pattern rest

/-- The value holds the name: an object as a member, a list as an item, a text as a part. -/
def holdsName (name : String) : Json → Except Misuse Bool
  | .obj members => .ok (members.any (·.1 == name))
  | .arr items => .ok (items.any (Json.same (.str name)))
  | .str s => .ok (occursIn name.toList s.toList)
  | v => .error (.notIterable v)

/-- The color under the first of the names that the value holds. -/
def firstColor (colors : Json) : List String → Except Misuse (Option Json)
  | [] => .ok none
  | name :: names => do
    if ← holdsName name colors then
      match colors with
      | .obj members => return Json.member? members name
      | v => throw (.wrongKind v)
    else firstColor colors names

/-- The selectors that a rule lists, as values. A rule without any is one for the theme itself,
which the empty text stands for. -/
def listedSelectors (members : List (String × Json)) : Except Misuse (List Json) :=
  match Json.member? members "scope" with
  | none => .ok [.str ""]
  | some (.str s) =>
    let parts := ((Text.splitAt ',' s.toList).map Text.trim).filter fun part => !part.isEmpty
    .ok (if parts.isEmpty then [.str ""] else parts.map fun part => .str (String.ofList part))
  | some v => v.walk

/-- The foreground and background of a theme. -/
structure Ground where
  foreground : Json
  background : Json
deriving BEq, Repr

/-- A color of the theme itself, if the settings give it. -/
def setColor (settings : List (String × Json)) (name : String) (old : Json) : Json :=
  (Json.member? settings name).getD old

/-- What a rule says under one of its selectors. A selector that cannot be read is passed over. -/
def readSelector (settings : Json) (ground : Ground) (selector : Json) :
    Except Misuse (Ground × List ThemeRule) := do
  if selector == .str "" then
    let settings ← settings.asObject
    return ({
      foreground := setColor settings "foreground" ground.foreground
      background := setColor settings "background" ground.background }, [])
  else
    match Selector.ofJson selector with
    | .error _ => return (ground, [])
    | .ok selector =>
      let settings ← settings.asObject
      let fontStyle ← FontStyle.ofJson ((Json.member? settings "fontStyle").getD .null)
      let foreground := match Json.member? settings "foreground" with
        | some .null | none => none
        | some color => some color
      return (ground, [{ selector, foreground, fontStyle }])

/-- What a rule says under all of its selectors. -/
def readSelectors (settings : Json) : Ground → List Json → Except Misuse (Ground × List ThemeRule)
  | ground, [] => .ok (ground, [])
  | ground, selector :: rest => do
    let (ground, first) ← readSelector settings ground selector
    let (ground, others) ← readSelectors settings ground rest
    return (ground, first ++ others)

/-- What the rules of a theme say. -/
def readThemeRules : Ground → List Json → Except Misuse (Ground × List ThemeRule)
  | ground, [] => .ok (ground, [])
  | ground, rule :: rest => do
    let members ← rule.asObject
    let settings := (Json.member? members "settings").getD (.obj [])
    let (ground, first) ← readSelectors settings ground (← listedSelectors members)
    let (ground, others) ← readThemeRules ground rest
    return (ground, first ++ others)

/-- The list of rules of a theme. -/
def ruleList (members : List (String × Json)) : Except Misuse (List Json) :=
  match Json.member? members "tokenColors" with
  | some v => v.walk
  | none =>
    match Json.member? members "settings" with
    | some v => v.walk
    | none => .ok []

/-- A theme from its JSON value. A name that is set comes before the one that the value holds. -/
def Theme.ofJson (name : Json) (v : Json) : Except Misuse Theme := do
  let members ← v.asObject
  let colors := (Json.member? members "colors").getD (.obj [])
  let foreground ← firstColor colors foregroundNames
  let background ← firstColor colors backgroundNames
  let ground := ⟨foreground.getD defaultForeground, background.getD .null⟩
  let (ground, rules) ← readThemeRules ground (← ruleList members)
  return {
    name := if name.isSet then name else (Json.member? members "name").getD (.str "")
    background := ground.background
    foreground := ground.foreground
    rules }

/-- Where the reader of a commented document is. -/
inductive CommentPlace where
  /-- behind blanks that begin at the start of a line, the last one first -/
  | lineStart (blanks : List Char)
  | inLine
  | inComment

/-- The document without its comments. A comment is a line whose first characters, blanks apart, are
two slashes; it goes up to the end of its line, together with all blanks in front of it, those of
blank lines included. -/
def uncomment : CommentPlace → List Char → List Char
  | .lineStart blanks, [] => blanks.reverse
  | .lineStart blanks, c :: rest =>
    if Text.isBlank c then uncomment (.lineStart (c :: blanks)) rest
    else
      match c, rest with
      | '/', '/' :: rest => uncomment .inComment rest
      | c, rest => blanks.reverse ++ c :: uncomment .inLine rest
  | .inLine, [] => []
  | .inLine, c :: rest =>
    c :: (if c = '\n' then uncomment (.lineStart []) rest else uncomment .inLine rest)
  | .inComment, [] => []
  | .inComment, c :: rest =>
    if c = '\n' then c :: uncomment (.lineStart []) rest else uncomment .inComment rest

/-- A theme from the bytes of a file. -/
def Theme.ofBytes (name : Json) (bytes : List UInt8) : Outcome Theme := do
  let text ← (Text.ofBytes bytes).mapError .encoding
  let v ← (Json.parse (uncomment (.lineStart []) (Text.unifyNewlines text))).mapError .document
  (Theme.ofJson name v).mapError .misuse

end Rubric
