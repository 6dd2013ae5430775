import Rubric.Document.RawToken
import Rubric.Grammar.Check
import Rubric.Grammar.Reader
import Rubric.Language

/-! Grammars by scope name. A grammar is read and checked when it is asked for. -/

namespace Rubric

/-- Files by path. -/
abbrev Files := List (String × List UInt8)

/-- The bytes of the file at a path. -/
def Files.read (files : Files) (scope path : String) : Outcome (List UInt8) :=
  if path.toList.contains '\x00' then .error (.misuse .nullCharacter)
  else if path == "." then .error (.unfound scope (.directory path))
  else
    match files.lookup path with
    | some bytes => .ok bytes
    | none => .error (.unfound scope (.noFile path))

/-- Languages by the scope names of their grammars, with the stack on which these are loaded. -/
structure Registry where
  languages : List (String × Language)
  stack : CallStack := .unlimited

namespace Registry

/-- The registry of languages. Of languages with one scope name the last is known. -/
def ofLanguages (langs : List Language) : Registry where
  languages := langs.foldl (fun known lang => Json.put known lang.scopeName lang) []

/-- Reads the grammar of a language. -/
def readLanguage (stack : CallStack) (files : Files) (lang : Language) : Outcome Grammar :=
  match lang.grammar, lang.location with
  | some v, _ => Grammar.ofJson stack v
  | none, some (.bundled path) =>
    match Language.bundledGrammars.lookup path with
    | some g => .ok g
    | none => .error (.unfound lang.scopeName (.noFile path))
  | none, some (.file path) => do
    Grammar.ofBytes stack path (← files.read lang.scopeName path)
  | none, none => .error (.unfound lang.scopeName .noGrammar)

/-- Reads the grammar of a scope name, which has to declare that name, and checks its patterns. -/
def readGrammar (engine : Regex.Engine) (files : Files) (r : Registry) (scopeName : String) :
    Outcome Grammar := do
  match Json.member? r.languages scopeName with
  | none => throw (.unfound scopeName .noRegistration)
  | some lang =>
    let g ← readLanguage r.stack files lang
    if !g.scopeName.same (.str scopeName) then
      r.stack.write g.scopeName
      throw (.unfit scopeName (.declares g.scopeName))
    g.check engine scopeName
    return g

/-- Loads the grammar of a language that comes with the library, given by its name. -/
def loadNamed (name : Json) : Outcome CompiledGrammar := do
  let lang ← Language.ofChoice (.named name)
  CompiledGrammar.ofGrammar (← readLanguage .unlimited [] lang)

/-- Loads the grammar of a scope name. -/
def load (engine : Regex.Engine) (files : Files) (r : Registry) (scopeName : String) :
    Outcome CompiledGrammar := do
  let g ← r.readGrammar engine files scopeName
  r.stack.hold (.expansion g)
  CompiledGrammar.ofGrammar g

/-- Loads the grammar of a scope name that may turn out to be none. -/
def loadKey (engine : Regex.Engine) (files : Files) (r : Registry) (scopeName : Json) :
    Outcome CompiledGrammar := do
  match ← scopeName.asKey.mapError .misuse with
  | .str s => r.load engine files s
  | v => throw (.unfound v.text .noRegistration)

end Registry

end Rubric
