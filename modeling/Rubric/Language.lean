import Rubric.Bundle.DiffGrammar
import Rubric.Bundle.IniGrammar
import Rubric.Bundle.JsonGrammar
import Rubric.Bundle.PythonGrammar
import Rubric.Json.Walk

/-! Languages: how they are called, and where their grammars are. -/

namespace Rubric

/-- Where the file of a grammar is. -/
inductive Location where
  /-- among the grammars that come with the library -/
  | bundled (path : String)
  | file (path : String)
deriving DecidableEq, Repr

/-- The path at a location. -/
def Location.path : Location → String
  | bundled path | file path => path

/-- A language with the scope name of its grammar. A grammar of its own comes before a file. -/
structure Language where
  id : String
  scopeName : String
  aliases : List String := []
  location : Option Location := none
  grammar : Option Json := none
deriving Repr

namespace Language

/-- All names of the language. -/
def names (lang : Language) : List String :=
  lang.id :: lang.aliases

/-- Both are absent, or both are the same value. -/
def sameGrammar : Option Json → Option Json → Bool
  | none, none => true
  | some a, some b => a.same b
  | _, _ => false

/-- The two registrations say the same. -/
def same (a b : Language) : Bool :=
  a.id == b.id && a.scopeName == b.scopeName && a.aliases == b.aliases &&
    a.location == b.location && sameGrammar a.grammar b.grammar

/-- The languages that come with the library. -/
def bundled (id scopeName : String) (aliases : List String) : Language :=
  { id, scopeName, aliases, location := some (.bundled ("grammars/" ++ id ++ ".tmLanguage.json")) }

/-- The languages that come with the library. -/
def all : List Language :=
  [bundled "diff" "source.diff" ["patch"], bundled "ini" "source.ini" ["properties"],
   bundled "json" "source.json" [], bundled "python" "source.python" ["py"]]

/-- The grammars that come with the library, by their paths. -/
def bundledGrammars : List (String × Grammar) :=
  [("grammars/diff.tmLanguage.json", Bundle.diff),
   ("grammars/ini.tmLanguage.json", Bundle.ini),
   ("grammars/json.tmLanguage.json", Bundle.json),
   ("grammars/python.tmLanguage.json", Bundle.python)]

/-- The languages that a highlighter knows if it is not told any. -/
def common : List String :=
  all.map (·.id)

/-- Names for a text without a language. -/
def plaintextNames : List String :=
  ["plaintext", "txt", "text"]

/-- The name is one for a text without a language. -/
def isPlaintext (name : String) : Bool :=
  plaintextNames.contains name

/-- The value is a name for a text without a language. It has to be a key. -/
def isPlaintextKey (name : Json) : Except Misuse Bool := do
  match ← name.asKey with
  | .str s => return isPlaintext s
  | _ => return false

/-- The language of a name that comes with the library. -/
def named? (name : String) : Option Language :=
  all.find? fun lang => lang.names.contains name

end Language

/-- What a caller names a language by: a name, which may turn out to be none, or the language
itself. -/
inductive LanguageChoice where
  | named (name : Json)
  | language (lang : Language)

/-- Adds a language that is not in the list already. -/
def addLanguage (langs : List Language) (lang : Language) : List Language :=
  if langs.any lang.same then langs else langs ++ [lang]

/-- The languages of the choices, each once, in the order of their first places. Names for a text
without a language are passed over. -/
def Language.select (found : List Language) : List LanguageChoice → Outcome (List Language)
  | [] => .ok found
  | .language lang :: rest => Language.select (addLanguage found lang) rest
  | .named name :: rest => do
    if ← (Language.isPlaintextKey name).mapError .misuse then Language.select found rest
    else
      match name with
      | .str s =>
        match Language.named? s with
        | some lang => Language.select (addLanguage found lang) rest
        | none => throw (.unknownLanguage name)
      | _ => throw (.unknownLanguage name)

/-- The languages of the choices. -/
def Language.ofChoices (choices : List LanguageChoice) : Outcome (List Language) :=
  Language.select [] choices

/-- The one language of a choice. -/
def Language.ofChoice (choice : LanguageChoice) : Outcome Language := do
  match ← Language.ofChoices [choice] with
  | lang :: _ => return lang
  | [] => throw (.misuse .noLanguage)

end Rubric
