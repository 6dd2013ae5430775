import Rubric.Json.Literal
import Rubric.Json.Reader
import Rubric.Regex.Error
import Rubric.Text.Utf8

/-! What can go wrong. A fault names its cause; its wording is a function of the cause. -/

namespace Rubric

/-- A value that cannot be used in the way that its place asks for. -/
inductive Misuse where
  /-- an object without a member that has to be there -/
  | missing (member : String)
  /-- a value of a kind without this operation -/
  | lacks (value : Json) (operation : String)
  /-- a value that has no items to walk -/
  | notIterable (value : Json)
  /-- a value of a kind that does not fit here -/
  | wrongKind (value : Json)
  /-- a list or an object in the place of a key -/
  | notKey
  /-- a number of a group that is not one -/
  | badInteger (text : String)
  | tooManyDigits (count : Nat)
  /-- a name for a text without a language in the place of a language -/
  | noLanguage
  /-- an empty list that is asked for an item -/
  | noItem
  /-- a path with the character that ends paths -/
  | nullCharacter
deriving BEq, Repr

/-- The sorts of misuse. -/
inductive MisuseSort where
  | key
  | member
  | kind
  | value
  | index
deriving DecidableEq, Repr

/-- The word for a sort in messages. -/
def MisuseSort.word : MisuseSort → String
  | key => "KeyError"
  | member => "AttributeError"
  | kind => "TypeError"
  | value => "ValueError"
  | index => "IndexError"

namespace Misuse

/-- What sort of misuse it is. -/
def sort : Misuse → MisuseSort
  | missing _ => .key
  | lacks _ _ => .member
  | notIterable _ | wrongKind _ | notKey => .kind
  | badInteger _ | tooManyDigits _ | noLanguage | nullCharacter => .value
  | noItem => .index

/-- A number that is none is quoted up to this length. -/
def quotedLimit : Nat :=
  200

/-- What the message says. -/
def detail : Misuse → String
  | missing member => member
  | lacks value operation =>
    Text.quoted value.kind ++ " object has no attribute " ++ Text.quoted operation
  | notIterable value => Text.quoted value.kind ++ " object is not iterable"
  | wrongKind value => Text.quoted value.kind ++ " object does not fit here"
  | notKey => "no key of a table"
  | badInteger text =>
    "invalid literal for int() with base 10: " ++
      String.ofList ((Text.quoted text).toList.take quotedLimit)
  | tooManyDigits count => Json.tooManyDigitsText count
  | noLanguage => "no language"
  | noItem => "tuple index out of range"
  | nullCharacter => "embedded null byte"

/-- A misuse as it stands in the message of another fault: its sort and its quoted detail. -/
def described (m : Misuse) : String :=
  m.sort.word ++ "(" ++ Text.quoted m.detail ++ ")"

end Misuse

/-- Why no grammar could be found for a language. -/
inductive Unfound where
  | noRegistration
  | noGrammar
  | noFile (path : String)
  | directory (path : String)
deriving DecidableEq, Repr

def Unfound.reason : Unfound → String
  | noRegistration => "no language registration"
  | noGrammar => "registration has no grammar"
  | noFile path =>
    "cannot read grammar: [Errno 2] No such file or directory: " ++ Text.quoted path
  | directory path => "cannot read grammar: [Errno 21] Is a directory: " ++ Text.quoted path

/-- Why a value or a file is no grammar. -/
inductive Unfit where
  | notAnObject
  | misuse (m : Misuse)
  | document (e : Json.ReadError)
  | encoding (e : Text.Utf8Error)
  /-- the grammar is of another scope -/
  | declares (scopeName : Json)
  /-- a pattern is no regular expression, for a cause that has a wording -/
  | regex (pattern : String) (e : Regex.Error)
deriving BEq, Repr

def Unfit.reason : Unfit → String
  | notAnObject => "grammar is not an object"
  | misuse m => "invalid grammar: " ++ m.described
  | document e => "invalid json: " ++ e.message
  | encoding e => "invalid json: " ++ e.message
  | declares scopeName => "grammar declares scopeName " ++ scopeName.literal
  | regex pattern e => "invalid regex " ++ Text.quoted pattern ++ ": " ++ e.message?.getD ""

/-- Why a value is no selector. -/
inductive SelectorFault where
  | notText (value : Json)
  | blank (text : String)
  | unsupported (text : String)
deriving BEq, Repr

def SelectorFault.message : SelectorFault → String
  | notText value => "selector is not a string: " ++ value.literal
  | blank text => "empty selector: " ++ Text.quoted text
  | unsupported text => "unsupported selector: " ++ Text.quoted text

/-- The failure of an operation of this library. -/
inductive Fault where
  | unknownTheme (name : Json)
  | unknownLanguage (name : Json)
  /-- tokens were asked for of a text without a language -/
  | plaintext (name : String)
  | unfound (scope : String) (why : Unfound)
  | unfit (scope : String) (why : Unfit)
  | selector (why : SelectorFault)
  | regex (e : Regex.Error)
  | document (e : Json.ReadError)
  | encoding (e : Text.Utf8Error)
  | misuse (m : Misuse)
  /-- calls that are nested too deep, those of includes that go round in a circle or of captures
  nested without end among them -/
  | nesting
  /-- a capture that lies in front of all regions of its match -/
  | captureOrder
  /-- a rule that stands where its kind cannot -/
  | guarded
  /-- a line on which the stack of rules grows for ever -/
  | endless
deriving BEq, Repr

/-- The wording of a fault. Those without a wording of their own have none. -/
def Fault.message? : Fault → Option String
  | unknownTheme name => some ("unknown theme: " ++ name.literal)
  | unknownLanguage name => some ("no language registration for " ++ name.literal)
  | plaintext name => some ("cannot tokenize plaintext (" ++ name ++ ")")
  | unfound scope why => some (scope ++ ": " ++ why.reason)
  | unfit scope why => some (scope ++ ": " ++ why.reason)
  | selector why => some why.message
  | regex e => e.message?
  | document (.tooManyDigits _) => none
  | document e => some e.message
  | _ => none

/-- The outcome of an operation that can fail. -/
abbrev Outcome := Except Fault

end Rubric
