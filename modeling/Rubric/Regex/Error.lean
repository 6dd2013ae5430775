/-! Why a pattern is no regular expression. -/

namespace Rubric.Regex

/-- The ways in which a pattern can be malformed. A name in an error is the one that stands in the
pattern. -/
inductive Error where
  | endAtEscape
  | endAtMeta
  | badMeta
  | endAtControl
  | badControl
  | unterminatedClass
  | emptyClass
  | classAtRangeEnd
  | strayRange
  | emptyRange
  | posixBracket
  | nothingToRepeat
  | unrepeatable
  | repeatTooLarge
  | unmatchedClose
  | unmatchedOpen
  | endInGroup
  | unknownOption
  | unknownCallout
  | badCallout
  | badCalloutName
  | badCalloutTag
  | badReference
  | numberAmongNames
  | numberTooLarge
  | emptyName
  | badName (name : String)
  | badNameCharacter (name : String)
  | unknownName (name : String)
  | unknownGroup (name : String)
  | ambiguousCall (name : String)
  | badCodePoint
  | codePointTooLong
  | shortByteSequence
  | unknownProperty (name : String)
  | badLookBehind
  | neverEnding
  | tooDeep
deriving DecidableEq, Repr

/-- The characters of a name that fit into so many bytes, with the bytes that are left over. All of
them if `none` is left. -/
def cutName : (left : Nat) → List Char → List Char × Option Nat
  | _, [] => ([], none)
  | left, c :: rest =>
    if c.utf8Size ≤ left then
      let (shown, excess) := cutName (left - c.utf8Size) rest
      (c :: shown, excess)
    else ([], some left)

/-- A name as a message shows it: its first 27 bytes, and three dots if there are more. `none` if
this would cut a character in two. -/
def shownName? (name : String) : Option String :=
  match cutName 27 name.toList with
  | (_, none) => some name
  | (shown, some 0) => some (String.ofList shown ++ "...")
  | (_, some _) => none

/-- The wording of an error. An error has none when the name in it cannot be shown. -/
def Error.message? : Error → Option String
  | .endAtEscape => "end pattern at escape"
  | .endAtMeta => "end pattern at meta"
  | .badMeta => "invalid meta-code syntax"
  | .endAtControl => "end pattern at control"
  | .badControl => "invalid control-code syntax"
  | .unterminatedClass => "premature end of char-class"
  | .emptyClass => "empty char-class"
  | .classAtRangeEnd => "char-class value at end of range"
  | .strayRange => "unmatched range specifier in char-class"
  | .emptyRange => "empty range in char class"
  | .posixBracket => "invalid POSIX bracket type"
  | .nothingToRepeat => "target of repeat operator is not specified"
  | .unrepeatable => "target of repeat operator is invalid"
  | .repeatTooLarge => "too big number for repeat range"
  | .unmatchedClose => "unmatched close parenthesis"
  | .unmatchedOpen => "end pattern with unmatched parenthesis"
  | .endInGroup => "end pattern in group"
  | .unknownOption => "undefined group option"
  | .unknownCallout => "undefined callout name"
  | .badCallout => "invalid callout pattern"
  | .badCalloutName => "invalid callout name"
  | .badCalloutTag => "invalid callout tag name"
  | .badReference => "invalid backref number/name"
  | .numberAmongNames => "numbered backref/call is not allowed. (use name)"
  | .numberTooLarge => "too big number"
  | .emptyName => "group name is empty"
  | .badName name => (shownName? name).map fun s => "invalid group name <" ++ s ++ ">"
  | .badNameCharacter name =>
    (shownName? name).map fun s => "invalid char in group name <" ++ s ++ ">"
  | .unknownName name => (shownName? name).map fun s => "undefined name <" ++ s ++ "> reference"
  | .unknownGroup name => (shownName? name).map fun s => "undefined group <" ++ s ++ "> reference"
  | .ambiguousCall name =>
    (shownName? name).map fun s => "multiplex definition name <" ++ s ++ "> call"
  | .badCodePoint => "invalid code point value"
  | .codePointTooLong => "too long wide-char value"
  | .shortByteSequence => "too short multibyte code string"
  | .unknownProperty name =>
    (shownName? name).map fun s => "invalid character property name \x7b" ++ s ++ "\x7d"
  | .badLookBehind => "invalid pattern in look-behind"
  | .neverEnding => "never ending recursion"
  | .tooDeep => "parse depth limit over"

end Rubric.Regex
