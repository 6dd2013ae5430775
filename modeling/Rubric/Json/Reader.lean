import Rubric.Json.Value
import Rubric.Text.Word

/-! Reading a JSON document. The grammar is the usual one with three additions, the words `NaN`,
`Infinity` and `-Infinity`. A text holds characters only, so a document with half of a surrogate
pair in an escape, and not the other half, is not read; any other fault of it comes first. A failure
names what was expected and where. -/

namespace Rubric.Json

/-- What a document lacks at some position. -/
inductive ReadFault where
  | value
  | propertyName
  | colon
  | comma
  | extraData
  | controlCharacter
  | unterminatedString
  | escape
  | unicodeEscape
  | byteOrderMark
deriving DecidableEq, Repr

/-- Why a document could not be read. -/
inductive ReadError where
  /-- The fault at a position, counted in characters from 0, with its line and column, counted
  from 1. -/
  | malformed (fault : ReadFault) (position line column : Nat)
  /-- An integer of more digits than are read. -/
  | tooManyDigits (count : Nat)
  /-- Half of a surrogate pair without the other half. -/
  | unpaired
deriving DecidableEq, Repr

/-- The wording of a fault. -/
def ReadFault.text : ReadFault → String
  | .value => "Expecting value"
  | .propertyName => "Expecting property name enclosed in double quotes"
  | .colon => "Expecting ':' delimiter"
  | .comma => "Expecting ',' delimiter"
  | .extraData => "Extra data"
  | .controlCharacter => "Invalid control character at"
  | .unterminatedString => "Unterminated string starting at"
  | .escape => "Invalid \\escape"
  | .unicodeEscape => "Invalid \\uXXXX escape"
  | .byteOrderMark => "Unexpected UTF-8 BOM (decode using utf-8-sig)"

/-- Integers of more digits than this are refused. -/
def digitLimit : Nat := 4300

/-- The message about a number with too many digits. -/
def tooManyDigitsText (count : Nat) : String :=
  "Exceeds the limit (" ++ toString digitLimit ++
    " digits) for integer string conversion: value has " ++ toString count ++
    " digits; use sys.set_int_max_str_digits() to increase the limit"

/-- The message of an error. -/
def ReadError.message : ReadError → String
  | .malformed fault position line column =>
    fault.text ++ ": line " ++ toString line ++ " column " ++ toString column ++
      " (char " ++ toString position ++ ")"
  | .tooManyDigits count => tooManyDigitsText count
  | .unpaired => "Half of a surrogate pair"

/-- White space of a document. -/
def isDocumentBlank (c : Char) : Bool :=
  c = ' ' || c = '\t' || c = '\n' || c = '\r'

/-- The rest of the document and how far it lies from the start. -/
structure Cursor where
  position : Nat
  rest : List Char

/-- A failed step: a fault with its position, or what is not read. -/
inductive StepError where
  | fault (fault : ReadFault) (position : Nat)
  | tooManyDigits (count : Nat)
  | unpaired

/-- Past the white space. -/
def skipBlank (position : Nat) : List Char → Cursor
  | [] => ⟨position, []⟩
  | c :: rest => if isDocumentBlank c then skipBlank (position + 1) rest else ⟨position, c :: rest⟩

def Cursor.skipBlank (s : Cursor) : Cursor :=
  Json.skipBlank s.position s.rest

/-- The value of a hexadecimal digit. -/
def hexValue? (c : Char) : Option Nat :=
  if '0' ≤ c && c ≤ '9' then some (c.toNat - 0x30)
  else if 'a' ≤ c && c ≤ 'f' then some (c.toNat - 0x57)
  else if 'A' ≤ c && c ≤ 'F' then some (c.toNat - 0x37)
  else none

/-- The value of four hexadecimal digits. -/
def hexUnit? (a b c d : Char) : Option Nat := do
  let a ← hexValue? a
  let b ← hexValue? b
  let c ← hexValue? c
  let d ← hexValue? d
  pure (((a * 16 + b) * 16 + c) * 16 + d)

/-- The character that a short escape stands for. -/
def shortEscape? (c : Char) : Option Char :=
  if c = '"' || c = '\\' || c = '/' then some c
  else if c = 'b' then some '\x08'
  else if c = 'f' then some '\x0c'
  else if c = 'n' then some '\n'
  else if c = 'r' then some '\r'
  else if c = 't' then some '\t'
  else none

/-- A string being read: its characters, last one first, and the first half of a surrogate pair
whose second half may follow. -/
structure PartString where
  chars : List Char := []
  half : Option Nat := none
  /-- half of a pair was read without the other half -/
  unpaired : Bool := false

/-- The string so far, in which no second half follows. -/
def PartString.settled (s : PartString) : PartString :=
  if s.half.isSome then { s with half := none, unpaired := true } else s

/-- Adds a character that was written as itself or by a short escape. -/
def PartString.push (s : PartString) (c : Char) : PartString :=
  { s.settled with chars := c :: s.settled.chars }

/-- Adds a 16-bit unit written by an escape. -/
def PartString.pushUnit (s : PartString) (unit : Nat) : PartString :=
  if 0xD800 ≤ unit && unit < 0xDC00 then { s.settled with half := some unit }
  else if 0xDC00 ≤ unit && unit < 0xE000 then
    match s.half with
    | some half =>
      let c := Char.ofNat (0x10000 + (half - 0xD800) * 0x400 + (unit - 0xDC00))
      { s with chars := c :: s.chars, half := none }
    | none => { s with unpaired := true }
  else s.push (Char.ofNat unit)

/-- The whole string, without the halves that are unpaired if these are let pass. -/
def PartString.finish (strict : Bool) (s : PartString) : Except StepError String :=
  if strict && s.settled.unpaired then .error .unpaired
  else .ok (String.ofList s.settled.chars.reverse)

/-- The rest of a string whose opening quote stands at `opened`. Four digits of an escape must
have one more character behind them. -/
def stringFrom (strict : Bool) (opened position : Nat) (s : PartString) :
    List Char → Except StepError (String × Cursor)
  | [] => .error (.fault .unterminatedString opened)
  | '"' :: rest => do return (← s.finish strict, ⟨position + 1, rest⟩)
  | '\\' :: rest =>
    match rest with
    | [] => .error (.fault .unterminatedString opened)
    | 'u' :: rest =>
      match rest with
      | a :: b :: c :: d :: rest =>
        match hexUnit? a b c d with
        | some unit =>
          if rest.isEmpty then .error (.fault .unicodeEscape (position + 1))
          else stringFrom strict opened (position + 6) (s.pushUnit unit) rest
        | none => .error (.fault .unicodeEscape (position + 1))
      | _ => .error (.fault .unicodeEscape (position + 1))
    | c :: rest =>
      match shortEscape? c with
      | some c => stringFrom strict opened (position + 2) (s.push c) rest
      | none => .error (.fault .escape position)
  | c :: rest =>
    if c.toNat < 0x20 then .error (.fault .controlCharacter position)
    else stringFrom strict opened (position + 1) (s.push c) rest

/-- The digits at the start of a text and what follows them. -/
def spanDigits (s : List Char) : List Char × List Char :=
  s.span Text.isAsciiDigit

/-- The digits behind the point, if there are a point and digits. -/
def fractionPart (s : List Char) : List Char × List Char :=
  match s with
  | '.' :: rest =>
    match spanDigits rest with
    | ([], _) => ([], s)
    | found => found
  | _ => ([], s)

/-- The exponent, if there are its mark and digits: its sign, its digits and what follows. -/
def exponentPart (s : List Char) : Option (Bool × List Char × List Char) :=
  match s with
  | e :: rest =>
    if e = 'e' || e = 'E' then
      let (negative, rest) :=
        match rest with
        | '-' :: rest => (true, rest)
        | '+' :: rest => (false, rest)
        | _ => (false, rest)
      match spanDigits rest with
      | ([], _) => none
      | (ds, rest) => some (negative, ds, rest)
    else none
  | [] => none

/-- The digits before the point: a lone zero, or digits that start with another one. -/
def wholePart (s : List Char) : Option (List Char × List Char) :=
  match s with
  | '0' :: rest => some (['0'], rest)
  | s =>
    match spanDigits s with
    | ([], _) => none
    | found => some found

/-- A number, with what follows it. Without fraction and exponent it is an integer. -/
def number (start : Cursor) : Except StepError (Json × Cursor) :=
  let (negative, unsigned) :=
    match start.rest with
    | '-' :: rest => (true, rest)
    | rest => (false, rest)
  match wholePart unsigned with
  | none => .error (.fault .value start.position)
  | some (whole, rest) =>
    let (fraction, afterFraction) := fractionPart rest
    let scientific := exponentPart afterFraction
    let after := match scientific with
      | some (_, _, rest) => rest
      | none => afterFraction
    let next : Cursor := ⟨start.position + (start.rest.length - after.length), after⟩
    if fraction.isEmpty && scientific.isNone then
      if digitLimit < whole.length then .error (.tooManyDigits whole.length)
      else
        let n : Int := Text.digitsValue whole
        .ok (int (if negative then -n else n), next)
    else
      let exponent : Int := match scientific with
        | some (true, ds, _) => -(Text.digitsValue ds : Int)
        | some (false, ds, _) => Text.digitsValue ds
        | none => 0
      let x := Number.Binary.ofDecimal (Text.digitsValue (whole ++ fraction))
        (exponent - fraction.length)
      .ok (real (x.signed negative), next)

/-- What follows `word`, if the text starts with it. -/
def afterWord? (word s : List Char) : Option (List Char) :=
  if word.isPrefixOf s then some (s.drop word.length) else none

/-- The words that are values. -/
def wordValues : List (String × Json) :=
  [("null", .null), ("true", .bool true), ("false", .bool false),
   ("NaN", .real .notANumber), ("Infinity", .real .infinity),
   ("-Infinity", .real (Number.Binary.infinity.signed true))]

/-- A word that is a value, else a number. -/
def wordOrNumber (start : Cursor) : Except StepError (Json × Cursor) :=
  let found? := wordValues.findSome? fun (word, value) =>
    (afterWord? word.toList start.rest).map fun rest =>
      (value, (⟨start.position + word.length, rest⟩ : Cursor))
  match found? with
  | some found => .ok found
  | none => number start

mutual

/-- The value that starts here, with what follows it. -/
def value (strict : Bool) : (fuel : Nat) → Cursor → Except StepError (Json × Cursor)
  | 0, s => .error (.fault .value s.position)
  | fuel + 1, s =>
    match s.rest with
    | '"' :: rest => do
      let (text, s) ← stringFrom strict s.position (s.position + 1) {} rest
      pure (str text, s)
    | '\x7b' :: rest =>
      let s := (⟨s.position + 1, rest⟩ : Cursor).skipBlank
      match s.rest with
      | '\x7d' :: rest => .ok (obj [], ⟨s.position + 1, rest⟩)
      | _ => members strict fuel [] s
    | '[' :: rest =>
      let s := (⟨s.position + 1, rest⟩ : Cursor).skipBlank
      match s.rest with
      | ']' :: rest => .ok (arr [], ⟨s.position + 1, rest⟩)
      | _ => items strict fuel [] s
    | _ => wordOrNumber s

/-- The items from here to the end of a list, behind those read already, last one first. -/
def items (strict : Bool) : (fuel : Nat) → List Json → Cursor → Except StepError (Json × Cursor)
  | 0, _, s => .error (.fault .value s.position)
  | fuel + 1, read, s => do
    let (item, s) ← value strict fuel s
    let s := s.skipBlank
    match s.rest with
    | ']' :: rest => pure (arr (item :: read).reverse, ⟨s.position + 1, rest⟩)
    | ',' :: rest => items strict fuel (item :: read) (⟨s.position + 1, rest⟩ : Cursor).skipBlank
    | _ => throw (.fault .comma s.position)

/-- The members from here to the end of an object, behind those read already. -/
def members (strict : Bool) :
    (fuel : Nat) → List (String × Json) → Cursor → Except StepError (Json × Cursor)
  | 0, _, s => .error (.fault .value s.position)
  | fuel + 1, read, s =>
    match s.rest with
    | '"' :: rest => do
      let (name, s) ← stringFrom strict s.position (s.position + 1) {} rest
      let s := s.skipBlank
      match s.rest with
      | ':' :: rest =>
        let (member, s) ← value strict fuel (⟨s.position + 1, rest⟩ : Cursor).skipBlank
        let read := put read name member
        let s := s.skipBlank
        match s.rest with
        | '\x7d' :: rest => pure (obj read, ⟨s.position + 1, rest⟩)
        | ',' :: rest => members strict fuel read (⟨s.position + 1, rest⟩ : Cursor).skipBlank
        | _ => throw (.fault .comma s.position)
      | _ => throw (.fault .colon s.position)
    | _ => .error (.fault .propertyName s.position)

end

/-- The line and the column of a position, counted from 1. -/
def lineColumn (text : List Char) (position : Nat) : Nat × Nat :=
  let before := text.take position
  (before.count '\n' + 1, (before.reverse.takeWhile (· != '\n')).length + 1)

/-- The value of a document. Each step of the reader consumes a character or enters a value that
does, so twice the length of the document, and some, is fuel enough. -/
def readDocument (strict : Bool) (text : List Char) : Except StepError Json :=
  match text with
  | '\uFEFF' :: _ => .error (.fault .byteOrderMark 0)
  | text => do
    let (v, s) ← value strict (2 * text.length + 2) (skipBlank 0 text)
    let s := s.skipBlank
    if s.rest.isEmpty then pure v else throw (.fault .extraData s.position)

/-- The error of a document that a step failed in. -/
def StepError.inDocument (text : List Char) : StepError → ReadError
  | .fault lack position =>
    let (line, column) := lineColumn text position
    .malformed lack position line column
  | .tooManyDigits count => .tooManyDigits count
  | .unpaired => .unpaired

/-- The value of a document. It is read once with all halves let pass, for its other faults. -/
def parse (text : List Char) : Except ReadError Json :=
  (do let _ ← readDocument false text; readDocument true text).mapError (StepError.inDocument text)

end Rubric.Json
