import Rubric.Regex.Error
import Rubric.Regex.NamedSet

/-! The parts of a pattern that read the same inside and outside of a bracket class: escapes that
name one character, or a byte of one, and escapes that name a class. -/

namespace Rubric.Regex

/-- The value of a digit in a base up to sixteen. -/
def digitIn? (base : Nat) (c : Char) : Option Nat :=
  let value :=
    if '0' ≤ c && c ≤ '9' then c.toNat - 0x30
    else if 'a' ≤ c && c ≤ 'f' then c.toNat - 0x57
    else if 'A' ≤ c && c ≤ 'F' then c.toNat - 0x37
    else base
  if value < base then some value else none

/-- Reads at most `limit` digits of a base: their value, how many there were, and what follows. -/
def readDigits (base : Nat) : (limit : Nat) → (value count : Nat) → List Char →
    Nat × Nat × List Char
  | 0, value, count, s => (value, count, s)
  | _, value, count, [] => (value, count, [])
  | limit + 1, value, count, c :: rest =>
    match digitIn? base c with
    | some digit => readDigits base limit (base * value + digit) (count + 1) rest
    | none => (value, count, c :: rest)

/-- What an escape names. -/
inductive Code where
  /-- a character -/
  | point (n : Nat)
  /-- a byte of an encoded character, written in a base -/
  | byte (base n : Nat)
deriving DecidableEq, Repr

/-- A character that stands for itself. -/
def Code.ofChar (c : Char) : Code :=
  .point c.toNat

/-- Where an escape stands. -/
inductive Place where
  | outside
  /-- in a class -/
  | inClass
  /-- in a class, behind a code and a hyphen -/
  | atRangeEnd
deriving DecidableEq, Repr

/-- The most digits that a code in braces may have. -/
def codeDigits (base : Nat) : Nat :=
  if base = 16 then 8 else 11

/-- The codes between braces behind the first one, each with the hyphen in front of it, if there is
one. Spaces and newlines separate codes; in a class a hyphen joins two codes to a range. `joins`
tells that a hyphen may stand here, `waiting` that one waits for its code, `apart` that something
separates the last code from what stands here. -/
def codesInBraces (base : Nat) (inClass : Bool) :
    (fuel : Nat) → (joins waiting apart : Bool) → List Char →
    Except Error (List (Bool × Nat) × List Char)
  | 0, _, _, _, _ => .error .badCodePoint
  | _, _, _, _, [] => .error .badCodePoint
  | fuel + 1, joins, waiting, apart, c :: rest =>
    if c = '\x7d' then
      if waiting then .error .badCodePoint else .ok ([], rest)
    else if c = ' ' || c = '\n' then codesInBraces base inClass fuel joins waiting true rest
    else if c = '-' then
      if joins then codesInBraces base inClass fuel false true true rest else .error .badCodePoint
    else if (digitIn? base c).isNone then .error .badCodePoint
    else if !apart then .error .codePointTooLong
    else
      let (value, _, rest) := readDigits base (codeDigits base) 0 0 (c :: rest)
      if 0xFFFFFFFF < value then .error .numberTooLarge
      else
        (codesInBraces base inClass fuel (inClass && !waiting) false false rest).map
          fun (codes, rest) => ((waiting, value) :: codes, rest)

/-- Several codes in braces are short for one escape for each. -/
def spellCodes (codes : List (Bool × Nat)) : List Char :=
  codes.flatMap fun (joined, value) =>
    (if joined then ['-'] else []) ++ ['\\', 'x', '\x7b'] ++ Nat.toDigits 16 value ++ ['\x7d']

/-- The code in braces, behind the opening one, and what follows: first the further codes in the
braces, spelled out. `none` if the braces hold no code or do not end. -/
def codeInBraces? (base : Nat) (place : Place) (s : List Char) :
    Except Error (Option (Nat × List Char)) :=
  let (value, count, rest) := readDigits base (codeDigits base) 0 0 s
  if count = 0 then .ok none
  else if 0xFFFFFFFF < value then .error .numberTooLarge
  else
    match rest with
    | [] => .ok none
    | '\x7d' :: rest => .ok (some (value, rest))
    | rest => do
      let (codes, rest) ←
        codesInBraces base (place != .outside) s.length (place == .inClass) false false rest
      if codes.isEmpty then throw .badCodePoint
      else return some (value, spellCodes codes ++ rest)

/-- The escapes of control characters by letter. -/
def controlEscape? (c : Char) : Option Nat :=
  if c = 't' then some 0x09
  else if c = 'n' then some 0x0A
  else if c = 'v' then some 0x0B
  else if c = 'f' then some 0x0C
  else if c = 'r' then some 0x0D
  else if c = 'a' then some 0x07
  else if c = 'e' then some 0x1B
  else none

/-- The control character of a code: its low five bits and its eighth. -/
def controlOf (n : Nat) : Nat :=
  n % 32 + n / 128 % 2 * 128

/-- The code with its eighth bit set, and none above it. -/
def metaOf (n : Nat) : Nat :=
  n % 128 + 128

/-- The character that stands behind a backslash that itself stands behind `\c`, `\C-` or `\M-`,
which can be nested. -/
def escapedValue : List Char → Except Error (Nat × List Char)
  | [] => .error .endAtEscape
  | 'M' :: rest =>
    match rest with
    | '-' :: '\\' :: rest => (escapedValue rest).map fun (n, rest) => (metaOf n, rest)
    | '-' :: c :: rest => .ok (metaOf c.toNat, rest)
    | '-' :: [] => .error .endAtMeta
    | [] => .error .endAtMeta
    | _ => .error .badMeta
  | 'C' :: rest =>
    match rest with
    | '-' :: '\\' :: rest => (escapedValue rest).map fun (n, rest) => (controlOf n, rest)
    | '-' :: '?' :: rest => .ok (0x7F, rest)
    | '-' :: c :: rest => .ok (controlOf c.toNat, rest)
    | '-' :: [] => .error .endAtControl
    | [] => .error .endAtControl
    | _ => .error .badControl
  | 'c' :: rest =>
    match rest with
    | '\\' :: rest => (escapedValue rest).map fun (n, rest) => (controlOf n, rest)
    | '?' :: rest => .ok (0x7F, rest)
    | c :: rest => .ok (controlOf c.toNat, rest)
    | [] => .error .endAtControl
  | 'b' :: rest => .ok (0x08, rest)
  | c :: rest => .ok ((controlEscape? c).getD c.toNat, rest)

/-- An escape that names one character, given the character behind the backslash and the rest.
Neither back-references nor octal codes, whose digits mean different things in different places.
`none` if the character stands for itself. -/
def codeEscape? (place : Place) (c : Char) (rest : List Char) :
    Except Error (Option (Code × List Char)) :=
  let inBraces (base : Nat) (s : List Char) : Except Error (Option (Code × List Char)) :=
    (codeInBraces? base place s).map (·.map fun (n, rest) => (.point n, rest))
  match c, rest with
  | 'x', '\x7b' :: inner => inBraces 16 inner
  | 'x', _ :: _ =>
    let (value, _, rest) := readDigits 16 2 0 0 rest
    .ok (some (.byte 16 value, rest))
  | 'o', '\x7b' :: inner => inBraces 8 inner
  | 'u', _ :: _ =>
    match readDigits 16 4 0 0 rest with
    | (value, 4, rest) => .ok (some (.point value, rest))
    | _ => .error .badCodePoint
  | 'c', _ | 'C', _ | 'M', _ =>
    (escapedValue (c :: rest)).map fun (n, rest) => some (.point n, rest)
  | _, _ => .ok ((controlEscape? c).map fun n => (.point n, rest))

/-- A byte by up to three octal digits, of which it takes the low eight bits. -/
def octalEscape (s : List Char) : Code × List Char :=
  let (value, _, rest) := readDigits 8 3 0 0 s
  (.byte 8 (value % 256), rest)

/-- How many bytes a character has in its encoded form, read off its first byte. -/
def encodedLength (lead : Nat) : Nat :=
  if 0xC2 ≤ lead && lead < 0xE0 then 2
  else if 0xE0 ≤ lead && lead < 0xF0 then 3
  else if 0xF0 ≤ lead && lead < 0xF5 then 4
  else 1

/-- A code point that no character has. -/
def noCodePoint : Nat :=
  0x110000

/-- The code point of an encoded character, given its bytes. Longer forms than necessary are the
code point of no character. -/
def decodeBytes : List Nat → Except Error Nat
  | [a] => if a < 0x80 then .ok a else .error .badCodePoint
  | [a, b] => do
    tail b
    return a % 32 * 64 + b % 64
  | [a, b, c] => do
    tail b
    tail c
    let n := a % 16 * 4096 + b % 64 * 64 + c % 64
    return if n < 0x800 then noCodePoint else n
  | [a, b, c, d] => do
    tail b
    tail c
    tail d
    let n := a % 8 * 262144 + b % 64 * 4096 + c % 64 * 64 + d % 64
    return if n < 0x10000 then noCodePoint else n
  | _ => .error .shortByteSequence
where
  tail (b : Nat) : Except Error Unit :=
    if 0x80 ≤ b && b < 0xC0 then .ok () else .error .badCodePoint

/-- The escapes that name a class. -/
def classEscape? (c : Char) : Option CharSet :=
  if c = 'w' then some (.property .word)
  else if c = 'W' then some (.compl (.property .word))
  else if c = 'd' then some (.property (.category .nd))
  else if c = 'D' then some (.compl (.property (.category .nd)))
  else if c = 's' then some (.property .space)
  else if c = 'S' then some (.compl (.property .space))
  else if c = 'h' then some (.property .hexDigit)
  else if c = 'H' then some (.compl (.property .hexDigit))
  else none

/-- The name of a property ends at its closing brace, or at a character that no name holds. -/
def endsProperty (c : Char) : Bool :=
  c == '\x7d' || c == '(' || c == ')' || c == '\x7b' || c == '|'

/-- Behind `\p` or `\P`: the property named in braces, or `none` if there are no braces. A caret in
front of the name turns the sense round. -/
def propertyEscape? (negated : Bool) (s : List Char) :
    Except Error (Option (CharSet × List Char)) :=
  match s with
  | [] => .error (.unknownProperty "")
  | '\x7b' :: inner =>
    let (negated, inner) :=
      match inner with
      | '^' :: inner => (!negated, inner)
      | _ => (negated, inner)
    let (name, after) := inner.span (!endsProperty ·)
    match after with
    | [] => .error .unmatchedOpen
    | '\x7d' :: rest =>
      match CharSet.named? name with
      | some set => .ok (some (.withSense negated set, rest))
      | none => .error (.unknownProperty (String.ofList name))
    | _ => .error (.unknownProperty (String.ofList name))
  | _ => .ok none

end Rubric.Regex
