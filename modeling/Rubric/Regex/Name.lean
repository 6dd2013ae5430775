import Rubric.Regex.Quantifier
import Rubric.Regex.Property

/-! The names of groups, where a group is defined and where it is referred to. -/

namespace Rubric.Regex

/-- A reference to a group. -/
inductive Reference where
  | number (n : Nat)
  /-- counted back from the last group opened, or on from it -/
  | relative (back : Bool) (n : Nat)
  | name (s : List Char)
deriving DecidableEq, Repr

/-- A digit of a number. -/
def isDigit (c : Char) : Bool :=
  '0' ≤ c && c ≤ '9'

/-- A name up to the first character that ends it, and what begins there. The first character
belongs to the name. -/
def spanName (ends : Char → Bool) : List Char → List Char × List Char
  | [] => ([], [])
  | c :: rest =>
    let (name, after) := rest.span fun c => !ends c
    (c :: name, after)

/-- A name ends at its closing mark, or at the parenthesis that closes too early. -/
def endsName (close c : Char) : Bool :=
  c == close || c == ')'

/-- The name of a reference that can have a nesting level ends at a sign as well. -/
def endsLeveledName (close c : Char) : Bool :=
  endsName close c || c == '+' || c == '-'

/-- The part of a malformed name that its error shows: up to its end, or all of the pattern that is
left if nothing stands behind that end. -/
def malformedName (close : Char) (s : List Char) : String :=
  match spanName (endsName close) s with
  | (name, _ :: _ :: _) => String.ofList name
  | _ => String.ofList s

/-- The part of a name cut short by the end of the pattern that its error shows: all but the last
character, which had to close it, unless it is the only one. -/
def unclosedName (s : List Char) : String :=
  match s with
  | [c] => String.ofList [c]
  | s => String.ofList s.dropLast

/-- Takes the closing mark behind a name away. -/
def closeName (close : Char) (name : List Char) : List Char → Except Error (List Char)
  | c :: rest => if c = close then .ok rest else .error (.badName (String.ofList name))
  | [] => .error (.badName (unclosedName name))

/-- The name of a group at its definition: it begins with a word character that is no digit. -/
def definedName (close : Char) (s : List Char) : Except Error (List Char × List Char) :=
  match s with
  | [] => .error .emptyName
  | c :: _ =>
    if c = close then .error .emptyName
    else if isDigit c || c = '-' || c = '+' then .error (.badName (malformedName close s))
    else if !isWordChar c then .error (.badNameCharacter (malformedName close s))
    else
      let (name, after) := spanName (endsName close) s
      (closeName close name after).map fun rest => (name, rest)

/-- How a reference begins: a number, a relative number, or a name. -/
inductive ReferenceStart where
  | number
  | relative (back : Bool)
  | name
deriving DecidableEq, Repr

/-- How a reference begins, read off its first character. -/
def ReferenceStart.of (c : Char) : ReferenceStart :=
  if isDigit c then number
  else if c = '-' then relative true
  else if c = '+' then relative false
  else name

/-- The digits of a name that begins as a number. -/
def ReferenceStart.digits (start : ReferenceStart) (name : List Char) : List Char :=
  match start with
  | relative _ => name.tail
  | _ => name

/-- The reference of a name, or the error `bad`. A relative number is at least one. -/
def ReferenceStart.reference (start : ReferenceStart) (name : List Char) (bad : Error) :
    Except Error Reference :=
  match start, readNumber (start.digits name) with
  | .name, _ => .ok (.name name)
  | _, (some n, _) =>
    if 0x7FFFFFFF < n then .error .numberTooLarge
    else
      match start with
      | relative back =>
        if n = 0 then .error bad else .ok (.relative back n)
      | _ => .ok (.number n)
  | _, (none, _) => .error bad

/-- A name or number behind `\g`, with what follows it. -/
def calledName (close : Char) (s : List Char) :
    Except Error (Reference × List Char × List Char) :=
  match s with
  | [] => .error .emptyName
  | c :: _ => do
    if c = close then throw .emptyName
    let start := ReferenceStart.of c
    let (name, after) := spanName (endsName close) s
    if start = .name then
      if !isWordChar c then throw (.badNameCharacter (malformedName close s))
    else
      match (start.digits name).find? fun c => !isDigit c with
      | some c =>
        if isWordChar c then throw (.badName (malformedName close s))
        else throw (.badNameCharacter (malformedName close s))
      | none => pure ()
    let rest ← closeName close name after
    return (← start.reference name (.badName (String.ofList name)), name, rest)

/-- The fault of a name behind `\k` that lies in its characters, if there is one: a character that
cannot stand in a name, or a number that goes on as a name or has no digits. The last one tells. -/
def ReferenceStart.fault? (start : ReferenceStart) (name : List Char) (closed : Bool) :
    Option (String → Error) :=
  let strange := fun c => !isWordChar c
  match start with
  | .name => if name.any strange then some .badNameCharacter else none
  | start =>
    match (start.digits name).dropWhile isDigit with
    | [] => if closed && (start.digits name).isEmpty then some .badName else none
    | _ :: rest => if rest.any strange then some .badNameCharacter else some .badName

/-- What follows a name behind `\k`: the closing mark, or a sign and a nesting level in front of
it. -/
def closeLeveledName (close : Char) (s name after : List Char) : Except Error (List Char) :=
  let whole : Error := .badName (String.ofList s)
  match after with
  | [] =>
    if name = ['-'] || name = ['+'] then .error (.badNameCharacter (String.ofList name))
    else .error whole
  | c :: rest =>
    if c = close then .ok rest
    else if c = ')' then .error whole
    else
      match rest, readNumber rest with
      | [], _ => .error (.badNameCharacter (String.ofList name))
      | _, (none, _) => .error whole
      | _, (some n, after) =>
        if 0x7FFFFFFF < n then .error .numberTooLarge
        else
          match after with
          | d :: rest => if d = close then .ok rest else .error whole
          | [] => .error whole

/-- A name or number behind `\k`, with what follows it. A sign behind the name begins a nesting
level. -/
def referredName (close : Char) (s : List Char) :
    Except Error (Reference × List Char × List Char) :=
  match s with
  | [] => .error .emptyName
  | c :: _ => do
    if c = close then throw .emptyName
    let start := ReferenceStart.of c
    let (name, after) := spanName (endsLeveledName close) s
    match start.fault? name (!after.isEmpty) with
    | some fault =>
      throw (fault (if after.isEmpty then unclosedName name else String.ofList name))
    | none =>
      let rest ← closeLeveledName close s name after
      match ← start.reference name (.badName (String.ofList s)) with
      | .number 0 => throw (.badName (String.ofList s))
      | reference => return (reference, name, rest)

end Rubric.Regex
