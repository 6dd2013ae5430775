import Rubric.Fault
import Rubric.Regex.Search

/-! Back-references from the pattern that ends a rule to the match that began it. A backslash in
front of digits, itself not escaped, stands for the text of that group: a run of backslashes in
front of a digit holds such a reference if its length is odd. -/

namespace Rubric.Pattern

/-- The characters that are escaped when a text becomes part of a pattern. -/
def special : List Char :=
  ['(', ')', '[', ']', '\x7b', '\x7d', '?', '*', '+', '-', '|', '^', '$', '\\', '.', '&', '~', '#',
   ' ', '\t', '\n', '\r', '\x0b', '\x0c']

/-- The pattern that matches a text as it is. -/
def escaped (s : List Char) : List Char :=
  s.flatMap fun c => if special.contains c then ['\\', c] else [c]

/-- What stands directly in front of the place that is read. -/
inductive Lead where
  | plain
  /-- so many backslashes, at least one -/
  | slashes (n : Nat)
  /-- a reference, with the digits read so far, the last one first -/
  | digits (ds : List Char)
deriving DecidableEq, Repr

/-- The number of a reference, in digits of which the last comes first. -/
def referenceIndex (ds : List Char) : Outcome Nat :=
  if Json.digitLimit < ds.length then .error (.misuse (.tooManyDigits ds.length))
  else .ok (Text.digitsValue ds.reverse)

/-- The pattern with its references replaced by the escaped texts that `group` gives for their
numbers. -/
def expandFrom (group : Nat → List Char) : Lead → List Char → Outcome (List Char)
  | .plain, [] => .ok []
  | .plain, c :: rest =>
    if c = '\\' then expandFrom group (.slashes 1) rest
    else do return c :: (← expandFrom group .plain rest)
  | .slashes n, [] => .ok (List.replicate n '\\')
  | .slashes n, c :: rest =>
    if c = '\\' then expandFrom group (.slashes (n + 1)) rest
    else if n % 2 = 1 && Text.isAsciiDigit c then do
      return List.replicate (n - 1) '\\' ++ (← expandFrom group (.digits [c]) rest)
    else do
      return List.replicate n '\\' ++ c :: (← expandFrom group .plain rest)
  | .digits ds, [] => do return escaped (group (← referenceIndex ds))
  | .digits ds, c :: rest =>
    if Text.isAsciiDigit c then expandFrom group (.digits (c :: ds)) rest
    else do
      let text := escaped (group (← referenceIndex ds))
      if c = '\\' then return text ++ (← expandFrom group (.slashes 1) rest)
      else return text ++ c :: (← expandFrom group .plain rest)

/-- The pattern with its references replaced. -/
def expand (group : Nat → List Char) (pattern : List Char) : Outcome (List Char) :=
  expandFrom group .plain pattern

/-- Some reference stands in the pattern, behind so many backslashes. -/
def refersFrom (slashes : Nat) : List Char → Bool
  | [] => false
  | c :: rest =>
    if c = '\\' then refersFrom (slashes + 1) rest
    else (slashes % 2 = 1 && Text.isAsciiDigit c) || refersFrom 0 rest

/-- Some reference stands in the pattern. -/
def refers (pattern : List Char) : Bool :=
  refersFrom 0 pattern

/-- The span of a group of a match, 0 for the whole match. Negative numbers count from the last
group back. `none` if there is no such group, `some none` if it took no part. -/
def groupSpan? (m : Regex.Match) (index : Int) : Option (Option Regex.Span) :=
  let spans := some (m.start, m.stop) :: m.groups
  if 0 ≤ index then spans[index.toNat]?
  else if index.natAbs ≤ spans.length then spans[spans.length - index.natAbs]?
  else none

/-- The span of a group that took part and is not empty. -/
def takenSpan? (m : Regex.Match) (index : Int) : Option Regex.Span :=
  match groupSpan? m index with
  | some (some span) => if span.1 < span.2 then some span else none
  | _ => none

/-- The text of a span. -/
def slice (text : Array Char) (span : Regex.Span) : List Char :=
  (text.extract span.1 span.2).toList

/-- The text of a group, empty if it took no part or does not exist. -/
def groupText (text : Array Char) (m : Regex.Match) (index : Nat) : List Char :=
  match groupSpan? m index with
  | some (some span) => slice text span
  | _ => []

/-- The pattern that ends what a match began. -/
def expandWith (text : Array Char) (m : Regex.Match) (pattern : List Char) : Outcome (List Char) :=
  expand (groupText text m) pattern

end Rubric.Pattern
