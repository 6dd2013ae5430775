import Rubric.Regex.Escape

/-! What may stand between and behind the parts of a pattern: comments, ignored blanks, and
quantifiers. -/

namespace Rubric.Regex

/-- What the reader of a pattern is passing over. -/
inductive Ignored where
  | nothing
  /-- a comment between `(?#` and the next closing parenthesis that is not escaped -/
  | comment
  /-- a comment up to the end of the line -/
  | line
deriving DecidableEq, Repr

/-- The blanks without a meaning in an extended pattern. -/
def isIgnoredBlank (c : Char) : Bool :=
  c == ' ' || c == '\t' || c == '\n' || c == '\r' || c == '\x0c'

/-- Passes over comments and, in an extended pattern, blanks and line comments. -/
def skipIgnored (extended : Bool) : Ignored → List Char → Except Error (List Char)
  | .nothing, [] => .ok []
  | .nothing, c :: rest =>
    if extended && isIgnoredBlank c then skipIgnored extended .nothing rest
    else if extended && c == '#' then skipIgnored extended .line rest
    else
      match c, rest with
      | '(', '?' :: '#' :: rest => skipIgnored extended .comment rest
      | c, rest => .ok (c :: rest)
  | .comment, [] => .error .endInGroup
  | .comment, '\\' :: _ :: rest => skipIgnored extended .comment rest
  | .comment, ')' :: rest => skipIgnored extended .nothing rest
  | .comment, _ :: rest => skipIgnored extended .comment rest
  | .line, [] => .ok []
  | .line, '\n' :: rest => skipIgnored extended .nothing rest
  | .line, _ :: rest => skipIgnored extended .line rest

/-- How often a part of a pattern may match, and which number is preferred. -/
structure Quantifier where
  min : Nat
  max : Option Nat
  lazy : Bool := false
  /-- matched with its preferred number only -/
  possessive : Bool := false
deriving DecidableEq, Repr

namespace Quantifier

/-- The quantifiers written with one sign, lazy ones with a question mark behind it. -/
inductive Sign where
  | optional
  | any
  | some
deriving DecidableEq, Repr

/-- The sign of a quantifier that has one. -/
def sign? (q : Quantifier) : Option Sign :=
  match q.min, q.max with
  | 0, .some 1 => Option.some .optional
  | 0, none => Option.some .any
  | 1, none => Option.some .some
  | _, _ => none

/-- The quantifier of a sign. -/
def ofSign (s : Sign) (lazy : Bool) : Quantifier :=
  match s with
  | .optional => ⟨0, Option.some 1, lazy, false⟩
  | .any => ⟨0, none, lazy, false⟩
  | .some => ⟨1, none, lazy, false⟩

/-- What a quantifier makes of the quantifier `first` in front of it: one quantifier, or two that
are simpler. `none` if they stay as they are. The ways to match and their order are the same. -/
def combined (q first : Quantifier) : Option (Quantifier × Option Quantifier) :=
  match first.sign?, first.lazy, q.sign?, q.lazy with
  | .some .any, true, .some _, _ => Option.some (first, none)
  | .some .any, false, .some .optional, true | .some .any, false, .some .any, true
  | .some .some, false, .some .any, true =>
    Option.some (ofSign .some false, Option.some (ofSign .optional true))
  | .some .any, false, .some _, _ => Option.some (first, none)
  | .some .some, false, .some .optional, false | .some .some, false, .some .any, false
  | .some .optional, false, .some .any, false | .some .optional, false, .some .some, false =>
    Option.some (ofSign .any false, none)
  | .some .some, false, .some .some, _ => Option.some (first, none)
  | .some .optional, false, .some .optional, _ => Option.some (q, none)
  | .some .optional, false, .some .any, true => Option.some (q, none)
  | .some .optional, true, .some .optional, _ => Option.some (first, none)
  | .some .optional, true, .some _, _ | .some .some, true, .some .optional, true
  | .some .some, true, .some .any, true => Option.some (ofSign .any true, none)
  | .some .some, true, .some .some, true => Option.some (first, none)
  | .some _, _, .some _, _ => none
  | _, _, _, _ =>
    if Option.some q.min = q.max && Option.some first.min = first.max &&
        q.min * first.min ≤ 0x7FFFFFFF then
      Option.some (⟨q.min * first.min, Option.some (q.min * first.min), false, false⟩, none)
    else none

end Quantifier

/-- The largest number that an interval may name. -/
def intervalLimit : Nat :=
  100000

/-- Reads a decimal number, `none` if there is no digit. -/
def readNumber (s : List Char) : Option Nat × List Char :=
  match readDigits 10 s.length 0 0 s with
  | (_, 0, _) => (none, s)
  | (value, _, rest) => (some value, rest)

/-- A number of an interval. -/
def readBound (s : List Char) : Except Error (Option Nat × List Char) :=
  match readNumber s with
  | (some n, rest) => if intervalLimit < n then .error .repeatTooLarge else .ok (some n, rest)
  | (none, rest) => .ok (none, rest)

/-- A question mark makes a quantifier lazy. -/
def withLaziness (q : Quantifier) : List Char → Quantifier × List Char
  | '?' :: rest => ({ q with lazy := true }, rest)
  | rest => (q, rest)

/-- A question mark makes a quantifier lazy, a plus sign possessive. -/
def withManner (q : Quantifier) : List Char → Quantifier × List Char
  | '+' :: rest => ({ q with possessive := true }, rest)
  | rest => withLaziness q rest

/-- Behind an opening brace: `n}`, `n,}`, `,n}` or `n,m}`. An interval whose first number is the
larger one is possessive. A single number is always greedy. `none` if the brace stands for
itself. -/
def interval? (s : List Char) : Except Error (Option (Quantifier × List Char)) := do
  match ← readBound s with
  | (low, ',' :: rest) =>
    match low, ← readBound rest with
    | none, (none, _) => pure none
    | low, (high, '\x7d' :: rest) =>
      let low := low.getD 0
      match high with
      | none => pure (some (withLaziness ⟨low, none, false, false⟩ rest))
      | some high =>
        if high < low then pure (some (⟨high, some low, false, true⟩, rest))
        else pure (some (withLaziness ⟨low, some high, false, false⟩ rest))
    | _, _ => pure none
  | (some n, '\x7d' :: rest) => pure (some (⟨n, some n, false, false⟩, rest))
  | _ => pure none

/-- The quantifier that stands here, if any, with what follows it. -/
def quantifier? : List Char → Except Error (Option (Quantifier × List Char))
  | '*' :: rest => .ok (some (withManner ⟨0, none, false, false⟩ rest))
  | '+' :: rest => .ok (some (withManner ⟨1, none, false, false⟩ rest))
  | '?' :: rest => .ok (some (withManner ⟨0, some 1, false, false⟩ rest))
  | '\x7b' :: rest => interval? rest
  | _ => .ok none

end Rubric.Regex
