/-! Anchors that must not match. `\A` may match on the first line of a document only, `\G` only
where the match before it ended. Where one of them may not match, its letter in the pattern is
masked: the character U+FFFF takes its place, which no document is expected to hold. A backslash and
the character behind it are one unit, so the letter behind an escaped backslash stays. -/

namespace Rubric.Pattern

/-- The character in the place of a masked letter. -/
def masked : Char :=
  '\uffff'

/-- The characters of a pair stand next to each other in the text. -/
def hasPair (a b : Char) : List Char → Bool
  | [] => false
  | [_] => false
  | c :: d :: rest => (c == a && d == b) || hasPair a b (d :: rest)

/-- The text with the letter of each escape among `letters` masked, read from left to right. -/
def maskEach (letters : List Char) : List Char → List Char
  | '\\' :: c :: rest => '\\' :: (if letters.contains c then masked else c) :: maskEach letters rest
  | c :: rest => c :: maskEach letters rest
  | [] => []

/-- The text with the letter of each escape among `letters` masked. A text in which none of these
letters stands behind a backslash is left alone. -/
def mask (letters : List Char) (s : List Char) : List Char :=
  if letters.any fun c => hasPair '\\' c s then maskEach letters s else s

/-- Which of the two anchors may match. -/
structure Anchoring where
  /-- `\A`: the line is the first one -/
  firstLine : Bool
  /-- `\G`: the search begins where the match before it ended -/
  here : Bool
deriving DecidableEq, Repr

/-- The letters of the anchors that may not match. -/
def Anchoring.barred (a : Anchoring) : List Char :=
  (if a.firstLine then [] else ['A']) ++ (if a.here then [] else ['G'])

/-- The pattern in which only the anchors allowed can match. -/
def anchored (a : Anchoring) (pattern : List Char) : List Char :=
  mask a.barred pattern

end Rubric.Pattern
