/-! Splitting a text at every occurrence of one character. The pieces, joined by that character,
give the text back, so there is always one piece more than there are separators. -/

namespace Rubric.Text

/-- The pieces between occurrences of `sep`; `piece` is the piece being read, last character
first. -/
def splitFrom (sep : Char) (piece : List Char) : List Char → List (List Char)
  | [] => [piece.reverse]
  | c :: rest =>
    if c = sep then piece.reverse :: splitFrom sep [] rest else splitFrom sep (c :: piece) rest

/-- The pieces between occurrences of `sep`, empty ones included. -/
def splitAt (sep : Char) (s : List Char) : List (List Char) :=
  splitFrom sep [] s

/-- The pieces between occurrences of `sep`, empty ones included. -/
def split (sep : Char) (s : String) : List String :=
  (splitAt sep s.toList).map String.ofList

/-- The lines of a source text. A newline at the end opens one more, empty, line. -/
def lines (code : String) : List String :=
  split '\n' code

/-- Line ends of all three kinds become one newline: a return with a newline behind it, and a
return alone. -/
def unifyNewlines : List Char → List Char
  | [] => []
  | '\r' :: '\n' :: rest => '\n' :: unifyNewlines rest
  | '\r' :: rest => '\n' :: unifyNewlines rest
  | c :: rest => c :: unifyNewlines rest

theorem splitFrom_ne_nil (sep : Char) (piece s : List Char) : splitFrom sep piece s ≠ [] := by
  induction s generalizing piece with
  | nil => simp [splitFrom]
  | cons c rest ih =>
    unfold splitFrom
    split
    · simp
    · exact ih _

end Rubric.Text
