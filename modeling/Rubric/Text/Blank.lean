/-! White space. The set is Unicode's White_Space together with the four information separators
U+001C to U+001F; splitting and trimming of names, selectors and numbers go by it. -/

namespace Rubric.Text

/-- Closed ranges of the white-space code points, ascending and apart. -/
def blankRanges : List (Nat × Nat) :=
  [(0x09, 0x0D), (0x1C, 0x20), (0x85, 0x85), (0xA0, 0xA0), (0x1680, 0x1680), (0x2000, 0x200A),
   (0x2028, 0x2029), (0x202F, 0x202F), (0x205F, 0x205F), (0x3000, 0x3000)]

/-- White space, as splitting and trimming see it. -/
def isBlank (c : Char) : Bool :=
  blankRanges.any fun (first, last) => first ≤ c.toNat && c.toNat ≤ last

/-- The text without the blanks at its start. -/
def trimLeft (s : List Char) : List Char :=
  s.dropWhile isBlank

/-- The text without the blanks at its end. -/
def trimRight (s : List Char) : List Char :=
  (s.reverse.dropWhile isBlank).reverse

/-- The text without the blanks at either end. -/
def trim (s : List Char) : List Char :=
  trimRight (trimLeft s)

/-- The maximal runs of non-blank characters; `word` is the run being read, last character
first. -/
def wordsFrom (word : List Char) : List Char → List (List Char)
  | [] => if word.isEmpty then [] else [word.reverse]
  | c :: rest =>
    if isBlank c then
      if word.isEmpty then wordsFrom [] rest else word.reverse :: wordsFrom [] rest
    else wordsFrom (c :: word) rest

/-- The maximal runs of non-blank characters, in order. -/
def words (s : String) : List String :=
  (wordsFrom [] s.toList).map String.ofList

end Rubric.Text
