import Rubric.Text.Case

/-! Letters that are spelled with several letters when case does not count, such as the sharp s,
which is spelled with two plain ones, and ligatures. No letter of a spelling is itself spelled with
several letters. -/

namespace Rubric.Text

/-- Spellings, each with the letters that it stands for. The letters of one spelling differ in case
at most. -/
def foldings : List (List Nat × List Nat) :=
  [([0x73, 0x73], [0xDF, 0x1E9E]), ([0x69, 0x307], [0x130]), ([0x2BC, 0x6E], [0x149]),
   ([0x6A, 0x30C], [0x1F0]), ([0x3B9, 0x308, 0x301], [0x390, 0x1FD3]),
   ([0x3C5, 0x308, 0x301], [0x3B0, 0x1FE3]), ([0x565, 0x582], [0x587]), ([0x68, 0x331], [0x1E96]),
   ([0x74, 0x308], [0x1E97]), ([0x77, 0x30A], [0x1E98]), ([0x79, 0x30A], [0x1E99]),
   ([0x61, 0x2BE], [0x1E9A]), ([0x3C5, 0x313], [0x1F50]), ([0x3C5, 0x313, 0x300], [0x1F52]),
   ([0x3C5, 0x313, 0x301], [0x1F54]), ([0x3C5, 0x313, 0x342], [0x1F56]),
   ([0x1F00, 0x3B9], [0x1F80, 0x1F88]), ([0x1F01, 0x3B9], [0x1F81, 0x1F89]),
   ([0x1F02, 0x3B9], [0x1F82, 0x1F8A]), ([0x1F03, 0x3B9], [0x1F83, 0x1F8B]),
   ([0x1F04, 0x3B9], [0x1F84, 0x1F8C]), ([0x1F05, 0x3B9], [0x1F85, 0x1F8D]),
   ([0x1F06, 0x3B9], [0x1F86, 0x1F8E]), ([0x1F07, 0x3B9], [0x1F87, 0x1F8F]),
   ([0x1F20, 0x3B9], [0x1F90, 0x1F98]), ([0x1F21, 0x3B9], [0x1F91, 0x1F99]),
   ([0x1F22, 0x3B9], [0x1F92, 0x1F9A]), ([0x1F23, 0x3B9], [0x1F93, 0x1F9B]),
   ([0x1F24, 0x3B9], [0x1F94, 0x1F9C]), ([0x1F25, 0x3B9], [0x1F95, 0x1F9D]),
   ([0x1F26, 0x3B9], [0x1F96, 0x1F9E]), ([0x1F27, 0x3B9], [0x1F97, 0x1F9F]),
   ([0x1F60, 0x3B9], [0x1FA0, 0x1FA8]), ([0x1F61, 0x3B9], [0x1FA1, 0x1FA9]),
   ([0x1F62, 0x3B9], [0x1FA2, 0x1FAA]), ([0x1F63, 0x3B9], [0x1FA3, 0x1FAB]),
   ([0x1F64, 0x3B9], [0x1FA4, 0x1FAC]), ([0x1F65, 0x3B9], [0x1FA5, 0x1FAD]),
   ([0x1F66, 0x3B9], [0x1FA6, 0x1FAE]), ([0x1F67, 0x3B9], [0x1FA7, 0x1FAF]),
   ([0x1F70, 0x3B9], [0x1FB2]), ([0x3B1, 0x3B9], [0x1FB3, 0x1FBC]), ([0x3AC, 0x3B9], [0x1FB4]),
   ([0x3B1, 0x342], [0x1FB6]), ([0x3B1, 0x342, 0x3B9], [0x1FB7]), ([0x1F74, 0x3B9], [0x1FC2]),
   ([0x3B7, 0x3B9], [0x1FC3, 0x1FCC]), ([0x3AE, 0x3B9], [0x1FC4]), ([0x3B7, 0x342], [0x1FC6]),
   ([0x3B7, 0x342, 0x3B9], [0x1FC7]), ([0x3B9, 0x308, 0x300], [0x1FD2]), ([0x3B9, 0x342], [0x1FD6]),
   ([0x3B9, 0x308, 0x342], [0x1FD7]), ([0x3C5, 0x308, 0x300], [0x1FE2]), ([0x3C1, 0x313], [0x1FE4]),
   ([0x3C5, 0x342], [0x1FE6]), ([0x3C5, 0x308, 0x342], [0x1FE7]), ([0x1F7C, 0x3B9], [0x1FF2]),
   ([0x3C9, 0x3B9], [0x1FF3, 0x1FFC]), ([0x3CE, 0x3B9], [0x1FF4]), ([0x3C9, 0x342], [0x1FF6]),
   ([0x3C9, 0x342, 0x3B9], [0x1FF7]), ([0x66, 0x66], [0xFB00]), ([0x66, 0x69], [0xFB01]),
   ([0x66, 0x6C], [0xFB02]), ([0x66, 0x66, 0x69], [0xFB03]), ([0x66, 0x66, 0x6C], [0xFB04]),
   ([0x73, 0x74], [0xFB05, 0xFB06]), ([0x574, 0x576], [0xFB13]), ([0x574, 0x565], [0xFB14]),
   ([0x574, 0x56B], [0xFB15]), ([0x57E, 0x576], [0xFB16]), ([0x574, 0x56D], [0xFB17])]

/-- The letters that a spelling stands for. -/
def spelledLetters (spelling : List Nat) : List Nat :=
  (foldings.lookup spelling).getD []

/-- The spelling of a letter by several letters, if it has one. -/
def spelling? (letter : Nat) : Option (List Nat) :=
  if letter < 0xDF then none
  else (foldings.find? fun (_, letters) => letters.contains letter).map (·.1)

/-- The letters are the same or differ in case alone. -/
def sameLetter (a b : Nat) : Bool :=
  a == b || (caseVariants (Char.ofNat a)).contains (Char.ofNat b)

/-- The spelling that these letters make in some case, if there is one. -/
def spellingOf? (letters : List Nat) : Option (List Nat) :=
  (foldings.find? fun (spelling, _) =>
    spelling.length == letters.length && (spelling.zip letters).all fun (a, b) => sameLetter a b)
  |>.map (·.1)

/-- The first part of a text for a comparison without regard to case, with the number of its
letters: the longest spelling, or a single letter. A letter with a spelling is given by it. -/
def firstPart (letter : Nat) (more : List Nat) : List Nat × Nat :=
  match spellingOf? (letter :: more.take 2), spellingOf? (letter :: more.take 1) with
  | some spelling, _ | none, some spelling => (spelling, spelling.length)
  | none, none => ((spelling? letter).getD [letter], 1)

/-- The parts of a text behind its first `covered` letters. -/
def foldedParts : (covered : Nat) → List Nat → List (List Nat)
  | _, [] => []
  | covered + 1, _ :: rest => foldedParts covered rest
  | 0, letter :: rest =>
    let (part, size) := firstPart letter rest
    part :: foldedParts (size - 1) rest

end Rubric.Text
