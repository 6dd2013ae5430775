import Rubric.Text.Category
import Rubric.Text.Trait

/-! Properties of characters: the classes of the escapes `\w`, `\d`, `\s` and `\h`, general
categories, and sets that the character database lists. -/

namespace Rubric.Regex

open Text (Category CodeSet)

/-- A property that a pattern can ask for. -/
inductive Property where
  /-- letters, marks, numbers and connectors -/
  | word
  | alphabetic
  | upper
  | lower
  | space
  | blank
  | graph
  | print
  | hexDigit
  /-- every character -/
  | any
  | ascii
  | category (c : Category)
  /-- a group of categories -/
  | letter | casedLetter | mark | number | punctuation | symbol | separator | other
  | table (set : CodeSet)
deriving DecidableEq, Repr

/-- An upper-case character. -/
def isUpper (c : Char) : Bool :=
  Category.latest c == .lu || (128 ≤ c.toNat && Text.otherUppercase.contains c.toNat)

/-- A lower-case character. -/
def isLower (c : Char) : Bool :=
  Category.latest c == .ll || (128 ≤ c.toNat && Text.otherLowercase.contains c.toNat)

/-- A letter in the wide sense. Among the first 128 code points these are the letters. -/
def isAlphabetic (c : Char) : Bool :=
  if c.toNat < 128 then ('A' ≤ c && c ≤ 'Z') || ('a' ≤ c && c ≤ 'z')
  else
    let category := Category.latest c
    category.isLetter || category == .nl || Text.otherAlphabetic.contains c.toNat ||
      isUpper c || isLower c

/-- A word character. Among the first 128 code points these are letters, digits and the low
line. -/
def isWordChar (c : Char) : Bool :=
  if c.toNat < 128 then
    ('a' ≤ c && c ≤ 'z') || ('A' ≤ c && c ≤ 'Z') || ('0' ≤ c && c ≤ '9') || c == '_'
  else
    let category := Category.latest c
    category.isLetter || category.isMark || category.isNumber || category == .pc ||
      Text.circledLetters.contains c.toNat

/-- White space. -/
def isSpace (c : Char) : Bool :=
  if c.toNat < 128 then c == ' ' || (0x09 ≤ c.toNat && c.toNat ≤ 0x0D)
  else c.toNat == 0x85 || (Category.latest c).isSeparator

/-- A character with a shape: neither white space, control, surrogate nor unassigned. -/
def isGraph (c : Char) : Bool :=
  !isSpace c &&
    (match Category.latest c with
      | .cc | .cs | .cn => false
      | _ => true)

/-- The property holds of the character. -/
def Property.holds (p : Property) (c : Char) : Bool :=
  match p with
  | word => isWordChar c
  | alphabetic => isAlphabetic c
  | upper => isUpper c
  | lower => isLower c
  | space => isSpace c
  | blank => c == '\t' || Category.latest c == .zs
  | graph => isGraph c
  | print => isGraph c || Category.latest c == .zs
  | hexDigit => ('0' ≤ c && c ≤ '9') || ('a' ≤ c && c ≤ 'f') || ('A' ≤ c && c ≤ 'F')
  | any => true
  | ascii => c.toNat < 128
  | category k => Category.latest c == k
  | letter => (Category.latest c).isLetter
  | casedLetter =>
    (match Category.latest c with
      | .lu | .ll | .lt => true
      | _ => false)
  | mark => (Category.latest c).isMark
  | number => (Category.latest c).isNumber
  | punctuation => (Category.latest c).isPunctuation
  | symbol => (Category.latest c).isSymbol
  | separator => (Category.latest c).isSeparator
  | other => (Category.latest c).isOther
  | table set => set.contains c.toNat

end Rubric.Regex
