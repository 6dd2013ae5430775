/-! Text inside of markup. -/

namespace Rubric.Markup

/-- The character as text of a document: the three characters that could begin or end markup or an
entity become entities. -/
def escapeChar (c : Char) : List Char :=
  if c = '&' then ['&', 'a', 'm', 'p', ';']
  else if c = '<' then ['&', 'l', 't', ';']
  else if c = '>' then ['&', 'g', 't', ';']
  else [c]

/-- The text with every character escaped. -/
def escapeText (s : List Char) : List Char :=
  s.flatMap escapeChar

/-- The text with every character escaped. -/
def escape (s : String) : String :=
  String.ofList (escapeText s.toList)

end Rubric.Markup
