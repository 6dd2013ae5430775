import Rubric.Bundle.MonokaiTheme
import Rubric.Bundle.NordTheme
import Rubric.Fault

/-! The themes that come with the library. -/

namespace Rubric.Theme

/-- The themes by name. -/
def all : List (String × Theme) :=
  [("monokai", Bundle.monokai), ("nord", Bundle.nord)]

/-- The name of the default theme. -/
def defaultName : String :=
  "nord"

/-- The default theme. -/
def standard : Theme :=
  Bundle.nord

/-- The theme of a name. -/
def named (name : Json) : Outcome Theme :=
  match name with
  | .str s =>
    match all.lookup s with
    | some theme => .ok theme
    | none => .error (.unknownTheme name)
  | _ => .error (.unknownTheme name)

end Rubric.Theme
