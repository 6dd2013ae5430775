import Rubric.Grammar.Rule
import Rubric.Pattern.Backreference
import Rubric.Pattern.Search

/-! The check of the patterns of a grammar before its first use. A pattern with back-references is
left out: it is none before the texts are put in. -/

namespace Rubric

/-- A pattern that closes or continues a rule, unless it has back-references. It has to be a text.
-/
def withoutReferences : Option Json → List (Except Misuse Json)
  | none => []
  | some (.str s) => if Pattern.refers s.toList then [] else [.ok (.str s)]
  | some v => [.error (.wrongKind v)]

mutual

/-- The patterns of a rule to be checked: its own, then those of its captures, then those of its
children. -/
def Rule.checked : Rule → List (Except Misuse Json)
  | ⟨_, single, opening, closing, continuing, _, captures, openingCaptures, closingCaptures,
      continuingCaptures, _, children⟩ =>
    (single.toList ++ opening.toList).map .ok ++
      (withoutReferences closing ++ withoutReferences continuing) ++
      (capturesChecked captures ++ capturesChecked openingCaptures ++
        capturesChecked closingCaptures ++ capturesChecked continuingCaptures) ++
      rulesChecked children

def capturesChecked : List (Int × Rule) → List (Except Misuse Json)
  | [] => []
  | (_, rule) :: rest => rule.checked ++ capturesChecked rest

def rulesChecked : List Rule → List (Except Misuse Json)
  | [] => []
  | rule :: rest => rule.checked ++ rulesChecked rest

end

namespace Grammar

/-- The patterns of a grammar to be checked: those of its patterns, then those of its repository. -/
def checked (g : Grammar) : List (Except Misuse Json) :=
  rulesChecked g.patterns ++ rulesChecked (g.repository.map (·.2))

/-- The pattern is a regular expression. The fault names the pattern, if it can be put in words. -/
def checkPattern (engine : Regex.Engine) (scope : String) (pattern : Except Misuse Json) :
    Outcome Unit := do
  match ← pattern.mapError .misuse with
  | .str s =>
    match engine.compile s.toList with
    | .ok _ => return
    | .error e => throw (if e.message?.isSome then .unfit scope (.regex s e) else .regex e)
  | v => throw (.misuse (.lacks v "encode"))

/-- All patterns are regular expressions. -/
def check (engine : Regex.Engine) (scope : String) (g : Grammar) : Outcome Unit :=
  g.checked.forM (checkPattern engine scope)

end Grammar

end Rubric
