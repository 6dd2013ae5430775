import Rubric.CallStack
import Rubric.Text.Integer
import Rubric.Text.Split

/-! Grammars from JSON values and from files. -/

namespace Rubric

/-- The number of a group, as the name of a member writes it. -/
def groupNumber (name : String) : Except Misuse Int :=
  match Text.integer? name.toList with
  | some (negative, digits) =>
    if Json.digitLimit < digits.length then .error (.tooManyDigits digits.length)
    else .ok (Text.integerValue negative digits)
  | none => .error (.badInteger name)

/-- A member that is neither absent nor null. -/
def given? (members : List (String × Json)) (name : String) : Option Json :=
  match Json.member? members name with
  | none | some .null => none
  | some v => some v

/-- The scopes that a text names, none if it is absent. -/
def scopeNames (members : List (String × Json)) (name : String) : Except Misuse (List String) :=
  match given? members name with
  | some v => v.words
  | none => .ok []

/-- A member that counts as set. -/
def isSetMember (members : List (String × Json)) (name : String) : Bool :=
  ((Json.member? members name).getD .null).isSet

/-- Captures of their own for both ends of a rule. Captures of the whole rule are those of both its
ends, if the rule has two ends. -/
def sharedCaptures (opens closes continues : Bool) (rule : Rule) : Rule :=
  if opens && closes && !rule.captures.isEmpty then
    { rule with
      captures := []
      openingCaptures := rule.captures
      closingCaptures := rule.captures }
  else if opens && continues && !rule.captures.isEmpty then
    { rule with
      captures := []
      openingCaptures := rule.captures
      continuingCaptures := rule.captures }
  else rule

/-- The captures that a member holds, by number. -/
def readCaptures (read : Json → Except Misuse Rule) (members : List (String × Json))
    (name : String) : Except Misuse (List (Int × Rule)) := do
  match Json.member? members name with
  | none => return []
  | some v => (← v.entries).mapM fun (key, v) => do return (← groupNumber key, ← read v)

/-- The rules that a member holds. -/
def readRules (read : Json → Except Misuse Rule) (v : Json) : Except Misuse (List Rule) := do
  (← v.walk).mapM read

/-- A rule from its JSON value, nested up to a depth. -/
def Rule.read : (depth : Nat) → Json → Except Misuse Rule
  | 0, v => .error (.lacks v "get")
  | depth + 1, v => do
    let members ← v.asObject
    let captures ← readCaptures (Rule.read depth) members "captures"
    let openingCaptures ← readCaptures (Rule.read depth) members "beginCaptures"
    let closingCaptures ← readCaptures (Rule.read depth) members "endCaptures"
    let continuingCaptures ← readCaptures (Rule.read depth) members "whileCaptures"
    let scopes ← scopeNames members "name"
    let contentScopes ← scopeNames members "contentName"
    let children ← match Json.member? members "patterns" with
      | none => pure []
      | some v => readRules (Rule.read depth) v
    return sharedCaptures (isSetMember members "begin") (isSetMember members "end")
      (isSetMember members "while")
      { scopes, contentScopes, captures, openingCaptures, closingCaptures, continuingCaptures,
        children
        single := given? members "match"
        opening := given? members "begin"
        closing := given? members "end"
        continuing := given? members "while"
        reference := given? members "include" }

/-- A rule from its JSON value. -/
def Rule.ofJson (v : Json) : Except Misuse Rule :=
  Rule.read (v.depth + 1) v

/-- The parts of a grammar, from the members of its JSON value. -/
def Grammar.ofMembers (members : List (String × Json)) : Except Misuse Grammar := do
  let some scopeName := Json.member? members "scopeName" | throw (.missing "scopeName")
  let some patterns := Json.member? members "patterns" | throw (.missing "patterns")
  let patterns ← readRules Rule.ofJson patterns
  let repository ← match Json.member? members "repository" with
    | none => pure []
    | some v => (← v.entries).mapM fun (name, v) => do return (name, ← Rule.ofJson v)
  return { scopeName, patterns, repository }

/-- The scope name that a grammar declares. -/
def Grammar.declared (members : List (String × Json)) : Json :=
  (Json.member? members "scopeName").getD (.str "<unknown>")

/-- A grammar from its JSON value. A fault goes under the scope name that the grammar declares,
which is written in the message. -/
def Grammar.ofJson (stack : CallStack) : Json → Outcome Grammar
  | .obj members => do
    stack.hold (.rules (.obj members))
    match Grammar.ofMembers members with
    | .ok g => return g
    | .error m =>
      stack.write (Grammar.declared members)
      throw (.unfit (Grammar.declared members).text (.misuse m))
  | _ => .error (.unfit "<unknown>" .notAnObject)

/-- A grammar from the bytes of a file. A file that holds no document is named in the fault. -/
def Grammar.ofBytes (stack : CallStack) (name : String) (bytes : List UInt8) : Outcome Grammar :=
  match Text.ofBytes bytes with
  | .error e => .error (.unfit name (.encoding e))
  | .ok text => do
    let text := Text.unifyNewlines text
    stack.hold (.document text)
    match Json.parse text with
    | .error .unpaired => throw (.document .unpaired)
    | .error e => throw (.unfit name (.document e))
    | .ok v => Grammar.ofJson stack v

end Rubric
