import Rubric.Line.State
import Rubric.Pattern.Backreference

/-! The regions of a match. A capture gives its group regions of their own, in which its rule goes
to work as if the text of the group were a line. A group that begins inside of what is covered
already splits the region around it. -/

namespace Rubric

/-- The regions of a text that stands by itself, under an open rule. -/
abbrev Highlights := Array Char → State → Outcome (List Region)

/-- The regions of a group of a match. -/
def nestedRegions (inner : Highlights) (text : Array Char) (span : Regex.Span) (scope : Scope)
    (rule : CompiledRule) : Outcome (List Region) := do
  let regions ← inner (text.extract span.1 span.2) (rule.start scope)
  return regions.map (·.shift span.1)

/-- The index of the region that a position falls into, looked for from the index `j` down. -/
def regionIndex (position : Nat) (regions : List Region) : (j : Nat) → Nat
  | 0 => 0
  | j + 1 =>
    match regions[j]? with
    | some r => if position < r.stop then regionIndex position regions j else j + 1
    | none => j + 1

/-- Gives a group its regions inside of a region that is there already. -/
def splitRegion (inner : Highlights) (text : Array Char) (rule : CompiledRule) (span : Regex.Span)
    (regions : List Region) : Outcome (List Region) := do
  let j := regionIndex span.1 regions (regions.length - 1)
  match regions[j]? with
  | none => throw .captureOrder
  | some old =>
    let nested ← nestedRegions inner text span old.scope rule
    let first := if old.start < span.1 then [{ old with stop := span.1 }] else []
    let last := if span.2 < old.stop then [{ old with start := span.2 }] else []
    return regions.take j ++ (first ++ nested ++ last) ++ regions.drop (j + 1)

/-- The regions of a match as far as a position, with those of one more capture. -/
def addCapture (g : Grammar) (inner : Highlights) (text : Array Char) (scope : Scope)
    (m : Regex.Match) (capture : Int × Rule) (position : Nat) (regions : List Region) :
    Outcome (Nat × List Region) :=
  match Pattern.takenSpan? m capture.1 with
  | none => .ok (position, regions)
  | some span => do
    let rule ← g.compileRule capture.2
    if span.1 < position then
      return (position, ← splitRegion inner text rule span regions)
    else
      let gap := if position < span.1 then [⟨position, span.1, scope⟩] else []
      let nested ← nestedRegions inner text span scope rule
      return (span.2, regions ++ gap ++ nested)

/-- The regions of a match as far as `position`, given those of the captures before. -/
def captureRegions (g : Grammar) (inner : Highlights) (text : Array Char) (scope : Scope)
    (m : Regex.Match) : List (Int × Rule) → (position : Nat) → List Region →
    Outcome (Nat × List Region)
  | [], position, regions => .ok (position, regions)
  | capture :: rest, position, regions => do
    let (position, regions) ← addCapture g inner text scope m capture position regions
    captureRegions g inner text scope m rest position regions

/-- The regions of a match. -/
def matchRegions (g : Grammar) (inner : Highlights) (text : Array Char) (scope : Scope)
    (m : Regex.Match) (captures : List (Int × Rule)) : Outcome (List Region) := do
  let (position, regions) ← captureRegions g inner text scope m captures m.start []
  if position < m.stop then return regions ++ [⟨position, m.stop, scope⟩] else return regions

end Rubric
