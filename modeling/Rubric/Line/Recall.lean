import Rubric.Grammar.Store
import Rubric.Line.Highlight

/-! Highlighting a line with a store at hand. Rules are made ready through the store, and a step
that leads back is known by the places of rules in it. -/

namespace Rubric.Recall

/-- The regions of a text that stands by itself, under an open rule. -/
abbrev Highlights := Array Char → State → Recall (List Region)

/-! ## Captures -/

/-- The regions of a group of a match. -/
def nestedRegions (inner : Highlights) (text : Array Char) (span : Regex.Span) (scope : Scope)
    (rule : CompiledRule) : Recall (List Region) := do
  let regions ← inner (text.extract span.1 span.2) (rule.start scope)
  return regions.map (·.shift span.1)

/-- Gives a group its regions inside of a region that is there already. -/
def splitRegion (inner : Highlights) (text : Array Char) (rule : CompiledRule) (span : Regex.Span)
    (regions : List Region) : Recall (List Region) := do
  let j := regionIndex span.1 regions (regions.length - 1)
  match regions[j]? with
  | none => throw .captureOrder
  | some old =>
    let nested ← nestedRegions inner text span old.scope rule
    let first := if old.start < span.1 then [{ old with stop := span.1 }] else []
    let last := if span.2 < old.stop then [{ old with start := span.2 }] else []
    return regions.take j ++ (first ++ nested ++ last) ++ regions.drop (j + 1)

/-- The regions of a match as far as a position, with those of one more capture. -/
def addCapture (g : Grammar) (inner : Highlights) (text : Array Char) (scope : Scope)
    (m : Regex.Match) (capture : Int × Rule) (position : Nat) (regions : List Region) :
    Recall (Nat × List Region) :=
  match Pattern.takenSpan? m capture.1 with
  | none => return (position, regions)
  | some span => do
    let rule ← g.recallRule capture.2
    if span.1 < position then
      return (position, ← splitRegion inner text rule span regions)
    else
      let gap := if position < span.1 then [⟨position, span.1, scope⟩] else []
      let nested ← nestedRegions inner text span scope rule
      return (span.2, regions ++ gap ++ nested)

/-- The regions of a match as far as `position`, given those of the captures before. -/
def captureRegions (g : Grammar) (inner : Highlights) (text : Array Char) (scope : Scope)
    (m : Regex.Match) : List (Int × Rule) → (position : Nat) → List Region →
    Recall (Nat × List Region)
  | [], position, regions => return (position, regions)
  | capture :: rest, position, regions => do
    let (position, regions) ← addCapture g inner text scope m capture position regions
    captureRegions g inner text scope m rest position regions

/-- The regions of a match. -/
def matchRegions (g : Grammar) (inner : Highlights) (text : Array Char) (scope : Scope)
    (m : Regex.Match) (captures : List (Int × Rule)) : Recall (List Region) := do
  let (position, regions) ← captureRegions g inner text scope m captures m.start []
  if position < m.stop then return regions ++ [⟨position, m.stop, scope⟩] else return regions

/-! ## Steps -/

section
variable (c : LineContext) (inner : Highlights)

/-- The step that closes the innermost rule. -/
def closingStep (state : State) (position : Nat) (rule : Rule) (m : Regex.Match) :
    Recall Step := do
  let regions ← matchRegions c.grammar inner c.text (state.current.scopeAround rule) m
    rule.closingCaptures
  return ⟨state.pop, m.stop, none, LineContext.gap state position m ++ regions⟩

/-- The step that the match of a candidate makes. -/
def candidateStep (state : State) (position : Nat) (anchor : Option Nat) (rule : Rule)
    (m : Regex.Match) : Recall Step := do
  let compiled ← c.grammar.recallRule rule
  let (next, anchor) ← lift (c.enter state anchor m compiled)
  let regions ← matchRegions c.grammar inner c.text (state.current.scope ++ compiled.scopes) m
    compiled.openingCaptures
  return ⟨next, m.stop, anchor, LineContext.gap state position m ++ regions⟩

/-- The step that takes a match. -/
def take (state : State) (position : Nat) (anchor : Option Nat) : Choice → Recall Step
  | .closing rule m => closingStep c inner state position rule m
  | .candidate rule m => candidateStep c inner state position anchor rule m

/-- The next step through the line, if anything matches. -/
def step (state : State) (position : Nat) (anchor : Option Nat) : Recall (Option Step) := do
  match ← lift (c.choose state position anchor) with
  | none => return none
  | some choice => return some (← take c inner state position anchor choice)

/-- Asks the blocks that are left whether the line goes on with them. -/
def continueBlocks (whole : State) : (kept left : List (CompiledRule × Nat)) → Place → Recall Place
  | _, [], place => return place
  | kept, (rule, height) :: left, place => do
    let state := whole.resume height (kept ++ [(rule, height)])
    match ← lift (c.askBlock state.current place.position place.anchor) with
    | none => return { place with state := state.popBlock, anchor := none }
    | some m =>
      let regions ← matchRegions c.grammar inner c.text state.current.scope m
        rule.continuingCaptures
      continueBlocks whole (kept ++ [(rule, height)]) left (place.behind m regions)

/-- Two states at one position are alike if their stacks are of one height and their innermost rules
have one place in the store. The grammar itself has none. -/
abbrev Key := Nat × Option Nat

def keyIn (store : Store) (key : State.Key) : Key :=
  (key.1, key.2.bind store.place?)

/-- Takes steps until nothing matches, or until a step leads back. -/
def steps : (fuel : Nat) → (seen : List Key) → Place → Recall Place
  | 0, _, _ => throw .endless
  | fuel + 1, seen, place => do
    match ← step c inner place.state place.position place.anchor with
    | none => return place
    | some next =>
      let key := keyIn (← get) next.state.key
      if place.position < next.position then steps fuel [key] (place.after next)
      else if seen.contains key then
        return { place.after next with position := place.position }
      else steps fuel (key :: seen) (place.after next)

/-- The state behind a line, and its regions. -/
def highlight (state : State) : Recall (State × List Region) := do
  let place ← continueBlocks c inner state [] state.blocks (.start state)
  let place ← steps c inner (c.stepLimit place.state) [keyIn (← get) place.state.key] place
  let rest :=
    if place.position < c.text.size then
      [⟨place.position, c.text.size, place.state.current.scope⟩]
    else []
  return (place.state, place.regions ++ rest)

end

/-- The state behind a line, and its regions, with captures nested up to a depth. -/
def highlightWithin (engine : Regex.Engine) (g : Grammar) :
    (depth : Nat) → Array Char → State → (firstLine : Bool) → Recall (State × List Region)
  | 0, _, _, _ => throw .nesting
  | depth + 1, text, state, firstLine =>
    let c : LineContext := {
      engine, grammar := g, text, firstLine
      inner := fun text state => do
        return (← Rubric.highlightWithin engine g depth text state false).2 }
    let inner (text : Array Char) (state : State) : Recall (List Region) := do
      return (← highlightWithin engine g depth text state false).2
    highlight c inner state

end Rubric.Recall
