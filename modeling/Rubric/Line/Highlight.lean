import Rubric.Line.Step

/-! Highlighting a line. First the open blocks are asked, from the outside in, whether the line goes
on with them; the first that does not is closed with all that it holds. Then steps are taken until
nothing matches any more. A step that consumes nothing and leads back to a state that the same
position has seen before ends the line too, for it would lead there again and again. -/

namespace Rubric

/-- Where a line stands. -/
structure Place where
  state : State
  position : Nat
  anchor : Option Nat
  regions : List Region

namespace Place

/-- The start of a line. -/
def start (state : State) : Place :=
  ⟨state, 0, if state.current.boundary then some 0 else none, []⟩

/-- The place behind a match that a block goes on with. -/
def behind (place : Place) (m : Regex.Match) (regions : List Region) : Place :=
  { place with position := m.stop, anchor := some m.stop, regions := place.regions ++ regions }

/-- The place behind a step. -/
def after (place : Place) (next : Step) : Place :=
  ⟨next.state, next.position, next.anchor, place.regions ++ next.regions⟩

end Place

namespace LineContext

/-- The match by which the line goes on with the innermost rule, if it does. -/
def askBlock (c : LineContext) (entry : Entry) (position : Nat) (anchor : Option Nat) :
    Outcome (Option Regex.Match) :=
  match entry.ending with
  | some pattern =>
    Pattern.findAt c.engine (c.anchoring position anchor) (.str (String.ofList pattern)) c.text
      position
  | none => .error (.regex .unmatchedClose)

/-- Asks the blocks that are left whether the line goes on with them. `kept` are those that said so.
-/
def continueBlocks (c : LineContext) (whole : State) :
    (kept left : List (CompiledRule × Nat)) → Place → Outcome Place
  | _, [], place => .ok place
  | kept, (rule, height) :: left, place => do
    let state := whole.resume height (kept ++ [(rule, height)])
    match ← c.askBlock state.current place.position place.anchor with
    | none => return { place with state := state.popBlock, anchor := none }
    | some m =>
      let regions ← c.regionsOf state.current.scope m rule.continuingCaptures
      c.continueBlocks whole (kept ++ [(rule, height)]) left (place.behind m regions)

/-- Takes steps until nothing matches, or until a step leads back. `seen` are the states at this
position. -/
def steps (c : LineContext) : (fuel : Nat) → (seen : List State.Key) → Place → Outcome Place
  | 0, _, _ => .error .endless
  | fuel + 1, seen, place => do
    match ← c.step place.state place.position place.anchor with
    | none => return place
    | some next =>
      let key := next.state.key
      if place.position < next.position then c.steps fuel [key] (place.after next)
      else if seen.contains key then
        return { place.after next with position := place.position }
      else c.steps fuel (key :: seen) (place.after next)

/-- More steps than a line can take. At one position a stack grows by one rule of the grammar after
another, and each of its states is met once. -/
def stepLimit (c : LineContext) (state : State) : Nat :=
  let rules := c.grammar.ruleCount + 1
  let height := state.height + (c.text.size + 1) * rules
  (c.text.size + 1) * (height * rules + 2)

/-- The state behind a line, and its regions. -/
def highlight (c : LineContext) (state : State) : Outcome (State × List Region) := do
  let place ← c.continueBlocks state [] state.blocks (.start state)
  let place ← c.steps (c.stepLimit place.state) [place.state.key] place
  let rest :=
    if place.position < c.text.size then
      [⟨place.position, c.text.size, place.state.current.scope⟩]
    else []
  return (place.state, place.regions ++ rest)

end LineContext

/-- How deep the texts of captures may be nested. -/
def captureDepth : Nat :=
  160

/-- The state behind a line, and its regions, with captures nested up to a depth. -/
def highlightWithin (engine : Regex.Engine) (g : Grammar) :
    (depth : Nat) → Array Char → State → (firstLine : Bool) → Outcome (State × List Region)
  | 0, _, _, _ => .error .nesting
  | depth + 1, text, state, firstLine =>
    let inner (text : Array Char) (state : State) : Outcome (List Region) := do
      return (← highlightWithin engine g depth text state false).2
    LineContext.highlight { engine, grammar := g, text, firstLine, inner } state

/-- The state behind a line, and its regions. -/
def highlightLine (engine : Regex.Engine) (g : Grammar) (state : State) (line : List Char)
    (firstLine : Bool) : Outcome (State × List Region) :=
  highlightWithin engine g captureDepth line.toArray state firstLine

end Rubric
