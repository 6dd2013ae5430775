import Rubric.Document.RawToken
import Rubric.Proofs.Outcome

/-!
# The course of a line

What happens while a line is highlighted, as relations: the blocks that are asked (`Asks`), the
places that the steps come by (`Passes`), and the matches that are used on the way (`Uses`), those
in the texts of captures included. The functions are taken apart once, here (`continueBlocks_ok`,
`steps_ok`, `highlight_ok`, `take_ok`, `enter_ok`); what is true of every line is an induction over
these relations.
-/

namespace Rubric

/-- A match that highlighting a text uses, with the search that found it and the captures that are
applied to it. -/
structure Use where
  text : Array Char
  /-- where the search began -/
  position : Nat
  /-- the match had to begin there -/
  fixed : Bool
  found : Regex.Match
  captures : List (Int × Rule)

/-- The scope under which a group is highlighted: that of the region which is split for it, or that
of the match. -/
def groupScope (scope : Scope) (position : Nat) (regions : List Region) (span : Regex.Span) :
    Scope :=
  if span.1 < position then
    match regions[regionIndex span.1 regions (regions.length - 1)]? with
    | some old => old.scope
    | none => scope
  else scope

/-- The captures take a text for themselves, and highlight it from a state on. -/
inductive Nests (g : Grammar) (inner : Highlights) (text : Array Char) (scope : Scope)
    (m : Regex.Match) : List (Int × Rule) → Nat → List Region → Array Char → State → Prop
  | here : Pattern.takenSpan? m capture.1 = some span → g.compileRule capture.2 = .ok rule →
    Nests g inner text scope m (capture :: rest) position regions (text.extract span.1 span.2)
      (rule.start (groupScope scope position regions span))
  | later :
    addCapture g inner text scope m capture position regions = .ok (position', regions') →
    Nests g inner text scope m rest position' regions' t s →
    Nests g inner text scope m (capture :: rest) position regions t s

namespace Choice

/-- The captures that are applied to the match. -/
def captures (g : Grammar) : Choice → List (Int × Rule)
  | closing rule _ => rule.closingCaptures
  | candidate rule _ =>
    match g.compileRule rule with
    | .ok compiled => compiled.openingCaptures
    | .error _ => []

/-- The scope of the match. -/
def scope (g : Grammar) (state : State) : Choice → Scope
  | closing rule _ => state.current.scopeAround rule
  | candidate rule _ =>
    match g.compileRule rule with
    | .ok compiled => state.current.scope ++ compiled.scopes
    | .error _ => []

end Choice

namespace LineContext

/-- The line has gone on with the first blocks and now asks those that are left. -/
inductive Asks (c : LineContext) (s : State) :
    (kept left : List (CompiledRule × Nat)) → Place → Prop
  | start : Asks c s [] s.blocks (.start s)
  | goOn : Asks c s kept ((rule, height) :: left) place →
    c.askBlock (s.resume height (kept ++ [(rule, height)])).current place.position place.anchor =
      .ok (some m) →
    c.regionsOf (s.resume height (kept ++ [(rule, height)])).current.scope m
      rule.continuingCaptures = .ok regions →
    Asks c s (kept ++ [(rule, height)]) left (place.behind m regions)

/-- The steps come by a place, at whose position the states `seen` were met. -/
inductive Passes (c : LineContext) (s : State) : (seen : List State.Key) → Place → Prop
  | start : c.continueBlocks s [] s.blocks (.start s) = .ok place →
    Passes c s [place.state.key] place
  | advance : Passes c s seen place →
    c.step place.state place.position place.anchor = .ok (some next) →
    place.position < next.position → Passes c s [next.state.key] (place.after next)
  | stay : Passes c s seen place →
    c.step place.state place.position place.anchor = .ok (some next) →
    ¬ place.position < next.position → seen.contains next.state.key = false →
    Passes c s (next.state.key :: seen) (place.after next)

/-- The steps end at a place: nothing matches there, or the step leads back. -/
inductive Halts (c : LineContext) (seen : List State.Key) (place : Place) : Place → Prop
  | spent : c.step place.state place.position place.anchor = .ok none → Halts c seen place place
  | back : c.step place.state place.position place.anchor = .ok (some next) →
    ¬ place.position < next.position → seen.contains next.state.key = true →
    Halts c seen place { place.after next with position := place.position }

/-- The line takes a match, whose regions get their scopes on top of `scope`. -/
inductive Takes (c : LineContext) (s : State) : Use → (scope : Scope) → Prop
  | asked : Asks c s kept ((rule, height) :: left) place →
    c.askBlock (s.resume height (kept ++ [(rule, height)])).current place.position place.anchor =
      .ok (some m) →
    Takes c s ⟨c.text, place.position, true, m, rule.continuingCaptures⟩
      (s.resume height (kept ++ [(rule, height)])).current.scope
  | chosen : Passes c s seen place →
    c.choose place.state place.position place.anchor = .ok (some choice) →
    Takes c s ⟨c.text, place.position, false, choice.found, choice.captures c.grammar⟩
      (choice.scope c.grammar place.state)

/-- The line uses a match: it takes it itself, or a capture uses it in a text of its own. -/
inductive Uses (c : LineContext) (nested : Array Char → State → Use → Prop) (s : State) :
    Use → Prop
  | itself : Takes c s u scope → Uses c nested s u
  | inside : Takes c s u scope →
    Nests c.grammar c.inner c.text scope u.found u.captures u.found.start [] t s' →
    nested t s' v → Uses c nested s v

variable {c : LineContext} {s : State}

theorem Passes.halts {place final : Place} {seen : List State.Key} {fuel : Nat}
    (H : c.Passes s seen place) (h : c.steps fuel seen place = .ok final) :
    ∃ seen' last, c.Passes s seen' last ∧ c.Halts seen' last final := by
  induction fuel generalizing seen place with
  | zero => simp [steps] at h
  | succ fuel ih =>
    obtain ⟨found, hstep, h⟩ := bind_eq_ok.mp h
    cases found with
    | none =>
      cases pure_eq_ok.mp h
      exact ⟨_, _, H, .spent hstep⟩
    | some next =>
      simp only at h
      split at h
      · exact ih (H.advance hstep ‹_›) h
      · split at h
        · cases pure_eq_ok.mp h
          exact ⟨_, _, H, .back hstep ‹_› ‹_›⟩
        · exact ih (H.stay hstep ‹_› (Bool.eq_false_iff.mpr ‹_›)) h

/-- The blocks are asked up to the first with which the line does not go on. -/
theorem Asks.continueBlocks_ok {kept left : List (CompiledRule × Nat)} {place final : Place}
    (H : c.Asks s kept left place) (h : c.continueBlocks s kept left place = .ok final) :
    (∃ kept', c.Asks s kept' [] final) ∨
      ∃ kept' rule height left' place', c.Asks s kept' ((rule, height) :: left') place' ∧
        c.askBlock (s.resume height (kept' ++ [(rule, height)])).current place'.position
          place'.anchor = .ok none ∧
        final = { place' with
          state := (s.resume height (kept' ++ [(rule, height)])).popBlock, anchor := none } := by
  induction left generalizing kept place with
  | nil =>
    cases h
    exact .inl ⟨_, H⟩
  | cons block left ih =>
    obtain ⟨rule, height⟩ := block
    obtain ⟨found, hask, h⟩ := bind_eq_ok.mp h
    cases found with
    | none =>
      cases pure_eq_ok.mp h
      exact .inr ⟨_, _, _, _, _, H, hask, rfl⟩
    | some m =>
      obtain ⟨regions, hregions, h⟩ := bind_eq_ok.mp h
      exact ih (H.goOn hask hregions) h

/-- The blocks that are left are asked from where the line has got to. -/
theorem Asks.continueBlocks_eq {kept left : List (CompiledRule × Nat)} {place : Place}
    (H : c.Asks s kept left place) :
    c.continueBlocks s [] s.blocks (.start s) = c.continueBlocks s kept left place := by
  induction H with
  | start => rfl
  | goOn _ hask hregions ih =>
    rw [ih, continueBlocks, hask, ok_bind]
    simp only [hregions, ok_bind]

/-- As long as blocks are asked, the state is the one the line began with. -/
theorem Asks.state_eq {kept left : List (CompiledRule × Nat)} {place : Place}
    (H : c.Asks s kept left place) : place.state = s := by
  induction H with
  | start => rfl
  | goOn _ _ _ ih => exact ih

/-- The blocks asked and those left are all blocks of the state. -/
theorem Asks.append_eq {kept left : List (CompiledRule × Nat)} {place : Place}
    (H : c.Asks s kept left place) : kept ++ left = s.blocks := by
  induction H with
  | start => rfl
  | goOn _ _ _ ih => simpa using ih

/-- The steps begin behind the blocks. -/
theorem Passes.exists_first {seen : List State.Key} {place : Place} (H : c.Passes s seen place) :
    ∃ first, c.continueBlocks s [] s.blocks (.start s) = .ok first := by
  induction H with
  | start h => exact ⟨_, h⟩
  | advance _ _ _ ih | stay _ _ _ _ ih => exact ih

theorem highlight_ok {s' : State} {regions : List Region}
    (h : c.highlight s = .ok (s', regions)) :
    ∃ seen last final, c.Passes s seen last ∧ c.Halts seen last final ∧ s' = final.state ∧
      regions = final.regions ++
        if final.position < c.text.size then
          [⟨final.position, c.text.size, final.state.current.scope⟩]
        else [] := by
  obtain ⟨place, hblocks, h⟩ := bind_eq_ok.mp h
  obtain ⟨final, hsteps, h⟩ := bind_eq_ok.mp h
  obtain ⟨seen, last, hp, hh⟩ := (Passes.start hblocks).halts hsteps
  cases pure_eq_ok.mp h
  exact ⟨seen, last, final, hp, hh, rfl, rfl⟩

theorem step_ok {position : Nat} {anchor : Option Nat} {next : Step}
    (h : c.step s position anchor = .ok (some next)) :
    ∃ choice, c.choose s position anchor = .ok (some choice) ∧
      c.take s position anchor choice = .ok next := by
  obtain ⟨found, hchoose, h⟩ := bind_eq_ok.mp h
  cases found with
  | none => cases pure_eq_ok.mp h
  | some choice =>
    obtain ⟨next', htake, h⟩ := bind_eq_ok.mp h
    cases pure_eq_ok.mp h
    exact ⟨choice, hchoose, htake⟩

/-- A step goes on behind its match, and its regions are those in front of the match and those of
the match. -/
theorem take_ok {position : Nat} {anchor : Option Nat} {choice : Choice} {next : Step}
    (h : c.take s position anchor choice = .ok next) :
    next.position = choice.found.stop ∧
      ∃ regions, c.regionsOf (choice.scope c.grammar s) choice.found (choice.captures c.grammar) =
        .ok regions ∧ next.regions = gap s position choice.found ++ regions := by
  cases choice with
  | closing rule m =>
    obtain ⟨regions, hr, h⟩ := bind_eq_ok.mp h
    cases pure_eq_ok.mp h
    exact ⟨rfl, regions, hr, rfl⟩
  | candidate rule m =>
    obtain ⟨compiled, hc, h⟩ := bind_eq_ok.mp h
    obtain ⟨⟨s', anchor'⟩, _, h⟩ := bind_eq_ok.mp h
    obtain ⟨regions, hr, h⟩ := bind_eq_ok.mp h
    cases pure_eq_ok.mp h
    refine ⟨rfl, regions, ?_, rfl⟩
    simp only [Choice.scope, Choice.captures, hc]
    exact hr

/-- What a match that a rule begins with does to the stack. -/
theorem enter_ok {anchor anchor' : Option Nat} {m : Regex.Match} {compiled : CompiledRule}
    {s' : State} (h : c.enter s anchor m compiled = .ok (s', anchor')) :
    (∃ rule, compiled = .single rule ∧ s' = s ∧ anchor' = anchor) ∨
      (∃ rule closing inner entry, compiled = .span rule closing inner ∧
        c.opened s m compiled rule.contentScopes closing = .ok entry ∧
        s' = s.push entry ∧ anchor' = some m.stop) ∨
      ∃ rule continuing inner entry, compiled = .block rule continuing inner ∧
        c.opened s m compiled rule.contentScopes continuing = .ok entry ∧
        s' = s.pushBlock entry ∧ anchor' = some m.stop := by
  cases compiled with
  | root _ _ | group _ _ => exact absurd h throw_ne_ok
  | single rule =>
    cases pure_eq_ok.mp h
    exact .inl ⟨rule, rfl, rfl, rfl⟩
  | span rule closing inner =>
    obtain ⟨entry, he, h⟩ := bind_eq_ok.mp h
    cases pure_eq_ok.mp h
    exact .inr (.inl ⟨rule, closing, inner, entry, rfl, he, rfl, rfl⟩)
  | block rule continuing inner =>
    obtain ⟨entry, he, h⟩ := bind_eq_ok.mp h
    cases pure_eq_ok.mp h
    exact .inr (.inr ⟨rule, continuing, inner, entry, rfl, he, rfl, rfl⟩)

end LineContext

/-- How the texts of captures are highlighted, nested up to a depth. -/
def nestedHighlights (engine : Regex.Engine) (g : Grammar) (depth : Nat) : Highlights :=
  fun text state => do return (← highlightWithin engine g depth text state false).2

/-- What is given for a line whose captures are nested up to a depth. -/
def lineContext (engine : Regex.Engine) (g : Grammar) (depth : Nat) (text : Array Char)
    (firstLine : Bool) : LineContext :=
  { engine, grammar := g, text, firstLine, inner := nestedHighlights engine g depth }

theorem highlightWithin_succ (engine : Regex.Engine) (g : Grammar) (depth : Nat)
    (text : Array Char) (state : State) (firstLine : Bool) :
    highlightWithin engine g (depth + 1) text state firstLine =
      (lineContext engine g depth text firstLine).highlight state := rfl

/-- What is given for a line of a document, with captures nested up to a depth. -/
def CompiledGrammar.context (g : CompiledGrammar) (engine : Regex.Engine) (depth : Nat)
    (line : List Char) (firstLine : Bool) : LineContext :=
  lineContext engine g.grammar (depth - 1) line.toArray firstLine

/-- The states that lines can leave behind, from the start of a document on, with captures nested up
to a depth. -/
inductive CompiledGrammar.Reaches (g : CompiledGrammar) (engine : Regex.Engine) (depth : Nat) :
    State → Prop
  | start : Reaches g engine depth g.start
  | line {line : List Char} : Reaches g engine depth s →
    highlightWithin engine g.grammar depth line.toArray s firstLine = .ok (s', regions) →
    Reaches g engine depth s'

/-- A line that is highlighted takes the steps that its context gives. -/
theorem CompiledGrammar.highlight_context {g : CompiledGrammar} {engine : Regex.Engine}
    {depth : Nat} {line : List Char} {firstLine : Bool} {s : State} {a : State × List Region}
    (h : highlightWithin engine g.grammar depth line.toArray s firstLine = .ok a) :
    (g.context engine depth line firstLine).highlight s = .ok a := by
  cases depth with
  | zero => cases h
  | succ depth => exact h

/-- Highlighting a text from a state on, with captures nested up to a depth, uses a match. -/
def UsesWithin (engine : Regex.Engine) (g : Grammar) :
    (depth : Nat) → Array Char → State → (firstLine : Bool) → Use → Prop
  | 0, _, _, _, _ => False
  | depth + 1, text, state, firstLine, u =>
    (lineContext engine g depth text firstLine).Uses
      (fun t s => UsesWithin engine g depth t s false) state u

end Rubric
