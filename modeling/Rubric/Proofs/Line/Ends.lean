import Rubric.Proofs.Line.Calls

/-!
# Only steps can go on for ever

Highlighting a line fails in many ways, but for want of steps only if it takes too many of them, in
the line itself or in the text of a capture (`LineContext.step_ends`,
`LineContext.continueBlocks_ends`). Everything else that it does ends, with a result or with a fault
of another kind (`Ends`): no call is refused for want of steps.
-/

namespace Rubric

variable {α β : Type}

/-- The computation has a result or fails, but not for want of steps. -/
def Ends (x : Outcome α) : Prop :=
  x ≠ .error .endless

theorem ends_pure {a : α} : Ends (pure a : Outcome α) :=
  fun h => nomatch h

theorem Ends.bind {x : Outcome α} {f : α → Outcome β} (hx : Ends x)
    (hf : ∀ a, x = .ok a → Ends (f a)) : Ends (x >>= f) := by
  intro h
  rcases bind_eq_error.mp h with h | ⟨a, ha, h⟩
  · exact hx h
  · exact hf a ha h

namespace LineContext
variable {c : LineContext} {s : State}

/-- The texts that captures take for themselves on the line are highlighted in the end. -/
def InnerEnds (c : LineContext) (s : State) : Prop :=
  ∀ u scope t s', c.Takes s u scope →
    Nests c.grammar c.inner c.text scope u.found u.captures u.found.start [] t s' →
    Ends (c.inner t s')

theorem InnerEnds.not_breaks (hinner : c.InnerEnds s) : ¬ c.Breaks s .endless := by
  rintro (⟨_, hfault⟩ | ⟨hbegins, h⟩)
  · exact absurd hfault (Call.fault?_ne_endless _)
  · obtain ⟨u, scope, htakes, hnests⟩ := hbegins.takes
    exact hinner u scope _ _ htakes hnests h

/-- A step ends, with a result or not. -/
theorem step_ends {seen : List State.Key} {place : Place} (hinner : c.InnerEnds s)
    (hp : c.Passes s seen place) : Ends (c.step place.state place.position place.anchor) :=
  fun h => hinner.not_breaks (step_error hp h rfl)

theorem continueBlocks_ends {kept left : List (CompiledRule × Nat)} {place : Place}
    (hinner : c.InnerEnds s) (ha : c.Asks s kept left place) :
    Ends (c.continueBlocks s kept left place) :=
  fun h => hinner.not_breaks (continueBlocks_error ha h rfl)

end LineContext

end Rubric
