import Rubric.Proofs.Line.Standing

/-!
# The scopes of regions

Under a grammar every scope begins with the name that the grammar declares for itself, and goes on
with the names that its rules give, which are texts (`highlightWithin_under`).
-/

namespace Rubric

/-- The scope begins with the name, and goes on with texts. -/
def Under (name : Json) (scope : Scope) : Prop :=
  ∃ names : List String, scope = name :: names.map .str

/-- The scopes of the entry are under the name, with and without those of its content. -/
structure Entry.Under (name : Json) (e : Entry) : Prop where
  scope : Rubric.Under name e.scope
  around : e.ending ≠ none → ∀ rule closing inner, e.rule = .span rule closing inner →
    Rubric.Under name (e.scopeAround rule)

/-- All scopes of the stack are under the name. -/
def State.Under (name : Json) (s : State) : Prop :=
  ∀ e ∈ s.current :: s.below, e.Under name

/-- The scopes of the regions are all of a kind. -/
def Scoped (P : Scope → Prop) (regions : List Region) : Prop :=
  ∀ r ∈ regions, P r.scope

/-- All scopes of the regions are under the name. -/
abbrev RegionsUnder (name : Json) (regions : List Region) : Prop :=
  Scoped (Under name) regions

section
variable {name : Json} {scope : Scope} {P : Scope → Prop}

theorem Under.append (h : Under name scope) (names : List String) :
    Under name (scope ++ names.map .str) := by
  obtain ⟨first, rfl⟩ := h
  exact ⟨first ++ names, by simp⟩

theorem Scoped.nil : Scoped P [] := by
  intro r hr
  cases hr

theorem Scoped.append {xs ys : List Region} (hx : Scoped P xs) (hy : Scoped P ys) :
    Scoped P (xs ++ ys) := by
  intro r hr
  rcases List.mem_append.mp hr with h | h
  · exact hx r h
  · exact hy r h

theorem Scoped.gap {a b : Nat} {p : Prop} [Decidable p] (h : P scope) :
    Scoped P (if p then [⟨a, b, scope⟩] else []) := by
  intro r hr
  split at hr
  · cases List.mem_singleton.mp hr
    exact h
  · cases hr

/-- A rule that was made ready gives scopes that are texts. -/
theorem Under.append_scopes {g : Grammar} {rule : Rule} {compiled : CompiledRule}
    (h : Under name scope) (hc : g.compileRule rule = .ok compiled) :
    Under name (scope ++ compiled.scopes) := by
  have hsource := Grammar.source?_compileRule hc
  cases compiled with
  | root _ _ => cases hsource
  | group _ _ | single _ | span _ _ _ | block _ _ _ => exact h.append _

theorem State.Under.start {g : Grammar} {rule : Rule} {compiled : CompiledRule}
    (h : Rubric.Under name scope) (hc : g.compileRule rule = .ok compiled) :
    (compiled.start scope).Under name := by
  intro e he
  cases List.mem_singleton.mp he
  exact ⟨h.append_scopes hc, fun he => absurd rfl he⟩

/-! ## Captures -/

/-- The texts that a capture takes for itself get scopes of the kind, if they are highlighted under
one. -/
def Keeping (P : Scope → Prop) (g : Grammar) (inner : Highlights) (rule : Rule) : Prop :=
  ∀ compiled, g.compileRule rule = .ok compiled → ∀ scope t regions, P scope →
    inner t (compiled.start scope) = .ok regions → Scoped P regions

variable {g : Grammar} {inner : Highlights} {text : Array Char} {m : Regex.Match}

theorem nestedRegions_scoped {span : Regex.Span} {rule : Rule} {compiled : CompiledRule}
    {nested : List Region} (hi : Keeping P g inner rule) (h : P scope)
    (hc : g.compileRule rule = .ok compiled)
    (hn : nestedRegions inner text span scope compiled = .ok nested) : Scoped P nested := by
  obtain ⟨regions, hr, hn⟩ := bind_eq_ok.mp hn
  cases pure_eq_ok.mp hn
  intro r hmem
  obtain ⟨r', hr', rfl⟩ := List.mem_map.mp hmem
  exact hi _ hc _ _ _ h hr r' hr'

theorem splitRegion_scoped {span : Regex.Span} {rule : Rule} {compiled : CompiledRule}
    {regions regions' : List Region} (hi : Keeping P g inner rule)
    (hc : g.compileRule rule = .ok compiled) (H : Scoped P regions)
    (h : splitRegion inner text compiled span regions = .ok regions') : Scoped P regions' := by
  unfold splitRegion at h
  simp only at h
  split at h
  · exact absurd h throw_ne_ok
  · next old hold =>
    obtain ⟨nested, hn, h⟩ := bind_eq_ok.mp h
    cases pure_eq_ok.mp h
    have hscope := H old (List.mem_of_getElem? hold)
    have hbefore {n : Nat} : Scoped P (regions.take n) := fun r hr =>
      H r (List.mem_of_mem_take hr)
    have hbehind {n : Nat} : Scoped P (regions.drop n) := fun r hr =>
      H r (List.mem_of_mem_drop hr)
    have hnested := nestedRegions_scoped hi hscope hc hn
    exact (hbefore.append (((Scoped.gap hscope).append hnested).append (.gap hscope))).append
      hbehind

theorem addCapture_scoped {capture : Int × Rule} {position position' : Nat}
    {regions regions' : List Region} (hi : Keeping P g inner capture.2) (hs : P scope)
    (H : Scoped P regions)
    (h : addCapture g inner text scope m capture position regions = .ok (position', regions')) :
    Scoped P regions' := by
  unfold addCapture at h
  split at h
  · cases h
    exact H
  · obtain ⟨compiled, hc, h⟩ := bind_eq_ok.mp h
    split at h
    · obtain ⟨replaced, hr, h⟩ := bind_eq_ok.mp h
      cases pure_eq_ok.mp h
      exact splitRegion_scoped hi hc H hr
    · obtain ⟨nested, hn, h⟩ := bind_eq_ok.mp h
      cases pure_eq_ok.mp h
      exact (H.append (.gap hs)).append (nestedRegions_scoped hi hs hc hn)

theorem captureRegions_scoped {captures : List (Int × Rule)} {position position' : Nat}
    {regions regions' : List Region} (hi : ∀ capture ∈ captures, Keeping P g inner capture.2)
    (hs : P scope) (H : Scoped P regions)
    (h : captureRegions g inner text scope m captures position regions =
      .ok (position', regions')) : Scoped P regions' := by
  induction captures generalizing position regions with
  | nil =>
    cases h
    exact H
  | cons capture rest ih =>
    obtain ⟨⟨position₁, regions₁⟩, hadd, h⟩ := bind_eq_ok.mp h
    exact ih (fun c hc => hi c (List.mem_cons_of_mem _ hc))
      (addCapture_scoped (hi capture (List.mem_cons_self ..)) hs H hadd) h

/-- The regions of a match have scopes of the kind, if the match itself does. -/
theorem matchRegions_scoped {captures : List (Int × Rule)} {regions : List Region}
    (hi : ∀ capture ∈ captures, Keeping P g inner capture.2) (hs : P scope)
    (h : matchRegions g inner text scope m captures = .ok regions) : Scoped P regions := by
  obtain ⟨⟨position, regions₁⟩, hcaptures, h⟩ := bind_eq_ok.mp h
  have H := captureRegions_scoped hi hs .nil hcaptures
  simp only at h
  split at h
  · cases pure_eq_ok.mp h
    apply H.append
    intro r hr
    cases List.mem_singleton.mp hr
    exact hs
  · cases pure_eq_ok.mp h
    exact H

/-- The texts that captures take for themselves keep under the name. -/
def InnerUnder (name : Json) (inner : Highlights) : Prop :=
  ∀ t s regions, s.Under name → inner t s = .ok regions → RegionsUnder name regions

theorem matchRegions_under {captures : List (Int × Rule)} {regions : List Region}
    (hi : InnerUnder name inner) (hs : Under name scope)
    (h : matchRegions g inner text scope m captures = .ok regions) :
    RegionsUnder name regions :=
  matchRegions_scoped (fun _ _ _ hc _ _ _ hscope hr => hi _ _ _ (.start hscope hc) hr) hs h

end

/-! ## The stack -/

namespace State.Under
variable {name : Json} {s : State}

theorem pop (H : s.Under name) : s.pop.Under name :=
  State.All.pop H

theorem push {e : Entry} (H : s.Under name) (he : e.Under name) : (s.push e).Under name :=
  State.All.push H he

theorem resume {height : Nat} {blocks : List (CompiledRule × Nat)} (H : s.Under name) :
    (s.resume height blocks).Under name :=
  State.All.resume H

end State.Under

/-! ## Lines -/

namespace LineContext
variable {c : LineContext} {name : Json} {s : State} {position : Nat} {anchor : Option Nat}

theorem choose_closing_ending {rule : Rule} {m : Regex.Match}
    (h : c.choose s position anchor = .ok (some (.closing rule m))) : s.current.ending ≠ none := by
  obtain ⟨closing, inner, hr⟩ := choose_closing h
  intro hnone
  simp only [choose, hr, findEnding, hnone] at h
  cases h

theorem enter_under {anchor anchor' : Option Nat} {m : Regex.Match} {rule : Rule}
    {compiled : CompiledRule} {s' : State} (H : s.Under name)
    (hc : c.grammar.compileRule rule = .ok compiled)
    (h : c.enter s anchor m compiled = .ok (s', anchor')) : s'.Under name := by
  have hcurrent := (H s.current (List.mem_cons_self ..)).scope
  rcases enter_ok h with ⟨_, _, rfl, _⟩ | ⟨r, closing, inner, entry, rfl, hopen, rfl, _⟩ |
    ⟨r, continuing, inner, entry, rfl, hopen, rfl, _⟩
  · exact H
  all_goals
    obtain ⟨hscope, hrule⟩ := opened_ok hopen
    have hentry : entry.Under name := by
      refine ⟨?_, fun _ r' _ _ hr' => ?_⟩
      · rw [hscope]
        exact (hcurrent.append r.scopes).append r.contentScopes
      · cases hrule.symm.trans hr' <;>
          exact opened_scopeAround hopen ▸ hcurrent.append r.scopes
    exact H.push hentry

/-- A step keeps the scopes of the stack under the name, and so are those of its regions. -/
theorem step_under {next : Step} (hi : InnerUnder name c.inner) (H : s.Under name)
    (h : c.step s position anchor = .ok (some next)) :
    next.state.Under name ∧ RegionsUnder name next.regions := by
  obtain ⟨choice, hchoose, htake⟩ := step_ok h
  have hcurrent := (H s.current (List.mem_cons_self ..)).scope
  cases choice with
  | closing rule m =>
    obtain ⟨closing, inner, hr⟩ := choose_closing hchoose
    have haround := (H s.current (List.mem_cons_self ..)).around (choose_closing_ending hchoose)
      rule closing inner hr
    obtain ⟨regions, hregions, htake⟩ := bind_eq_ok.mp htake
    cases pure_eq_ok.mp htake
    exact ⟨H.pop, Scoped.append (.gap hcurrent) (matchRegions_under hi haround hregions)⟩
  | candidate rule m =>
    obtain ⟨compiled, hc, htake⟩ := bind_eq_ok.mp htake
    obtain ⟨⟨s', anchor'⟩, henter, htake⟩ := bind_eq_ok.mp htake
    obtain ⟨regions, hregions, htake⟩ := bind_eq_ok.mp htake
    cases pure_eq_ok.mp htake
    exact ⟨enter_under H hc henter, Scoped.append (.gap hcurrent)
      (matchRegions_under hi (hcurrent.append_scopes hc) hregions)⟩

theorem Asks.under (hi : InnerUnder name c.inner) (H : s.Under name)
    {kept left : List (CompiledRule × Nat)} {place : Place} (h : c.Asks s kept left place) :
    RegionsUnder name place.regions := by
  induction h with
  | start => exact .nil
  | goOn _ _ hregions ih =>
    exact ih.append (matchRegions_under hi (H.resume _ (List.mem_cons_self ..)).scope hregions)

theorem Passes.under (hi : InnerUnder name c.inner) (H : s.Under name) {seen : List State.Key}
    {place : Place} (h : c.Passes s seen place) :
    place.state.Under name ∧ RegionsUnder name place.regions := by
  induction h with
  | start h =>
    rcases Asks.start.continueBlocks_ok h with ⟨_, ha⟩ | ⟨_, _, _, _, _, ha, _, rfl⟩
    · rw [ha.state_eq]
      exact ⟨H, ha.under hi H⟩
    · exact ⟨H.resume.pop, ha.under hi H⟩
  | advance _ hstep _ ih | stay _ hstep _ _ ih =>
    obtain ⟨hs, hregions⟩ := step_under hi ih.1 hstep
    exact ⟨hs, ih.2.append hregions⟩

theorem highlight_under {s' : State} {regions : List Region} (hi : InnerUnder name c.inner)
    (H : s.Under name) (h : c.highlight s = .ok (s', regions)) :
    s'.Under name ∧ RegionsUnder name regions := by
  obtain ⟨_, last, final, hp, hh, rfl, rfl⟩ := highlight_ok h
  have hlast := hp.under hi H
  have hfinal : final.state.Under name ∧ RegionsUnder name final.regions := by
    cases hh with
    | spent => exact hlast
    | back hstep =>
      obtain ⟨hs, hregions⟩ := step_under hi hlast.1 hstep
      exact ⟨hs, hlast.2.append hregions⟩
  exact ⟨hfinal.1, hfinal.2.append (.gap (hfinal.1 _ (List.mem_cons_self ..)).scope)⟩

end LineContext

theorem highlightWithin_under {engine : Regex.Engine} {g : Grammar} {depth : Nat}
    {text : Array Char} {s s' : State} {firstLine : Bool} {regions : List Region} {name : Json}
    (H : s.Under name) (h : highlightWithin engine g depth text s firstLine = .ok (s', regions)) :
    s'.Under name ∧ RegionsUnder name regions := by
  induction depth generalizing text s s' firstLine regions with
  | zero => cases h
  | succ depth ih =>
    rw [highlightWithin_succ] at h
    refine LineContext.highlight_under (fun t s regs hs hinner => ?_) H h
    obtain ⟨⟨s', regs'⟩, hline, hr⟩ := bind_eq_ok.mp hinner
    cases pure_eq_ok.mp hr
    exact (ih hs hline).2

end Rubric
