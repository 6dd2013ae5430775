import Rubric.Proofs.Line.Handed
import Rubric.Proofs.Pattern.Search
import Rubric.Proofs.Regex.Inside

/-!
# What a step does to the stack

A step closes the innermost rule, leaves the stack as it is, or opens a rule on top of it
(`LineContext.Moves`). It takes a match that a search found (`choose_finds`), so that it leads
forward in the line if the matches of the engine do, and which match that is depends on nothing but
the innermost rule, its end, the position and whether `\G` may match there (`choose_alike`).
-/

namespace Rubric

/-- Where a search with the pattern of an engine whose matches lead forward goes on. -/
theorem Pattern.Finds.forward {engine : Regex.Engine} {a : Anchoring} {pattern : Json}
    {text : Array Char} {position : Nat} {m : Regex.Match} (hE : engine.Forward)
    (h : Finds engine a pattern text position m) : position ≤ m.stop ∧ m.stop ≤ text.size := by
  obtain ⟨matcher, p, hprepare, h1, h2, h3⟩ := h
  obtain ⟨barred, _, hready⟩ := bind_eq_ok.mp hprepare
  have hforward : matcher.Forward := by
    unfold ready at hready
    split at hready
    · exact hE _ matcher (mapError_eq_ok.mp hready)
    · cases hready
  obtain ⟨hle, hstop⟩ := hforward _ _ _ _ h2 h3
  exact ⟨Nat.le_trans h1 hle, hstop⟩

theorem Pattern.findAt_forward {engine : Regex.Engine} {a : Anchoring} {pattern : Json}
    {text : Array Char} {position : Nat} {m : Regex.Match} (hE : engine.Forward)
    (hpos : position ≤ text.size) (h : findAt engine a pattern text position = .ok (some m)) :
    position ≤ m.stop ∧ m.stop ≤ text.size := by
  obtain ⟨matcher, hprepare, h⟩ := bind_eq_ok.mp h
  exact Finds.forward hE ⟨matcher, position, hprepare, Nat.le_refl _, hpos, by
    have hm := pure_eq_ok.mp h
    rwa [Regex.Matcher.matchAt] at hm⟩

namespace Grammar
variable {g : Grammar} {rule : Rule} {compiled : CompiledRule}

theorem eq_of_compileRule_single {other : Rule} (h : g.compileRule rule = .ok (.single other)) :
    other = rule :=
  Option.some.inj (source?_compileRule h)

/-- A rule that is opened has a pattern that opens it, and none that matches once. -/
theorem opening_of_compileRule (h : g.compileRule rule = .ok compiled)
    (ho : compiled.isOpenable = true) : rule.single = none ∧ rule.opening ≠ none := by
  cases of_compileRule h with
  | single | group => cases ho
  | block _ hsingle hopening | span _ hsingle hopening => exact ⟨hsingle, hopening⟩

/-- A rule that is opened begins with the pattern that opens it. -/
theorem opening_of_beginsWith {pattern : Json} (h : g.compileRule rule = .ok compiled)
    (ho : compiled.isOpenable = true) (hb : rule.BeginsWith pattern) :
    rule.opening = some pattern := by
  rcases hb.2 with hsingle | ⟨_, hopening⟩
  · cases (opening_of_compileRule h ho).1.symm.trans hsingle
  · exact hopening

end Grammar

namespace State

/-- Closing a rule makes the stack lower, apart from the bottom. -/
theorem height_pop {s : State} (h : s.below ≠ []) : s.pop.height + 1 = s.height := by
  cases hb : s.below with
  | nil => exact absurd hb h
  | cons entry below => simp [pop, height, hb]

theorem pop_eq_self {s : State} (h : s.below = []) : s.pop = s := by
  simp [pop, h]

end State

/-- The match of a choice was found with the pattern, which is that of the candidate if it is for
one. -/
def Choice.FoundBy (c : LineContext) (position : Nat) (anchor : Option Nat)
    (candidates : List Candidate) (choice : Choice) (pattern : Json) : Prop :=
  Pattern.Finds c.engine (c.anchoring position anchor) pattern c.text position choice.found ∧
    ∀ rule m, choice = .candidate rule m → (pattern, rule) ∈ candidates

namespace LineContext
variable {c : LineContext} {s : State} {position : Nat} {anchor : Option Nat} {choice : Choice}

/-- What a step with a choice makes of the stack and of the anchor. -/
inductive Moves (c : LineContext) (s : State) (anchor : Option Nat) :
    Choice → State → Option Nat → Prop
  | closes : Moves c s anchor (.closing rule m) s.pop none
  | stays : c.grammar.compileRule rule = .ok (.single rule) →
    Moves c s anchor (.candidate rule m) s anchor
  | opens : c.grammar.compileRule rule = .ok compiled → compiled.isOpenable = true →
    s'.current.rule = compiled → s'.below = s.current :: s.below →
    Moves c s anchor (.candidate rule m) s' (some m.stop)

theorem take_moves {next : Step} (h : c.take s position anchor choice = .ok next) :
    c.Moves s anchor choice next.state next.anchor := by
  cases choice with
  | closing rule m =>
    obtain ⟨regions, _, h⟩ := bind_eq_ok.mp h
    cases pure_eq_ok.mp h
    exact .closes
  | candidate rule m =>
    obtain ⟨compiled, hc, h⟩ := bind_eq_ok.mp h
    obtain ⟨⟨s', anchor'⟩, henter, h⟩ := bind_eq_ok.mp h
    obtain ⟨regions, _, h⟩ := bind_eq_ok.mp h
    cases pure_eq_ok.mp h
    rcases enter_ok henter with ⟨rule', rfl, rfl, rfl⟩ | ⟨_, _, _, entry, rfl, hopen, rfl, rfl⟩ |
      ⟨_, _, _, entry, rfl, hopen, rfl, rfl⟩
    · cases Grammar.eq_of_compileRule_single hc
      exact .stays hc
    · exact .opens hc rfl (opened_ok hopen).2 rfl
    · exact .opens hc rfl (opened_ok hopen).2 rfl

/-- A step takes a choice, goes on behind its match and moves the stack. -/
theorem step_moves {next : Step} (h : c.step s position anchor = .ok (some next)) :
    ∃ choice, c.choose s position anchor = .ok (some choice) ∧
      next.position = choice.found.stop ∧ c.Moves s anchor choice next.state next.anchor := by
  obtain ⟨choice, hchoose, htake⟩ := step_ok h
  exact ⟨choice, hchoose, (take_ok htake).1, take_moves htake⟩

/-! ## The match that is taken -/

theorem chooseCandidate_finds {candidates : List Candidate}
    (h : c.chooseCandidate position anchor candidates = .ok (some choice)) :
    ∃ pattern, Choice.FoundBy c position anchor candidates choice pattern := by
  obtain ⟨found, hfind, h⟩ := bind_eq_ok.mp h
  cases found with
  | none => cases pure_eq_ok.mp h
  | some found =>
    obtain ⟨index, m⟩ := found
    obtain ⟨⟨pattern, rule⟩, hget, rfl⟩ := Option.map_eq_some_iff.mp (pure_eq_ok.mp h)
    unfold findCandidate at hfind
    split at hfind
    · cases hfind
    · obtain ⟨pattern', hget', hfinds⟩ := Pattern.findAny_finds hfind
      rw [List.getElem?_map, hget] at hget'
      cases hget'
      refine ⟨pattern, hfinds, fun _ _ heq => ?_⟩
      cases heq
      exact List.mem_of_getElem? hget

/-- The match that is taken was found from the position on, with the end of the innermost rule or
with one of its candidates. -/
theorem choose_finds (h : c.choose s position anchor = .ok (some choice)) :
    ∃ pattern, Choice.FoundBy c position anchor s.current.rule.inner choice pattern := by
  unfold choose at h
  split at h
  case h_1 => cases h
  case h_2 rule closing candidates heq =>
    rw [heq]
    obtain ⟨found, hending, h⟩ := bind_eq_ok.mp h
    cases found with
    | none => exact chooseCandidate_finds h
    | some ending =>
      have hclosing : ∃ pattern, Choice.FoundBy c position anchor candidates
          (.closing rule ending) pattern := by
        unfold findEnding at hending
        split at hending
        · exact ⟨_, Pattern.find_finds hending, fun _ _ heq => nomatch heq⟩
        · cases hending
      simp only at h
      split at h
      · cases pure_eq_ok.mp h
        exact hclosing
      · obtain ⟨other, hother, h⟩ := bind_eq_ok.mp h
        cases other with
        | none =>
          cases pure_eq_ok.mp h
          exact hclosing
        | some other =>
          simp only at h
          split at h
          · cases pure_eq_ok.mp h
            exact hclosing
          · cases pure_eq_ok.mp h
            exact chooseCandidate_finds hother
  all_goals
    next heq =>
      rw [heq]
      exact chooseCandidate_finds h

theorem choose_forward (hE : c.engine.Forward)
    (h : c.choose s position anchor = .ok (some choice)) :
    position ≤ choice.found.stop ∧ choice.found.stop ≤ c.text.size := by
  obtain ⟨pattern, hfinds, _⟩ := choose_finds h
  exact hfinds.forward hE

theorem step_forward {next : Step} (hE : c.engine.Forward)
    (h : c.step s position anchor = .ok (some next)) :
    position ≤ next.position ∧ next.position ≤ c.text.size := by
  obtain ⟨choice, hchoose, hposition, _⟩ := step_moves h
  rw [hposition]
  exact choose_forward hE hchoose

/-- What is taken depends on the innermost rule, on what its candidates match, and on what its end
matches if it has one. -/
theorem choose_eq {s' : State} {anchor' : Option Nat} (hrule : s.current.rule = s'.current.rule)
    (hinner : c.chooseCandidate position anchor s.current.rule.inner =
      c.chooseCandidate position anchor' s.current.rule.inner)
    (hending : ∀ rule closing candidates, s.current.rule = .span rule closing candidates →
      c.findEnding s.current position anchor = c.findEnding s'.current position anchor') :
    c.choose s position anchor = c.choose s' position anchor' := by
  unfold choose
  rw [← hrule]
  split
  · rfl
  · next candidates heq =>
    have hinner : c.chooseCandidate position anchor candidates =
        c.chooseCandidate position anchor' candidates := by
      rwa [heq] at hinner
    simp only [hinner, hending _ _ _ heq]
  all_goals
    next heq => rwa [heq] at hinner

/-- Where the innermost rules are alike and have one end, and `\G` may match for both or for none,
the same match is taken. -/
theorem choose_alike {s' : State} {anchor' : Option Nat}
    (hrule : s.current.rule = s'.current.rule) (hending : s.current.ending = s'.current.ending)
    (hanchor : (anchor == some position) = (anchor' == some position)) :
    c.choose s position anchor = c.choose s' position anchor' := by
  have hallowed : c.anchoring position anchor = c.anchoring position anchor' := by
    rw [anchoring, anchoring, hanchor]
  refine choose_eq hrule ?_ fun _ _ _ _ => ?_
  · simp only [chooseCandidate, findCandidate, hallowed]
  · simp only [findEnding, hending, hallowed]

end LineContext

end Rubric
