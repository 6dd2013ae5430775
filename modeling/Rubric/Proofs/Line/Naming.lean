import Rubric.Proofs.Line.Scopes
import Rubric.Proofs.Line.Steady
import Rubric.Proofs.Pattern.Backreference

/-!
# The names that steps give

If a rule and its captures only give names of a kind (`Rule.isNamed`), a step for it gives its
regions only such names, and the stack keeps to them. The steps for a candidate that matches once
(`single_take`), for one that is opened (`open_take`) and for the end of a rule (`closing_take`)
leave no doubt about the stack behind them.
-/

namespace Rubric

/-- All names of the scope are of a kind. -/
def Named (ok : Json → Bool) (scope : Scope) : Prop :=
  ∀ name ∈ scope, ok name = true

/-- All names on the stack are of a kind. -/
def State.Named (ok : Json → Bool) (s : State) : Prop :=
  ∀ e ∈ s.current :: s.below, Rubric.Named ok e.scope

/-- The names are of a kind. -/
def areNamed (ok : Json → Bool) (names : List String) : Bool :=
  names.all fun name => ok (.str name)

/-- The captures only give names, which are of a kind. -/
def capturesNamed (ok : Json → Bool) (captures : List (Int × Rule)) : Bool :=
  captures.all fun capture => capture.2.isBare && areNamed ok capture.2.scopes

/-- All names that the rule gives are of a kind, and so are those that its captures give. -/
def Rule.isNamed (ok : Json → Bool) (rule : Rule) : Bool :=
  areNamed ok rule.scopes && areNamed ok rule.contentScopes && capturesNamed ok rule.captures &&
    capturesNamed ok rule.openingCaptures && capturesNamed ok rule.closingCaptures

section
variable {ok : Json → Bool} {scope scope' : Scope} {s : State} {e : Entry}

theorem Rule.isNamed_iff {rule : Rule} : rule.isNamed ok = true ↔
    areNamed ok rule.scopes = true ∧ areNamed ok rule.contentScopes = true ∧
      capturesNamed ok rule.captures = true ∧ capturesNamed ok rule.openingCaptures = true ∧
      capturesNamed ok rule.closingCaptures = true := by
  simp only [isNamed, Bool.and_eq_true, and_assoc]

theorem Named.append (h : Named ok scope) (h' : Named ok scope') : Named ok (scope ++ scope') :=
  fun name hn => (List.mem_append.mp hn).elim (h name) (h' name)

theorem Named.take (h : Named ok scope) (n : Nat) : Named ok (scope.take n) :=
  fun name hn => h name (List.mem_of_mem_take hn)

theorem named_map {names : List String} (h : areNamed ok names = true) :
    Named ok (names.map .str) := by
  intro name hname
  obtain ⟨n, hn, rfl⟩ := List.mem_map.mp hname
  exact List.all_eq_true.mp h n hn

theorem State.Named.push (H : s.Named ok) (he : Rubric.Named ok e.scope) : (s.push e).Named ok :=
  State.All.push H he

theorem State.Named.pop (H : s.Named ok) : s.pop.Named ok :=
  State.All.pop H

/-- A capture that only gives names of the kind keeps them so. -/
theorem keeping_named {engine : Regex.Engine} {g : Grammar} {depth : Nat} {rule : Rule}
    (hb : rule.isBare = true) (hn : areNamed ok rule.scopes = true) :
    Keeping (Named ok) g (nestedHighlights engine g (depth + 1)) rule := by
  intro compiled hc scope t regions hscope h
  cases (Grammar.compileRule_of_isBare hb).symm.trans hc
  obtain ⟨⟨s', regions'⟩, hline, hr⟩ := bind_eq_ok.mp h
  cases pure_eq_ok.mp hr
  rw [highlightWithin_succ] at hline
  rw [LineContext.highlight_bare rfl hline]
  exact .gap (hscope.append (named_map hn))

end

/-! ## Steps -/

/-- Opens a rule, whose match does not end its line. -/
def State.enter (s : State) (rule : Rule) (closing : String) (inner : List Candidate) : State :=
  s.push {
    scope := s.current.scope ++ rule.scopes.map .str ++ rule.contentScopes.map .str
    rule := .span rule (.str closing) inner
    ending := some closing.toList }

theorem State.pop_enter (s : State) (rule : Rule) (closing : String) (inner : List Candidate) :
    (s.enter rule closing inner).pop = s := rfl

theorem State.Named.enter {ok : Json → Bool} {s : State} {rule : Rule} (closing : String)
    (inner : List Candidate) (hrule : rule.isNamed ok = true) (H : s.Named ok) :
    (s.enter rule closing inner).Named ok := by
  obtain ⟨hscopes, hcontent, _⟩ := Rule.isNamed_iff.mp hrule
  exact H.push (((H _ List.mem_cons_self).append (named_map hscopes)).append (named_map hcontent))

section
variable {engine : Regex.Engine} {g : Grammar} {depth : Nat} {text : Array Char}
  {firstLine : Bool} {ok : Json → Bool} {s : State} {position : Nat} {anchor : Option Nat}
  {rule : Rule} {m : Regex.Match} {next : Step}

theorem regionsOf_named {scope : Scope} {captures : List (Int × Rule)} {regions : List Region}
    (hc : capturesNamed ok captures = true) (hs : Named ok scope)
    (h : (lineContext engine g (depth + 1) text firstLine).regionsOf scope m captures =
      .ok regions) : Scoped (Named ok) regions := by
  refine matchRegions_scoped (fun capture hmem => ?_) hs h
  have hcapture := Bool.and_eq_true_iff.mp (List.all_eq_true.mp hc capture hmem)
  exact keeping_named hcapture.1 hcapture.2

theorem gap_named (hs : s.Named ok) : Scoped (Named ok) (LineContext.gap s position m) :=
  .gap (hs _ List.mem_cons_self)

/-- The candidate of a rule that matches once leaves the stack as it is. -/
theorem single_take (hc : g.compileRule rule = .ok (.single rule))
    (h : (lineContext engine g (depth + 1) text firstLine).take s position anchor
      (.candidate rule m) = .ok next) :
    next.state = s ∧ (rule.isNamed ok = true → s.Named ok → Scoped (Named ok) next.regions) := by
  obtain ⟨compiled, hc', h⟩ := bind_eq_ok.mp h
  cases hc.symm.trans hc'
  obtain ⟨⟨s', anchor'⟩, henter, h⟩ := bind_eq_ok.mp h
  cases pure_eq_ok.mp henter
  obtain ⟨regions, hregions, h⟩ := bind_eq_ok.mp h
  cases pure_eq_ok.mp h
  refine ⟨rfl, fun hnamed hs => (gap_named hs).append ?_⟩
  obtain ⟨hscopes, _, hcaptures, _, _⟩ := Rule.isNamed_iff.mp hnamed
  exact regionsOf_named hcaptures ((hs _ List.mem_cons_self).append (named_map hscopes)) hregions

/-- If it has no captures, its match is a region. -/
theorem single_region (hc : g.compileRule rule = .ok (.single rule))
    (hcaptures : rule.captures = []) (hlt : m.start < m.stop)
    (h : (lineContext engine g (depth + 1) text firstLine).take s position anchor
      (.candidate rule m) = .ok next) :
    next.position = m.stop ∧
      ⟨m.start, m.stop, s.current.scope ++ rule.scopes.map .str⟩ ∈ next.regions := by
  obtain ⟨compiled, hc', h⟩ := bind_eq_ok.mp h
  cases hc.symm.trans hc'
  obtain ⟨⟨s', anchor'⟩, _, h⟩ := bind_eq_ok.mp h
  obtain ⟨regions, hregions, h⟩ := bind_eq_ok.mp h
  cases pure_eq_ok.mp h
  obtain ⟨⟨position', regions'⟩, hcaptured, hregions⟩ := bind_eq_ok.mp hregions
  rw [show (CompiledRule.single rule).openingCaptures = [] from hcaptures] at hcaptured
  cases hcaptured
  simp only [hlt, if_true] at hregions
  cases pure_eq_ok.mp hregions
  exact ⟨rfl, List.mem_append_right _ List.mem_cons_self⟩

/-- The candidate of a rule that spans opens it. -/
theorem open_take {closing : String} {inner : List Candidate}
    (hc : g.compileRule rule = .ok (.span rule (.str closing) inner))
    (hplain : Pattern.refers closing.toList = false) (hstop : m.stop < text.size)
    (h : (lineContext engine g (depth + 1) text firstLine).take s position anchor
      (.candidate rule m) = .ok next) :
    next.state = s.enter rule closing inner ∧
      (rule.isNamed ok = true → s.Named ok → Scoped (Named ok) next.regions) := by
  obtain ⟨compiled, hc', h⟩ := bind_eq_ok.mp h
  cases hc.symm.trans hc'
  obtain ⟨⟨s', anchor'⟩, henter, h⟩ := bind_eq_ok.mp h
  obtain ⟨entry, hopened, henter⟩ := bind_eq_ok.mp henter
  cases pure_eq_ok.mp henter
  obtain ⟨pattern, hexpand, hopened⟩ := bind_eq_ok.mp hopened
  cases (Pattern.expand_eq_self hplain).symm.trans hexpand
  cases pure_eq_ok.mp hopened
  obtain ⟨regions, hregions, h⟩ := bind_eq_ok.mp h
  cases pure_eq_ok.mp h
  have hboundary : (m.stop == text.size) = false := beq_false_of_ne (Nat.ne_of_lt hstop)
  refine ⟨?_, fun hnamed hs => (gap_named hs).append ?_⟩
  · show State.push _ _ = _
    simp only [lineContext, hboundary]
    rfl
  · obtain ⟨hscopes, _, _, hcaptures, _⟩ := Rule.isNamed_iff.mp hnamed
    exact regionsOf_named hcaptures ((hs _ List.mem_cons_self).append (named_map hscopes)) hregions

theorem closing_take
    (h : (lineContext engine g (depth + 1) text firstLine).take s position anchor
      (.closing rule m) = .ok next) :
    next.state = s.pop ∧
      (rule.isNamed ok = true → s.Named ok → Scoped (Named ok) next.regions) := by
  obtain ⟨regions, hregions, h⟩ := bind_eq_ok.mp h
  cases pure_eq_ok.mp h
  refine ⟨rfl, fun hnamed hs => (gap_named hs).append ?_⟩
  obtain ⟨_, _, _, _, hcaptures⟩ := Rule.isNamed_iff.mp hnamed
  exact regionsOf_named hcaptures ((hs _ List.mem_cons_self).take _) hregions

end

end Rubric
