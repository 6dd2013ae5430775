import Rubric.Proofs.Line.Choosing
import Rubric.Proofs.Line.Standing
import Rubric.Proofs.Pattern.Search

/-!
# The end of a rule and its candidates

Where the end of the innermost rule begins at the position of a search, it is taken before any
candidate is looked for. Further on it is taken only if it begins in front of the match of the
candidates. So at a tie the end goes first at the position itself, and the candidate goes first
behind it, where it leaves the rule open (`end_precedes`).
-/

namespace Rubric

open Regex (Match)

/-- The end is at the position itself, or in front of what was found for the candidates. -/
def EndFirst (position : Nat) (ending : Match) (found : Option (Nat × Match)) : Prop :=
  ending.start = position ∨ ∀ i m, found = some (i, m) → ending.start < m.start

/-- To begin no later than the candidate is enough for the end, but for ties behind the position. -/
theorem endFirst_iff_le {position i : Nat} {ending m : Match} (he : position ≤ ending.start)
    (hm : position ≤ m.start) :
    (EndFirst position ending (some (i, m)) ↔ ending.start ≤ m.start) ↔
      ¬ (position < ending.start ∧ ending.start = m.start) := by
  have hfirst : EndFirst position ending (some (i, m)) ↔
      ending.start = position ∨ ending.start < m.start := by
    refine or_congr_right ⟨fun h => h i m rfl, fun h _ _ heq => ?_⟩
    cases heq
    exact h
  rw [hfirst]
  omega

namespace LineContext
variable {c : LineContext} {s : State} {position : Nat} {anchor : Option Nat}
  {candidates : List Candidate} {rule : Rule} {closing : Json} {next : Step}

/-- What is found for the candidates is the match of one of them. -/
theorem chooseCandidate_of_find {index : Nat} {m : Match}
    (h : c.findCandidate position anchor candidates = .ok (some (index, m))) :
    ∃ pattern rule, candidates[index]? = some (pattern, rule) ∧
      c.chooseCandidate position anchor candidates = .ok (some (.candidate rule m)) := by
  have hlt : index < candidates.length := by
    have hfind := h
    unfold findCandidate at hfind
    split at hfind
    · cases hfind
    · obtain ⟨matchers, hprepare, hfind⟩ := bind_eq_ok.mp hfind
      obtain ⟨patterns, hbarred, hready⟩ := bind_eq_ok.mp hprepare
      obtain ⟨_, _, _, _, hget, _⟩ := Regex.Matcher.searchAny_some (pure_eq_ok.mp hfind)
      have hindex := (List.getElem?_eq_some_iff.mp hget).1
      have hready := (forall₂_of_mapM hready).length_eq
      have hbarred := (forall₂_of_mapM hbarred).length_eq
      rw [List.length_map] at hbarred
      omega
  refine ⟨candidates[index].1, candidates[index].2, List.getElem?_eq_getElem hlt, ?_⟩
  rw [chooseCandidate, h, ok_bind]
  simp only [List.getElem?_eq_getElem hlt]
  rfl

theorem chooseCandidate_of_find_none
    (h : c.findCandidate position anchor candidates = .ok none) :
    c.chooseCandidate position anchor candidates = .ok none := by
  rw [chooseCandidate, h, ok_bind]
  rfl

/-- The end is chosen where it goes first. -/
theorem choose_of_endFirst {ending : Match} {found : Option (Nat × Match)}
    (hrule : s.current.rule = .span rule closing candidates)
    (hending : c.findEnding s.current position anchor = .ok (some ending))
    (hfound : c.findCandidate position anchor candidates = .ok found)
    (h : EndFirst position ending found) :
    c.choose s position anchor = .ok (some (.closing rule ending)) := by
  rw [choose_span hrule hending]
  simp only
  split
  · rfl
  · next hne =>
    cases found with
    | none =>
      rw [chooseCandidate_of_find_none hfound]
      rfl
    | some found =>
      obtain ⟨_, r, _, hcandidate⟩ := chooseCandidate_of_find hfound
      have hlt : ending.start < (Choice.candidate r found.2).found.start :=
        (h.resolve_left hne) _ _ rfl
      rw [hcandidate, ok_bind]
      simp only [hlt, if_true]
      rfl

/-- Where the end does not go first, the choice is that among the candidates. -/
theorem choose_of_not_endFirst {ending : Option Match} {found : Option (Nat × Match)}
    (hrule : s.current.rule = .span rule closing candidates)
    (hending : c.findEnding s.current position anchor = .ok ending)
    (hfound : c.findCandidate position anchor candidates = .ok found)
    (h : ∀ e, ending = some e → ¬ EndFirst position e found) :
    c.choose s position anchor = c.chooseCandidate position anchor candidates := by
  rw [choose_span hrule hending]
  cases ending with
  | none => rfl
  | some e =>
    obtain ⟨hne, hnot⟩ := not_or.mp (h e rfl)
    cases found with
    | none => exact absurd (fun _ _ h => nomatch h) hnot
    | some found =>
      obtain ⟨_, r, _, hcandidate⟩ := chooseCandidate_of_find hfound
      have hle : ¬ e.start < (Choice.candidate r found.2).found.start := by
        intro hlt
        refine hnot fun _ _ heq => ?_
        cases heq
        exact hlt
      simp only [hcandidate, if_neg hne, ok_bind, if_neg hle]
      rfl

/-- The match of a candidate closes nothing: all that was open is still open behind it. -/
theorem take_candidate_entries {m : Match}
    (h : c.take s position anchor (.candidate rule m) = .ok next) :
    s.entries <+: next.state.entries := by
  obtain ⟨compiled, _, h⟩ := bind_eq_ok.mp h
  obtain ⟨⟨s', anchor'⟩, henter, h⟩ := bind_eq_ok.mp h
  obtain ⟨_, _, h⟩ := bind_eq_ok.mp h
  cases pure_eq_ok.mp h
  rcases enter_ok henter with ⟨_, _, rfl, _⟩ | ⟨_, _, _, entry, _, _, rfl, _⟩ |
    ⟨_, _, _, entry, _, _, rfl, _⟩
  · exact List.prefix_refl _
  · exact ⟨[entry], (s.entries_push entry).symm⟩
  · exact ⟨[entry], (s.entries_pushBlock entry).symm⟩

theorem take_closing_state {m : Match}
    (h : c.take s position anchor (.closing rule m) = .ok next) : next.state = s.pop := by
  obtain ⟨_, _, h⟩ := bind_eq_ok.mp h
  cases pure_eq_ok.mp h
  rfl

end LineContext

/-- **What goes first, the end of a rule or a candidate.** In every state whose innermost rule has
an end, on every line and from every position: an end at the position itself is taken, whatever the
candidates. Otherwise the end is taken exactly if it begins in front of the leftmost match of the
candidates, or there is none; then its rule is closed, and else everything stays open. Compared with
an end that goes first at each tie, only the ties behind the position come out differently. -/
theorem end_precedes {c : LineContext} {s : State} {position : Nat} {anchor : Option Nat}
    {rule : Rule} {closing : Json} {candidates : List Candidate} {ending : Option Match}
    (hrule : s.current.rule = .span rule closing candidates)
    (hending : c.findEnding s.current position anchor = .ok ending) :
    (∀ e, ending = some e → e.start = position →
      c.choose s position anchor = .ok (some (.closing rule e))) ∧
    ∀ found, c.findCandidate position anchor candidates = .ok found →
      (∀ e, ending = some e → EndFirst position e found →
        c.choose s position anchor = .ok (some (.closing rule e)) ∧
          ∀ next, c.step s position anchor = .ok (some next) → next.state = s.pop) ∧
      ((∀ e, ending = some e → ¬ EndFirst position e found) →
        (found = none → c.choose s position anchor = .ok none) ∧
          (∀ i m, found = some (i, m) → ∃ pattern r, candidates[i]? = some (pattern, r) ∧
            c.choose s position anchor = .ok (some (.candidate r m))) ∧
          ∀ next, c.step s position anchor = .ok (some next) →
            s.entries <+: next.state.entries) ∧
      ∀ e i m, ending = some e → found = some (i, m) → position ≤ e.start → position ≤ m.start →
        ((EndFirst position e found ↔ e.start ≤ m.start) ↔
          ¬ (position < e.start ∧ e.start = m.start)) := by
  refine ⟨fun e he hstart => ?_, fun found hfound => ⟨fun e he hfirst => ?_, fun hnot => ?_, ?_⟩⟩
  · subst he
    rw [LineContext.choose_span hrule hending]
    simp only [if_pos hstart]
  · subst he
    have hchoose := LineContext.choose_of_endFirst hrule hending hfound hfirst
    refine ⟨hchoose, fun next hstep => ?_⟩
    obtain ⟨choice, hchoice, htake⟩ := LineContext.step_ok hstep
    cases hchoose.symm.trans hchoice
    exact LineContext.take_closing_state htake
  · have hchoose := LineContext.choose_of_not_endFirst hrule hending hfound hnot
    refine ⟨fun hnone => ?_, fun i m hsome => ?_, fun next hstep => ?_⟩
    · subst hnone
      rw [hchoose, LineContext.chooseCandidate_of_find_none hfound]
    · subst hsome
      obtain ⟨pattern, r, hget, hcandidate⟩ := LineContext.chooseCandidate_of_find hfound
      exact ⟨pattern, r, hget, hchoose.trans hcandidate⟩
    · obtain ⟨choice, hchoice, htake⟩ := LineContext.step_ok hstep
      rw [hchoose] at hchoice
      obtain ⟨r, m, rfl⟩ := LineContext.chooseCandidate_ok hchoice
      exact LineContext.take_candidate_entries htake
  · rintro e i m _ rfl he hm
    exact endFirst_iff_le he hm

/-- A grammar of asides in parentheses, in which the closing one is looked for twice. -/
def asideGrammar : Grammar where
  scopeName := .str "text.aside"
  patterns :=
    [{ scopes := ["meta.aside"]
       opening := some (.str "\\(")
       closing := some (.str "\\)")
       children := [{ scopes := ["invalid.illegal.aside"], single := some (.str "\\)") }] }]
  repository := []

/-- The end of the innermost rule and the match of its candidates, looked for from the start of the
line, begin at the same place. -/
def LineContext.TiesAt (c : LineContext) (s : State) (start : Nat) : Prop :=
  ∃ ending i m, c.findEnding s.current 0 none = .ok (some ending) ∧
    c.findCandidate 0 none s.current.rule.inner = .ok (some (i, m)) ∧
    ending.start = start ∧ m.start = start

theorem LineContext.tiesAt_of_starts {c : LineContext} {s : State} {start : Nat}
    (h : (do
      let ending ← c.findEnding s.current 0 none
      let found ← c.findCandidate 0 none s.current.rule.inner
      return (ending.map Match.start, found.map fun x => x.2.start) :
        Outcome (Option Nat × Option Nat)) = .ok (some start, some start)) : c.TiesAt s start := by
  obtain ⟨ending, hending, h⟩ := bind_eq_ok.mp h
  obtain ⟨found, hfound, h⟩ := bind_eq_ok.mp h
  obtain ⟨hstart, hstart'⟩ := Prod.mk.inj (pure_eq_ok.mp h)
  obtain ⟨e, rfl, he⟩ := Option.map_eq_some_iff.mp hstart
  obtain ⟨⟨i, m⟩, rfl, hm⟩ := Option.map_eq_some_iff.mp hstart'
  exact ⟨e, i, m, hending, hfound, he, hm⟩

/-- Inside of an aside, the end and the candidate tie at the start of one line, and behind the start
of another. -/
theorem aside_ties : ∃ g s rule closing candidates,
    CompiledGrammar.ofGrammar asideGrammar = .ok g ∧ g.Reaches .standard captureDepth s ∧
    s.current.rule = .span rule closing candidates ∧
    (g.context .standard captureDepth ")\n".toList false).TiesAt s 0 ∧
    (g.context .standard captureDepth "a)\n".toList false).TiesAt s 1 := by
  have hrun : (do
      let g ← CompiledGrammar.ofGrammar asideGrammar
      let behind ← g.highlight .standard g.start "(\n".toList true
      let starts (line : String) : Outcome (Option Nat × Option Nat) := do
        let c := g.context .standard captureDepth line.toList false
        let ending ← c.findEnding behind.1.current 0 none
        let found ← c.findCandidate 0 none behind.1.current.rule.inner
        return (ending.map Match.start, found.map fun x => x.2.start)
      let first ← starts ")\n"
      let second ← starts "a)\n"
      return (behind.1.current.rule matches .span .., first, second) :
        Outcome (Bool × (Option Nat × Option Nat) × Option Nat × Option Nat)).toOption =
        some (true, (some 0, some 0), some 1, some 1) := by
    decide +kernel
  obtain ⟨g, hg, hrun⟩ := bind_eq_ok.mp (toOption_eq_some.mp hrun)
  obtain ⟨⟨s, regions⟩, hline, hrun⟩ := bind_eq_ok.mp hrun
  obtain ⟨_, hfirst, hrun⟩ := bind_eq_ok.mp hrun
  obtain ⟨_, hsecond, hrun⟩ := bind_eq_ok.mp hrun
  obtain ⟨hspan, hstarts⟩ := Prod.mk.inj (pure_eq_ok.mp hrun)
  obtain ⟨rfl, rfl⟩ := Prod.mk.inj hstarts
  obtain ⟨rule, closing, candidates, hrule⟩ :
      ∃ rule closing candidates, s.current.rule = .span rule closing candidates := by
    split at hspan
    · exact ⟨_, _, _, ‹_›⟩
    · cases hspan
  exact ⟨g, s, rule, closing, candidates, hg, .line .start hline, hrule,
    LineContext.tiesAt_of_starts hfirst, LineContext.tiesAt_of_starts hsecond⟩

/-- At the start of a line the end of the aside goes first. -/
theorem end_precedes_aside : ∃ g s rule ending,
    CompiledGrammar.ofGrammar asideGrammar = .ok g ∧ g.Reaches .standard captureDepth s ∧
    (g.context .standard captureDepth ")\n".toList false).TiesAt s 0 ∧
    (g.context .standard captureDepth ")\n".toList false).choose s 0 none =
      .ok (some (.closing rule ending)) := by
  obtain ⟨g, s, rule, closing, candidates, hg, hs, hrule, htie, _⟩ := aside_ties
  obtain ⟨ending, _, _, hending, _, hstart, _⟩ := id htie
  exact ⟨g, s, rule, ending, hg, hs, htie, (end_precedes hrule hending).1 _ rfl hstart⟩

/-- Behind a letter it does not, although it begins no later than the candidate. -/
theorem end_precedes_not_behind : ∃ g s rule m,
    CompiledGrammar.ofGrammar asideGrammar = .ok g ∧ g.Reaches .standard captureDepth s ∧
    (g.context .standard captureDepth "a)\n".toList false).TiesAt s 1 ∧
    (g.context .standard captureDepth "a)\n".toList false).choose s 0 none =
      .ok (some (.candidate rule m)) := by
  obtain ⟨g, s, rule, closing, candidates, hg, hs, hrule, _, htie⟩ := aside_ties
  obtain ⟨ending, i, m, hending, hfound, hstart, hm⟩ := id htie
  have hnot : ∀ e, some ending = some e → ¬ EndFirst 0 e (some (i, m)) := by
    intro e he hfirst
    cases he
    rcases hfirst with h | h
    · omega
    · have := h i m rfl
      omega
  rw [hrule] at hfound
  obtain ⟨_, r, _, hcandidate⟩ := LineContext.chooseCandidate_of_find hfound
  exact ⟨g, s, r, m, hg, hs, htie,
    (LineContext.choose_of_not_endFirst hrule hending hfound hnot).trans hcandidate⟩

end Rubric
