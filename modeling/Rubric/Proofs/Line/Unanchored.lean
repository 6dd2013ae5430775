import Rubric.Proofs.Line.Moves
import Rubric.Proofs.Pattern.Anchors

/-!
# Grammars without `\G`

Whether `\G` may match is no matter to a grammar whose patterns do not ask for it, and an end
without references to groups is the same whatever began the rule (`Grammar.Unanchored`). With such a
grammar a rule takes the same match whenever the line stands at a position with it
(`LineContext.choose_unanchored`). What is open was made from rules of the grammar, the ends
included (`Entry.Ready`), in all states that lines leave behind and in those that the texts of
captures begin with.
-/

namespace Rubric

namespace Pattern
variable {engine : Regex.Engine} {a : Anchoring} {pattern : Json} {patterns : List Json}
  {text : Array Char} {position : Nat} {firstLine : Bool} {s : List Char}

/-- The pattern is a text that does not ask for `\G`. -/
def Unanchored (pattern : Json) : Prop :=
  ∃ s, pattern = .str s ∧ hasPair '\\' 'G' s.toList = false

theorem maskEach_here {letters : List Char} (h : hasPair '\\' 'G' s = false) :
    maskEach (letters ++ ['G']) s = maskEach letters s := by
  fun_induction maskEach letters s with
  | case1 c rest ih =>
    have hc : c ≠ 'G' := by
      simpa using (Bool.or_eq_false_iff.mp h).1
    simp [maskEach, hc, ih (hasPair_of_cons (hasPair_of_cons h))]
  | case2 c rest hplain ih => rw [maskEach, ih (hasPair_of_cons h)]; exact hplain
  | case3 => rfl

theorem anchored_here (here here' : Bool) (h : hasPair '\\' 'G' s = false) :
    anchored ⟨firstLine, here⟩ s = anchored ⟨firstLine, here'⟩ s := by
  have hnone : anchored ⟨firstLine, false⟩ s = anchored ⟨firstLine, true⟩ s := by
    simp [anchored, mask, Anchoring.barred, h, maskEach_here h]
  cases here <;> cases here' <;> simp [hnone]

theorem Unanchored.barred_here (h : Unanchored pattern) (here here' : Bool) :
    barred ⟨firstLine, here⟩ pattern = barred ⟨firstLine, here'⟩ pattern := by
  obtain ⟨s, rfl, hs⟩ := h
  simp only [barred, anchored_here here here' hs]

theorem find_here (here here' : Bool) (h : Unanchored pattern) :
    find engine ⟨firstLine, here⟩ pattern text position =
      find engine ⟨firstLine, here'⟩ pattern text position := by
  simp only [find, prepare, h.barred_here here here']

theorem findAny_here (here here' : Bool) (h : ∀ pattern ∈ patterns, Unanchored pattern) :
    findAny engine ⟨firstLine, here⟩ patterns text position =
      findAny engine ⟨firstLine, here'⟩ patterns text position := by
  have hbarred : patterns.mapM (barred ⟨firstLine, here⟩) =
      patterns.mapM (barred ⟨firstLine, here'⟩) := mapM_congr fun p hp => (h p hp).barred_here _ _
  simp only [findAny, prepareAll, hbarred]

end Pattern

/-- No pattern asks for `\G`, and what closes or continues a rule has no references to groups. A
rule that begins has an end, for what stands in for an end asks for `\G` (`neverClosing`). -/
structure Grammar.Unanchored (g : Grammar) : Prop where
  patterns : ∀ p, g.Admits p → Pattern.Unanchored p
  endings : ∀ rule, g.Holds rule → ∀ q, rule.closing = some (.str q) ∨
    rule.continuing = some (.str q) → Pattern.refers q.toList = false

/-! ## What is open -/

/-- The entry is that of the grammar or of a rule of it. Unless a text begins with the entry, its
end was made from that of the rule. -/
inductive Entry.Ready (g : Grammar) : Entry → Prop
  | root {e : Entry} : g.compile = .ok e.rule → e.ending = none → Ready g e
  | bottom {e : Entry} : g.Holds source → g.compileRule source = .ok e.rule → e.ending = none →
    Ready g e
  | opened {e : Entry} : g.Holds source → g.compileRule source = .ok e.rule →
    e.rule.ending? = some (.str q) → Pattern.expandWith text m q.toList = .ok pattern →
    e.ending = some pattern → Ready g e

/-- All entries of the state are ready. -/
abbrev State.Ready (g : Grammar) (s : State) : Prop :=
  s.Throughout (Entry.Ready g)

namespace Entry.Ready
variable {g : Grammar} {e e' : Entry}

theorem made (h : e.Ready g) :
    g.compile = .ok e.rule ∨ ∃ rule, g.Holds rule ∧ g.compileRule rule = .ok e.rule := by
  cases h with
  | root h _ => exact .inl h
  | bottom hrule h _ | opened hrule h _ _ _ => exact .inr ⟨_, hrule, h⟩

theorem held (h : e.Ready g) : e.rule.Held g := by
  rcases h.made with h | ⟨rule, hrule, h⟩
  · obtain ⟨inner, hinner, h⟩ := bind_eq_ok.mp h
    rw [← pure_eq_ok.mp h]
    exact ⟨Grammar.expand_held (fun _ hr => .pattern hr) hinner, fun _ h => nomatch h⟩
  · exact hrule.compileRule h

/-- Which rule was made ready shows in what it was made from. -/
theorem eq_of_source? (h : e.Ready g) (h' : e'.Ready g)
    (heq : e.rule.source? = e'.rule.source?) : e.rule = e'.rule := by
  have hroot {compiled : CompiledRule} (h : g.compile = .ok compiled) :
      compiled.source? = none := by
    obtain ⟨inner, _, h⟩ := bind_eq_ok.mp h
    cases pure_eq_ok.mp h
    rfl
  rcases h.made with h | ⟨rule, _, h⟩ <;> rcases h'.made with h' | ⟨rule', _, h'⟩
  · exact Except.ok.inj (h.symm.trans h')
  · rw [hroot h, Grammar.source?_compileRule h'] at heq
    cases heq
  · rw [hroot h', Grammar.source?_compileRule h] at heq
    cases heq
  · rw [Grammar.source?_compileRule h, Grammar.source?_compileRule h'] at heq
    cases heq
    exact Except.ok.inj (h.symm.trans h')

/-- An end without references is that of the rule. -/
theorem ending_eq {pattern : List Char} (h : e.Ready g) (hg : g.Unanchored)
    (he : e.ending = some pattern) :
    ∃ q, pattern = q.toList ∧ e.rule.ending? = some (.str q) ∧ Pattern.Unanchored (.str q) := by
  cases h with
  | root _ hnone | bottom _ _ hnone => cases hnone.symm.trans he
  | @opened _ q _ _ _ _ hrule hc hending hexpand hsome =>
    cases hsome.symm.trans he
    have hrefers : Pattern.refers q.toList = false := by
      rcases Grammar.compileRule_ending hc hending with hq | hq | ⟨_, _, hq⟩
      · exact hg.endings _ hrule q (.inl hq)
      · exact hg.endings _ hrule q (.inr hq)
      · cases hq
        rfl
    have hadmits := hg.patterns _ (hrule.ending_admitted hc hending hexpand)
    cases (Pattern.expand_eq_self hrefers).symm.trans hexpand
    rw [String.ofList_toList] at hadmits
    exact ⟨q, rfl, hending, hadmits⟩

end Entry.Ready

namespace LineContext
variable {c : LineContext} {s s' : State} {position : Nat} {anchor anchor' : Option Nat}
  {choice choice' : Choice}

theorem opened_ready {g : Grammar} {rule : Rule} {m : Regex.Match} {compiled : CompiledRule}
    {names : List String} {ending : Json} {entry : Entry} (hrule : g.Holds rule)
    (hc : g.compileRule rule = .ok compiled) (hending : compiled.ending? = some ending)
    (h : c.opened s m compiled names ending = .ok entry) : entry.Ready g := by
  obtain ⟨q, pattern, rfl, hexpand, hpattern⟩ := opened_ending h
  cases (opened_ok h).2
  exact .opened hrule hc hending hexpand hpattern

theorem Opens.ready {place : Place} {e : Entry} (H : place.state.Ready c.grammar)
    (h : c.Opens place e) : e.Ready c.grammar := by
  obtain ⟨rule, m, compiled, names, ending, hchoose, hc, hending, hopen⟩ := h.opened
  obtain ⟨p, hp⟩ := choose_mem hchoose
  exact opened_ready (H.current.held.inner _ hp).1 hc hending hopen

theorem opensOnly_ready : c.OpensOnly s (Entry.Ready c.grammar) :=
  fun _ _ _ _ H h => h.ready H

theorem findCandidate_unanchored (anchor anchor' : Option Nat) (hg : c.grammar.Unanchored)
    {rule : CompiledRule} (H : rule.Held c.grammar) :
    c.findCandidate position anchor rule.inner = c.findCandidate position anchor' rule.inner := by
  have hinner : ∀ pattern ∈ rule.inner.map (·.1), Pattern.Unanchored pattern :=
    fun _ hp => hg.patterns _ (H.admitted hp)
  simp only [findCandidate, anchoring,
    Pattern.findAny_here (anchor == some position) (anchor' == some position) hinner]

/-- A rule that something can close has an end where it takes a match. -/
theorem exists_ending {rule : Rule} {closing : Json} {candidates : List Candidate}
    (h : c.choose s position anchor = .ok (some choice))
    (hrule : s.current.rule = .span rule closing candidates) :
    ∃ pattern, s.current.ending = some pattern := by
  unfold choose at h
  rw [hrule] at h
  obtain ⟨found, hending, _⟩ := bind_eq_ok.mp h
  unfold findEnding at hending
  split at hending
  · exact ⟨_, ‹_›⟩
  · cases hending

/-- Where no pattern asks for `\G` and no end has references, what a rule takes depends on the
position alone. -/
theorem choose_unanchored (hg : c.grammar.Unanchored) (hs : s.current.Ready c.grammar)
    (hs' : s'.current.Ready c.grammar) (hrule : s.current.rule = s'.current.rule)
    (h : c.choose s position anchor = .ok (some choice))
    (h' : c.choose s' position anchor' = .ok (some choice')) : choice = choice' := by
  have heq : c.choose s position anchor = c.choose s' position anchor' := by
    refine choose_eq hrule ?_ fun rule closing candidates hspan => ?_
    · simp only [chooseCandidate, findCandidate_unanchored anchor anchor' hg hs.held]
    · obtain ⟨pattern, hpattern⟩ := exists_ending h hspan
      obtain ⟨pattern', hpattern'⟩ := exists_ending h' (hrule ▸ hspan)
      obtain ⟨q, rfl, hq, hplain⟩ := hs.ending_eq hg hpattern
      obtain ⟨q', rfl, hq', _⟩ := hs'.ending_eq hg hpattern'
      rw [hrule, hq'] at hq
      cases hq
      rw [findEnding, findEnding, hpattern, hpattern']
      simp only [String.ofList_toList]
      exact Pattern.find_here _ _ hplain
  exact Option.some.inj (Except.ok.inj (h.symm.trans (heq.trans h')))

end LineContext

theorem CompiledGrammar.Reaches.ready {grammar : Grammar} {g : CompiledGrammar}
    {engine : Regex.Engine} {depth : Nat} {s : State} (hg : ofGrammar grammar = .ok g)
    (h : g.Reaches engine depth s) : s.Ready g.grammar := by
  refine h.throughout (.root ?_ rfl) fun _ _ _ _ _ => LineContext.opensOnly_ready
  obtain ⟨root, hroot, hg⟩ := bind_eq_ok.mp hg
  cases pure_eq_ok.mp hg
  exact hroot

/-- So is what the text of a capture begins with. -/
theorem Nests.ready {g : Grammar} {inner : Highlights} {text t : Array Char} {scope : Scope}
    {m : Regex.Match} {captures : List (Int × Rule)} {position : Nat} {regions : List Region}
    {s : State} (hcaptures : ∀ capture ∈ captures, g.Holds capture.2)
    (h : Nests g inner text scope m captures position regions t s) : s.Ready g := by
  induction h with
  | here _ hc => exact .start (.bottom (hcaptures _ (List.mem_cons_self ..)) hc rfl)
  | later _ _ ih => exact ih fun c hc => hcaptures c (List.mem_cons_of_mem _ hc)

end Rubric
