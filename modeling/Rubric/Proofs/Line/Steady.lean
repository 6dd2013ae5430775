import Rubric.Proofs.Grammar.Rules
import Rubric.Proofs.Line.Standing
import Rubric.Proofs.Line.Tiling
import Rubric.Proofs.Pattern.Search

/-!
# Steady grammars

Under a steady grammar every line can be highlighted, with sound matches: what a rule begins with
fits the engine and consumes something, what ends it fits as well, and captures only give scopes. A
step that consumes nothing closes a rule then, so each step lowers twice the rest of the line plus
the height of the stack (`take_total`), and the limit on steps is never reached.
-/

namespace Rubric

/-- The rule only gives scopes. -/
def Rule.isBare (rule : Rule) : Bool :=
  rule.reference.isNone && rule.single.isNone && rule.opening.isNone && rule.children.isEmpty

/-- The captures are those of groups in ascending order, and only give scopes. -/
def BareCaptures (captures : List (Int × Rule)) : Prop :=
  captures.Pairwise (fun a b => a.1 < b.1) ∧ ∀ c ∈ captures, 0 ≤ c.1 ∧ c.2.isBare = true

/-- The end of the rule can be made from whatever it began with. -/
def Rule.Ends (engine : Regex.Engine) (rule : Rule) (pattern : Json) : Prop :=
  rule.single = none → ∃ closing, rule.closing = some (.str closing) ∧
    ∀ a text position m, Pattern.Finds engine a pattern text position m →
      ∃ ending, Pattern.expandWith text m closing.toList = .ok ending ∧
        Pattern.Fits engine false (.str (String.ofList ending))

/-- What the rule needs, where it begins with the pattern, for each line to be highlighted. -/
structure Rule.Steady (engine : Regex.Engine) (g : Grammar) (rule : Rule) (pattern : Json) :
    Prop where
  begins : Pattern.Fits engine true pattern
  compiles : ∃ compiled, g.compileRule rule = .ok compiled
  continuing : rule.continuing = none
  captures : BareCaptures rule.captures
  openingCaptures : BareCaptures rule.openingCaptures
  closingCaptures : BareCaptures rule.closingCaptures
  ends : rule.Ends engine pattern

/-- All rules of the grammar are steady. -/
structure Grammar.Steady (engine : Regex.Engine) (g : Grammar) : Prop where
  patterns : ∃ cs, g.expand g.patterns = .ok cs
  rules : ∀ rule ∈ g.rules, ∀ pattern, rule.BeginsWith pattern → rule.Steady engine g pattern

/-- A stack of spans with endings that fit, and the grammar itself at its bottom. -/
inductive Entry.Steady (engine : Regex.Engine) (g : Grammar) : Entry → List Entry → Prop
  | bottom {e : Entry} {name : Json} {inner : List Candidate} : e.rule = .root name inner →
    (∀ c ∈ inner, Candidate.Of g.rules c) → Steady engine g e []
  | on {e below : Entry} {rest : List Entry} {rule : Rule} {closing : Json}
    {inner : List Candidate} {ending : List Char} : e.rule = .span rule closing inner →
    (∀ c ∈ inner, Candidate.Of g.rules c) → BareCaptures rule.closingCaptures →
    e.ending = some ending → Pattern.Fits engine false (.str (String.ofList ending)) →
    Steady engine g below rest → Steady engine g e (below :: rest)

/-- The stack is steady, and there are no blocks. -/
structure State.Steady (engine : Regex.Engine) (g : Grammar) (s : State) : Prop where
  stack : Entry.Steady engine g s.current s.below
  blocks : s.blocks = []

theorem State.Steady.cases {engine : Regex.Engine} {g : Grammar} {s : State}
    (hs : s.Steady engine g) :
    (∃ name inner, s.current.rule = .root name inner ∧ (∀ c ∈ inner, Candidate.Of g.rules c) ∧
      s.below = []) ∨
    ∃ rule closing inner ending below rest, s.current.rule = .span rule closing inner ∧
      (∀ c ∈ inner, Candidate.Of g.rules c) ∧ BareCaptures rule.closingCaptures ∧
      s.current.ending = some ending ∧
      Pattern.Fits engine false (.str (String.ofList ending)) ∧
      s.below = below :: rest ∧ Entry.Steady engine g below rest := by
  obtain ⟨current, entries, blocks⟩ := s
  cases hs.stack with
  | bottom hrule hinner => exact .inl ⟨_, _, hrule, hinner, rfl⟩
  | on hrule hinner hcaptures hending hfits hrest =>
    exact .inr ⟨_, _, _, _, _, _, hrule, hinner, hcaptures, hending, hfits, rfl, hrest⟩

/-! ## Captures that only give scopes -/

theorem Grammar.compileRule_of_isBare {g : Grammar} {rule : Rule} (h : rule.isBare = true) :
    g.compileRule rule = .ok (.group rule []) := by
  simp only [Rule.isBare, Bool.and_eq_true, Option.isNone_iff_eq_none, List.isEmpty_iff] at h
  obtain ⟨⟨⟨href, hsingle⟩, hopening⟩, hchildren⟩ := h
  simp [compileRule, href, hsingle, hopening, hchildren, expand_nil, ok_bind, pure, Except.pure]

namespace LineContext
variable {c : LineContext} {rule : CompiledRule} {scope : Scope}

theorem Passes.bare (hi : rule.inner = []) {seen : List State.Key} {place : Place}
    (H : c.Passes (rule.start scope) seen place) : place.state = rule.start scope := by
  induction H with
  | start h =>
    cases h
    rfl
  | advance _ h _ ih | stay _ h _ _ ih =>
    obtain ⟨choice, hchoose, _⟩ := step_ok h
    rw [ih] at hchoose
    cases choose_bare hi rfl hchoose

/-- Where nothing can match nothing is used. -/
theorem not_uses_bare (hi : rule.inner = []) {nested : Array Char → State → Use → Prop} {u : Use} :
    ¬ c.Uses nested (rule.start scope) u := by
  have htakes {u : Use} {sc : Scope} (H : c.Takes (rule.start scope) u sc) : False := by
    cases H with
    | asked h => exact absurd h.append_eq (by simp [CompiledRule.start])
    | chosen h hchoose =>
      rw [h.bare hi] at hchoose
      cases choose_bare hi rfl hchoose
  intro H
  cases H with
  | itself h => exact htakes h
  | inside h => exact htakes h

theorem highlight_group (c : LineContext) (rule : Rule) (scope : Scope) :
    ∃ regions, c.highlight ((CompiledRule.group rule []).start scope) =
      .ok ((CompiledRule.group rule []).start scope, regions) := by
  have hlimit : ∃ fuel, c.stepLimit ((CompiledRule.group rule []).start scope) = fuel + 1 :=
    Nat.exists_eq_succ_of_ne_zero (Nat.ne_of_gt (Nat.mul_pos (Nat.succ_pos _) (Nat.succ_pos _)))
  obtain ⟨fuel, hfuel⟩ := hlimit
  refine ⟨_, bind_eq_ok.mpr ⟨.start ((CompiledRule.group rule []).start scope), rfl,
    bind_eq_ok.mpr ⟨.start ((CompiledRule.group rule []).start scope), ?_, rfl⟩⟩⟩
  simp only [Place.start]
  rw [hfuel]
  rfl

end LineContext

section
variable {engine : Regex.Engine} {g : Grammar} {depth : Nat} {captures : List (Int × Rule)}

theorem BareCaptures.bare (h : BareCaptures captures) : ∀ c ∈ captures, c.2.isBare = true :=
  fun c hc => (h.2 c hc).2

theorem answers_bare (h : ∀ c ∈ captures, c.2.isBare = true) :
    Answers g (nestedHighlights engine g (depth + 1)) captures := by
  intro capture hc
  refine ⟨_, Grammar.compileRule_of_isBare (h capture hc), fun t sc => ?_⟩
  obtain ⟨regions, hr⟩ :=
    (lineContext engine g depth t false).highlight_group capture.2 sc
  exact ⟨regions, bind_eq_ok.mpr ⟨_, hr, rfl⟩⟩

theorem nests_bare {inner : Highlights} {text t : Array Char} {scope : Scope} {m : Regex.Match}
    {position : Nat} {regions : List Region} {s : State} (h : ∀ c ∈ captures, c.2.isBare = true)
    (H : Nests g inner text scope m captures position regions t s) :
    ∃ rule sc, rule.isBare = true ∧ s = (CompiledRule.group rule []).start sc := by
  induction H with
  | @here capture _ _ _ _ _ _ hcomp =>
    have hbare := h capture (List.mem_cons_self ..)
    cases hcomp.symm.trans (Grammar.compileRule_of_isBare hbare)
    exact ⟨capture.2, _, hbare, rfl⟩
  | later _ _ ih => exact ih fun c hc => h c (List.mem_cons_of_mem _ hc)

theorem demands_bare {text : Array Char} {scope : Scope} {m : Regex.Match} {position : Nat}
    {regions : List Region} (h : ∀ c ∈ captures, c.2.isBare = true) :
    Demands g (nestedHighlights engine g (depth + 1)) text scope m captures position regions := by
  intro t s hn rule compiled sc hs hcomp regs hr
  obtain ⟨bare, sc', hbare, hs'⟩ := nests_bare h hn
  have hrule : compiled = .group bare [] := congrArg (·.current.rule) (hs.symm.trans hs')
  subst hrule hs
  refine ⟨?_, fun hc ht => nestedHighlights_whole hc hcomp ht hr⟩
  obtain ⟨⟨s', regs'⟩, hline, hr⟩ := bind_eq_ok.mp hr
  cases pure_eq_ok.mp hr
  have hno (u : Use) :
      ¬ UsesWithin engine g (depth + 1) t ((CompiledRule.group bare []).start sc) false u :=
    LineContext.not_uses_bare (c := lineContext engine g depth t false) rfl
  exact highlightWithin_tiles (fun u hu => absurd hu (hno u)) hline

end

/-! ## The matches of a steady grammar -/

theorem takenSpan?_eq {m : Regex.Match} {index : Int} {span : Regex.Span} (hi : 0 ≤ index)
    (h : Pattern.takenSpan? m index = some span) : m.span? index.toNat = some span := by
  unfold Pattern.takenSpan? at h
  split at h
  · next hgroup =>
    split at h
    · cases h
      simp only [Pattern.groupSpan?, hi, if_true] at hgroup
      rw [Regex.Match.span?, hgroup]
      rfl
    · cases h
  · cases h

/-- A match that lies where it should is used soundly, if the captures only give scopes. -/
theorem Regex.Matcher.Found.sound {strict : Bool} {text : Array Char} {position : Nat}
    {m : Regex.Match} {captures : List (Int × Rule)}
    (H : Regex.Matcher.Found strict text.size position m) (hc : BareCaptures captures) :
    Use.Sound ⟨text, position, false, m, captures⟩ := by
  have hspans (l : List (Int × Rule)) (hl : BareCaptures l) (x : Regex.Span × Rule)
      (hx : x ∈ takenSpans m l) : ∃ capture ∈ l, x.2 = capture.2 ∧
        m.span? capture.1.toNat = some x.1 := by
    obtain ⟨capture, hmem, hx⟩ := List.mem_filterMap.mp hx
    obtain ⟨span, hs, rfl⟩ := Option.map_eq_some_iff.mp hx
    exact ⟨capture, hmem, rfl, takenSpan?_eq (hl.2 capture hmem).1 hs⟩
  refine ⟨H.position_le, fun h => Bool.noConfusion h, H.laid.le_stop, H.laid.stop_le,
    fun x hx => ?_, ?_⟩
  · obtain ⟨capture, _, _, hs⟩ := hspans captures hc x hx
    exact H.laid.inside _ _ hs
  · change (takenSpans m captures).Pairwise Fits
    induction captures with
    | nil => exact .nil
    | cons capture rest ih =>
      have hrest : BareCaptures rest :=
        ⟨hc.1.of_cons, fun c hmem => hc.2 c (List.mem_cons_of_mem _ hmem)⟩
      cases hs : Pattern.takenSpan? m capture.1 with
      | none =>
        rw [takenSpans_cons_none hs]
        exact ih hrest
      | some span =>
        rw [takenSpans_cons_some hs]
        refine .cons (fun x hx => ?_) (ih hrest)
        obtain ⟨hnonneg, hbare⟩ := hc.2 capture (List.mem_cons_self ..)
        obtain ⟨later, hmem, _, hlater⟩ := hspans rest hrest x hx
        have hlt : capture.1.toNat < later.1.toNat := by
          have := (List.pairwise_cons.mp hc.1).1 later hmem
          omega
        have hfollows := H.laid.nested _ _ _ _ hlt (takenSpan?_eq hnonneg hs) hlater
        have hchildren : capture.2.children = [] := by
          simp only [Rule.isBare, Bool.and_eq_true, List.isEmpty_iff] at hbare
          exact hbare.2
        refine ⟨?_, fun h => absurd hchildren h⟩
        rcases hfollows with h | h
        · exact .inl (.inr h)
        · exact .inr h

/-- A candidate of the grammar whose pattern finds the match, or the pattern that ends the innermost
rule. -/
def Choice.Steady (c : LineContext) (s : State) (position : Nat) (anchor : Option Nat) :
    Choice → Prop
  | candidate rule m => ∃ pattern, Candidate.Of c.grammar.rules (pattern, rule) ∧
    Pattern.Finds c.engine (c.anchoring position anchor) pattern c.text position m
  | closing rule m => (∃ closing inner, s.current.rule = .span rule closing inner) ∧
    BareCaptures rule.closingCaptures ∧ Regex.Matcher.Found false c.text.size position m

namespace LineContext
variable {c : LineContext} {s : State} {position : Nat} {anchor : Option Nat}

theorem chooseCandidate_total (s : State) (position : Nat) (anchor : Option Nat)
    {candidates : List Candidate} (hg : c.grammar.Steady c.engine)
    (hc : ∀ x ∈ candidates, Candidate.Of c.grammar.rules x) :
    ∃ found, c.chooseCandidate position anchor candidates = .ok found ∧
      ∀ choice, found = some choice → choice.Steady c s position anchor := by
  have hfits : ∀ pattern ∈ candidates.map (·.1), Pattern.Fits c.engine true pattern := by
    intro pattern hp
    obtain ⟨x, hx, rfl⟩ := List.mem_map.mp hp
    exact (hg.rules x.2 (hc x hx).1 x.1 (hc x hx).2).begins
  obtain ⟨found, hfind, hfound⟩ := Pattern.findAny_total (c.anchoring position anchor) c.text
    position hfits
  have hcandidate : ∃ found, c.findCandidate position anchor candidates = .ok found ∧
      ∀ index m, found = some (index, m) → ∃ x, candidates[index]? = some x ∧
        Pattern.Finds c.engine (c.anchoring position anchor) x.1 c.text position m := by
    unfold findCandidate
    split
    · exact ⟨none, rfl, fun _ _ h => nomatch h⟩
    · refine ⟨found, hfind, fun index m hm => ?_⟩
      obtain ⟨pattern, hget, hfinds⟩ := hfound index m hm
      rw [List.getElem?_map] at hget
      obtain ⟨x, hx, rfl⟩ := Option.map_eq_some_iff.mp hget
      exact ⟨x, hx, hfinds⟩
  obtain ⟨found, hok, hspec⟩ := hcandidate
  unfold chooseCandidate
  rw [hok, ok_bind]
  cases found with
  | none => exact ⟨none, rfl, fun _ h => nomatch h⟩
  | some p =>
    obtain ⟨x, hx, hfinds⟩ := hspec p.1 p.2 rfl
    refine ⟨some (.candidate x.2 p.2), by simp [hx, pure, Except.pure], fun choice h => ?_⟩
    cases h
    exact ⟨x.1, hc x (List.mem_of_getElem? hx), hfinds⟩

theorem choose_total (position : Nat) (anchor : Option Nat) (hg : c.grammar.Steady c.engine)
    (hs : s.Steady c.engine c.grammar) :
    ∃ found, c.choose s position anchor = .ok found ∧
      ∀ choice, found = some choice → choice.Steady c s position anchor := by
  have hcandidate (inner : List Candidate) (h : ∀ x ∈ inner, Candidate.Of c.grammar.rules x) :=
    chooseCandidate_total s position anchor hg h
  unfold choose
  rcases hs.cases with ⟨_, inner, hrule, hinner, _⟩ |
    ⟨rule, closing, inner, ending, _, _, hrule, hinner, hcaptures, hending, hfits, _⟩
  · simp only [hrule]
    exact hcandidate _ hinner
  · obtain ⟨found, hfind, hfound⟩ := Pattern.find_total (c.anchoring position anchor) c.text
      position hfits
    obtain ⟨other, hok, hother⟩ := hcandidate inner hinner
    have hclosing (m : Regex.Match) (hm : found = some m) :
        (Choice.closing rule m).Steady c s position anchor :=
      ⟨⟨closing, inner, hrule⟩, hcaptures, hfits.found (hfound m hm)⟩
    simp only [hrule, findEnding, hending, hfind, ok_bind, hok]
    cases found with
    | none => exact ⟨other, rfl, hother⟩
    | some m =>
      simp only
      split
      · exact ⟨_, rfl, fun choice h => by cases h; exact hclosing m rfl⟩
      · cases other with
        | none => exact ⟨_, rfl, fun choice h => by cases h; exact hclosing m rfl⟩
        | some choice =>
          simp only
          split
          · exact ⟨_, rfl, fun choice h => by cases h; exact hclosing m rfl⟩
          · exact ⟨_, rfl, hother⟩

end LineContext

/-! ## The steps of a line -/

theorem Rule.Steady.compileRule_eq {engine : Regex.Engine} {g : Grammar} {rule : Rule}
    {pattern : Json} (H : rule.Steady engine g pattern) (hb : rule.BeginsWith pattern) :
    g.compileRule rule = .ok (.single rule) ∨
      rule.single = none ∧ ∃ closing inner, rule.closing = some (.str closing) ∧
        g.expand rule.children = .ok inner ∧
        g.compileRule rule = .ok (.span rule (.str closing) inner.pairs) := by
  obtain ⟨href, hsingle | ⟨hsingle, hopening⟩⟩ := hb
  · exact .inl (by simp [Grammar.compileRule, href, hsingle])
  · obtain ⟨closing, hclosing, _⟩ := H.ends hsingle
    obtain ⟨compiled, hcomp⟩ := H.compiles
    have heq : g.compileRule rule =
        (do return .span rule (.str closing) (← g.expand rule.children).pairs) := by
      simp only [Grammar.compileRule, href, hsingle, hopening, H.continuing, hclosing,
        Option.getD_some]
    rw [heq] at hcomp ⊢
    obtain ⟨inner, hinner, _⟩ := bind_eq_ok.mp hcomp
    exact .inr ⟨hsingle, closing, inner, hclosing, hinner, by rw [hinner]; rfl⟩

namespace LineContext
variable {engine : Regex.Engine} {g : Grammar} {depth : Nat} {text : Array Char} {firstLine : Bool}
  {s : State} {position : Nat} {anchor : Option Nat}

/-- The step that a steady choice makes: the state behind it is steady again, and if it consumes
nothing it closes a rule. -/
structure Goes (c : LineContext) (s : State) (position : Nat) (next : Step) : Prop where
  steady : next.state.Steady c.engine c.grammar
  position_le : position ≤ next.position
  stop_le : next.position ≤ c.text.size
  lowers : position < next.position ∧ next.state.height ≤ s.height + 1 ∨
    next.state.height + 1 = s.height

theorem regionsOf_total (engine : Regex.Engine) (g : Grammar) (depth : Nat) (firstLine : Bool)
    (scope : Scope) {captures : List (Int × Rule)} {m : Regex.Match} {strict : Bool}
    (hc : BareCaptures captures) (hm : Regex.Matcher.Found strict text.size position m) :
    ∃ regions,
      (lineContext engine g (depth + 1) text firstLine).regionsOf scope m captures = .ok regions :=
  matchRegions_total (hm.sound hc) (demands_bare hc.bare) (answers_bare hc.bare)

theorem take_total (hg : g.Steady engine) (hs : s.Steady engine g) {choice : Choice}
    (hc : choice.Steady (lineContext engine g (depth + 1) text firstLine) s position anchor) :
    ∃ next, (lineContext engine g (depth + 1) text firstLine).take s position anchor choice =
        .ok next ∧ Goes (lineContext engine g (depth + 1) text firstLine) s position next := by
  cases choice with
  | closing rule m =>
    obtain ⟨⟨closing, inner, hrule⟩, hcaptures, hm⟩ := hc
    obtain ⟨regions, hr⟩ := regionsOf_total engine g depth firstLine (s.current.scopeAround rule)
      hcaptures hm
    refine ⟨_, bind_eq_ok.mpr ⟨regions, hr, rfl⟩, ?_⟩
    rcases hs.cases with ⟨_, _, hroot, _⟩ | ⟨_, _, _, _, below, rest, _, _, _, _, _, hb, hrest⟩
    · rw [hrule] at hroot
      cases hroot
    · have hpop : s.pop = { s with current := below, below := rest } := by simp [State.pop, hb]
      have hheight : s.height = rest.length + 2 := by simp [State.height, hb]
      rw [hpop]
      exact ⟨⟨hrest, hs.blocks⟩, Nat.le_trans hm.position_le hm.laid.le_stop, hm.laid.stop_le,
        .inr hheight.symm⟩
  | candidate rule m =>
    obtain ⟨pattern, ⟨hmem, hb⟩, hfinds⟩ := hc
    have hrule := hg.rules rule hmem pattern hb
    have hm := hrule.begins.found hfinds
    have hlt : position < m.stop := Nat.lt_of_le_of_lt hm.position_le (hm.lt rfl)
    rcases hrule.compileRule_eq hb with hcomp | ⟨hsingle, closing, inner, hclosing, hinner, hcomp⟩
    · obtain ⟨regions, hr⟩ := regionsOf_total engine g depth firstLine
        (s.current.scope ++ (CompiledRule.single rule).scopes) hrule.captures hm
      exact ⟨_, bind_eq_ok.mpr ⟨_, hcomp, bind_eq_ok.mpr ⟨_, rfl, bind_eq_ok.mpr ⟨_, hr, rfl⟩⟩⟩,
        hs, Nat.le_of_lt hlt, hm.laid.stop_le, .inl ⟨hlt, Nat.le_succ _⟩⟩
    · obtain ⟨regions, hr⟩ := regionsOf_total engine g depth firstLine
        (s.current.scope ++ (CompiledRule.span rule (.str closing) inner.pairs).scopes)
        hrule.openingCaptures hm
      obtain ⟨closing', hclosing', hends⟩ := hrule.ends hsingle
      cases hclosing.symm.trans hclosing'
      obtain ⟨ending, hexpand, hfits⟩ := hends _ text position m hfinds
      have hopened : ∃ entry,
          (lineContext engine g (depth + 1) text firstLine).opened s m
            (.span rule (.str closing) inner.pairs) rule.contentScopes (.str closing) = .ok entry ∧
          entry.rule = .span rule (.str closing) inner.pairs ∧ entry.ending = some ending :=
        ⟨_, bind_eq_ok.mpr ⟨ending, hexpand, rfl⟩, rfl, rfl⟩
      obtain ⟨entry, hentry, herule, heending⟩ := hopened
      have henter : (lineContext engine g (depth + 1) text firstLine).enter s anchor m
          (.span rule (.str closing) inner.pairs) = .ok (s.push entry, some m.stop) :=
        bind_eq_ok.mpr ⟨entry, hentry, rfl⟩
      refine ⟨_, bind_eq_ok.mpr ⟨_, hcomp, bind_eq_ok.mpr ⟨_, henter, bind_eq_ok.mpr ⟨_, hr, rfl⟩⟩⟩,
        ⟨?_, hs.blocks⟩, Nat.le_of_lt hlt, hm.laid.stop_le, .inl ⟨hlt, Nat.le_refl _⟩⟩
      exact .on herule (Grammar.expand_children_of hmem hinner) hrule.closingCaptures heending hfits
        hs.stack

/-- Twice the rest of the line plus the height of the stack is more than the steps that follow. -/
theorem steps_total (firstLine : Bool) (depth : Nat) (hg : g.Steady engine) {fuel : Nat}
    (seen : List State.Key) {place : Place} (hs : place.state.Steady engine g)
    (hpos : place.position ≤ text.size)
    (hfuel : 2 * (text.size - place.position) + place.state.height < fuel) :
    ∃ final, (lineContext engine g (depth + 1) text firstLine).steps fuel seen place = .ok final ∧
      final.state.Steady engine g := by
  induction fuel generalizing seen place with
  | zero => omega
  | succ fuel ih =>
    obtain ⟨found, hchoose, hsteady⟩ := choose_total
      (c := lineContext engine g (depth + 1) text firstLine) place.position place.anchor hg hs
    have hstep : ∀ choice, found = some choice → ∃ next,
        (lineContext engine g (depth + 1) text firstLine).step place.state place.position
          place.anchor = .ok (some next) ∧
        Goes (lineContext engine g (depth + 1) text firstLine) place.state place.position next := by
      intro choice hc
      obtain ⟨next, htake, hgoes⟩ := take_total hg hs (hsteady choice hc)
      subst hc
      exact ⟨next, bind_eq_ok.mpr ⟨_, hchoose, bind_eq_ok.mpr ⟨next, htake, rfl⟩⟩, hgoes⟩
    unfold steps
    cases found with
    | none =>
      have hnone : (lineContext engine g (depth + 1) text firstLine).step place.state
          place.position place.anchor = .ok none := bind_eq_ok.mpr ⟨_, hchoose, rfl⟩
      rw [hnone]
      exact ⟨place, rfl, hs⟩
    | some choice =>
      obtain ⟨next, hnext, hgoes⟩ := hstep choice rfl
      have hlow := hgoes.lowers
      have hle := hgoes.position_le
      have hstop : next.position ≤ text.size := hgoes.stop_le
      have hrest : 2 * (text.size - next.position) + next.state.height < fuel := by omega
      rw [hnext]
      simp only [ok_bind]
      split
      · exact ih _ hgoes.steady hstop hrest
      · split
        · exact ⟨_, rfl, hgoes.steady⟩
        · exact ih _ hgoes.steady hstop hrest

theorem lt_stepLimit (c : LineContext) (s : State) :
    2 * c.text.size + s.height < c.stepLimit s := by
  simp only [stepLimit]
  generalize c.grammar.ruleCount = rules
  generalize c.text.size = n
  generalize s.height = height
  have h1 : n + 1 ≤ (n + 1) * (rules + 1) := Nat.le_mul_of_pos_right _ (Nat.succ_pos _)
  have h2 : height + (n + 1) ≤ (height + (n + 1) * (rules + 1)) * (rules + 1) :=
    Nat.le_trans (by omega) (Nat.le_mul_of_pos_right _ (Nat.succ_pos _))
  have h3 : (n + 1) * (height + (n + 1) + 2) ≤
      (n + 1) * ((height + (n + 1) * (rules + 1)) * (rules + 1) + 2) :=
    Nat.mul_le_mul_left _ (by omega)
  have h4 : n ≤ n * (height + (n + 1) + 2) := Nat.le_mul_of_pos_right _ (Nat.succ_pos _)
  rw [Nat.add_mul, Nat.one_mul] at h3
  omega

/-- Every line can be highlighted, from every steady state. -/
theorem highlight_total (text : Array Char) (firstLine : Bool) (depth : Nat)
    (hg : g.Steady engine) (hs : s.Steady engine g) :
    ∃ s' regions, (lineContext engine g (depth + 1) text firstLine).highlight s =
      .ok (s', regions) ∧ s'.Steady engine g := by
  have hblocks : (lineContext engine g (depth + 1) text firstLine).continueBlocks s [] s.blocks
      (.start s) = .ok (.start s) := by
    rw [hs.blocks]
    rfl
  obtain ⟨final, hsteps, hfinal⟩ := steps_total firstLine depth hg [s.key]
    (show (Place.start s).state.Steady engine g from hs) (Nat.zero_le text.size)
    (lt_stepLimit (lineContext engine g (depth + 1) text firstLine) s)
  exact ⟨_, _, bind_eq_ok.mpr ⟨_, hblocks, bind_eq_ok.mpr ⟨final, hsteps, rfl⟩⟩, hfinal⟩

/-! ## The matches that a line uses -/

theorem Passes.steady {seen : List State.Key} {place : Place} (hg : g.Steady engine)
    (hs : s.Steady engine g)
    (H : (lineContext engine g (depth + 1) text firstLine).Passes s seen place) :
    place.state.Steady engine g := by
  have hnext {place : Place} {next : Step} (hp : place.state.Steady engine g)
      (h : (lineContext engine g (depth + 1) text firstLine).step place.state place.position
        place.anchor = .ok (some next)) : next.state.Steady engine g := by
    obtain ⟨choice, hchoose, htake⟩ := step_ok h
    obtain ⟨found, hfound, hsteady⟩ := choose_total
      (c := lineContext engine g (depth + 1) text firstLine) place.position place.anchor hg hp
    cases hchoose.symm.trans hfound
    obtain ⟨next', htake', hgoes⟩ := take_total hg hp (hsteady choice rfl)
    cases htake.symm.trans htake'
    exact hgoes.steady
  induction H with
  | start h =>
    rw [hs.blocks] at h
    cases h
    exact hs
  | advance _ h _ ih | stay _ h _ _ ih => exact hnext ih h

theorem choice_sound {c : LineContext} {choice : Choice}
    (hg : c.grammar.Steady c.engine) (H : choice.Steady c s position anchor) :
    BareCaptures (choice.captures c.grammar) ∧
      Use.Sound ⟨c.text, position, false, choice.found, choice.captures c.grammar⟩ := by
  cases choice with
  | closing rule m => exact ⟨H.2.1, H.2.2.sound H.2.1⟩
  | candidate rule m =>
    obtain ⟨pattern, ⟨hmem, hb⟩, hfinds⟩ := H
    have hrule := hg.rules rule hmem pattern hb
    have hbare : BareCaptures ((Choice.candidate rule m).captures c.grammar) := by
      rcases hrule.compileRule_eq hb with hcomp | ⟨_, _, _, _, _, hcomp⟩
      · simp only [Choice.captures, hcomp]
        exact hrule.captures
      · simp only [Choice.captures, hcomp]
        exact hrule.openingCaptures
    exact ⟨hbare, (hrule.begins.found hfinds).sound hbare⟩

theorem Takes.steady {u : Use} {scope : Scope} (hg : g.Steady engine) (hs : s.Steady engine g)
    (H : (lineContext engine g (depth + 1) text firstLine).Takes s u scope) :
    BareCaptures u.captures ∧ u.Sound := by
  cases H with
  | asked h => exact absurd h.append_eq (by simp [hs.blocks])
  | chosen h hchoose =>
    obtain ⟨found, hfound, hsteady⟩ := choose_total
      (c := lineContext engine g (depth + 1) text firstLine) _ _ hg (h.steady hg hs)
    cases hchoose.symm.trans hfound
    exact choice_sound hg (hsteady _ rfl)

end LineContext

/-- Under a steady grammar every match that a line uses is sound. -/
theorem uses_sound {engine : Regex.Engine} {g : Grammar} {depth : Nat} {text : Array Char}
    {s : State} {firstLine : Bool} {u : Use} (hg : g.Steady engine) (hs : s.Steady engine g)
    (H : UsesWithin engine g (depth + 2) text s firstLine u) : u.Sound := by
  cases H with
  | itself h => exact (h.steady hg hs).2
  | inside h hn hv =>
    obtain ⟨rule, sc, _, rfl⟩ := nests_bare (h.steady hg hs).1.bare hn
    exact absurd hv (LineContext.not_uses_bare rfl)

/-! ## Documents -/

theorem Grammar.Steady.ofGrammar_total {engine : Regex.Engine} {grammar : Grammar}
    (H : grammar.Steady engine) :
    ∃ g, CompiledGrammar.ofGrammar grammar = .ok g ∧ g.grammar = grammar := by
  obtain ⟨cs, hcs⟩ := H.patterns
  exact ⟨_, bind_eq_ok.mpr ⟨_, bind_eq_ok.mpr ⟨cs, hcs, rfl⟩, rfl⟩, rfl⟩

namespace CompiledGrammar
variable {engine : Regex.Engine} {grammar : Grammar} {g : CompiledGrammar}

theorem start_steady (hg : ofGrammar grammar = .ok g) : g.start.Steady engine grammar := by
  obtain ⟨_, inner, hinner, hroot⟩ := ofGrammar_ok hg
  exact ⟨.bottom hroot (Grammar.expand_patterns_of hinner), rfl⟩

end CompiledGrammar

/-- Under a steady grammar each line has tokens, which are the line. -/
theorem lineTokens_total {engine : Regex.Engine} {g : CompiledGrammar} {s : State}
    (firstLine : Bool) (line : List Char) (hg : g.grammar.Steady engine)
    (hs : s.Steady engine g.grammar) :
    ∃ s' tokens, lineTokens engine g s firstLine line = .ok (s', tokens) ∧
      s'.Steady engine g.grammar ∧ Spell line tokens := by
  obtain ⟨s', regions, h, hs'⟩ := LineContext.highlight_total (line ++ ['\n']).toArray firstLine
    158 hg hs
  have H := highlightWithin_tiles (fun u (hu : UsesWithin engine g.grammar (158 + 2) _ s _ u) =>
    uses_sound hg hs hu) h
  refine ⟨s', _, bind_eq_ok.mpr ⟨_, h, rfl⟩, hs', fun t ht => lt_of_mem_tokensOfRegions H ht, ?_⟩
  rw [flatMap_text_tokensOfRegions H (by simp), List.drop_zero]

end Rubric
