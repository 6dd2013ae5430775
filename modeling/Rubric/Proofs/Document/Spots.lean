import Rubric.Proofs.Document.Tokens
import Rubric.Proofs.Line.Engines
import Rubric.Proofs.Line.Naming
import Rubric.Proofs.Text.Lines

/-!
# Spots of a document

Under a steady grammar a document comes by one spot after another: the stack there, what stands in
front of the spot on its line, and what is left of the document (`Comes`). What is left decides on
the way from there: over a match (`Comes.goes`), to the next line (`Comes.crosses`), to the end of
the document (`Comes.finishes`), or to a token with a name of another kind (`Comes.spoils`).
-/

namespace Rubric

namespace LineContext
variable {c : LineContext} {s : State} {seen : List State.Key} {place : Place}

/-- From a place that it comes by, a line goes on with as many steps as it needs. -/
theorem Passes.resumes {s' : State} {regions : List Region} (H : c.Passes s seen place)
    (h : c.highlight s = .ok (s', regions)) :
    ∃ fuel last, c.steps fuel seen place = .ok last ∧ s' = last.state ∧
      regions = last.regions ++
        if last.position < c.text.size then
          [⟨last.position, c.text.size, last.state.current.scope⟩]
        else [] := by
  induction H with
  | start hblocks =>
    obtain ⟨place, hblocks', h⟩ := bind_eq_ok.mp h
    cases hblocks.symm.trans hblocks'
    obtain ⟨last, hsteps, h⟩ := bind_eq_ok.mp h
    cases pure_eq_ok.mp h
    exact ⟨_, last, hsteps, rfl, rfl⟩
  | advance _ hstep hlt ih =>
    obtain ⟨fuel, last, hsteps, hlast⟩ := ih
    cases fuel with
    | zero => cases hsteps
    | succ fuel =>
      obtain ⟨found, hstep', hsteps⟩ := bind_eq_ok.mp hsteps
      cases hstep.symm.trans hstep'
      simp only [hlt, if_true] at hsteps
      exact ⟨fuel, last, hsteps, hlast⟩
  | stay _ hstep hlt hseen ih =>
    obtain ⟨fuel, last, hsteps, hlast⟩ := ih
    cases fuel with
    | zero => cases hsteps
    | succ fuel =>
      obtain ⟨found, hstep', hsteps⟩ := bind_eq_ok.mp hsteps
      cases hstep.symm.trans hstep'
      simp only [hlt, if_false, hseen, Bool.false_eq_true] at hsteps
      exact ⟨fuel, last, hsteps, hlast⟩

/-- Steps leave the regions that are there. -/
theorem subset_steps {fuel : Nat} {last : Place} (h : c.steps fuel seen place = .ok last) :
    place.regions ⊆ last.regions := by
  induction fuel generalizing seen place with
  | zero => cases h
  | succ fuel ih =>
    obtain ⟨found, _, h⟩ := bind_eq_ok.mp h
    cases found with
    | none =>
      cases pure_eq_ok.mp h
      exact List.Subset.refl _
    | some next =>
      have hafter : place.regions ⊆ (place.after next).regions := List.subset_append_left _ _
      simp only at h
      split at h
      · exact List.Subset.trans hafter (ih h)
      · split at h
        · cases pure_eq_ok.mp h
          exact hafter
        · exact List.Subset.trans hafter (ih h)

/-- Under a steady grammar a choice is taken. -/
theorem Passes.takes {engine : Regex.Engine} {g : Grammar} {text : Array Char}
    {firstLine : Bool} {choice : Choice} (depth : Nat) (hg : g.Steady engine)
    (hs : s.Steady engine g)
    (H : (lineContext engine g (depth + 1) text firstLine).Passes s seen place)
    (h : (lineContext engine g (depth + 1) text firstLine).choose place.state place.position
      place.anchor = .ok (some choice)) :
    ∃ next, (lineContext engine g (depth + 1) text firstLine).take place.state place.position
        place.anchor choice = .ok next ∧
      (lineContext engine g (depth + 1) text firstLine).step place.state place.position
        place.anchor = .ok (some next) ∧
      Goes (lineContext engine g (depth + 1) text firstLine) place.state place.position next := by
  have hsteady := H.steady hg hs
  obtain ⟨_, hfound, hchoice⟩ := choose_total
    (c := lineContext engine g (depth + 1) text firstLine) place.position place.anchor hg hsteady
  cases h.symm.trans hfound
  obtain ⟨next, htake, hgoes⟩ := take_total hg hsteady (hchoice choice rfl)
  exact ⟨next, htake, bind_eq_ok.mpr ⟨_, h, bind_eq_ok.mpr ⟨next, htake, rfl⟩⟩, hgoes⟩

end LineContext

/-! ## Lines -/

/-- The state behind the last of the lines. -/
def linesState (engine : Regex.Engine) (g : CompiledGrammar) :
    State → (firstLine : Bool) → List (List Char) → Outcome State
  | state, _, [] => .ok state
  | state, firstLine, line :: rest => do
    let (state, _) ← lineTokens engine g state firstLine line
    linesState engine g state false rest

theorem linesState_total {engine : Regex.Engine} {g : CompiledGrammar} {s : State}
    (firstLine : Bool) (lines : List (List Char)) (hg : g.grammar.Steady engine)
    (hs : s.Steady engine g.grammar) :
    ∃ last, linesState engine g s firstLine lines = .ok last := by
  induction lines generalizing s firstLine with
  | nil => exact ⟨s, rfl⟩
  | cons line rest ih =>
    obtain ⟨s', _, hline, hs', _⟩ := lineTokens_total firstLine line hg hs
    obtain ⟨last, hrest⟩ := ih false hs'
    exact ⟨last, bind_eq_ok.mpr ⟨_, hline, hrest⟩⟩

/-! With an engine that reads alike what is handed to it, documents have the same tokens. -/

section
variable {engine other : Regex.Engine} {g : CompiledGrammar} {s : State}

theorem lineTokens_congr (h : ∀ p, g.Hands engine captureDepth p → engine.Agrees other p)
    (hs : g.Reaches engine captureDepth s) (firstLine : Bool) (line : List Char) :
    lineTokens other g s firstLine line = lineTokens engine g s firstLine line := by
  rw [lineTokens, lineTokens, lineTokensWithin, lineTokensWithin,
    CompiledGrammar.highlight_congr h hs]

theorem reaches_of_lineTokens {firstLine : Bool} {line : List Char} {a : State × List RawToken}
    (hs : g.Reaches engine captureDepth s) (h : lineTokens engine g s firstLine line = .ok a) :
    g.Reaches engine captureDepth a.1 := by
  obtain ⟨b, hb, h⟩ := bind_eq_ok.mp h
  cases pure_eq_ok.mp h
  exact .line hs hb

theorem linesTokens_congr (h : ∀ p, g.Hands engine captureDepth p → engine.Agrees other p)
    (hs : g.Reaches engine captureDepth s) (firstLine : Bool) (lines : List (List Char)) :
    linesTokens other g s firstLine lines = linesTokens engine g s firstLine lines := by
  induction lines generalizing s firstLine with
  | nil => rfl
  | cons line rest ih =>
    have hline := lineTokens_congr h hs firstLine line
    simp only [linesTokens, linesTokensWithin, lineTokens] at hline ih ⊢
    rw [hline]
    refine bind_congr_ok fun a ha => ?_
    rw [ih (reaches_of_lineTokens hs ha)]

theorem linesState_congr (h : ∀ p, g.Hands engine captureDepth p → engine.Agrees other p)
    (hs : g.Reaches engine captureDepth s) (firstLine : Bool) (lines : List (List Char)) :
    linesState other g s firstLine lines = linesState engine g s firstLine lines := by
  induction lines generalizing s firstLine with
  | nil => rfl
  | cons line rest ih =>
    rw [linesState, linesState, lineTokens_congr h hs]
    exact bind_congr_ok fun a ha => ih (reaches_of_lineTokens hs ha) false

end

/-- All names of the tokens are of a kind. -/
def TokensNamed (ok : Json → Bool) (tokens : List (List RawToken)) : Prop :=
  ∀ line ∈ tokens, ∀ t ∈ line, Named ok t.scopes

/-- A document of these lines comes to the rest of them in a state. All names of its regions are of
a kind so far. -/
inductive Turns (engine : Regex.Engine) (g : CompiledGrammar) (ok : Json → Bool)
    (lines : List (List Char)) : State → (firstLine : Bool) → List (List Char) → Prop
  | start : Turns engine g ok lines g.start true lines
  | line : Turns engine g ok lines s firstLine (line :: rest) →
    g.highlight engine s (line ++ ['\n']) firstLine = .ok (s', regions) →
    Scoped (Named ok) regions → Turns engine g ok lines s' false rest

section
variable {engine : Regex.Engine} {g : CompiledGrammar} {ok : Json → Bool}
  {lines rest : List (List Char)} {s : State} {firstLine : Bool}

theorem Scoped.tokensOfRegions {regions : List Region} (H : Scoped (Named ok) regions)
    (line : List Char) : ∀ t ∈ tokensOfRegions line regions, Named ok t.scopes := by
  intro t ht name hn
  obtain ⟨r, hr, rfl⟩ := List.mem_map.mp ht
  exact H r (List.mem_of_mem_filter hr) name (List.mem_reverse.mp hn)

/-- The tokens of the document end with those of the rest. -/
theorem Turns.tokens {tokens : List (List RawToken)}
    (H : Turns engine g ok lines s firstLine rest)
    (h : linesTokens engine g s firstLine rest = .ok tokens) :
    ∃ front, linesTokens engine g g.start true lines = .ok (front ++ tokens) ∧
      TokensNamed ok front := by
  induction H generalizing tokens with
  | start => exact ⟨[], h, fun _ h => nomatch h⟩
  | @line s firstLine line rest s' regions _ hline hnamed ih =>
    obtain ⟨front, hfront, hok⟩ := ih (bind_eq_ok.mpr ⟨(s', tokensOfRegions line regions),
      bind_eq_ok.mpr ⟨_, hline, rfl⟩, bind_eq_ok.mpr ⟨tokens, h, rfl⟩⟩)
    refine ⟨front ++ [tokensOfRegions line regions], by rw [hfront]; simp, ?_⟩
    intro ts hts
    rcases List.mem_append.mp hts with hts | hts
    · exact hok ts hts
    · cases List.mem_singleton.mp hts
      exact hnamed.tokensOfRegions line

theorem Turns.state_eq (H : Turns engine g ok lines s firstLine rest) :
    linesState engine g g.start true lines = linesState engine g s firstLine rest := by
  induction H with
  | start => rfl
  | @line s firstLine line rest s' regions _ hline _ ih =>
    rw [ih, linesState, lineTokens, lineTokensWithin,
      show highlightWithin engine g.grammar captureDepth _ s firstLine = _ from hline]
    rfl

theorem Turns.steady (hg : g.grammar.Steady engine) (hs : g.start.Steady engine g.grammar)
    (H : Turns engine g ok lines s firstLine rest) : s.Steady engine g.grammar := by
  induction H with
  | start => exact hs
  | @line s firstLine line _ _ _ _ hline _ ih =>
    obtain ⟨_, _, hline', hs'⟩ :=
      LineContext.highlight_total (line ++ ['\n']).toArray firstLine 158 hg ih
    cases hline.symm.trans hline'
    exact hs'

end

/-! ## Spots -/

/-- On every such line, behind the first text and in front of the second, the next step makes such a
choice. -/
def State.Chooses (engine : Regex.Engine) (s : State) (before ahead : List Char)
    (Q : Option Choice → Prop) : Prop :=
  ∀ (c : LineContext) anchor, c.engine = engine → c.text.toList = before ++ ahead →
    ∃ found, c.choose s before.length anchor = .ok found ∧ Q found

/-- The candidate of the rule is chosen, with a match of that span. -/
def TakesCandidate (rule : Rule) (start stop : Nat) (found : Option Choice) : Prop :=
  ∃ m, found = some (.candidate rule m) ∧ m.start = start ∧ m.stop = stop

/-- The innermost rule is closed, with a match that ends there. -/
def TakesClosing (rule : Rule) (stop : Nat) (found : Option Choice) : Prop :=
  ∃ m, found = some (.closing rule m) ∧ m.stop = stop

/-- None of the states is lower. -/
def Low (seen : List State.Key) (s : State) : Prop :=
  ∀ key ∈ seen, s.height ≤ key.1

/-- The document comes by a spot: behind a text on its line, with this stack, and this text left.
All names are of a kind so far. -/
inductive Comes (engine : Regex.Engine) (g : CompiledGrammar) (ok : Json → Bool)
    (code before : List Char) (s : State) (rest : List Char) : Prop
  | at {start : State} {firstLine : Bool} {line : List Char} {more : List (List Char)}
    {seen : List State.Key} {anchor : Option Nat} {regions : List Region} :
    Turns engine g ok (Text.splitAt '\n' code) start firstLine (line :: more) →
    Text.splitFrom '\n' before.reverse rest = line :: more →
    (g.context engine captureDepth (line ++ ['\n']) firstLine).Passes start seen
      ⟨s, before.length, anchor, regions⟩ →
    Low seen s → Scoped (Named ok) regions → s.Named ok →
    Comes engine g ok code before s rest

section
variable {engine : Regex.Engine} {g : CompiledGrammar} {ok : Json → Bool}
  {code before x rest : List Char} {s s' : State}

theorem Turns.comes {firstLine : Bool}
    (H : Turns engine g ok (Text.splitAt '\n' code) s firstLine (Text.splitAt '\n' rest))
    (hblocks : s.blocks = []) (hnamed : s.Named ok) : Comes engine g ok code [] s rest := by
  obtain ⟨line, more, hlines⟩ := List.exists_cons_of_ne_nil (Text.splitFrom_ne_nil '\n' [] rest)
  rw [show Text.splitAt '\n' rest = line :: more from hlines] at H
  have hpasses : (g.context engine captureDepth (line ++ ['\n']) firstLine).Passes s [s.key]
      (.start s) := by
    have hstart : (g.context engine captureDepth (line ++ ['\n']) firstLine).continueBlocks s []
        s.blocks (.start s) = .ok (.start s) := by
      rw [hblocks]
      rfl
    exact .start hstart
  refine .at H hlines hpasses (fun key hkey => ?_) .nil hnamed
  cases List.mem_singleton.mp hkey
  exact Nat.le_refl _

theorem Comes.named (H : Comes engine g ok code before s rest) : s.Named ok := by
  obtain ⟨_, _, _, _, _, hnamed⟩ := H
  exact hnamed

theorem line_eq {line : List Char} {more : List (List Char)}
    (h : Text.splitFrom '\n' before.reverse rest = line :: more) :
    (line ++ ['\n']).toArray.toList = before ++ Text.upTo '\n' rest := by
  have hline := Text.append_upTo h
  rwa [List.reverse_reverse] at hline

variable (hg : g.grammar.Steady engine) (hstart : g.start.Steady engine g.grammar)
include hg hstart

/-- A step over the next text leads to the spot behind it. -/
theorem Comes.goes {Q : Choice → Prop} (H : Comes engine g ok code before s (x ++ rest))
    (hx : '\n' ∉ x)
    (hchoose : s.Chooses engine before (x ++ Text.upTo '\n' rest) fun found =>
      ∃ choice, found = some choice ∧ choice.found.stop = before.length + x.length ∧ Q choice)
    (hnext : ∀ text firstLine anchor choice next, Q choice → choice.found.stop < text.size →
      (lineContext engine g.grammar (158 + 1) text firstLine).take s before.length anchor choice =
        .ok next → next.state = s' ∧ Scoped (Named ok) next.regions)
    (hnamed : s'.Named ok) : Comes engine g ok code (before ++ x) s' rest := by
  obtain @⟨start, firstLine, line, more, seen, anchor, regions, hturns, hlines, hpasses, hlow,
    hscoped, _⟩ := H
  have htext := line_eq hlines
  rw [Text.upTo_append hx] at htext
  have hlt : before.length + x.length < (line ++ ['\n']).toArray.size := by
    have hlen := congrArg List.length htext
    have hpos := List.length_pos_iff.mpr (Text.upTo_ne_nil '\n' rest)
    rw [Array.length_toList, List.length_append, List.length_append] at hlen
    omega
  obtain ⟨_, hfound, choice, rfl, hstop, hQ⟩ :=
    hchoose (g.context engine captureDepth (line ++ ['\n']) firstLine) anchor rfl htext
  obtain ⟨next, htake, hstep, hgoes⟩ :=
    hpasses.takes 158 hg (hturns.steady hg hstart) hfound
  have hposition : next.position = (before ++ x).length := by
    rw [(LineContext.take_ok htake).1, hstop, List.length_append]
  obtain ⟨rfl, hregions⟩ := hnext _ _ _ _ _ hQ (hstop ▸ hlt) htake
  have hlines' : Text.splitFrom '\n' (before ++ x).reverse rest = line :: more := by
    rw [List.reverse_append, ← Text.splitFrom_append hx, hlines]
  by_cases hlt : before.length < next.position
  · have hpasses := hpasses.advance hstep hlt
    rw [Place.after, hposition] at hpasses
    refine .at hturns hlines' hpasses (fun key hkey => ?_) (hscoped.append hregions) hnamed
    cases List.mem_singleton.mp hkey
    exact Nat.le_refl _
  · -- The step closes a rule, so the stack is lower than at all steps that came by this place.
    have hheight : next.state.height + 1 = s.height :=
      hgoes.lowers.resolve_left fun h => hlt h.1
    have hseen : seen.contains next.state.key = false := by
      rw [List.contains_eq_any_beq, List.any_eq_false]
      intro key hkey heq
      have hsame : next.state.height = key.1 := beq_iff_eq.mp (Bool.and_eq_true_iff.mp heq).1
      have hle := hlow key hkey
      omega
    have hpasses := hpasses.stay hstep hlt hseen
    rw [Place.after, hposition] at hpasses
    refine .at hturns hlines' hpasses (fun key hkey => ?_) (hscoped.append hregions) hnamed
    rcases List.mem_cons.mp hkey with rfl | hkey
    · exact Nat.le_refl _
    · exact Nat.le_trans (by omega) (hlow key hkey)

/-- Over the match of a rule that matches once. -/
theorem Comes.once {rule : Rule} {start : Nat} (H : Comes engine g ok code before s (x ++ rest))
    (hx : '\n' ∉ x) (hc : g.grammar.compileRule rule = .ok (.single rule))
    (hrule : rule.isNamed ok = true)
    (hchoose : s.Chooses engine before (x ++ Text.upTo '\n' rest)
      (TakesCandidate rule start (before.length + x.length))) :
    Comes engine g ok code (before ++ x) s rest := by
  refine H.goes hg hstart (Q := fun choice => ∃ m, choice = .candidate rule m) hx
    (fun c anchor hE htext => ?_) (fun text firstLine anchor choice next hQ _ htake => ?_) H.named
  · obtain ⟨_, hfound, m, rfl, _, hstop⟩ := hchoose c anchor hE htext
    exact ⟨_, hfound, _, rfl, hstop, m, rfl⟩
  · obtain ⟨m, rfl⟩ := hQ
    obtain ⟨hstate, hregions⟩ := single_take hc htake
    exact ⟨hstate, hregions hrule H.named⟩

/-- Over a match that opens a rule. -/
theorem Comes.opens {rule : Rule} {closing : String} {inner : List Candidate} {start : Nat}
    (H : Comes engine g ok code before s (x ++ rest)) (hx : '\n' ∉ x)
    (hc : g.grammar.compileRule rule = .ok (.span rule (.str closing) inner))
    (hplain : Pattern.refers closing.toList = false) (hrule : rule.isNamed ok = true)
    (hchoose : s.Chooses engine before (x ++ Text.upTo '\n' rest)
      (TakesCandidate rule start (before.length + x.length))) :
    Comes engine g ok code (before ++ x) (s.enter rule closing inner) rest := by
  refine H.goes hg hstart (Q := fun choice => ∃ m, choice = .candidate rule m) hx
    (fun c anchor hE htext => ?_) (fun text firstLine anchor choice next hQ hlt htake => ?_)
    (H.named.enter closing inner hrule)
  · obtain ⟨_, hfound, m, rfl, _, hstop⟩ := hchoose c anchor hE htext
    exact ⟨_, hfound, _, rfl, hstop, m, rfl⟩
  · obtain ⟨m, rfl⟩ := hQ
    obtain ⟨hstate, hregions⟩ := open_take hc hplain hlt htake
    exact ⟨hstate, hregions hrule H.named⟩

/-- Over the match that closes the innermost rule, which may be empty. -/
theorem Comes.closes {rule : Rule} (H : Comes engine g ok code before s (x ++ rest))
    (hx : '\n' ∉ x) (hrule : rule.isNamed ok = true)
    (hchoose : s.Chooses engine before (x ++ Text.upTo '\n' rest)
      (TakesClosing rule (before.length + x.length))) :
    Comes engine g ok code (before ++ x) s.pop rest := by
  refine H.goes hg hstart (Q := fun choice => ∃ m, choice = .closing rule m) hx
    (fun c anchor hE htext => ?_) (fun text firstLine anchor choice next hQ _ htake => ?_)
    H.named.pop
  · obtain ⟨_, hfound, m, rfl, hstop⟩ := hchoose c anchor hE htext
    exact ⟨_, hfound, _, rfl, hstop, m, rfl⟩
  · obtain ⟨m, rfl⟩ := hQ
    obtain ⟨hstate, hregions⟩ := closing_take htake
    exact ⟨hstate, hregions hrule H.named⟩

/-- Where nothing is chosen any more the line ends. -/
theorem Comes.ends (H : Comes engine g ok code before s rest)
    (hchoose : s.Chooses engine before (Text.upTo '\n' rest) (· = none)) :
    Turns engine g ok (Text.splitAt '\n' code) s false
      (Text.splitFrom '\n' before.reverse rest).tail := by
  obtain @⟨start, firstLine, line, more, seen, anchor, regions, hturns, hlines, hpasses, hlow,
    hscoped, hnamed⟩ := H
  have htext := line_eq hlines
  obtain ⟨_, hfound, rfl⟩ :=
    hchoose (g.context engine captureDepth (line ++ ['\n']) firstLine) anchor rfl htext
  obtain ⟨s', regions', hhigh, _⟩ := LineContext.highlight_total (line ++ ['\n']).toArray firstLine
    158 hg (hturns.steady hg hstart)
  obtain ⟨fuel, last, hsteps, rfl, rfl⟩ := hpasses.resumes hhigh
  cases fuel with
  | zero => cases hsteps
  | succ fuel =>
    obtain ⟨found, hstep, hsteps⟩ := bind_eq_ok.mp hsteps
    obtain ⟨_, hfound', hstep⟩ := bind_eq_ok.mp hstep
    cases hfound.symm.trans hfound'
    cases pure_eq_ok.mp hstep
    cases pure_eq_ok.mp hsteps
    rw [hlines]
    exact hturns.line hhigh (hscoped.append (.gap (hnamed _ List.mem_cons_self)))

/-- Where nothing is chosen in front of a newline, the document goes on behind it. -/
theorem Comes.crosses (H : Comes engine g ok code before s (x ++ '\n' :: rest)) (hx : '\n' ∉ x)
    (hnamed : s.Named ok)
    (hchoose : s.Chooses engine before (x ++ ['\n']) (· = none)) :
    Comes engine g ok code [] s rest := by
  rw [← Text.upTo_cons_self '\n' rest, ← Text.upTo_append hx] at hchoose
  have hturns := H.ends hg hstart hchoose
  rw [Text.splitFrom_append hx, Text.splitFrom, if_pos rfl, List.tail_cons] at hturns
  exact hturns.comes (hturns.steady hg hstart).blocks hnamed

/-- Where nothing is chosen in front of the end, the document ends with this stack. -/
theorem Comes.finishes (H : Comes engine g ok code before s x) (hx : '\n' ∉ x)
    (hchoose : s.Chooses engine before (x ++ ['\n']) (· = none)) :
    Turns engine g ok (Text.splitAt '\n' code) s false [] := by
  rw [← List.append_nil x] at H
  have hturns := H.ends hg hstart (by rwa [Text.upTo_append hx])
  rwa [Text.splitFrom_append hx] at hturns

/-- The match of a rule that matches once, and gives a name of another kind, spoils the tokens. -/
theorem Comes.spoils {rule : Rule} {first last : Nat} (H : Comes engine g ok code before s rest)
    (hc : g.grammar.compileRule rule = .ok (.single rule)) (hcaptures : rule.captures = [])
    (hrule : areNamed ok rule.scopes = false)
    (hchoose : s.Chooses engine before (Text.upTo '\n' rest) (TakesCandidate rule first last))
    (hfirst : before.length ≤ first) (hlast : first < last)
    (hline : first + 1 < (before ++ Text.upTo '\n' rest).length) {tokens : List (List RawToken)}
    (h : linesTokens engine g g.start true (Text.splitAt '\n' code) = .ok tokens) :
    ¬ TokensNamed ok tokens := by
  obtain @⟨start, firstLine, line, more, seen, anchor, regions, hturns, hlines, hpasses, hlow,
    hscoped, _⟩ := H
  have htext := line_eq hlines
  obtain ⟨_, hfound, m, rfl, rfl, rfl⟩ :=
    hchoose (g.context engine captureDepth (line ++ ['\n']) firstLine) anchor rfl htext
  obtain ⟨next, htake, hstep, _⟩ :=
    hpasses.takes 158 hg (hturns.steady hg hstart) hfound
  obtain ⟨hposition, hr⟩ := single_region hc hcaptures hlast htake
  have hlt : before.length < next.position := by omega
  obtain ⟨s', regions', hhigh, hs'⟩ := LineContext.highlight_total (line ++ ['\n']).toArray
    firstLine 158 hg (hturns.steady hg hstart)
  obtain ⟨fuel, last, hsteps, _, hregions⟩ := (hpasses.advance hstep hlt).resumes hhigh
  have hr : ⟨m.start, m.stop, s.current.scope ++ rule.scopes.map .str⟩ ∈ regions' := by
    rw [hregions]
    exact List.mem_append_left _
      (LineContext.subset_steps hsteps (List.mem_append_right _ hr))
  obtain ⟨others, hothers⟩ := linesTokens_total false more hg hs'
  obtain ⟨front, hfront, _⟩ := hturns.tokens (bind_eq_ok.mpr
    ⟨(s', tokensOfRegions line regions'), bind_eq_ok.mpr ⟨_, hhigh, rfl⟩,
      bind_eq_ok.mpr ⟨others, hothers, rfl⟩⟩)
  cases h.symm.trans hfront
  have hshort : m.start < line.length := by
    rw [← htext] at hline
    simpa using hline
  have htoken : ⟨m.start, min m.stop line.length,
      (s.current.scope ++ rule.scopes.map Json.str).reverse⟩ ∈ tokensOfRegions line regions' :=
    List.mem_map.mpr ⟨_, List.mem_filter.mpr ⟨hr, decide_eq_true hshort⟩, rfl⟩
  intro hok
  have hnamed := hok _ (List.mem_append_right _ List.mem_cons_self) _ htoken
  obtain ⟨name, hname, hother⟩ := List.all_eq_false.mp hrule
  exact hother (hnamed (.str name) (by simp [hname]))

end

end Rubric
