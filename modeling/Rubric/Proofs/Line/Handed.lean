import Rubric.Proofs.Grammar.Tree
import Rubric.Proofs.Line.Standing
import Rubric.Proofs.Pattern.Backreference

/-!
# The patterns that a line hands to the engine

A rule that is made ready hands the patterns of its candidates to the engine, and an entry that is
opened the pattern that closes or continues it (`LineContext.Hands`); so do the texts of captures
(`HandsWithin`). The rules on the way are all rules of the grammar, so each pattern is one that the
check goes through, or one made from an ending that the check leaves out (`Grammar.Admits`,
`HandsWithin.admitted`).
-/

namespace Rubric

namespace CompiledRule

/-- The patterns of the candidates. -/
def patterns (rule : CompiledRule) : List Json :=
  rule.inner.map (·.1)

/-- The pattern that closes the rule or keeps it open. -/
def ending? : CompiledRule → Option Json
  | span _ closing _ => some closing
  | block _ continuing _ => some continuing
  | root _ _ | group _ _ | single _ => none

end CompiledRule

namespace LineContext

/-- The line makes a rule ready: that of a match, or that of a capture. -/
inductive Readies (c : LineContext) (s : State) : CompiledRule → Prop
  | chosen : Passes c s seen place →
    c.choose place.state place.position place.anchor = .ok (some (.candidate rule m)) →
    c.grammar.compileRule rule = .ok compiled → Readies c s compiled
  | captured : Takes c s u scope →
    Nests c.grammar c.inner c.text scope u.found u.captures u.found.start [] t s' →
    Readies c s s'.current.rule

/-- The match that is chosen at a place opens an entry. -/
inductive Opens (c : LineContext) (place : Place) : Entry → Prop
  | mk : c.choose place.state place.position place.anchor = .ok (some (.candidate rule m)) →
    c.grammar.compileRule rule = .ok compiled → compiled.ending? = some ending →
    c.enter place.state place.anchor m compiled = .ok (s', anchor) → Opens c place s'.current

/-- The line hands a pattern to the engine, or the text of a capture does. -/
inductive Hands (c : LineContext) (nested : Array Char → State → Json → Prop) (s : State) :
    Json → Prop
  | ready : Readies c s rule → p ∈ rule.patterns → Hands c nested s p
  | opened : Passes c s seen place → Opens c place entry → entry.ending = some ending →
    Hands c nested s (.str (String.ofList ending))
  | inside : Takes c s u scope →
    Nests c.grammar c.inner c.text scope u.found u.captures u.found.start [] t s' →
    nested t s' p → Hands c nested s p

end LineContext

/-- Highlighting a text from a state on, with captures nested up to a depth, hands a pattern to the
engine. -/
def HandsWithin (engine : Regex.Engine) (g : Grammar) :
    (depth : Nat) → Array Char → State → (firstLine : Bool) → Json → Prop
  | 0, _, _, _, _ => False
  | depth + 1, text, state, firstLine, p =>
    (lineContext engine g depth text firstLine).Hands
      (fun t s p => HandsWithin engine g depth t s false p) state p

/-- A pattern is handed to the engine: with the grammar itself, or on some line of some document,
with captures nested up to a depth. -/
inductive CompiledGrammar.Hands (g : CompiledGrammar) (engine : Regex.Engine) (depth : Nat) :
    Json → Prop
  | root : p ∈ g.root.patterns → Hands g engine depth p
  | line {line : List Char} : g.Reaches engine depth s →
    HandsWithin engine g.grammar depth line.toArray s firstLine p → Hands g engine depth p

/-- The patterns that the engine may be given. -/
inductive Grammar.Admits (g : Grammar) : Json → Prop
  /-- one that is checked -/
  | checked : .ok p ∈ g.checked → Admits g p
  /-- a closing or continuing pattern with references, these replaced -/
  | expanded : g.Holds rule → rule.closing = some (.str q) ∨ rule.continuing = some (.str q) →
    Pattern.refers q.toList = true → Pattern.expandWith text m q.toList = .ok ending →
    Admits g (.str (String.ofList ending))
  /-- the pattern in the place of a closing one that is not there -/
  | never : g.Holds rule → rule.opening ≠ none → rule.closing = none →
    Admits g (.str neverClosing)

/-! ## What is open on the way -/

/-- All entries of the state have a property, and the rule of each block is that of such an entry.
-/
structure State.Throughout (P : Entry → Prop) (s : State) : Prop where
  entries : s.All P
  blocks : ∀ b ∈ s.blocks, ∃ e, P e ∧ e.rule = b.1

namespace State.Throughout
variable {P : Entry → Prop} {s : State} {e : Entry}

theorem start {rule : CompiledRule} {scope : Scope} (h : P (rule.start scope).current) :
    (rule.start scope).Throughout P :=
  ⟨List.forall_mem_singleton.mpr h, fun _ hb => nomatch hb⟩

theorem current (H : s.Throughout P) : P s.current :=
  H.entries _ (List.mem_cons_self ..)

theorem push (H : s.Throughout P) (he : P e) : (s.push e).Throughout P :=
  ⟨H.entries.push he, H.blocks⟩

theorem pushBlock (H : s.Throughout P) (he : P e) : (s.pushBlock e).Throughout P := by
  refine ⟨H.entries.push he, fun b hb => ?_⟩
  rcases List.mem_append.mp hb with hb | hb
  · exact H.blocks b hb
  · cases List.mem_singleton.mp hb
    exact ⟨e, he, rfl⟩

theorem pop (H : s.Throughout P) : s.pop.Throughout P := by
  refine ⟨H.entries.pop, ?_⟩
  unfold State.pop
  split <;> exact H.blocks

theorem popBlock {height : Nat} {rule : CompiledRule} {kept left : List (CompiledRule × Nat)}
    (H : s.Throughout P) (h : kept ++ (rule, height) :: left = s.blocks) :
    (s.resume height (kept ++ [(rule, height)])).popBlock.Throughout P := by
  refine ⟨State.All.pop H.entries.resume, fun b hb => H.blocks b ?_⟩
  rw [State.popBlock, State.blocks_resume, List.dropLast_concat] at hb
  exact h ▸ List.mem_append_left _ hb

end State.Throughout

namespace LineContext
variable {c : LineContext} {s : State} {P : Entry → Prop}

theorem step_throughout {place : Place} {next : Step}
    (hopens : ∀ e, c.Opens place e → P e) (H : place.state.Throughout P)
    (h : c.step place.state place.position place.anchor = .ok (some next)) :
    next.state.Throughout P := by
  obtain ⟨choice, hchoose, htake⟩ := step_ok h
  cases choice with
  | closing rule m =>
    obtain ⟨regions, _, htake⟩ := bind_eq_ok.mp htake
    cases pure_eq_ok.mp htake
    exact H.pop
  | candidate rule m =>
    obtain ⟨compiled, hc, htake⟩ := bind_eq_ok.mp htake
    obtain ⟨⟨s', anchor'⟩, henter, htake⟩ := bind_eq_ok.mp htake
    obtain ⟨regions, _, htake⟩ := bind_eq_ok.mp htake
    cases pure_eq_ok.mp htake
    rcases enter_ok henter with ⟨_, _, rfl, _⟩ | ⟨_, _, _, entry, rfl, _, rfl, _⟩ |
      ⟨_, _, _, entry, rfl, _, rfl, _⟩
    · exact H
    · exact H.push (hopens _ (.mk hchoose hc rfl henter))
    · exact H.pushBlock (hopens _ (.mk hchoose hc rfl henter))

/-- The entries that a line opens have a property, as far as those before have it. -/
def OpensOnly (c : LineContext) (s : State) (P : Entry → Prop) : Prop :=
  ∀ seen place e, c.Passes s seen place → place.state.Throughout P → c.Opens place e → P e

/-- What holds throughout the state that a line begins with, and of the entries that it opens, holds
throughout all states on the way. -/
theorem Passes.throughout {seen : List State.Key} {place : Place} (H : s.Throughout P)
    (hopens : c.OpensOnly s P) (hp : c.Passes s seen place) : place.state.Throughout P := by
  induction hp with
  | start h =>
    rcases Asks.start.continueBlocks_ok h with ⟨_, ha⟩ | ⟨_, _, _, _, _, ha, _, rfl⟩
    · rwa [ha.state_eq]
    · exact H.popBlock ha.append_eq
  | advance hp hstep _ ih | stay hp hstep _ _ ih =>
    exact step_throughout (fun e => hopens _ _ e hp ih) ih hstep

theorem highlight_throughout {s' : State} {regions : List Region} (H : s.Throughout P)
    (hopens : c.OpensOnly s P) (h : c.highlight s = .ok (s', regions)) : s'.Throughout P := by
  obtain ⟨_, last, final, hp, hh, rfl, _⟩ := highlight_ok h
  have hlast := hp.throughout H hopens
  cases hh with
  | spent => exact hlast
  | back hstep => exact step_throughout (fun e => hopens _ _ e hp hlast) hlast hstep

end LineContext

theorem CompiledGrammar.Reaches.throughout {g : CompiledGrammar} {engine : Regex.Engine}
    {depth : Nat} {s : State} {P : Entry → Prop} (hstart : P g.start.current)
    (hopens : ∀ s line firstLine, depth ≠ 0 → g.Reaches engine depth s →
      (g.context engine depth line firstLine).OpensOnly s P) (h : g.Reaches engine depth s) :
    s.Throughout P := by
  induction h with
  | start => exact .start hstart
  | line hs h ih =>
    have hdepth : depth ≠ 0 := by
      rintro rfl
      cases h
    exact LineContext.highlight_throughout ih (hopens _ _ _ hdepth hs) (highlight_context h)

/-! ## Rules of the grammar -/

/-- The rule that was made ready is the grammar itself or one of its rules, and so are those inside.
-/
structure CompiledRule.Held (g : Grammar) (compiled : CompiledRule) : Prop where
  inner : ∀ c ∈ compiled.inner, Candidate.Held g c
  source : ∀ rule, compiled.source? = some rule → g.Holds rule

/-- The rule stands for a group of a match of some rule of the grammar. -/
def Grammar.Captures (g : Grammar) (rule : Rule) : Prop :=
  ∃ holder capture, g.Holds holder ∧ capture ∈ holder.captures ++ holder.openingCaptures ++
    holder.closingCaptures ++ holder.continuingCaptures ∧ capture.2 = rule

/-- The rule of each entry of the state is the grammar itself or one of its rules. -/
abbrev State.Held (g : Grammar) (s : State) : Prop :=
  s.Throughout fun e => e.rule.Held g

section
variable {g : Grammar} {rule : Rule} {compiled : CompiledRule} {inner : List Candidate}

theorem Grammar.Holds.compileRule (h : g.Holds rule) (hc : g.compileRule rule = .ok compiled) :
    compiled.Held g := by
  refine ⟨Grammar.compileRule_held h hc, fun source hsource => ?_⟩
  cases (Grammar.source?_compileRule hc).symm.trans hsource
  exact h

theorem Grammar.Captures.holds (h : g.Captures rule) : g.Holds rule := by
  obtain ⟨holder, capture, hholder, hmem, rfl⟩ := h
  exact hholder.part (List.mem_append_right _ (List.mem_map_of_mem hmem))

theorem CompiledRule.Held.openingCaptures (H : compiled.Held g) :
    ∀ capture ∈ compiled.openingCaptures, g.Captures capture.2 := by
  intro capture h
  cases compiled with
  | root _ _ | group _ _ => cases h
  | single rule | span rule _ _ | block rule _ _ =>
    simp only [openingCaptures] at h
    exact ⟨rule, capture, H.source rule rfl, by simp [h], rfl⟩

theorem CompiledRule.Held.continuingCaptures (H : compiled.Held g) :
    ∀ capture ∈ compiled.continuingCaptures, g.Captures capture.2 := by
  intro capture h
  cases compiled with
  | block rule _ _ =>
    simp only [continuingCaptures] at h
    exact ⟨rule, capture, H.source rule rfl, by simp [h], rfl⟩
  | _ => cases h

theorem CompiledRule.Held.admitted {p : Json} (H : compiled.Held g) (h : p ∈ compiled.patterns) :
    g.Admits p := by
  obtain ⟨c, hc, rfl⟩ := List.mem_map.mp h
  exact .checked (H.inner c hc).mem_checked

/-- What closes or continues a rule stands in the rule, or stands in for what is not there. -/
theorem Grammar.compileRule_ending {ending : Json} (hc : g.compileRule rule = .ok compiled)
    (h : compiled.ending? = some ending) :
    rule.closing = some ending ∨ rule.continuing = some ending ∨
      rule.opening ≠ none ∧ rule.closing = none ∧ ending = .str neverClosing := by
  cases of_compileRule hc with
  | single | group => cases h
  | block _ _ _ hcontinuing =>
    cases h
    exact .inr (.inl hcontinuing)
  | span _ _ hopening =>
    cases h
    cases hclosing : rule.closing with
    | none => exact .inr (.inr ⟨hopening, rfl, rfl⟩)
    | some closing => exact .inl rfl

theorem mem_withoutReferences {q : String} (h : Pattern.refers q.toList = false) :
    .ok (.str q) ∈ withoutReferences (some (.str q)) := by
  simp [withoutReferences, h]

/-- A closing or continuing pattern is checked, unless it has references. -/
theorem Grammar.Holds.ending_admitted {q : String} {text : Array Char} {m : Regex.Match}
    {ending : List Char} (hrule : g.Holds rule) (hc : g.compileRule rule = .ok compiled)
    (h : compiled.ending? = some (.str q)) (he : Pattern.expandWith text m q.toList = .ok ending) :
    g.Admits (.str (String.ofList ending)) := by
  have hplain (hrefers : Pattern.refers q.toList = false) : String.ofList ending = q := by
    cases (Pattern.expand_eq_self hrefers).symm.trans he
    exact String.ofList_toList
  have hstands (hq : rule.closing = some (.str q) ∨ rule.continuing = some (.str q)) :
      g.Admits (.str (String.ofList ending)) := by
    cases hrefers : Pattern.refers q.toList with
    | true => exact .expanded hrule hq hrefers he
    | false =>
      rw [hplain hrefers]
      refine .checked (hrule.ownChecked_subset (List.mem_append_right _ (List.mem_append.mpr ?_)))
      rcases hq with hq | hq
      · exact .inl (hq ▸ mem_withoutReferences hrefers)
      · exact .inr (hq ▸ mem_withoutReferences hrefers)
  rcases Grammar.compileRule_ending hc h with hq | hq | ⟨hopening, hclosing, hq⟩
  · exact hstands (.inl hq)
  · exact hstands (.inr hq)
  · cases hq
    rw [hplain rfl]
    exact .never hrule hopening hclosing

end

namespace LineContext
variable {c : LineContext} {s : State}

theorem chooseCandidate_mem {position : Nat} {anchor : Option Nat} {candidates : List Candidate}
    {rule : Rule} {m : Regex.Match}
    (h : c.chooseCandidate position anchor candidates = .ok (some (.candidate rule m))) :
    ∃ p, (p, rule) ∈ candidates := by
  obtain ⟨found, _, h⟩ := bind_eq_ok.mp h
  cases found with
  | none => cases pure_eq_ok.mp h
  | some found =>
    obtain ⟨⟨p, rule'⟩, hget, h⟩ := Option.map_eq_some_iff.mp (pure_eq_ok.mp h)
    cases h
    exact ⟨p, List.mem_of_getElem? hget⟩

/-- A match is chosen for a candidate of the innermost rule. -/
theorem choose_mem {position : Nat} {anchor : Option Nat} {rule : Rule} {m : Regex.Match}
    (h : c.choose s position anchor = .ok (some (.candidate rule m))) :
    ∃ p, (p, rule) ∈ s.current.rule.inner := by
  unfold choose at h
  split at h
  case h_1 => cases h
  case h_2 rule' closing candidates heq =>
    rw [heq]
    obtain ⟨ending, _, h⟩ := bind_eq_ok.mp h
    cases ending with
    | none => exact chooseCandidate_mem h
    | some ending =>
      simp only at h
      split at h
      · cases pure_eq_ok.mp h
      · obtain ⟨found, hfound, h⟩ := bind_eq_ok.mp h
        cases found with
        | none => cases pure_eq_ok.mp h
        | some choice =>
          simp only at h
          split at h
          · cases pure_eq_ok.mp h
          · cases pure_eq_ok.mp h
            exact chooseCandidate_mem hfound
  all_goals
    next heq =>
      rw [heq]
      exact chooseCandidate_mem h

theorem choose_holds {position : Nat} {anchor : Option Nat} {rule : Rule} {m : Regex.Match}
    (H : s.Held c.grammar)
    (h : c.choose s position anchor = .ok (some (.candidate rule m))) : c.grammar.Holds rule := by
  obtain ⟨p, hp⟩ := choose_mem h
  exact (H.current.inner _ hp).1

/-- The entry is that of a rule that begins with the match, with what ends it made from the rule's.
-/
theorem Opens.opened {place : Place} {e : Entry} (h : c.Opens place e) :
    ∃ rule m compiled names ending,
      c.choose place.state place.position place.anchor = .ok (some (.candidate rule m)) ∧
      c.grammar.compileRule rule = .ok compiled ∧ compiled.ending? = some ending ∧
      c.opened place.state m compiled names ending = .ok e := by
  obtain ⟨hchoose, hc, hending, henter⟩ := h
  rcases enter_ok henter with ⟨_, rfl, rfl, _⟩ | ⟨_, _, _, entry, rfl, hopen, rfl, _⟩ |
    ⟨_, _, _, entry, rfl, hopen, rfl, _⟩
  · cases hending
  all_goals
    exact ⟨_, _, _, _, _, hchoose, hc, rfl, hopen⟩

theorem Opens.held {place : Place} {e : Entry} (H : place.state.Held c.grammar)
    (h : c.Opens place e) : e.rule.Held c.grammar := by
  obtain ⟨rule, m, compiled, names, ending, hchoose, hc, _, hopen⟩ := h.opened
  exact (opened_ok hopen).2 ▸ (choose_holds H hchoose).compileRule hc

theorem opensOnly_held : c.OpensOnly s fun e => e.rule.Held c.grammar :=
  fun _ _ _ _ H h => h.held H

/-- What ends an entry that is opened is made from what ends its rule. -/
theorem opened_ending {m : Regex.Match} {rule : CompiledRule} {names : List String} {ending : Json}
    {entry : Entry} (h : c.opened s m rule names ending = .ok entry) :
    ∃ q pattern, ending = .str q ∧ Pattern.expandWith c.text m q.toList = .ok pattern ∧
      entry.ending = some pattern := by
  unfold opened at h
  split at h
  · next q =>
    obtain ⟨pattern, he, h⟩ := bind_eq_ok.mp h
    cases pure_eq_ok.mp h
    exact ⟨q, pattern, rfl, he, rfl⟩
  · cases h

/-- The pattern of an entry that is opened may be given to the engine. -/
theorem Opens.admitted {place : Place} {e : Entry} {pattern : List Char}
    (H : place.state.Held c.grammar) (h : c.Opens place e) (hp : e.ending = some pattern) :
    c.grammar.Admits (.str (String.ofList pattern)) := by
  obtain ⟨rule, m, compiled, names, ending, hchoose, hc, hending, hopen⟩ := h.opened
  obtain ⟨q, pattern', rfl, he, hp'⟩ := opened_ending hopen
  cases hp.symm.trans hp'
  exact (choose_holds H hchoose).ending_admitted hc hending he

/-- The captures of a match that the line takes are captures of the grammar. -/
theorem Takes.captured {u : Use} {scope : Scope} (H : s.Held c.grammar) (h : c.Takes s u scope) :
    ∀ capture ∈ u.captures, c.grammar.Captures capture.2 := by
  cases h with
  | @asked kept rule height left place m ha _ =>
    obtain ⟨e, he, heq⟩ := H.blocks (rule, height) (ha.append_eq ▸ by simp)
    exact (heq ▸ he).continuingCaptures
  | @chosen seen place choice hp hchoose =>
    have hplace := hp.throughout H opensOnly_held
    cases choice with
    | closing rule m =>
      obtain ⟨closing, inner, hr⟩ := choose_closing hchoose
      have hrule : c.grammar.Holds rule := hplace.current.source rule (by rw [hr]; rfl)
      intro capture hmem
      exact ⟨rule, capture, hrule,
        by simp [show capture ∈ rule.closingCaptures from hmem], rfl⟩
    | candidate rule m =>
      cases hc : c.grammar.compileRule rule with
      | ok compiled =>
        have := ((choose_holds hplace hchoose).compileRule hc).openingCaptures
        simpa [Choice.captures, hc] using this
      | error e => simp [Choice.captures, hc]

/-- So they are rules of the grammar. -/
theorem Takes.holds {u : Use} {scope : Scope} (H : s.Held c.grammar) (h : c.Takes s u scope) :
    ∀ capture ∈ u.captures, c.grammar.Holds capture.2 :=
  fun capture hmem => (h.captured H capture hmem).holds

end LineContext

/-- A text that a capture takes for itself begins with a rule of the grammar. -/
theorem Nests.held {g : Grammar} {inner : Highlights} {text t : Array Char} {scope : Scope}
    {m : Regex.Match} {captures : List (Int × Rule)} {position : Nat} {regions : List Region}
    {s : State} (hcaptures : ∀ capture ∈ captures, g.Holds capture.2)
    (h : Nests g inner text scope m captures position regions t s) : s.Held g := by
  induction h with
  | here _ hc => exact .start ((hcaptures _ (List.mem_cons_self ..)).compileRule hc)
  | later _ _ ih => exact ih fun c hc => hcaptures c (List.mem_cons_of_mem _ hc)

namespace LineContext
variable {c : LineContext} {s : State}

theorem Readies.held {rule : CompiledRule} (H : s.Held c.grammar) (h : c.Readies s rule) :
    rule.Held c.grammar := by
  cases h with
  | chosen hp hchoose hc =>
    exact (choose_holds (hp.throughout H opensOnly_held) hchoose).compileRule hc
  | captured ht hn => exact (hn.held (ht.holds H)).current

end LineContext

/-- Each pattern that a text hands to the engine may be given to it. -/
theorem HandsWithin.admitted {engine : Regex.Engine} {g : Grammar} {depth : Nat} {text : Array Char}
    {s : State} {firstLine : Bool} {p : Json} (H : s.Held g)
    (h : HandsWithin engine g depth text s firstLine p) : g.Admits p := by
  induction depth generalizing text s firstLine with
  | zero => exact h.elim
  | succ depth ih =>
    cases h with
    | ready hr hp => exact (hr.held H).admitted hp
    | opened hp ho he => exact ho.admitted (hp.throughout H LineContext.opensOnly_held) he
    | inside ht hn h => exact ih (hn.held (ht.holds H)) h

namespace CompiledGrammar
variable {grammar : Grammar} {g : CompiledGrammar} {engine : Regex.Engine} {depth : Nat}

theorem root_held (hg : ofGrammar grammar = .ok g) : g.root.Held g.grammar := by
  obtain ⟨rfl, inner, hinner, hroot⟩ := ofGrammar_ok hg
  rw [hroot]
  exact ⟨Grammar.expand_held (fun _ hr => .pattern hr) hinner, fun _ h => nomatch h⟩

theorem Reaches.held {s : State} (hg : ofGrammar grammar = .ok g) (h : g.Reaches engine depth s) :
    s.Held g.grammar :=
  h.throughout (root_held hg) fun _ _ _ _ _ => LineContext.opensOnly_held

theorem Hands.admitted {p : Json} (hg : ofGrammar grammar = .ok g) (h : g.Hands engine depth p) :
    g.grammar.Admits p := by
  cases h with
  | root hp => exact (root_held hg).admitted hp
  | line hs h => exact h.admitted (hs.held hg)

end CompiledGrammar

end Rubric
