import Rubric.Proofs.Line.Calls
import Rubric.Proofs.Line.Moves
import Rubric.Registry

/-!
# Which calls are refused

What a line does with a rule has to fit its kind. The rules of a list reach a line as candidates,
references written out and each with a pattern to begin with, and an entry that a match opens gets
what ends it (`Entry.Usable`); nothing is refused there. The rule of a capture is used as it stands.
If it refers to other rules, matches once, or opens a content that no line has to continue, the
first call that is made for it is refused (`Rule.Strays`), and no other call is (`refused_calls`).
-/

namespace Rubric

/-- The first call that is made for the rule of a capture, where that is one to be refused. -/
inductive Rule.Strays (rule : Rule) : Call → Prop
  /-- the rule refers to others, and is made ready -/
  | refers : rule.reference ≠ none → Strays rule (.ready rule)
  /-- it matches once, and its content is searched -/
  | single : rule.reference = none → rule.single ≠ none →
    Strays rule (.search { scope, rule := .single rule })
  /-- it opens a content, and what closes that is searched for -/
  | opens {closing : Json} {candidates : List Candidate} : rule.reference = none →
    rule.single = none → rule.opening ≠ none → rule.continuing = none →
    Strays rule (.ending { scope, rule := .span rule closing candidates })

/-- The rule is none for a capture. -/
def Rule.isStray (rule : Rule) : Bool :=
  rule.reference.isSome || rule.single.isSome || rule.opening.isSome && rule.continuing.isNone

namespace Rule.Strays
variable {rule : Rule} {call : Call}

theorem isStray (h : rule.Strays call) : rule.isStray = true := by
  cases h with
  | refers href => simp [Rule.isStray, Option.isSome_iff_ne_none.mpr href]
  | single _ hsingle => simp [Rule.isStray, Option.isSome_iff_ne_none.mpr hsingle]
  | opens _ _ hopening hcontinuing =>
    simp [Rule.isStray, Option.isSome_iff_ne_none.mpr hopening, hcontinuing]

theorem fault?_ne_none (h : rule.Strays call) : call.fault? ≠ none := by
  cases h with
  | refers href => simpa [Call.fault?] using href
  | single | opens => simp [Call.fault?]

end Rule.Strays

/-! ## What is open -/

/-- The content of the entry can be searched, and so can what closes or continues it. -/
structure Entry.Usable (e : Entry) : Prop where
  content : ∀ rule, e.rule ≠ .single rule
  ending : e.rule.isOpenable = true → e.ending ≠ none

/-- The text of a capture begins with the entry. -/
def Entry.Captured (g : Grammar) (e : Entry) : Prop :=
  ∃ rule compiled scope, g.Captures rule ∧ g.compileRule rule = .ok compiled ∧
    e = (compiled.start scope).current

/-- All entries of the state can be used, or begin the text of a capture; and the line is asked for
no block without what continues it. -/
structure State.Apt (g : Grammar) (s : State) : Prop where
  held : s.Held g
  entries : s.Throughout fun e => e.Usable ∨ e.Captured g
  blocks : ∀ kept rule height left, s.blocks = kept ++ (rule, height) :: left →
    (s.resume height (kept ++ [(rule, height)])).current.ending ≠ none

namespace Grammar
variable {g : Grammar} {rule other : Rule} {compiled : CompiledRule}

theorem single_of_compileRule (h : g.compileRule rule = .ok (.single other)) :
    rule.single ≠ none := by
  cases of_compileRule h
  assumption

theorem continuing_of_compileRule {closing : Json} {inner : List Candidate}
    (h : g.compileRule rule = .ok (.span other closing inner)) : rule.continuing = none := by
  cases of_compileRule h
  assumption

/-- A rule that begins with a pattern can be entered. -/
theorem enter_fault?_of_beginsWith {pattern : Json} (h : g.compileRule rule = .ok compiled)
    (hb : rule.BeginsWith pattern) : (Call.enter compiled).fault? = none := by
  cases of_compileRule h with
  | single | block | span => rfl
  | group _ hsingle hopening =>
    rcases hb.2 with hs | ⟨_, ho⟩
    · cases hsingle.symm.trans hs
    · cases hopening.symm.trans ho

end Grammar

section
variable {g : Grammar} {e : Entry} {fault : Fault}

/-- Only the content of a rule that matches once is not searched, and that is open only where a
capture put it. -/
theorem Entry.search_strays (he : e.Usable ∨ e.Captured g)
    (h : (Call.search e).fault? = some fault) :
    ∃ rule, g.Captures rule ∧ rule.Strays (.search e) := by
  obtain ⟨⟨other, hrule⟩, _⟩ := Call.search_fault?.mp h
  rcases he with husable | ⟨rule, compiled, scope, hcaptures, hc, rfl⟩
  · exact absurd hrule (husable.content other)
  · cases (show compiled = .single other from hrule)
    cases Grammar.eq_of_compileRule_single hc
    exact ⟨_, hcaptures,
      .single (Grammar.reference_of_compileRule hc) (Grammar.single_of_compileRule hc)⟩

/-- Only for the bottom of a stack there is nothing that closes it, and only a capture puts there
what could be closed. -/
theorem Entry.ending_strays {other : Rule} {closing : Json} {candidates : List Candidate}
    (he : e.Usable ∨ e.Captured g) (hrule : e.rule = .span other closing candidates)
    (h : (Call.ending e).fault? = some fault) :
    ∃ rule, g.Captures rule ∧ rule.Strays (.ending e) := by
  obtain ⟨hnone, _⟩ := Call.ending_fault?.mp h
  rcases he with husable | ⟨rule, compiled, scope, hcaptures, hc, rfl⟩
  · exact absurd hnone (husable.ending (by rw [hrule]; rfl))
  · cases (show compiled = .span other closing candidates from hrule)
    cases Option.some.inj (Grammar.source?_compileRule hc)
    obtain ⟨hsingle, hopening⟩ := Grammar.opening_of_compileRule hc rfl
    exact ⟨_, hcaptures, .opens (Grammar.reference_of_compileRule hc) hsingle hopening
      (Grammar.continuing_of_compileRule hc)⟩

end

namespace LineContext
variable {c : LineContext} {s : State} {call : Call} {fault : Fault}

/-- A match opens only entries that can be used. -/
theorem Opens.usable {place : Place} {e : Entry} (h : c.Opens place e) : e.Usable := by
  obtain ⟨rule, m, compiled, names, ending, _, _, hending, hopen⟩ := h.opened
  obtain ⟨_, hrule⟩ := opened_ok hopen
  obtain ⟨_, pattern, _, _, hpattern⟩ := opened_ending hopen
  refine ⟨fun other hother => ?_, fun _ => by simp [hpattern]⟩
  rw [← hrule, hother] at hending
  cases hending

theorem Passes.apt {seen : List State.Key} {place : Place} (H : s.Apt c.grammar)
    (hp : c.Passes s seen place) :
    place.state.Held c.grammar ∧
      (place.state.current.Usable ∨ place.state.current.Captured c.grammar) :=
  ⟨hp.throughout H.held opensOnly_held,
    (hp.throughout H.entries fun _ _ _ _ _ ho => .inl ho.usable).current⟩

/-- A candidate begins with its pattern. -/
theorem Passes.beginsWith {seen : List State.Key} {place : Place} {rule : Rule} {m : Regex.Match}
    (H : s.Apt c.grammar) (hp : c.Passes s seen place)
    (h : c.choose place.state place.position place.anchor = .ok (some (.candidate rule m))) :
    ∃ pattern, rule.BeginsWith pattern := by
  obtain ⟨pattern, hmem⟩ := choose_mem h
  exact ⟨pattern, ((hp.apt H).1.current.inner _ hmem).2⟩

theorem Applies.captured {scope : Scope} {m : Regex.Match} {captures : List (Int × Rule)}
    (H : s.Apt c.grammar) (h : c.Applies s scope m captures) :
    ∀ capture ∈ captures, c.grammar.Captures capture.2 := by
  obtain ⟨u, htakes, _, rfl⟩ := h.takes
  exact htakes.captured H.held

/-- A call of the line that is refused is the first one for the rule of a capture. -/
theorem Makes.strays (H : s.Apt c.grammar) (h : c.Makes s call) (hf : call.fault? = some fault) :
    ∃ rule, c.grammar.Captures rule ∧ rule.Strays call := by
  cases h with
  | asks ha =>
    obtain ⟨hnone, _⟩ := Call.ending_fault?.mp hf
    exact absurd hnone (H.blocks _ _ _ _ ha.append_eq.symm)
  | searches hp => exact Entry.search_strays (hp.apt H).2 hf
  | closes hp hrule => exact Entry.ending_strays (hp.apt H).2 hrule hf
  | readies hp hchoose =>
    obtain ⟨_, href, _⟩ := hp.beginsWith H hchoose
    simp [Call.fault?, href] at hf
  | enters hp hchoose hc =>
    obtain ⟨_, hbegins⟩ := hp.beginsWith H hchoose
    cases (Grammar.enter_fault?_of_beginsWith hc hbegins).symm.trans hf
  | captures happlies hmeets =>
    refine ⟨_, happlies.captured H _ hmeets.mem, .refers fun hnone => ?_⟩
    simp [Call.fault?, hnone] at hf

theorem Begins.apt {t : Array Char} {s' : State} (H : s.Apt c.grammar) (h : c.Begins s t s') :
    s'.Apt c.grammar := by
  obtain ⟨happlies, hmeets, hc, _⟩ := h
  have hcaptures := happlies.captured H _ hmeets.mem
  exact {
    held := .start (hcaptures.holds.compileRule hc)
    entries := .start (.inr ⟨_, _, _, hcaptures, hc, rfl⟩)
    blocks := fun _ _ _ _ h => by simp [CompiledRule.start] at h }

end LineContext

theorem CallsWithin.strays {engine : Regex.Engine} {g : Grammar} {depth : Nat} {text : Array Char}
    {s : State} {firstLine : Bool} {call : Call} {fault : Fault} (H : s.Apt g)
    (h : CallsWithin engine g depth text s firstLine call) (hf : call.fault? = some fault) :
    ∃ rule, g.Captures rule ∧ rule.Strays call := by
  induction depth generalizing text s firstLine with
  | zero => exact h.elim
  | succ depth ih =>
    cases h with
    | itself hmakes => exact hmakes.strays H hf
    | inside hbegins hcalls => exact ih (hbegins.apt H) hcalls

/-- In the states that lines leave behind all entries can be used. -/
theorem CompiledGrammar.Reaches.apt {grammar : Grammar} {g : CompiledGrammar}
    {engine : Regex.Engine} {depth : Nat} {s : State} (hg : ofGrammar grammar = .ok g)
    (h : g.Reaches engine depth s) : s.Apt g.grammar := by
  obtain ⟨_, inner, _, hroot⟩ := ofGrammar_ok hg
  have hstart : g.start.current.Usable := by
    constructor <;>
      simp [CompiledGrammar.start, CompiledRule.start, hroot, CompiledRule.isOpenable]
  have husable : s.Throughout Entry.Usable :=
    h.throughout hstart fun _ _ _ _ _ _ _ _ _ _ ho => ho.usable
  have hstands := h.stands (by rw [hroot]; rfl)
  refine ⟨h.held hg, ⟨fun e he => .inl (husable.entries e he), fun b hb => ?_⟩,
    fun kept rule height left hblocks => ?_⟩
  · obtain ⟨e, he, hrule⟩ := husable.blocks b hb
    exact ⟨e, .inl he, hrule⟩
  · obtain ⟨_, _, hrule, hblock⟩ := hstands.resume hblocks
    have hall : (s.resume height (kept ++ [(rule, height)])).All Entry.Usable :=
      husable.entries.resume
    refine (hall _ (List.mem_cons_self ..)).ending ?_
    rw [hrule]
    exact CompiledRule.isOpenable_of_isBlock hblock

/-- A text that begins with such a rule makes the call that is refused at once. -/
theorem Rule.exists_strays {g : Grammar} {rule : Rule} {compiled : CompiledRule}
    (engine : Regex.Engine) (depth : Nat) (text : Array Char) (scope : Scope)
    (hc : g.compileRule rule = .ok compiled) (h : rule.isStray = true) :
    ∃ call, CallsWithin engine g (depth + 1) text (compiled.start scope) false call ∧
      rule.Strays call := by
  have hstart : (lineContext engine g depth text false).Passes (compiled.start scope)
      [(Place.start (compiled.start scope)).state.key] (.start (compiled.start scope)) := .start rfl
  cases Grammar.of_compileRule hc with
  | single href hsingle => exact ⟨_, .itself (.searches hstart), .single href hsingle⟩
  | span href hsingle hopening hcontinuing =>
    exact ⟨_, .itself (.closes hstart rfl), .opens href hsingle hopening hcontinuing⟩
  | block href hsingle _ hcontinuing => simp [Rule.isStray, href, hsingle, hcontinuing] at h
  | group href hsingle hopening => simp [Rule.isStray, href, hsingle, hopening] at h

section
variable {engine : Regex.Engine} {g : Grammar} {depth : Nat} {text : Array Char} {s : State}
  {firstLine : Bool}

/-- Where the rules of captures are of other kinds, no call is refused. -/
theorem CallsWithin.fault?_eq_none {call : Call} (H : s.Apt g)
    (hplain : ∀ rule, g.Captures rule → rule.isStray = false)
    (h : CallsWithin engine g depth text s firstLine call) : call.fault? = none := by
  refine Option.eq_none_iff_forall_ne_some.mpr fun e he => ?_
  obtain ⟨rule, hcaptures, hrule⟩ := h.strays H he
  cases (hplain rule hcaptures).symm.trans hrule.isStray

/-- The rules that matches begin with can be entered. -/
theorem CallsWithin.enter_fault? {compiled : CompiledRule} (H : s.Apt g)
    (h : CallsWithin engine g depth text s firstLine (.enter compiled)) :
    (Call.enter compiled).fault? = none := by
  refine Option.eq_none_iff_forall_ne_some.mpr fun e he => ?_
  obtain ⟨rule, _, hrule⟩ := h.strays H he
  cases hrule

end

/-- **Which calls are refused.** For every grammar that a registry loads, every state that lines
leave behind, from the start of a document on, every line, and captures nested up to any depths: of
the calls that the line makes, in its own text and in those of captures, those are refused that are
the first ones for rules of captures which refer to other rules, match once, or open a content that
no line has to continue; and no match begins with a rule that has no pattern. Such a rule is refused
as soon as a text begins with it. With a call that is refused the line fails, unless its steps go on
for ever, and that a rule stands where its kind cannot is a fault of the line for no other reason.
So nothing is refused where all rules of captures are of other kinds. -/
theorem refused_calls {engine : Regex.Engine} {files : Files} {r : Registry} {scopeName : String}
    {g : CompiledGrammar} {before : Nat} {s : State} (hg : r.load engine files scopeName = .ok g)
    (hs : g.Reaches engine before s) (depth : Nat) (line : List Char) (firstLine : Bool) :
    (∀ call, CallsWithin engine g.grammar depth line.toArray s firstLine call →
      (call.fault? ≠ none ↔ ∃ rule, g.grammar.Captures rule ∧ rule.Strays call) ∧
      ∀ e, call.fault? = some e →
        Fails e (highlightWithin engine g.grammar depth line.toArray s firstLine)) ∧
    (∀ compiled,
      CallsWithin engine g.grammar depth line.toArray s firstLine (.enter compiled) →
      (Call.enter compiled).fault? = none) ∧
    (∀ rule compiled, rule.isStray = true → g.grammar.compileRule rule = .ok compiled →
      ∀ depth text scope, ∃ call,
        CallsWithin engine g.grammar (depth + 1) text (compiled.start scope) false call ∧
        rule.Strays call) ∧
    (highlightWithin engine g.grammar depth line.toArray s firstLine = .error .guarded →
      ∃ call, CallsWithin engine g.grammar depth line.toArray s firstLine call ∧
        call.fault? = some .guarded) ∧
    ((∀ rule, g.grammar.Captures rule → rule.isStray = false) →
      (∀ call, CallsWithin engine g.grammar depth line.toArray s firstLine call →
        call.fault? = none) ∧
      highlightWithin engine g.grammar depth line.toArray s firstLine ≠ .error .guarded) := by
  obtain ⟨grammar, _, hg⟩ := bind_eq_ok.mp hg
  obtain ⟨_, _, hg⟩ := bind_eq_ok.mp hg
  have H := hs.apt hg
  refine ⟨fun call h => ⟨⟨fun hf => ?_, fun ⟨_, _, hrule⟩ => hrule.fault?_ne_none⟩,
      fun e he => h.fails he⟩,
    fun compiled h => h.enter_fault? H,
    fun rule compiled hstray hc depth text scope =>
      rule.exists_strays engine depth text scope hc hstray,
    highlightWithin_guarded,
    fun hplain => ⟨fun call h => h.fault?_eq_none H hplain, fun hguarded => ?_⟩⟩
  · obtain ⟨e, he⟩ := Option.ne_none_iff_exists'.mp hf
    exact h.strays H he
  · obtain ⟨call, h, hf⟩ := highlightWithin_guarded hguarded
    cases (h.fault?_eq_none H hplain).symm.trans hf

/-- The rule of the letter a, with a rule for its group. -/
def groupRule (inner : Json) : Json :=
  .obj [("match", .str "(a)"), ("captures", .obj [("1", inner)])]

/-- The rule matches the letter a once. -/
def letterRule : Json :=
  .obj [("match", .str "a"), ("name", .str "letter")]

/-- The fault of the letter a, where a rule stands for its group. -/
def groupFault (inner : Json) : Outcome Fault := do
  let g ← (Registry.ofRule (groupRule inner)).load .standard [] "text.rule"
  match g.highlight .standard g.start "a".toList true with
  | .error e => return e
  | .ok _ => throw .guarded

theorem exists_of_groupFault {inner : Json} {e : Fault} (h : groupFault inner = .ok e) :
    ∃ g, (Registry.ofRule (groupRule inner)).load .standard [] "text.rule" = .ok g ∧
      g.highlight .standard g.start "a".toList true = .error e := by
  obtain ⟨g, hg, h⟩ := bind_eq_ok.mp h
  refine ⟨g, hg, ?_⟩
  split at h
  · next he => rw [he, pure_eq_ok.mp h]
  · cases h

theorem groupFault_eq {inner : Json} {p : Fault → Bool} {e : Fault}
    (hp : ∀ e', p e' = true → e' = e) (h : (groupFault inner).toOption.map p = some true) :
    groupFault inner = .ok e := by
  obtain ⟨e', he', hpe⟩ := Option.map_eq_some_iff.mp h
  rw [toOption_eq_some.mp he', hp e' hpe]

theorem eq_guarded {e : Fault} (h : (e matches .guarded) = true) : e = .guarded := by
  cases e <;> first | rfl | cases h

theorem eq_unmatchedClose {e : Fault} (h : (e matches .regex .unmatchedClose) = true) :
    e = .regex .unmatchedClose := by
  cases e with
  | regex e => cases e <;> first | rfl | cases h
  | _ => cases h

theorem groupFault_letterRule : groupFault letterRule = .ok .guarded :=
  groupFault_eq (fun _ => eq_guarded) (by decide +kernel)

/-- Where a rule that matches once stands for a group, its content is searched. -/
theorem refused_calls_letter : ∃ g,
    (Registry.ofRule (groupRule letterRule)).load .standard [] "text.rule" = .ok g ∧
    g.Reaches .standard captureDepth g.start ∧
    ∃ call rule, CallsWithin .standard g.grammar captureDepth "a".toList.toArray g.start true call ∧
      g.grammar.Captures rule ∧ rule.Strays call := by
  obtain ⟨g, hg, hguarded⟩ := exists_of_groupFault groupFault_letterRule
  have hstart : g.Reaches .standard captureDepth g.start := .start
  obtain ⟨hcalls, _, _, hexists, _⟩ := refused_calls hg hstart captureDepth "a".toList true
  obtain ⟨call, h, hf⟩ := hexists hguarded
  obtain ⟨rule, hcaptures, hrule⟩ := (hcalls call h).1.mp (by simp [hf])
  exact ⟨g, hg, hstart, call, rule, h, hcaptures, hrule⟩

/-- So a call is refused, and the line fails. It fails as well for a reference in the place of the
rule, and for a rule that opens a content, whose end nothing is there to search for. -/
theorem group_refused :
    (∃ g, (Registry.ofRule (groupRule letterRule)).load .standard [] "text.rule" = .ok g ∧
      ∃ call, CallsWithin .standard g.grammar captureDepth "a".toList.toArray g.start true call ∧
        call.fault? = some .guarded) ∧
    groupFault (.obj [("include", .str "#letter")]) = .ok .guarded ∧
    groupFault (.obj [("begin", .str "a"), ("end", .str "a")]) =
      .ok (.regex .unmatchedClose) := by
  obtain ⟨g, hg, hguarded⟩ := exists_of_groupFault groupFault_letterRule
  exact ⟨⟨g, hg, highlightWithin_guarded hguarded⟩,
    groupFault_eq (fun _ => eq_guarded) (by decide +kernel),
    groupFault_eq (fun _ => eq_unmatchedClose) (by decide +kernel)⟩

end Rubric
