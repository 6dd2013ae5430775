import Rubric.Proofs.Line.Handed
import Rubric.Proofs.Pattern.Engines

/-!
# What a run asks the engine

The engine is asked about the patterns that are handed to it, and about nothing else: two engines
that read these alike highlight every line of every document alike
(`CompiledGrammar.highlight_congr`). Each function of a line is taken through once, with what its
part of the line hands to the engine as the hypothesis.
-/

namespace Rubric

/-! ## Captures -/

section
variable {g : Grammar} {inner inner' : Highlights} {text : Array Char} {scope : Scope}
  {m : Regex.Match}

theorem addCapture_congr {capture : Int × Rule} {position : Nat} {regions : List Region}
    (h : ∀ span rule, Pattern.takenSpan? m capture.1 = some span →
      g.compileRule capture.2 = .ok rule →
      inner' (text.extract span.1 span.2) (rule.start (groupScope scope position regions span)) =
        inner (text.extract span.1 span.2) (rule.start (groupScope scope position regions span))) :
    addCapture g inner' text scope m capture position regions =
      addCapture g inner text scope m capture position regions := by
  unfold addCapture
  cases hspan : Pattern.takenSpan? m capture.1 with
  | none => rfl
  | some span =>
    refine bind_congr_ok fun rule hrule => ?_
    have h := h span rule hspan hrule
    simp only [groupScope] at h
    by_cases hin : span.1 < position
    · rw [if_pos hin, if_pos hin]
      rw [if_pos hin] at h
      unfold splitRegion
      cases hold : regions[regionIndex span.1 regions (regions.length - 1)]? with
      | none => simp only [hold]
      | some old =>
        rw [hold] at h
        simp only [hold, nestedRegions, h]
    · rw [if_neg hin, if_neg hin]
      rw [if_neg hin] at h
      simp only [nestedRegions, h]

theorem captureRegions_congr {captures : List (Int × Rule)} {position : Nat}
    {regions : List Region}
    (h : ∀ t s, Nests g inner text scope m captures position regions t s →
      inner' t s = inner t s) :
    captureRegions g inner' text scope m captures position regions =
      captureRegions g inner text scope m captures position regions := by
  induction captures generalizing position regions with
  | nil => rfl
  | cons capture rest ih =>
    unfold captureRegions
    rw [addCapture_congr fun span rule hspan hrule => h _ _ (.here hspan hrule)]
    exact bind_congr_ok fun _ hadd => ih fun t s hn => h t s (.later hadd hn)

theorem matchRegions_congr {captures : List (Int × Rule)}
    (h : ∀ t s, Nests g inner text scope m captures m.start [] t s → inner' t s = inner t s) :
    matchRegions g inner' text scope m captures = matchRegions g inner text scope m captures := by
  rw [matchRegions, matchRegions, captureRegions_congr h]

end

/-! ## Lines -/

/-- The engines agree on the patterns that are looked for while the entry is the innermost. -/
structure Entry.Agrees (engine other : Regex.Engine) (e : Entry) : Prop where
  inner : ∀ p ∈ e.rule.patterns, engine.Agrees other p
  ending : ∀ pattern, e.ending = some pattern → engine.Agrees other (.str (String.ofList pattern))

namespace LineContext

/-- The same line with another engine. -/
def withEngine (c : LineContext) (other : Regex.Engine) (inner' : Highlights) : LineContext :=
  { c with engine := other, inner := inner' }

variable {c : LineContext} {other : Regex.Engine} {inner' : Highlights} {s : State}

theorem chooseCandidate_congr {position : Nat} {anchor : Option Nat} {candidates : List Candidate}
    (h : ∀ p ∈ candidates.map (·.1), c.engine.Agrees other p) :
    (c.withEngine other inner').chooseCandidate position anchor candidates =
      c.chooseCandidate position anchor candidates := by
  have hfind : (c.withEngine other inner').findCandidate position anchor candidates =
      c.findCandidate position anchor candidates := by
    unfold findCandidate
    split
    · rfl
    · exact Pattern.findAny_congr h
  rw [chooseCandidate, chooseCandidate, hfind]

theorem findEnding_congr {e : Entry} {position : Nat} {anchor : Option Nat}
    (h : e.Agrees c.engine other) :
    (c.withEngine other inner').findEnding e position anchor = c.findEnding e position anchor := by
  unfold findEnding
  split
  · next hending => exact Pattern.find_congr (h.ending _ hending)
  · rfl

theorem askBlock_congr {e : Entry} {position : Nat} {anchor : Option Nat}
    (h : e.Agrees c.engine other) :
    (c.withEngine other inner').askBlock e position anchor = c.askBlock e position anchor := by
  unfold askBlock
  split
  · next hending => exact Pattern.findAt_congr (h.ending _ hending)
  · rfl

theorem choose_congr {position : Nat} {anchor : Option Nat}
    (h : s.current.Agrees c.engine other) :
    (c.withEngine other inner').choose s position anchor = c.choose s position anchor := by
  have hinner := h.inner
  unfold choose
  split
  · rfl
  · next candidates hrule =>
    rw [hrule] at hinner
    have hchoose : (c.withEngine other inner').chooseCandidate position anchor candidates =
        c.chooseCandidate position anchor candidates := chooseCandidate_congr hinner
    rw [findEnding_congr h, hchoose]
  all_goals
    next hrule =>
      rw [hrule] at hinner
      exact chooseCandidate_congr hinner

/-- The texts of captures on the line are highlighted alike. -/
def NestsAlike (c : LineContext) (s : State) (inner' : Highlights) : Prop :=
  ∀ u scope t s', c.Takes s u scope →
    Nests c.grammar c.inner c.text scope u.found u.captures u.found.start [] t s' →
    inner' t s' = c.inner t s'

theorem take_congr {seen : List State.Key} {place : Place} {choice : Choice}
    (hnests : c.NestsAlike s inner') (hp : c.Passes s seen place)
    (hchoose : c.choose place.state place.position place.anchor = .ok (some choice)) :
    (c.withEngine other inner').take place.state place.position place.anchor choice =
      c.take place.state place.position place.anchor choice := by
  have htakes := Takes.chosen hp hchoose
  have hregions : matchRegions c.grammar inner' c.text (choice.scope c.grammar place.state)
      choice.found (choice.captures c.grammar) =
      matchRegions c.grammar c.inner c.text (choice.scope c.grammar place.state) choice.found
        (choice.captures c.grammar) :=
    matchRegions_congr fun t s' hn => hnests _ _ t s' htakes hn
  cases choice with
  | closing rule m => exact congrArg (· >>= _) hregions
  | candidate rule m =>
    refine bind_congr_ok fun compiled hc => bind_congr_ok fun entered _ => ?_
    simp only [Choice.scope, Choice.captures,
      show c.grammar.compileRule rule = .ok compiled from hc]
      at hregions
    exact congrArg (· >>= _) hregions

theorem step_congr {seen : List State.Key} {place : Place} (hnests : c.NestsAlike s inner')
    (hp : c.Passes s seen place) (h : place.state.current.Agrees c.engine other) :
    (c.withEngine other inner').step place.state place.position place.anchor =
      c.step place.state place.position place.anchor := by
  unfold step
  rw [choose_congr h]
  refine bind_congr_ok fun found hfound => ?_
  cases found with
  | none => rfl
  | some choice => exact congrArg (· >>= _) (take_congr hnests hp hfound)

theorem continueBlocks_congr {kept left : List (CompiledRule × Nat)} {place : Place}
    (H : s.All (Entry.Agrees c.engine other)) (hnests : c.NestsAlike s inner')
    (ha : c.Asks s kept left place) :
    (c.withEngine other inner').continueBlocks s kept left place =
      c.continueBlocks s kept left place := by
  induction left generalizing kept place with
  | nil => rfl
  | cons block left ih =>
    obtain ⟨rule, height⟩ := block
    simp only [continueBlocks]
    rw [askBlock_congr (H.resume _ (List.mem_cons_self ..))]
    refine bind_congr_ok fun found hask => ?_
    cases found with
    | none => rfl
    | some m =>
      have hregions : (c.withEngine other inner').regionsOf
          (s.resume height (kept ++ [(rule, height)])).current.scope m rule.continuingCaptures =
          c.regionsOf (s.resume height (kept ++ [(rule, height)])).current.scope m
            rule.continuingCaptures :=
        matchRegions_congr fun t s' hn => hnests _ _ t s' (.asked ha hask) hn
      simp only [hregions]
      exact bind_congr_ok fun regions hr => ih (.goOn ha hask hr)

theorem steps_congr (fuel : Nat) {seen : List State.Key} {place : Place}
    (hopens : c.OpensOnly s (Entry.Agrees c.engine other)) (hnests : c.NestsAlike s inner')
    (hp : c.Passes s seen place) (H : place.state.Throughout (Entry.Agrees c.engine other)) :
    (c.withEngine other inner').steps fuel seen place = c.steps fuel seen place := by
  induction fuel generalizing seen place with
  | zero => rfl
  | succ fuel ih =>
    unfold steps
    rw [step_congr hnests hp H.current]
    refine bind_congr_ok fun found hstep => ?_
    cases found with
    | none => rfl
    | some next =>
      have hnext := step_throughout (fun e => hopens _ _ e hp H) H hstep
      simp only
      split
      · exact ih (hp.advance hstep ‹_›) hnext
      · split
        · rfl
        · exact ih (hp.stay hstep ‹_› (Bool.eq_false_iff.mpr ‹_›)) hnext

/-- The line is highlighted alike. -/
theorem highlight_congr (H : s.Throughout (Entry.Agrees c.engine other))
    (hopens : c.OpensOnly s (Entry.Agrees c.engine other)) (hnests : c.NestsAlike s inner') :
    (c.withEngine other inner').highlight s = c.highlight s := by
  unfold highlight
  rw [continueBlocks_congr H.entries hnests .start]
  refine bind_congr_ok fun place hblocks => ?_
  have hp := Passes.start hblocks
  have hsteps := steps_congr (c.stepLimit place.state) hopens hnests hp
    (hp.throughout H hopens)
  exact congrArg (· >>= _) hsteps

end LineContext

/-! ## Documents -/

section
variable {engine other : Regex.Engine}

/-- What is handed to the engine along with an entry is all that is looked for in it. -/
theorem Entry.agrees_start {rule : CompiledRule} {scope : Scope}
    (h : ∀ p ∈ rule.patterns, engine.Agrees other p) :
    (rule.start scope).current.Agrees engine other :=
  ⟨h, fun _ h => nomatch h⟩

theorem LineContext.opensOnly_agrees {c : LineContext} {s : State}
    {nested : Array Char → State → Json → Prop}
    (h : ∀ p, c.Hands nested s p → c.engine.Agrees other p) :
    c.OpensOnly s (Entry.Agrees c.engine other) := by
  intro seen place e hp _ ho
  refine ⟨fun p hmem => h p ?_, fun pattern hpattern => h _ (.opened hp ho hpattern)⟩
  obtain ⟨rule, m, compiled, names, ending, hchoose, hc, _, hopen⟩ := ho.opened
  exact .ready (.chosen hp hchoose hc) ((opened_ok hopen).2 ▸ hmem)

theorem Nests.exists_start {g : Grammar} {inner : Highlights} {text t : Array Char} {scope : Scope}
    {m : Regex.Match} {captures : List (Int × Rule)} {position : Nat} {regions : List Region}
    {s : State} (h : Nests g inner text scope m captures position regions t s) :
    ∃ rule scope', s = CompiledRule.start rule scope' := by
  induction h with
  | here => exact ⟨_, _, rfl⟩
  | later _ _ ih => exact ih

theorem highlightWithin_congr {g : Grammar} {depth : Nat} {text : Array Char} {s : State}
    {firstLine : Bool} (H : s.Throughout (Entry.Agrees engine other))
    (h : ∀ p, HandsWithin engine g depth text s firstLine p → engine.Agrees other p) :
    highlightWithin other g depth text s firstLine =
      highlightWithin engine g depth text s firstLine := by
  induction depth generalizing text s firstLine with
  | zero => rfl
  | succ depth ih =>
    rw [highlightWithin_succ, highlightWithin_succ]
    refine LineContext.highlight_congr (c := lineContext engine g depth text firstLine) H
      (LineContext.opensOnly_agrees h) fun u scope t s' ht hn => ?_
    have hstart : s'.Throughout (Entry.Agrees engine other) := by
      have hrule : ∀ p ∈ s'.current.rule.patterns, engine.Agrees other p :=
        fun p hp => h p (.ready (.captured ht hn) hp)
      obtain ⟨rule, scope', rfl⟩ := hn.exists_start
      exact .start (Entry.agrees_start hrule)
    exact congrArg (· >>= _) (ih hstart fun p hp => h p (.inside ht hn hp))

/-- Every line of every document is highlighted alike. -/
theorem CompiledGrammar.highlight_congr {g : CompiledGrammar} {depth : Nat} {s : State}
    (h : ∀ p, g.Hands engine depth p → engine.Agrees other p) (hs : g.Reaches engine depth s)
    (line : List Char) (firstLine : Bool) :
    highlightWithin other g.grammar depth line.toArray s firstLine =
      highlightWithin engine g.grammar depth line.toArray s firstLine := by
  have hstart : g.start.current.Agrees engine other :=
    Entry.agrees_start fun p hp => h p (.root hp)
  refine highlightWithin_congr (hs.throughout hstart fun s line firstLine hdepth hs => ?_)
    fun p hp => h p (.line hs hp)
  obtain ⟨depth, rfl⟩ := Nat.exists_eq_succ_of_ne_zero hdepth
  exact LineContext.opensOnly_agrees fun p hp => h p (.line hs hp)

end

end Rubric
