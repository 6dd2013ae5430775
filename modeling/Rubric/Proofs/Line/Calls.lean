import Rubric.Proofs.Line.Course
import Rubric.Proofs.Line.Faults

/-!
# The calls of a line

Highlighting a line makes rules ready, enters them with matches, searches the content of entries and
what closes or continues these (`Call`). A call may be one that nothing can be done about
(`Call.fault?`): such a call ends the line with its fault (`CallsWithin.fails`), and a line fails
with a fault of its steps for no other reason, unless the steps go on for ever
(`highlight_error`, `highlightWithin_guarded`). Unlike `Takes` and `Nests` the relations here are
exact: they hold of what a line comes to, and not of what a fault keeps it from.
-/

namespace Rubric

/-- What a line does with a rule or an entry. -/
inductive Call where
  /-- it makes the rule ready -/
  | ready (rule : Rule)
  /-- a match begins with the rule -/
  | enter (rule : CompiledRule)
  /-- it searches the content of the entry -/
  | search (entry : Entry)
  /-- it searches for what closes or continues the entry -/
  | ending (entry : Entry)

/-- The fault with which the call is refused: a reference is no rule, a rule without a pattern does
not begin with a match, one that matches once has no content, and the entry at the bottom of a stack
has no end. -/
def Call.fault? : Call → Option Fault
  | ready rule => rule.reference.map fun _ => .guarded
  | enter (.root _ _) | enter (.group _ _) => some .guarded
  | enter (.single _) | enter (.span _ _ _) | enter (.block _ _ _) => none
  | search entry =>
    match entry.rule with
    | .single _ => some .guarded
    | _ => none
  | ending entry =>
    match entry.ending with
    | some _ => none
    | none => some (.regex .unmatchedClose)

theorem Call.search_fault? {entry : Entry} {e : Fault} :
    (search entry).fault? = some e ↔ (∃ rule, entry.rule = .single rule) ∧ e = .guarded := by
  cases h : entry.rule <;> simp [fault?, h, eq_comm]

theorem Call.ending_fault? {entry : Entry} {e : Fault} :
    (ending entry).fault? = some e ↔ entry.ending = none ∧ e = .regex .unmatchedClose := by
  cases h : entry.ending <;> simp [fault?, h, eq_comm]

theorem Call.fault?_ne_endless (call : Call) : call.fault? ≠ some .endless := by
  cases call with
  | ready rule => cases h : rule.reference <;> simp [fault?, h]
  | enter rule => cases rule <;> simp [fault?]
  | search entry => cases h : entry.rule <;> simp [fault?, h]
  | ending entry => cases h : entry.ending <;> simp [fault?, h]

/-- The captures of a match come to one whose group took part. Those in front of it have made
`regions`, as far as `position`. -/
inductive Meets (g : Grammar) (inner : Highlights) (text : Array Char) (scope : Scope)
    (m : Regex.Match) :
    List (Int × Rule) → Int × Rule → Regex.Span → (position : Nat) → List Region → Prop
  | mk : captureRegions g inner text scope m front m.start [] = .ok (position, regions) →
    Pattern.takenSpan? m capture.1 = some span →
    Meets g inner text scope m (front ++ capture :: rest) capture span position regions

/-- A group that begins in front of the position has a region to begin in. -/
def HasRegion (position : Nat) (regions : List Region) (span : Regex.Span) : Prop :=
  span.1 < position → ∃ old, regions[regionIndex span.1 regions (regions.length - 1)]? = some old

namespace LineContext

/-- The line applies captures to a match, whose regions get their scopes on top of `scope`. -/
inductive Applies (c : LineContext) (s : State) : Scope → Regex.Match → List (Int × Rule) → Prop
  | asked : Asks c s kept ((rule, height) :: left) place →
    c.askBlock (s.resume height (kept ++ [(rule, height)])).current place.position place.anchor =
      .ok (some m) →
    Applies c s (s.resume height (kept ++ [(rule, height)])).current.scope m
      rule.continuingCaptures
  | closing : Passes c s seen place →
    c.choose place.state place.position place.anchor = .ok (some (.closing rule m)) →
    Applies c s (place.state.current.scopeAround rule) m rule.closingCaptures
  | candidate : Passes c s seen place →
    c.choose place.state place.position place.anchor = .ok (some (.candidate rule m)) →
    c.grammar.compileRule rule = .ok compiled →
    c.enter place.state place.anchor m compiled = .ok next →
    Applies c s (place.state.current.scope ++ compiled.scopes) m compiled.openingCaptures

/-- A capture takes the text of its group for itself, and the text begins. -/
inductive Begins (c : LineContext) (s : State) : Array Char → State → Prop
  | mk : Applies c s scope m captures →
    Meets c.grammar c.inner c.text scope m captures capture span position regions →
    c.grammar.compileRule capture.2 = .ok rule → HasRegion position regions span →
    Begins c s (c.text.extract span.1 span.2)
      (rule.start (groupScope scope position regions span))

/-- The line makes a call itself. -/
inductive Makes (c : LineContext) (s : State) : Call → Prop
  | asks : Asks c s kept ((rule, height) :: left) place →
    Makes c s (.ending (s.resume height (kept ++ [(rule, height)])).current)
  | searches : Passes c s seen place → Makes c s (.search place.state.current)
  | closes : Passes c s seen place → place.state.current.rule = .span rule closing candidates →
    Makes c s (.ending place.state.current)
  | readies : Passes c s seen place →
    c.choose place.state place.position place.anchor = .ok (some (.candidate rule m)) →
    Makes c s (.ready rule)
  | enters : Passes c s seen place →
    c.choose place.state place.position place.anchor = .ok (some (.candidate rule m)) →
    c.grammar.compileRule rule = .ok compiled → Makes c s (.enter compiled)
  | captures : Applies c s scope m captures →
    Meets c.grammar c.inner c.text scope m captures capture span position regions →
    Makes c s (.ready capture.2)

/-- The line makes a call: itself, or in a text that a capture takes for itself. -/
inductive Calls (c : LineContext) (nested : Array Char → State → Call → Prop) (s : State) :
    Call → Prop
  | itself : Makes c s call → Calls c nested s call
  | inside : Begins c s t s' → nested t s' call → Calls c nested s call

/-- A call of the line is refused with a fault, or a text in it fails with it. -/
inductive Breaks (c : LineContext) (s : State) (e : Fault) : Prop
  | refused : Makes c s call → call.fault? = some e → Breaks c s e
  | inside : Begins c s t s' → c.inner t s' = .error e → Breaks c s e

end LineContext

/-- Highlighting a text from a state on, with captures nested up to a depth, makes a call. -/
def CallsWithin (engine : Regex.Engine) (g : Grammar) :
    (depth : Nat) → Array Char → State → (firstLine : Bool) → Call → Prop
  | 0, _, _, _, _ => False
  | depth + 1, text, state, firstLine, call =>
    (lineContext engine g depth text firstLine).Calls
      (fun t s call => CallsWithin engine g depth t s false call) state call

/-! ## The captures of a match -/

section
variable {g : Grammar} {inner : Highlights} {text : Array Char} {scope : Scope} {m : Regex.Match}
  {capture : Int × Rule} {captures : List (Int × Rule)} {span : Regex.Span} {rule : CompiledRule}
  {position : Nat} {regions : List Region} {e : Fault}

/-- A capture that has a region fails only if its text does. -/
theorem addCapture_eq_bind (inner : Highlights) (text : Array Char) (scope : Scope)
    (htaken : Pattern.takenSpan? m capture.1 = some span)
    (hc : g.compileRule capture.2 = .ok rule) (hregion : HasRegion position regions span) :
    ∃ made : List Region → Nat × List Region,
      addCapture g inner text scope m capture position regions =
        (inner (text.extract span.1 span.2)
          (rule.start (groupScope scope position regions span)) >>= fun nested =>
            .ok (made nested)) := by
  unfold addCapture
  rw [htaken]
  simp only [hc, ok_bind]
  by_cases hin : span.1 < position
  · obtain ⟨old, hold⟩ := hregion hin
    simp only [if_pos hin, splitRegion, groupScope, hold, nestedRegions, bind_assoc, pure_bind]
    exact ⟨_, rfl⟩
  · simp only [if_neg hin, groupScope, nestedRegions, bind_assoc, pure_bind]
    exact ⟨_, rfl⟩

/-- A reference is not made ready, and all else fails for what stands inside of it. -/
theorem Grammar.compileRule_error {rule : Rule} (h : g.compileRule rule = .error e)
    (he : e.isOfSteps = true) : (Call.ready rule).fault? = some e := by
  unfold compileRule at h
  split at h
  · cases h
    simp [Call.fault?, ‹rule.reference = some _›]
  · cases h
  all_goals
    obtain ⟨_, _, h⟩ := (g.expand_plain _).bind_error he h
    cases h

theorem addCapture_error (h : addCapture g inner text scope m capture position regions = .error e)
    (he : e.isOfSteps = true) :
    ∃ span, Pattern.takenSpan? m capture.1 = some span ∧
      ((Call.ready capture.2).fault? = some e ∨
        ∃ rule, g.compileRule capture.2 = .ok rule ∧ HasRegion position regions span ∧
          inner (text.extract span.1 span.2)
            (rule.start (groupScope scope position regions span)) = .error e) := by
  cases htaken : Pattern.takenSpan? m capture.1 with
  | none =>
    unfold addCapture at h
    rw [htaken] at h
    cases h
  | some span =>
    refine ⟨span, rfl, ?_⟩
    cases hc : g.compileRule capture.2 with
    | error e' =>
      have : addCapture g inner text scope m capture position regions = .error e' := by
        unfold addCapture
        rw [htaken, hc]
        rfl
      cases this.symm.trans h
      exact .inl (Grammar.compileRule_error hc he)
    | ok rule =>
      by_cases hregion : HasRegion position regions span
      · obtain ⟨made, heq⟩ := addCapture_eq_bind inner text scope htaken hc hregion
        rcases bind_eq_error.mp (heq.symm.trans h) with h | ⟨_, _, h⟩
        · exact .inr ⟨rule, rfl, hregion, h⟩
        · cases h
      · -- without a region the capture is out of order
        simp only [HasRegion, Classical.not_imp, not_exists] at hregion
        obtain ⟨hin, hnone⟩ := hregion
        simp only [addCapture, htaken, hc, ok_bind, if_pos hin, splitRegion,
          Option.eq_none_iff_forall_ne_some.mpr hnone] at h
        cases h
        cases he

theorem captureRegions_append (front rest : List (Int × Rule)) (position : Nat)
    (regions : List Region) :
    captureRegions g inner text scope m (front ++ rest) position regions =
      (captureRegions g inner text scope m front position regions >>= fun made =>
        captureRegions g inner text scope m rest made.1 made.2) := by
  induction front generalizing position regions with
  | nil => rfl
  | cons capture front ih =>
    simp only [List.cons_append, captureRegions, ih, bind_assoc]

/-- Captures fail with the first one that fails. -/
theorem captureRegions_error
    (h : captureRegions g inner text scope m captures position regions = .error e) :
    ∃ front capture rest position' regions', captures = front ++ capture :: rest ∧
      captureRegions g inner text scope m front position regions = .ok (position', regions') ∧
      addCapture g inner text scope m capture position' regions' = .error e := by
  induction captures generalizing position regions with
  | nil => cases h
  | cons capture rest ih =>
    rcases bind_eq_error.mp h with h | ⟨⟨position₁, regions₁⟩, hadd, h⟩
    · exact ⟨[], capture, rest, position, regions, rfl, rfl, h⟩
    · obtain ⟨front, other, rest', position', regions', rfl, hfront, hother⟩ := ih h
      refine ⟨capture :: front, other, rest', position', regions', rfl, ?_, hother⟩
      rw [captureRegions, hadd]
      exact hfront

/-- The regions of a match fail with a capture that comes to its group. -/
theorem matchRegions_error (h : matchRegions g inner text scope m captures = .error e)
    (he : e.isOfSteps = true) :
    ∃ capture span position regions,
      Meets g inner text scope m captures capture span position regions ∧
      ((Call.ready capture.2).fault? = some e ∨
        ∃ rule, g.compileRule capture.2 = .ok rule ∧ HasRegion position regions span ∧
          inner (text.extract span.1 span.2)
            (rule.start (groupScope scope position regions span)) = .error e) := by
  rcases bind_eq_error.mp h with h | ⟨⟨position, regions⟩, _, h⟩
  · obtain ⟨front, capture, rest, position, regions, rfl, hfront, hadd⟩ := captureRegions_error h
    obtain ⟨span, htaken, hcases⟩ := addCapture_error hadd he
    exact ⟨capture, span, position, regions, .mk hfront htaken, hcases⟩
  · simp only at h
    split at h <;> cases h

theorem Meets.taken (H : Meets g inner text scope m captures capture span position regions) :
    Pattern.takenSpan? m capture.1 = some span := by
  obtain ⟨_, h⟩ := H
  exact h

theorem Meets.mem (H : Meets g inner text scope m captures capture span position regions) :
    capture ∈ captures := by
  obtain ⟨_, _⟩ := H
  simp

theorem Meets.nests (H : Meets g inner text scope m captures capture span position regions)
    (hc : g.compileRule capture.2 = .ok rule) :
    Nests g inner text scope m captures m.start [] (text.extract span.1 span.2)
      (rule.start (groupScope scope position regions span)) := by
  obtain ⟨hfront, htaken⟩ := H
  next front rest =>
  generalize m.start = start, ([] : List Region) = before at hfront ⊢
  induction front generalizing start before with
  | nil =>
    cases hfront
    exact .here htaken hc
  | cons other front ih =>
    obtain ⟨⟨position₁, regions₁⟩, hadd, hfront⟩ := bind_eq_ok.mp hfront
    exact .later hadd (ih _ _ hfront)

end

/-! ## Where a line fails -/

namespace LineContext
variable {c : LineContext} {s : State} {e : Fault} {seen : List State.Key} {place : Place}
  {scope : Scope} {m : Regex.Match} {captures : List (Int × Rule)}

/-- A rule that matches once has no content to search. -/
theorem choose_error {position : Nat} {anchor : Option Nat}
    (h : c.choose s position anchor = .error e) (he : e.isOfSteps = true) :
    (Call.search s.current).fault? = some e := by
  unfold choose at h
  split at h
  case h_1 hrule =>
    cases h
    simp [Call.fault?, hrule]
  case h_2 =>
    obtain ⟨ending, _, h⟩ := findEnding_plain.bind_error he h
    cases ending with
    | none => exact absurd h (chooseCandidate_plain.ne_error he)
    | some ending =>
      simp only at h
      split at h
      · cases h
      · obtain ⟨found, _, h⟩ := chooseCandidate_plain.bind_error he h
        cases found with
        | none => cases h
        | some choice =>
          simp only at h
          split at h <;> cases h
  all_goals exact absurd h (chooseCandidate_plain.ne_error he)

/-- A rule without a pattern is not entered. -/
theorem enter_error {anchor : Option Nat} {compiled : CompiledRule}
    (h : c.enter s anchor m compiled = .error e) (he : e.isOfSteps = true) :
    (Call.enter compiled).fault? = some e := by
  cases compiled with
  | root _ _ | group _ _ =>
    cases h
    rfl
  | single _ => cases h
  | span _ _ _ | block _ _ _ =>
    obtain ⟨_, _, h⟩ := opened_plain.bind_error he h
    cases h

theorem Applies.regionsOf_error (H : c.Applies s scope m captures)
    (h : c.regionsOf scope m captures = .error e) (he : e.isOfSteps = true) : c.Breaks s e := by
  obtain ⟨capture, span, position, regions, hmeets, hready | ⟨rule, hc, hregion, h⟩⟩ :=
    matchRegions_error h he
  · exact .refused (.captures H hmeets) hready
  · exact .inside (.mk H hmeets hc hregion) h

theorem step_error (hp : c.Passes s seen place)
    (h : c.step place.state place.position place.anchor = .error e) (he : e.isOfSteps = true) :
    c.Breaks s e := by
  rcases bind_eq_error.mp h with h | ⟨found, hchoose, h⟩
  · exact .refused (.searches hp) (choose_error h he)
  cases found with
  | none => cases h
  | some choice =>
    rcases bind_eq_error.mp h with h | ⟨_, _, h⟩
    case inr => cases h
    cases choice with
    | closing rule m =>
      rcases bind_eq_error.mp h with h | ⟨_, _, h⟩
      · exact (Applies.closing hp hchoose).regionsOf_error h he
      · cases h
    | candidate rule m =>
      rcases bind_eq_error.mp h with h | ⟨compiled, hc, h⟩
      · exact .refused (.readies hp hchoose) (Grammar.compileRule_error h he)
      rcases bind_eq_error.mp h with h | ⟨entered, henter, h⟩
      · exact .refused (.enters hp hchoose hc) (enter_error h he)
      rcases bind_eq_error.mp h with h | ⟨_, _, h⟩
      · exact (Applies.candidate hp hchoose hc henter).regionsOf_error h he
      · cases h

theorem continueBlocks_error {kept left : List (CompiledRule × Nat)}
    (ha : c.Asks s kept left place) (h : c.continueBlocks s kept left place = .error e)
    (he : e.isOfSteps = true) : c.Breaks s e := by
  induction left generalizing kept place with
  | nil => cases h
  | cons block left ih =>
    obtain ⟨found, hask, h⟩ := askBlock_plain.bind_error he h
    cases found with
    | none => cases h
    | some m =>
      rcases bind_eq_error.mp h with h | ⟨regions, hregions, h⟩
      · exact (Applies.asked ha hask).regionsOf_error h he
      · exact ih (ha.goOn hask hregions) h

theorem steps_error {fuel : Nat} (hp : c.Passes s seen place)
    (h : c.steps fuel seen place = .error e) (he : e.isOfSteps = true) :
    e = .endless ∨ c.Breaks s e := by
  induction fuel generalizing seen place with
  | zero =>
    cases h
    exact .inl rfl
  | succ fuel ih =>
    rcases bind_eq_error.mp h with h | ⟨found, hstep, h⟩
    · exact .inr (step_error hp h he)
    cases found with
    | none => cases h
    | some next =>
      simp only at h
      split at h
      · exact ih (hp.advance hstep ‹_›) h
      · split at h
        · cases h
        · exact ih (hp.stay hstep ‹_› (Bool.eq_false_iff.mpr ‹_›)) h

/-- A line fails with a fault of its steps for one of three reasons: they go on for ever, a call is
refused, or a text in the line fails so. -/
theorem highlight_error (h : c.highlight s = .error e) (he : e.isOfSteps = true) :
    e = .endless ∨ c.Breaks s e := by
  rcases bind_eq_error.mp h with h | ⟨place, hblocks, h⟩
  · exact .inr (continueBlocks_error .start h he)
  rcases bind_eq_error.mp h with h | ⟨final, _, h⟩
  · exact steps_error (.start hblocks) h he
  · cases h

/-- The captures that the line applies are those of a match that it takes. -/
theorem Applies.takes (h : c.Applies s scope m captures) :
    ∃ u, c.Takes s u scope ∧ u.found = m ∧ u.captures = captures := by
  cases h with
  | asked ha hask => exact ⟨_, .asked ha hask, rfl, rfl⟩
  | closing hp hchoose => exact ⟨_, .chosen hp hchoose, rfl, rfl⟩
  | candidate hp hchoose hc _ =>
    have htakes := Takes.chosen hp hchoose
    simp only [Choice.captures, Choice.scope, hc] at htakes
    exact ⟨_, htakes, rfl, rfl⟩

theorem Begins.takes {t : Array Char} {s' : State} (h : c.Begins s t s') :
    ∃ u scope, c.Takes s u scope ∧
      Nests c.grammar c.inner c.text scope u.found u.captures u.found.start [] t s' := by
  obtain ⟨happlies, hmeets, hc, _⟩ := h
  obtain ⟨u, htakes, rfl, rfl⟩ := happlies.takes
  exact ⟨u, _, htakes, hmeets.nests hc⟩

end LineContext

/-! ## Where a call is refused -/

/-- The computation fails with the fault, if it does not go on for ever. -/
def Fails (e : Fault) {α : Type} (x : Outcome α) : Prop :=
  x = .error e ∨ x = .error .endless

namespace Fails
variable {α β : Type} {e : Fault} {x : Outcome α} {f : α → Outcome β}

theorem bind (h : Fails e x) : Fails e (x >>= f) := by
  rcases h with rfl | rfl
  · exact .inl rfl
  · exact .inr rfl

theorem bind_ok {a : α} (ha : x = .ok a) (h : Fails e (f a)) : Fails e (x >>= f) := by
  rwa [ha]

end Fails

theorem Call.ready_fails {g : Grammar} {rule : Rule} {e : Fault}
    (h : (Call.ready rule).fault? = some e) : g.compileRule rule = .error e := by
  obtain ⟨target, href, rfl⟩ := Option.map_eq_some_iff.mp h
  simp [Grammar.compileRule, href]

theorem Meets.fails {g : Grammar} {inner : Highlights} {text : Array Char} {scope : Scope}
    {m : Regex.Match} {captures : List (Int × Rule)} {capture : Int × Rule} {span : Regex.Span}
    {position : Nat} {regions : List Region} {e : Fault}
    (H : Meets g inner text scope m captures capture span position regions)
    (h : Fails e (addCapture g inner text scope m capture position regions)) :
    Fails e (matchRegions g inner text scope m captures) := by
  obtain ⟨hfront, _⟩ := H
  refine Fails.bind ?_
  rw [captureRegions_append]
  exact .bind_ok hfront h.bind

namespace LineContext
variable {c : LineContext} {s : State} {e : Fault} {seen : List State.Key} {place : Place}
  {scope : Scope} {m : Regex.Match} {captures : List (Int × Rule)}

theorem Asks.fails {kept left : List (CompiledRule × Nat)} (ha : c.Asks s kept left place)
    (h : Fails e (c.continueBlocks s kept left place)) : Fails e (c.highlight s) := by
  induction ha with
  | start => exact h.bind
  | goOn ha hask hregions ih => exact ih (.bind_ok hask (.bind_ok hregions h))

/-- Where the steps come by, the line fails with them. -/
theorem Passes.fails (hp : c.Passes s seen place)
    (h : ∀ fuel, Fails e (c.steps fuel seen place)) : Fails e (c.highlight s) := by
  induction hp with
  | start hblocks => exact .bind_ok hblocks (h _).bind
  | advance _ hstep hlt ih =>
    refine ih fun fuel => ?_
    cases fuel with
    | zero => exact .inr rfl
    | succ fuel => exact .bind_ok hstep (by simpa only [if_pos hlt] using h fuel)
  | stay _ hstep hstay hnew ih =>
    refine ih fun fuel => ?_
    cases fuel with
    | zero => exact .inr rfl
    | succ fuel => exact .bind_ok hstep (by
      simpa only [if_neg hstay, hnew, Bool.false_eq_true, if_false] using h fuel)

theorem Passes.fails_step (hp : c.Passes s seen place)
    (h : Fails e (c.step place.state place.position place.anchor)) : Fails e (c.highlight s) := by
  refine hp.fails fun fuel => ?_
  cases fuel with
  | zero => exact .inr rfl
  | succ fuel => exact h.bind

theorem Applies.fails (H : c.Applies s scope m captures)
    (h : Fails e (c.regionsOf scope m captures)) : Fails e (c.highlight s) := by
  cases H with
  | asked ha hask => exact ha.fails (.bind_ok hask h.bind)
  | closing hp hchoose => exact hp.fails_step (.bind_ok hchoose h.bind.bind)
  | candidate hp hchoose hc henter =>
    exact hp.fails_step (.bind_ok hchoose (.bind (.bind_ok hc (.bind_ok henter h.bind))))

/-- A text that begins and fails makes the line fail. -/
theorem Begins.fails {t : Array Char} {s' : State} (H : c.Begins s t s')
    (h : Fails e (c.inner t s')) : Fails e (c.highlight s) := by
  obtain ⟨happlies, hmeets, hc, hregion⟩ := H
  obtain ⟨made, heq⟩ := addCapture_eq_bind c.inner c.text _ hmeets.taken hc hregion
  exact happlies.fails (hmeets.fails (heq ▸ h.bind))

/-- A call that is refused makes the line fail. -/
theorem Makes.fails {call : Call} (H : c.Makes s call) (h : call.fault? = some e) :
    Fails e (c.highlight s) := by
  cases H with
  | asks ha =>
    obtain ⟨hnone, rfl⟩ := Call.ending_fault?.mp h
    refine ha.fails (.bind (.inl ?_))
    simp [askBlock, hnone]
  | searches hp =>
    obtain ⟨⟨rule, hrule⟩, rfl⟩ := Call.search_fault?.mp h
    refine hp.fails_step (.bind (.inl ?_))
    simp [choose, hrule]
  | closes hp hrule =>
    obtain ⟨hnone, rfl⟩ := Call.ending_fault?.mp h
    refine hp.fails_step (.bind (.inl ?_))
    simp only [choose, hrule, findEnding, hnone]
    rfl
  | readies hp hchoose =>
    exact hp.fails_step (.bind_ok hchoose (.bind (.bind (.inl (Call.ready_fails h)))))
  | @enters seen place rule m compiled hp hchoose hc =>
    refine hp.fails_step (.bind_ok hchoose (.bind (.bind_ok hc (.bind (.inl ?_)))))
    cases compiled <;> cases h <;> rfl
  | captures happlies hmeets =>
    refine happlies.fails (hmeets.fails ?_)
    simp only [addCapture, hmeets.taken]
    exact .bind (.inl (Call.ready_fails h))

end LineContext

/-! ## Texts in a line -/

section
variable {engine : Regex.Engine} {g : Grammar} {depth : Nat} {text : Array Char} {s : State}
  {firstLine : Bool} {e : Fault}

/-- A call that is refused, in a text or in those of its captures, makes the text fail. -/
theorem CallsWithin.fails {call : Call} (H : CallsWithin engine g depth text s firstLine call)
    (h : call.fault? = some e) : Fails e (highlightWithin engine g depth text s firstLine) := by
  induction depth generalizing text s firstLine with
  | zero => exact H.elim
  | succ depth ih =>
    rw [highlightWithin_succ]
    cases H with
    | itself hmakes => exact hmakes.fails h
    | inside hbegins hcalls => exact hbegins.fails (ih hcalls).bind

/-- A text in which a rule stands where it cannot makes a call that is refused for that. -/
theorem highlightWithin_guarded
    (h : highlightWithin engine g depth text s firstLine = .error .guarded) :
    ∃ call, CallsWithin engine g depth text s firstLine call ∧ call.fault? = some .guarded := by
  induction depth generalizing text s firstLine with
  | zero => cases h
  | succ depth ih =>
    rw [highlightWithin_succ] at h
    obtain h | ⟨hmakes, hfault⟩ | ⟨hbegins, hinner⟩ := LineContext.highlight_error h rfl
    · cases h
    · exact ⟨_, .itself hmakes, hfault⟩
    · rcases bind_eq_error.mp hinner with hinner | ⟨_, _, hinner⟩
      · obtain ⟨call, hcalls, hfault⟩ := ih hinner
        exact ⟨call, .inside hbegins hcalls, hfault⟩
      · cases hinner

end

end Rubric
