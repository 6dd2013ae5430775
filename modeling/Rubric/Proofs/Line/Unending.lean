import Rubric.Proofs.Line.Choosing
import Rubric.Proofs.Line.Trail
import Rubric.Proofs.Regex.Reads

/-!
# Rules without an end

A rule that begins and has neither an end nor a pattern that continues it gets an end that matches
nowhere, whichever anchors are masked in it (`Pattern.find_neverClosing`). So no step closes such a
rule, and what lies below it stays as well (`LineContext.step_take`, `LineContext.Trail.take`). Only
a block below it that a line does not go on with takes it away (`Runs.take`, `unending_stays`).
-/

namespace Rubric

/-! ## The end that matches nowhere -/

namespace Regex
open Pattern (masked)

/-- An escape behind a negative look-ahead for an escape matches where the second one does not match
and the first one does. This is asked of the letter of `\G` and of what masks it. -/
def Engine.LooksAhead (engine : Engine) : Prop :=
  ∀ ahead ∈ ['G', masked], ∀ letter ∈ ['G', masked], ∃ refused wanted both,
    engine.compile ['\\', ahead] = .ok refused ∧ engine.compile ['\\', letter] = .ok wanted ∧
      engine.compile ['(', '?', '!', '\\', ahead, ')', '\\', letter] = .ok both ∧
      ∀ text origin position m, both.attempt text origin position = some m →
        refused.attempt text origin position = none ∧
          wanted.attempt text origin position = some m

/-- The node of such an escape, that of the masked letter being the character itself. -/
def Node.escape (letter : Char) : Node :=
  if letter = 'G' then .anchor .searchStart else .one (.char letter)

/-- An escape calls no groups. -/
theorem Node.escape_run_congr {letter : Char} {s : Subject} {call call' : Nat → Nat → Step}
    {limit : Nat} :
    (Node.escape letter).run s call limit = (Node.escape letter).run s call' limit := by
  unfold escape
  split <;> rfl

theorem compile_escape {letter : Char} (hl : letter ∈ ['G', masked]) :
    Expression.compile ['\\', letter] = .ok ⟨#[.escape letter], []⟩ := by
  refine toOption_eq_some.mp ?_
  simp only [List.mem_cons, List.not_mem_nil, or_false] at hl
  obtain rfl | rfl := hl <;> decide +kernel

theorem compile_refusedEscape {ahead letter : Char} (ha : ahead ∈ ['G', masked])
    (hl : letter ∈ ['G', masked]) :
    Expression.compile ['(', '?', '!', '\\', ahead, ')', '\\', letter] =
      .ok ⟨#[.seq (.lookAhead true (.escape ahead)) (.escape letter)], []⟩ := by
  refine toOption_eq_some.mp ?_
  simp only [List.mem_cons, List.not_mem_nil, or_false] at ha hl
  obtain rfl | rfl := ha <;> obtain rfl | rfl := hl <;> decide +kernel

/-- The match of an expression that is a single node without groups or calls. -/
theorem attempt_node (node : Node) (text : Array Char) (origin position : Nat) :
    Expression.attempt ⟨#[node], []⟩ text origin position =
      match node.run ⟨text, origin, []⟩
        (Expression.enter ⟨#[node], []⟩ ⟨text, origin, []⟩ callDepth)
        text.size ⟨position, position, []⟩ some with
      | some q =>
        if q.position < position then none
        else some ⟨min q.start q.position, q.position, q.groups⟩
      | none => none := rfl

theorem attempt_refusedEscape {ahead letter : Char} {text : Array Char} {origin position : Nat}
    {m : Match}
    (h : Expression.attempt ⟨#[.seq (.lookAhead true (.escape ahead)) (.escape letter)], []⟩ text
      origin position = some m) :
    Expression.attempt ⟨#[.escape ahead], []⟩ text origin position = none ∧
      Expression.attempt ⟨#[.escape letter], []⟩ text origin position = some m := by
  have hcall (c : Char) (s : Subject) (call : Nat → Nat → Step) (limit : Nat) :
      (Node.escape c).run s call limit = (Node.escape c).run s (fun _ _ _ _ => none) limit :=
    Node.escape_run_congr
  simp only [attempt_node, Node.run, hcall] at h ⊢
  cases hrefused : (Node.escape ahead).run ⟨text, origin, []⟩ (fun _ _ _ _ => none) text.size
      ⟨position, position, []⟩ some with
  | some q =>
    simp only [hrefused, if_true] at h
    cases h
  | none =>
    simp only [hrefused, if_true] at h
    exact ⟨rfl, h⟩

theorem Engine.standard_looksAhead : Engine.standard.LooksAhead := by
  intro ahead ha letter hl
  have hcompile {pattern : List Char} {r : Expression} (h : Expression.compile pattern = .ok r) :
      Engine.standard.compile pattern = .ok r.matcher := by
    simp only [Engine.standard, h, Except.map]
  exact ⟨_, _, _, hcompile (compile_escape ha), hcompile (compile_escape hl),
    hcompile (compile_refusedEscape ha hl), fun _ _ _ _ => attempt_refusedEscape⟩

end Regex

namespace Pattern
open Regex

/-- Whether `\G` may match or not, the pattern wants what it refuses. -/
theorem anchored_neverClosing (a : Anchoring) : ∃ letter ∈ ['G', masked],
    anchored a neverClosing.toList = ['(', '?', '!', '\\', letter, ')', '\\', letter] := by
  obtain ⟨firstLine, _ | _⟩ := a
  · exact ⟨masked, by decide, by revert firstLine; decide +kernel⟩
  · exact ⟨'G', by decide, by revert firstLine; decide +kernel⟩

/-- The end of a rule without an end is found nowhere, whichever anchors may match. -/
theorem find_neverClosing {engine : Engine} (hE : engine.LooksAhead) (a : Anchoring)
    (text : Array Char) (position : Nat) :
    find engine a (.str neverClosing) text position = .ok none ∧
      findAt engine a (.str neverClosing) text position = .ok none := by
  obtain ⟨letter, hl, hpattern⟩ := anchored_neverClosing a
  obtain ⟨refused, wanted, both, hrefused, hwanted, hboth, hm⟩ := hE letter hl letter hl
  have hnone {origin position : Nat} : both.attempt text origin position = none := by
    rw [Option.eq_none_iff_forall_ne_some]
    intro m hfound
    obtain ⟨hnone, hsome⟩ := hm text origin position m hfound
    cases hrefused.symm.trans hwanted
    cases hnone.symm.trans hsome
  have hready : prepare engine a (.str neverClosing) = .ok both := by
    simp only [prepare, barred, hpattern, ok_bind, ready, String.toList_ofList, hboth,
      Except.mapError]
  refine ⟨?_, ?_⟩
  · rw [find, hready, ok_bind]
    refine congrArg Except.ok (Option.eq_none_iff_forall_ne_some.mpr fun m hfound => ?_)
    obtain ⟨p, _, _, hp⟩ := Matcher.search_some hfound
    cases hnone.symm.trans hp
  · rw [findAt, hready, ok_bind]
    exact congrArg Except.ok hnone

end Pattern

/-! ## What is kept of the stack -/

/-- The entry was opened by a rule without an end. -/
structure Entry.Unending (e : Entry) : Prop where
  rule : ∃ rule inner, e.rule = .span rule (.str neverClosing) inner
  ending : e.ending = some neverClosing.toList

/-- The rule begins with a match, and neither ends with one nor goes on with one. -/
structure Rule.Unending (rule : Rule) : Prop where
  opening : rule.opening ≠ none
  closing : rule.closing = none
  continuing : rule.continuing = none

/-- The entry at an index of the stack is that of a rule without an end. -/
def State.HoldsUnending (s : State) (i : Nat) : Prop :=
  ∃ e rule, s.entries[i]? = some e ∧ e.rule.source? = some rule ∧ rule.Unending

namespace LineContext
variable {c : LineContext} {s : State} {i : Nat} {e : Entry}

/-- What a rule without an end opens has the end that matches nowhere. -/
theorem Opens.unending {place : Place} {rule : Rule} (h : c.Opens place e)
    (hsource : e.rule.source? = some rule) (hrule : rule.Unending) : e.Unending := by
  obtain ⟨rule', m, compiled, names, ending, _, hc, hending, hopen⟩ := h.opened
  obtain ⟨q, pattern, rfl, hexpand, hpattern⟩ := opened_ending hopen
  rw [(opened_ok hopen).2, Grammar.source?_compileRule hc] at hsource
  cases hsource
  have hnever : compiled.ending? = some (.str neverClosing) ∧ q = neverClosing := by
    rcases Grammar.compileRule_ending hc hending with hq | hq | ⟨_, _, hq⟩
    · cases hrule.closing.symm.trans hq
    · cases hrule.continuing.symm.trans hq
    · cases hq
      exact ⟨hending, rfl⟩
  obtain ⟨hending, rfl⟩ := hnever
  refine ⟨?_, ?_⟩
  · rw [(opened_ok hopen).2]
    cases Grammar.of_compileRule hc with
    | single | group => cases hending
    | block _ _ _ hcontinuing => cases hrule.continuing.symm.trans hcontinuing
    | span => exact ⟨_, _, by rw [hrule.closing]; rfl⟩
  · cases (Pattern.expand_eq_self (by decide)).symm.trans hexpand
    exact hpattern

theorem Opens.entries {place : Place} {next : Step} (h : c.Opens place e)
    (hstep : c.step place.state place.position place.anchor = .ok (some next)) :
    next.state.entries = place.state.entries ++ [e] := by
  obtain ⟨hchoose, hc, hending, henter⟩ := h
  obtain ⟨choice, hchoose', htake⟩ := step_ok hstep
  cases hchoose.symm.trans hchoose'
  obtain ⟨_, hc', htake⟩ := bind_eq_ok.mp htake
  cases hc.symm.trans hc'
  obtain ⟨⟨s', anchor'⟩, henter', htake⟩ := bind_eq_ok.mp htake
  cases henter.symm.trans henter'
  obtain ⟨regions, _, htake⟩ := bind_eq_ok.mp htake
  cases pure_eq_ok.mp htake
  rcases enter_ok henter with ⟨_, rfl, _⟩ | ⟨_, _, _, entry, _, _, rfl, _⟩ |
    ⟨_, _, _, entry, _, _, rfl, _⟩
  · cases hending
  · exact place.state.entries_push entry
  · exact place.state.entries_pushBlock entry

/-- What closes the innermost rule is a match of its end. -/
theorem findEnding_ne_none {position : Nat} {anchor : Option Nat} {rule : Rule}
    {m : Regex.Match} (h : c.choose s position anchor = .ok (some (.closing rule m))) :
    c.findEnding s.current position anchor ≠ .ok none := by
  intro hnone
  obtain ⟨closing, inner, hr⟩ := choose_closing h
  rw [choose_span hr hnone] at h
  obtain ⟨_, _, heq⟩ := chooseCandidate_ok h
  cases heq

theorem findEnding_unending {position : Nat} {anchor : Option Nat} (hE : c.engine.LooksAhead)
    (he : e.Unending) : c.findEnding e position anchor = .ok none := by
  simp only [findEnding, he.ending, String.ofList_toList]
  exact (Pattern.find_neverClosing hE _ _ _).1

/-- The lower part of the stack is kept, if it does not reach up to an entry that is closed. -/
theorem Moves.take {s' : State} {anchor anchor' : Option Nat} {choice : Choice}
    (h : c.Moves s anchor choice s' anchor') (hi : i < s.entries.length)
    (hclosing : ∀ rule m, choice = .closing rule m → i + 1 < s.entries.length) :
    s'.entries.take (i + 1) = s.entries.take (i + 1) := by
  cases h with
  | stays => rfl
  | opens _ _ _ hbelow =>
    have hentries : s'.entries = s.entries ++ [s'.current] := by
      rw [State.entries, State.entries, hbelow, List.reverse_cons]
    rw [hentries, List.take_append_of_le_length hi]
  | closes =>
    have hlt := hclosing _ _ rfl
    rw [State.entries_pop (s.below_ne_nil_iff.mpr (by omega)), List.dropLast_eq_take,
      List.take_take, Nat.min_eq_left (by omega)]

/-- A step closes neither a rule without an end nor what lies below it. -/
theorem step_take {position : Nat} {anchor : Option Nat} {next : Step} (hE : c.engine.LooksAhead)
    (hget : s.entries[i]? = some e) (he : e.Unending)
    (h : c.step s position anchor = .ok (some next)) :
    next.state.entries.take (i + 1) = s.entries.take (i + 1) := by
  obtain ⟨choice, hchoose, _, hmoves⟩ := step_moves h
  have hlt : i < s.entries.length := (List.getElem?_eq_some_iff.mp hget).1
  refine hmoves.take hlt fun rule m hclosing => Nat.lt_of_le_of_ne hlt fun hlast => ?_
  have hcurrent : s.current = e := by
    rw [show i = s.height - 1 by rw [← s.length_entries, ← hlast]; rfl,
      s.getElem?_height_entries] at hget
    exact Option.some.inj hget
  cases hclosing
  exact findEnding_ne_none hchoose (hcurrent ▸ findEnding_unending hE he)

theorem getElem?_of_take {s' : State} (h : s'.entries.take (i + 1) = s.entries.take (i + 1))
    (hget : s.entries[i]? = some e) : s'.entries[i]? = some e := by
  have := congrArg (·[i]?) h
  simpa [List.getElem?_take, hget] using this

/-- Nor do any number of steps. -/
theorem Trail.take {first place : Place} {before : List Place} {n : Nat}
    (hE : c.engine.LooksAhead) (hget : first.state.entries[i]? = some e) (he : e.Unending)
    (T : c.Trail first n place before) :
    place.state.entries.take (i + 1) = first.state.entries.take (i + 1) := by
  induction T with
  | start => rfl
  | advance _ hstep _ ih | stay _ hstep _ _ ih =>
    exact (step_take hE (getElem?_of_take ih hget) he hstep).trans ih

/-- At its start, the line does not go on with the block at a height of the stack. -/
def Drops (c : LineContext) (s : State) (height : Nat) : Prop :=
  ∃ kept rule left place, c.Asks s kept ((rule, height) :: left) place ∧
    c.askBlock (s.resume height (kept ++ [(rule, height)])).current place.position place.anchor =
      .ok none

/-- On a line that goes on with all blocks below, a rule without an end stays with what lies below
it. -/
theorem Passes.take {root : Entry} {seen : List State.Key} {place : Place}
    (hE : c.engine.LooksAhead) (H : s.Stands root) (hroot : root.rule.isOpenable = false)
    (hget : s.entries[i]? = some e) (he : e.Unending) (hdrops : ∀ height ≤ i, ¬ c.Drops s height)
    (hp : c.Passes s seen place) :
    place.state.entries.take (i + 1) = s.entries.take (i + 1) := by
  induction hp with
  | start h =>
    rcases Asks.start.continueBlocks_ok h with ⟨_, ha⟩ | ⟨_, rule, height, _, _, ha, hask, rfl⟩
    · rw [ha.state_eq]
    · obtain ⟨entry, hpos, hblock, hrule, hisBlock, _⟩ :=
        blocksFrom_eq_append (H.blocks.symm.trans ha.append_eq.symm)
      have hbelow : i < height := Nat.lt_of_not_le fun hle =>
        hdrops height hle ⟨_, rule, _, _, ha, hask⟩
      have hself : height - 1 ≠ i := by
        rintro rfl
        cases hget.symm.trans hblock
        obtain ⟨_, _, hspan⟩ := he.rule
        rw [← hrule, hspan] at hisBlock
        cases hisBlock
      rw [(ha.popBlock_stands H hroot).2.1, List.take_take, Nat.min_eq_left (by omega)]
  | advance _ hstep _ ih | stay _ hstep _ _ ih =>
    exact (step_take hE (getElem?_of_take ih hget) he hstep).trans ih

theorem highlight_take {root : Entry} {s' : State} {regions : List Region}
    (hE : c.engine.LooksAhead) (H : s.Stands root) (hroot : root.rule.isOpenable = false)
    (hget : s.entries[i]? = some e) (he : e.Unending) (hdrops : ∀ height ≤ i, ¬ c.Drops s height)
    (h : c.highlight s = .ok (s', regions)) :
    s'.entries.take (i + 1) = s.entries.take (i + 1) := by
  obtain ⟨_, last, final, hp, hh, rfl, _⟩ := highlight_ok h
  have hlast := hp.take hE H hroot hget he hdrops
  cases hh with
  | spent => exact hlast
  | back hstep => exact (step_take hE (getElem?_of_take hlast hget) he hstep).trans hlast

end LineContext

namespace CompiledGrammar

/-- Lines lead from one state to another, and each goes on with the blocks up to a height. Of a line
it is given whether it is the first one. -/
inductive Runs (g : CompiledGrammar) (engine : Regex.Engine) (depth height : Nat) :
    State → List (List Char × Bool) → State → Prop
  | nil : Runs g engine depth height s [] s
  | cons : (∀ h ≤ height, ¬ (g.context engine depth line firstLine).Drops s h) →
    highlightWithin engine g.grammar depth line.toArray s firstLine = .ok (s', regions) →
    Runs g engine depth height s' lines s'' →
    Runs g engine depth height s ((line, firstLine) :: lines) s''

variable {grammar : Grammar} {g : CompiledGrammar} {engine : Regex.Engine} {depth i : Nat}
  {s s' : State}

theorem Reaches.unending (hg : ofGrammar grammar = .ok g) (hs : g.Reaches engine depth s)
    (h : s.HoldsUnending i) : ∃ e, s.entries[i]? = some e ∧ e.Unending := by
  have hall : s.Throughout fun e => ∀ rule, e.rule.source? = some rule → rule.Unending →
      e.Unending := by
    refine hs.throughout (fun rule hsource _ => ?_)
      fun _ _ _ _ _ _ _ _ _ _ hopens _ hsource hrule => hopens.unending hsource hrule
    obtain ⟨_, inner, _, hroot⟩ := ofGrammar_ok hg
    have hnone : g.root.source? = some rule := hsource
    rw [hroot] at hnone
    cases hnone
  obtain ⟨e, rule, hget, hsource, hrule⟩ := h
  have hmem : e ∈ s.current :: s.below := List.mem_reverse.mp (List.mem_of_getElem? hget)
  exact ⟨e, hget, hall.entries e hmem rule hsource hrule⟩

/-- Over any number of lines, a rule without an end stays with what lies below it. -/
theorem Runs.take {e : Entry} {lines : List (List Char × Bool)} (hE : engine.LooksAhead)
    (hroot : g.root.isOpenable = false) (hs : g.Reaches engine depth s)
    (hget : s.entries[i]? = some e) (he : e.Unending) (h : g.Runs engine depth i s lines s') :
    g.Reaches engine depth s' ∧ s'.entries.take (i + 1) = s.entries.take (i + 1) := by
  induction h with
  | nil => exact ⟨hs, rfl⟩
  | cons hdrops hline _ ih =>
    have htake := LineContext.highlight_take hE (hs.stands hroot) hroot hget he hdrops
      (highlight_context hline)
    obtain ⟨hreaches, hrest⟩ := ih (.line hs hline) (LineContext.getElem?_of_take htake hget)
    exact ⟨hreaches, hrest.trans htake⟩

end CompiledGrammar

/-- **A rule that begins and has neither an end nor a pattern that continues it stays open.** The
pattern that stands in for its end matches nowhere, whichever anchors may match. Where a step opens
such a rule, in a line of the document or in the text of a capture, the stack up to it stays that of
all later places in this text. And if the stack holds such a rule when a line begins, the stack up
to it stays that of all places in all further lines, as long as each of them goes on with the blocks
that lie below the rule. -/
theorem unending_stays {grammar : Grammar} {g : CompiledGrammar} {engine : Regex.Engine}
    {depth : Nat} {s : State} (hE : engine.LooksAhead)
    (hg : CompiledGrammar.ofGrammar grammar = .ok g) (hs : g.Reaches engine depth s) :
    (∀ a text position,
      Pattern.find engine a (.str neverClosing) text position = .ok none ∧
        Pattern.findAt engine a (.str neverClosing) text position = .ok none) ∧
    (∀ (c : LineContext) place next e rule, c.engine = engine → c.Opens place e →
      e.rule.source? = some rule → rule.Unending →
      c.step place.state place.position place.anchor = .ok (some next) →
      e.ending = some neverClosing.toList ∧ next.state.entries = place.state.entries ++ [e] ∧
        ∀ n later before, c.Trail (place.after next) n later before →
          later.state.entries.take (place.state.height + 1) = place.state.entries ++ [e]) ∧
    ∀ i, s.HoldsUnending i →
      (∃ e, s.entries[i]? = some e ∧ e.ending = some neverClosing.toList) ∧
      ∀ lines s', g.Runs engine depth i s lines s' →
        s'.entries.take (i + 1) = s.entries.take (i + 1) ∧
        ∀ line firstLine seen place,
          (∀ height ≤ i, ¬ (g.context engine depth line firstLine).Drops s' height) →
          (g.context engine depth line firstLine).Passes s' seen place →
          place.state.entries.take (i + 1) = s.entries.take (i + 1) := by
  have hroot : g.root.isOpenable = false := by
    obtain ⟨_, inner, _, hroot⟩ := CompiledGrammar.ofGrammar_ok hg
    rw [hroot]
    rfl
  refine ⟨Pattern.find_neverClosing hE, ?_, fun i hi => ?_⟩
  · rintro c place next e rule rfl hopens hsource hrule hstep
    have he := hopens.unending hsource hrule
    have hentries := hopens.entries hstep
    refine ⟨he.ending, hentries, fun n later before T => ?_⟩
    have hget : next.state.entries[place.state.height]? = some e := by
      rw [hentries, ← State.length_entries, List.getElem?_concat_length]
    rw [T.take hE hget he, Place.after, hentries, List.take_of_length_le]
    simp [State.length_entries]
  · obtain ⟨e, hget, he⟩ := hs.unending hg hi
    refine ⟨⟨e, hget, he.ending⟩, fun lines s' hruns => ?_⟩
    obtain ⟨hs', htake⟩ := hruns.take hE hroot hs hget he
    refine ⟨htake, fun line firstLine seen place hdrops hp => ?_⟩
    exact (hp.take hE (hs'.stands hroot) hroot (LineContext.getElem?_of_take htake hget) he
      hdrops).trans htake

/-- A grammar of asides that nothing ends. -/
def openAsideGrammar : Grammar where
  scopeName := .str "text.aside"
  patterns := [{ opening := some (.str "\\("), children := [{ single := some (.str "\\)") }] }]
  repository := []

theorem unending_stays_aside : ∃ g s s', CompiledGrammar.ofGrammar openAsideGrammar = .ok g ∧
    g.Reaches .standard captureDepth s ∧ s.HoldsUnending 1 ∧
    g.Runs .standard captureDepth 1 s [("b) \uffff)\n".toList, false)] s' ∧ s'.height = 2 ∧
    s'.entries.take 2 = s.entries.take 2 := by
  have hrun : (do
      let g ← CompiledGrammar.ofGrammar openAsideGrammar
      let first ← g.highlight .standard g.start "(a\n".toList true
      let second ← g.highlight .standard first.1 "b) \uffff)\n".toList false
      return (((first.1.entries[1]?).bind (·.rule.source?)).any fun rule =>
          rule.opening.isSome && rule.closing.isNone && rule.continuing.isNone,
        first.1.blocks.length, second.1.height) : Outcome (Bool × Nat × Nat)).toOption =
      some (true, 0, 2) := by
    decide +kernel
  obtain ⟨g, hg, hrun⟩ := bind_eq_ok.mp (toOption_eq_some.mp hrun)
  obtain ⟨⟨s, _⟩, hfirst, hrun⟩ := bind_eq_ok.mp hrun
  obtain ⟨⟨s', _⟩, hsecond, hrun⟩ := bind_eq_ok.mp hrun
  obtain ⟨hrule, hrun⟩ := Prod.mk.inj (pure_eq_ok.mp hrun)
  obtain ⟨hblocks, hheight⟩ := Prod.mk.inj hrun
  have hs : g.Reaches .standard captureDepth s := .line .start hfirst
  have hholds : s.HoldsUnending 1 := by
    obtain ⟨rule, hsource, hrule⟩ := (Option.any_eq_true _ _).mp hrule
    obtain ⟨e, hget, hsource⟩ := Option.bind_eq_some_iff.mp hsource
    simp only [Bool.and_eq_true, Option.isNone_iff_eq_none] at hrule
    exact ⟨e, rule, hget, hsource, Option.isSome_iff_ne_none.mp hrule.1.1, hrule.1.2, hrule.2⟩
  have hruns : g.Runs .standard captureDepth 1 s [("b) \uffff)\n".toList, false)] s' := by
    refine .cons (fun height _ => ?_) hsecond .nil
    rintro ⟨kept, rule, left, place, ha, _⟩
    have hnone : s.blocks = [] := List.length_eq_zero_iff.mp hblocks
    simpa [hnone] using ha.append_eq
  exact ⟨g, s, s', hg, hs, hholds, hruns, hheight,
    (((unending_stays Regex.Engine.standard_looksAhead hg hs).2.2 1 hholds).2 _ _ hruns).1⟩

end Rubric
