import Rubric.Proofs.Grammar.Compiling
import Rubric.Proofs.Line.Stack

/-!
# The stack on the way through a document

The stack stands at the start of a document, and every block that is asked and every step that is
taken leaves it standing (`Stands.step`, `Passes.stands`, `Reaches.stands`). What a line does to it
is in `Keeps`.
-/

namespace Rubric

namespace LineContext
variable {c : LineContext} {root : Entry} {s : State}

theorem chooseCandidate_ok {position : Nat} {anchor : Option Nat} {candidates : List Candidate}
    {choice : Choice} (h : c.chooseCandidate position anchor candidates = .ok (some choice)) :
    ∃ rule m, choice = .candidate rule m := by
  obtain ⟨found, _, h⟩ := bind_eq_ok.mp h
  cases found with
  | none => cases pure_eq_ok.mp h
  | some p =>
    obtain ⟨⟨_, rule⟩, _, h⟩ := Option.map_eq_some_iff.mp (pure_eq_ok.mp h)
    exact ⟨rule, p.2, h.symm⟩

/-- Only a span is closed by a match. -/
theorem choose_closing {position : Nat} {anchor : Option Nat} {rule : Rule} {m : Regex.Match}
    (h : c.choose s position anchor = .ok (some (.closing rule m))) :
    ∃ closing inner, s.current.rule = .span rule closing inner := by
  have hnot {position : Nat} {anchor : Option Nat} {candidates : List Candidate}
      (h : c.chooseCandidate position anchor candidates = .ok (some (.closing rule m))) :
      False := by
    obtain ⟨_, _, heq⟩ := chooseCandidate_ok h
    cases heq
  unfold choose at h
  split at h
  case h_1 => cases h
  case h_2 rule' closing candidates heq =>
    obtain ⟨ending, _, h⟩ := bind_eq_ok.mp h
    cases ending with
    | none => exact (hnot h).elim
    | some ending =>
      simp only at h
      split at h
      · cases pure_eq_ok.mp h
        exact ⟨closing, candidates, heq⟩
      · obtain ⟨found, hfound, h⟩ := bind_eq_ok.mp h
        cases found with
        | none =>
          cases pure_eq_ok.mp h
          exact ⟨closing, candidates, heq⟩
        | some choice =>
          simp only at h
          split at h
          · cases pure_eq_ok.mp h
            exact ⟨closing, candidates, heq⟩
          · cases pure_eq_ok.mp h
            exact (hnot hfound).elim
  all_goals exact (hnot h).elim

theorem opened_ok {m : Regex.Match} {rule : CompiledRule} {names : List String} {ending : Json}
    {entry : Entry} (h : c.opened s m rule names ending = .ok entry) :
    entry.scope = s.current.scope ++ rule.scopes ++ names.map .str ∧ entry.rule = rule := by
  unfold opened at h
  split at h
  · obtain ⟨pattern, _, h⟩ := bind_eq_ok.mp h
    cases pure_eq_ok.mp h
    exact ⟨rfl, rfl⟩
  · cases h

theorem opened_scopeAround {m : Regex.Match} {compiled : CompiledRule} {rule : Rule} {ending : Json}
    {entry : Entry} (h : c.opened s m compiled rule.contentScopes ending = .ok entry) :
    entry.scopeAround rule = s.current.scope ++ compiled.scopes := by
  rw [Entry.scopeAround, (opened_ok h).1, List.length_append, List.length_map, Nat.add_sub_cancel]
  exact List.take_left

/-- A match that a rule begins with leaves the stack as it is, or puts an entry on it, around whose
content the scopes are those of the match. -/
theorem enter_stands {anchor anchor' : Option Nat} {m : Regex.Match} {compiled : CompiledRule}
    {s' : State} (H : s.Stands root) (h : c.enter s anchor m compiled = .ok (s', anchor')) :
    s'.Stands root ∧ (s' = s ∨ ∃ entry rule, s'.entries = s.entries ++ [entry] ∧
      entry.rule = compiled ∧ compiled.source? = some rule ∧
      entry.scopeAround rule = s.current.scope ++ compiled.scopes) := by
  rcases enter_ok h with ⟨_, _, rfl, _⟩ | ⟨rule, closing, inner, entry, rfl, hopen, rfl, _⟩ |
    ⟨rule, continuing, inner, entry, rfl, hopen, rfl, _⟩
  · exact ⟨H, .inl rfl⟩
  all_goals
    obtain ⟨hscope, hrule⟩ := opened_ok hopen
    have haround := opened_scopeAround hopen
    have hlies : entry.LiesOn s.current := by
      refine ⟨by rw [hrule]; rfl, ?_⟩
      rw [hscope, hrule]
      rfl
  · refine ⟨H.of_append hlies (s.entries_push entry) ?_, .inr ⟨entry, rule, s.entries_push entry,
      hrule, rfl, haround⟩⟩
    simp [hrule, CompiledRule.isBlock, State.push]
  · refine ⟨H.of_append hlies (s.entries_pushBlock entry) ?_, .inr ⟨entry, rule,
      s.entries_pushBlock entry, hrule, rfl, haround⟩⟩
    simp [hrule, CompiledRule.isBlock, State.pushBlock]

theorem closing_stands {position : Nat} {anchor : Option Nat} {rule : Rule} {m : Regex.Match}
    {next : Step} (H : s.Stands root) (hroot : root.rule.isOpenable = false)
    (hc : c.choose s position anchor = .ok (some (.closing rule m)))
    (h : c.take s position anchor (.closing rule m) = .ok next) :
    next.state.Stands root ∧ next.state.entries = s.entries.dropLast := by
  obtain ⟨closing, inner, hr⟩ := choose_closing hc
  obtain ⟨regions, _, h⟩ := bind_eq_ok.mp h
  cases pure_eq_ok.mp h
  exact H.pop hroot (by rw [hr]; rfl) (by rw [hr]; rfl)

theorem candidate_stands {position : Nat} {anchor : Option Nat} {rule : Rule} {m : Regex.Match}
    {next : Step} (H : s.Stands root)
    (h : c.take s position anchor (.candidate rule m) = .ok next) :
    next.state.Stands root ∧ (next.state = s ∨ ∃ entry, next.state.entries = s.entries ++ [entry] ∧
      entry.rule.source? = some rule ∧
      entry.scopeAround rule = (Choice.candidate rule m).scope c.grammar s) := by
  obtain ⟨compiled, hc, h⟩ := bind_eq_ok.mp h
  obtain ⟨⟨s', anchor'⟩, henter, h⟩ := bind_eq_ok.mp h
  obtain ⟨regions, _, h⟩ := bind_eq_ok.mp h
  cases pure_eq_ok.mp h
  obtain ⟨hs, hcases⟩ := enter_stands H henter
  refine ⟨hs, ?_⟩
  rcases hcases with heq | ⟨entry, rule', hentries, hrule, hsource, haround⟩
  · exact .inl heq
  · have hrule' : rule' = rule :=
      Option.some.inj (hsource.symm.trans (Grammar.source?_compileRule hc))
    subst hrule'
    refine .inr ⟨entry, hentries, by rw [hrule, hsource], ?_⟩
    simp only [Choice.scope, hc]
    exact haround

theorem step_stands {position : Nat} {anchor : Option Nat} {next : Step} (H : s.Stands root)
    (hroot : root.rule.isOpenable = false)
    (h : c.step s position anchor = .ok (some next)) : next.state.Stands root := by
  obtain ⟨choice, hc, ht⟩ := step_ok h
  cases choice with
  | closing rule m => exact (closing_stands H hroot hc ht).1
  | candidate rule m => exact (candidate_stands H ht).1

/-- A block that is asked is the innermost entry of what is left of the stack for it. -/
theorem Asks.stands {kept left : List (CompiledRule × Nat)} {rule : CompiledRule} {height : Nat}
    {place : Place} (H : s.Stands root) (h : c.Asks s kept ((rule, height) :: left) place) :
    (s.resume height (kept ++ [(rule, height)])).Stands root ∧
      (s.resume height (kept ++ [(rule, height)])).entries = s.entries.take height ∧
      (s.resume height (kept ++ [(rule, height)])).current.rule = rule ∧ rule.isBlock = true :=
  H.resume h.append_eq.symm

/-- With the first block that a line does not go on with, all that it holds is closed. -/
theorem Asks.popBlock_stands {kept left : List (CompiledRule × Nat)} {rule : CompiledRule}
    {height : Nat} {place : Place} (H : s.Stands root) (hroot : root.rule.isOpenable = false)
    (h : c.Asks s kept ((rule, height) :: left) place) :
    (s.resume height (kept ++ [(rule, height)])).popBlock.Stands root ∧
      (s.resume height (kept ++ [(rule, height)])).popBlock.entries = s.entries.take (height - 1) ∧
      (s.resume height (kept ++ [(rule, height)])).popBlock.blocks = kept := by
  obtain ⟨hw, hentries, hrule, hblock⟩ := h.stands H
  obtain ⟨hpop, hdrop⟩ := hw.popBlock hroot (by rwa [hrule])
  refine ⟨hpop, ?_, List.dropLast_concat⟩
  rw [hdrop, hentries, List.dropLast_eq_take, List.take_take, List.length_take]
  obtain ⟨_, _, hget, -⟩ := blocksFrom_eq_append (H.blocks.symm.trans h.append_eq.symm)
  have := (List.getElem?_eq_some_iff.mp hget).1
  congr 1
  omega

theorem Passes.stands {seen : List State.Key} {place : Place} (H : s.Stands root)
    (hroot : root.rule.isOpenable = false) (h : c.Passes s seen place) :
    place.state.Stands root := by
  induction h with
  | start h =>
    rcases Asks.start.continueBlocks_ok h with ⟨_, ha⟩ | ⟨_, _, _, _, _, ha, _, rfl⟩
    · rwa [ha.state_eq]
    · exact (ha.popBlock_stands H hroot).1
  | advance _ hstep _ ih => exact step_stands ih hroot hstep
  | stay _ hstep _ _ ih => exact step_stands ih hroot hstep

theorem highlight_stands {s' : State} {regions : List Region} (H : s.Stands root)
    (hroot : root.rule.isOpenable = false) (h : c.highlight s = .ok (s', regions)) :
    s'.Stands root := by
  obtain ⟨_, last, final, hp, hh, rfl, _⟩ := highlight_ok h
  have hlast := hp.stands H hroot
  cases hh with
  | spent => exact hlast
  | back hstep => exact step_stands hlast hroot hstep

/-- The line does not go on with a block that it asks: its entry lies at this height, and the blocks
that were asked before it lie below. -/
structure Leaves (c : LineContext) (s : State) (kept : List (CompiledRule × Nat))
    (rule : CompiledRule) (height : Nat) : Prop where
  asked : ∃ left place, c.Asks s kept ((rule, height) :: left) place ∧
    c.askBlock (s.resume height (kept ++ [(rule, height)])).current place.position place.anchor =
      .ok none
  entry : ∃ entry, s.entries[height - 1]? = some entry ∧ entry.rule = rule ∧ rule.isBlock = true

/-- What a line does to a stack with `root` at its bottom, from state `s` on. -/
structure Keeps (c : LineContext) (root : Entry) (s : State) : Prop where
  /-- the stack stands for each block that is asked -/
  asks : ∀ kept rule height left place, c.Asks s kept ((rule, height) :: left) place →
    (s.resume height (kept ++ [(rule, height)])).Stands root
  /-- a block that the line does not go on with takes its own entry, and all above it, away: the
  line begins its steps with what lies below -/
  cuts : ∀ kept rule height, c.Leaves s kept rule height →
    ∃ first, c.continueBlocks s [] s.blocks (.start s) = .ok first ∧
      first.state.entries = s.entries.take (height - 1) ∧ first.state.blocks = kept
  /-- where the steps begin, the line has gone on with all blocks and the stack is what it was, or
  there is a block that the line does not go on with -/
  begins : ∀ first, c.continueBlocks s [] s.blocks (.start s) = .ok first →
    first.state = s ∨ ∃ kept rule height, c.Leaves s kept rule height
  /-- the stack stands at each place that the steps come by -/
  passes : ∀ seen place, c.Passes s seen place → place.state.Stands root
  /-- a match that a rule begins with changes nothing or puts one entry on the stack, around whose
  content the scopes are those of the match -/
  opens : ∀ seen place rule m next, c.Passes s seen place →
    c.choose place.state place.position place.anchor = .ok (some (.candidate rule m)) →
    c.take place.state place.position place.anchor (.candidate rule m) = .ok next →
    next.state = place.state ∨ ∃ entry, next.state.entries = place.state.entries ++ [entry] ∧
      entry.rule.source? = some rule ∧
      entry.scopeAround rule = (Choice.candidate rule m).scope c.grammar place.state
  /-- a match that closes a rule takes one entry away, neither the bottom nor a block, and has the
  scopes of the match that opened the rule -/
  closes : ∀ seen place rule m next, c.Passes s seen place →
    c.choose place.state place.position place.anchor = .ok (some (.closing rule m)) →
    c.take place.state place.position place.anchor (.closing rule m) = .ok next →
    next.state.entries = place.state.entries.dropLast ∧
      (∃ closing inner, place.state.current.rule = .span rule closing inner) ∧
      ∃ below rest, place.state.below = below :: rest ∧
        place.state.current.scopeAround rule = below.scope ++ rule.scopes.map .str
  /-- a line that is highlighted has asked its blocks, and ends where its steps do, with the stack
  standing -/
  ends : ∀ s' regions, c.highlight s = .ok (s', regions) →
    (∃ first, c.continueBlocks s [] s.blocks (.start s) = .ok first) ∧
      (∃ seen last final, c.Passes s seen last ∧ c.Halts seen last final ∧ final.state = s') ∧
      s'.Stands root

theorem Asks.leaves {kept left : List (CompiledRule × Nat)} {rule : CompiledRule} {height : Nat}
    {place : Place} (H : s.Stands root) (h : c.Asks s kept ((rule, height) :: left) place)
    (hask : c.askBlock (s.resume height (kept ++ [(rule, height)])).current place.position
      place.anchor = .ok none) : c.Leaves s kept rule height := by
  obtain ⟨entry, _, hget, hrule, hblock, _⟩ :=
    blocksFrom_eq_append (H.blocks.symm.trans h.append_eq.symm)
  exact ⟨⟨left, place, h, hask⟩, entry, hget, hrule, hblock⟩

theorem keeps (c : LineContext) (H : s.Stands root) (hroot : root.rule.isOpenable = false) :
    c.Keeps root s where
  asks _ _ _ _ _ h := (h.stands H).1
  cuts kept rule height h := by
    obtain ⟨left, place, ha, hask⟩ := h.asked
    refine ⟨{ place with
      state := (s.resume height (kept ++ [(rule, height)])).popBlock, anchor := none }, ?_,
      (ha.popBlock_stands H hroot).2⟩
    rw [ha.continueBlocks_eq, continueBlocks, hask, ok_bind]
    rfl
  begins first h := by
    rcases Asks.start.continueBlocks_ok h with ⟨_, ha⟩ | ⟨_, _, _, _, _, ha, hask, _⟩
    · exact .inl ha.state_eq
    · exact .inr ⟨_, _, _, ha.leaves H hask⟩
  passes _ _ h := h.stands H hroot
  opens _ _ _ _ _ hp _ ht := (candidate_stands (hp.stands H hroot) ht).2
  closes seen place rule m next hp hc ht := by
    have hs := hp.stands H hroot
    obtain ⟨closing, inner, hr⟩ := choose_closing hc
    obtain ⟨below, rest, hbelow⟩ := hs.exists_below hroot (by rw [hr]; rfl)
    exact ⟨(closing_stands hs hroot hc ht).2, ⟨closing, inner, hr⟩, below, rest, hbelow,
      hs.scopeAround_eq hbelow hr⟩
  ends s' regions h := by
    obtain ⟨seen, last, final, hp, hh, hs', _⟩ := highlight_ok h
    exact ⟨hp.exists_first, ⟨seen, last, final, hp, hh, hs'.symm⟩, highlight_stands H hroot h⟩

end LineContext

/-! ## Documents -/

namespace CompiledGrammar
variable {grammar : Grammar} {g : CompiledGrammar} {engine : Regex.Engine} {depth : Nat} {s : State}

theorem ofGrammar_ok (h : ofGrammar grammar = .ok g) :
    g.grammar = grammar ∧ ∃ inner, grammar.expand grammar.patterns = .ok inner ∧
      g.root = .root grammar.scopeName inner.pairs := by
  obtain ⟨root, hroot, h⟩ := bind_eq_ok.mp h
  obtain ⟨inner, hinner, hroot⟩ := bind_eq_ok.mp hroot
  cases pure_eq_ok.mp hroot
  cases pure_eq_ok.mp h
  exact ⟨rfl, inner, hinner, rfl⟩

theorem start_stands (hg : g.root.isBlock = false) : g.start.Stands g.start.current where
  bottom := rfl
  above i below entry _ h := by
    have := (List.getElem?_eq_some_iff.mp h).1
    simp [start, CompiledRule.start, State.entries] at this
  blocks := by
    simp [start, CompiledRule.start, State.entries, blocksFrom, hg]

theorem Reaches.stands (hg : g.root.isOpenable = false) (h : g.Reaches engine depth s) :
    s.Stands g.start.current := by
  induction h with
  | start =>
    refine start_stands (Bool.eq_false_iff.mpr fun hb => ?_)
    rw [CompiledRule.isOpenable_of_isBlock hb] at hg
    cases hg
  | line _ h ih => exact LineContext.highlight_stands ih hg (highlight_context h)

end CompiledGrammar

/-- **The stack of open rules is always in order.** In each state that lines leave behind, from the
start of a document on and with captures nested up to any depth, the stack stands on the entry of
the grammar. Each further line keeps it so, from the blocks that it asks first to the state that it
leaves behind: it takes off what lies from the first block that it does not go on with upwards, and
then one entry with each match that closes a rule. -/
theorem stack_in_order {grammar : Grammar} {g : CompiledGrammar} {engine : Regex.Engine}
    {depth : Nat} {s : State} (hg : CompiledGrammar.ofGrammar grammar = .ok g)
    (hs : g.Reaches engine depth s) :
    s.Stands ⟨[grammar.scopeName], g.root, none, false⟩ ∧
      ∀ line firstLine,
        (g.context engine depth line firstLine).Keeps ⟨[grammar.scopeName], g.root, none, false⟩ s ∧
        ∀ s' regions,
          highlightWithin engine g.grammar depth line.toArray s firstLine = .ok (s', regions) →
          (g.context engine depth line firstLine).highlight s = .ok (s', regions) := by
  obtain ⟨_, inner, _, hroot⟩ := CompiledGrammar.ofGrammar_ok hg
  have hstart : g.start.current = ⟨[grammar.scopeName], g.root, none, false⟩ := by
    simp [CompiledGrammar.start, CompiledRule.start, hroot, CompiledRule.scopes]
  have hopen : g.root.isOpenable = false := by
    rw [hroot]
    rfl
  have H := hs.stands hopen
  rw [hstart] at H
  exact ⟨H, fun line firstLine => ⟨LineContext.keeps _ H hopen,
    fun _ _ => CompiledGrammar.highlight_context⟩⟩

/-- A grammar of remarks in parentheses, in quotes that each line has to continue. -/
def remarkGrammar : Grammar where
  scopeName := .str "text.remark"
  patterns :=
    [{ scopes := ["markup.quote.remark"]
       opening := some (.str "> ")
       continuing := some (.str "> ")
       children :=
         [{ scopes := ["meta.aside.remark"]
            opening := some (.str "\\(")
            closing := some (.str "\\)") }] }]
  repository := []

/-- A line that does not go on with a quote takes the quote off the stack, and the open aside in it:
the grammar is left, under which the rest of the line is highlighted. -/
theorem stack_in_order_remark : ∃ g s s' regions kept rule height,
    CompiledGrammar.ofGrammar remarkGrammar = .ok g ∧ g.Reaches .standard captureDepth s ∧
    s.height = 3 ∧ s.Stands ⟨[.str "text.remark"], g.root, none, false⟩ ∧
    (g.context .standard captureDepth "b)\n".toList false).Leaves s kept rule height ∧
    (∃ first, (g.context .standard captureDepth "b)\n".toList false).continueBlocks s [] s.blocks
      (.start s) = .ok first ∧ first.state.entries = s.entries.take 1) ∧
    g.highlight .standard s "b)\n".toList false = .ok (s', regions) ∧ s'.height = 1 ∧
    s'.Stands ⟨[.str "text.remark"], g.root, none, false⟩ := by
  have hrun : (do
      let g ← CompiledGrammar.ofGrammar remarkGrammar
      let behind ← g.highlight .standard g.start "> a (b\n".toList true
      let first ← (g.context .standard captureDepth "b)\n".toList false).continueBlocks behind.1 []
        behind.1.blocks (.start behind.1)
      let next ← g.highlight .standard behind.1 "b)\n".toList false
      return (behind.1.height, first.state.height, next.1.height) :
        Outcome (Nat × Nat × Nat)).toOption = some (3, 1, 1) := by
    decide +kernel
  obtain ⟨g, hg, hrun⟩ := bind_eq_ok.mp (toOption_eq_some.mp hrun)
  obtain ⟨⟨s, _⟩, hline, hrun⟩ := bind_eq_ok.mp hrun
  obtain ⟨first, hfirst, hrun⟩ := bind_eq_ok.mp hrun
  obtain ⟨⟨s', regions⟩, hnext, hrun⟩ := bind_eq_ok.mp hrun
  obtain ⟨hheight, hrun⟩ := Prod.mk.inj (pure_eq_ok.mp hrun)
  obtain ⟨hlow, hheight'⟩ := Prod.mk.inj hrun
  have hs : g.Reaches .standard captureDepth s := .line .start hline
  obtain ⟨hstands, hlines⟩ := stack_in_order hg hs
  obtain ⟨hkeeps, hbehind⟩ := hlines "b)\n".toList false
  obtain ⟨kept, rule, height, hleaves⟩ :
      ∃ kept rule height, LineContext.Leaves _ s kept rule height := by
    refine (hkeeps.begins first hfirst).resolve_left fun heq => ?_
    rw [heq] at hlow
    exact absurd (hlow.symm.trans hheight) (by decide)
  have hcut : first.state.entries = s.entries.take 1 := by
    obtain ⟨first', hfirst', hentries, _⟩ := hkeeps.cuts kept rule height hleaves
    cases hfirst.symm.trans hfirst'
    have hlength := congrArg List.length hentries
    rw [State.length_entries, hlow, List.length_take, State.length_entries, hheight] at hlength
    rw [hentries, show height - 1 = 1 by omega]
  exact ⟨g, s, s', regions, kept, rule, height, hg, hs, hheight, hstands, hleaves,
    ⟨first, hfirst, hcut⟩, hnext, hheight', (hkeeps.ends s' regions (hbehind s' regions hnext)).2.2⟩

end Rubric
