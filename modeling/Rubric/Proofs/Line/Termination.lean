import Rubric.Proofs.Line.Ends
import Rubric.Proofs.Line.Steady
import Rubric.Proofs.Line.Trail

/-!
# Lines that end

Where the patterns that open rules consume something, a step that consumes nothing closes a rule or
leads back to a key that was just there. So each step of a trail lowers twice the rest of the line
plus the height of the stack (`Trail.bounded`), the limit on steps is never reached, and a line
opens no more rules than it has characters. `line_ends` puts this next to what is true of every
grammar.
-/

namespace Rubric

/-- The patterns that open the rules of the grammar consume something, whatever they match. -/
def Grammar.OpeningsConsume (engine : Regex.Engine) (g : Grammar) : Prop :=
  ∀ rule, g.Holds rule → ∀ pattern, rule.opening = some pattern →
    Pattern.Consumes engine pattern

namespace State

theorem height_pop_le (s : State) : s.pop.height ≤ s.height := by
  by_cases h : s.below = []
  · rw [pop_eq_self h]
  · have := height_pop h
    omega

theorem height_cut_le (s : State) (height : Nat) : (s.cut height).height ≤ s.height := by
  unfold cut
  split
  · exact Nat.le_refl _
  · next entry below h =>
    have hlength := congrArg List.length h
    rw [List.length_drop] at hlength
    simp only [State.height, List.length_cons] at hlength ⊢
    omega

end State

namespace LineContext
variable {c : LineContext} {s : State} {first place : Place} {before : List Place}
  {seen : List State.Key} {n fuel : Nat}

/-- The blocks that a line does not go on with make the stack lower. -/
theorem continueBlocks_height (h : c.continueBlocks s [] s.blocks (.start s) = .ok first) :
    first.state.height ≤ s.height := by
  rcases Asks.start.continueBlocks_ok h with ⟨_, ha⟩ | ⟨kept, rule, height, _, _, ha, _, rfl⟩
  · rw [ha.state_eq]
  · exact Nat.le_trans (State.height_pop_le (s.resume height (kept ++ [(rule, height)])))
      (s.height_cut_le height)

/-- A step closes a rule, leaves the stack as it is, or opens a rule with a match that consumes
something. -/
theorem step_height {next : Step} (hopen : c.grammar.OpeningsConsume c.engine)
    (H : place.state.Held c.grammar)
    (h : c.step place.state place.position place.anchor = .ok (some next)) :
    next.state.height + 1 = place.state.height ∨ next.state = place.state ∨
      place.position < next.position ∧ next.state.height = place.state.height + 1 := by
  obtain ⟨choice, hchoose, hposition, hmoves⟩ := step_moves h
  obtain ⟨pattern, hfinds, hpattern⟩ := choose_finds hchoose
  generalize next.state = s', next.anchor = anchor' at hmoves ⊢
  cases hmoves with
  | closes =>
    by_cases hbelow : place.state.below = []
    · exact .inr (.inl (State.pop_eq_self hbelow))
    · exact .inl (State.height_pop hbelow)
  | stays => exact .inr (.inl rfl)
  | opens hc ho _ hbelow =>
    obtain ⟨hrule, hbegins⟩ := H.current.inner _ (hpattern _ _ rfl)
    have hopening := Grammar.opening_of_beginsWith hc ho hbegins
    refine .inr (.inr ⟨?_, ?_⟩)
    · rw [hposition]
      exact hopen _ hrule _ hopening _ _ _ _ hfinds
    · simp [State.height, hbelow]

/-- The places that the steps come by lie on a trail, and what they have seen are its keys. -/
theorem Passes.trail (hp : c.Passes s seen place) :
    ∃ first n before, c.continueBlocks s [] s.blocks (.start s) = .ok first ∧
      c.Trail first n place before ∧ seen = keys (place :: before) := by
  induction hp with
  | start h => exact ⟨_, _, _, h, .start, rfl⟩
  | advance _ hstep hlt ih =>
    obtain ⟨first, n, before, hfirst, T, _⟩ := ih
    exact ⟨first, _, _, hfirst, T.advance hstep hlt, rfl⟩
  | stay _ hstep hstay hnew ih =>
    obtain ⟨first, n, before, hfirst, T, rfl⟩ := ih
    refine ⟨first, _, _, hfirst, T.stay hstep hstay fun hmem => ?_, rfl⟩
    rw [List.contains_iff_mem.mpr hmem] at hnew
    cases hnew

namespace Trail

/-- Each step uses up a character of the line twice over, or the height of the stack. -/
theorem bounded (hE : c.engine.Forward) (hopen : c.grammar.OpeningsConsume c.engine)
    (hs : s.Held c.grammar) (hfirst : c.continueBlocks s [] s.blocks (.start s) = .ok first)
    (T : c.Trail first n place before) :
    n + place.state.height ≤ 2 * place.position + first.state.height ∧
      place.state.height ≤ first.state.height + place.position := by
  induction T with
  | start => omega
  | @advance n place before next T hstep hlt ih =>
    have hheight := step_height hopen ((T.passes hfirst).throughout hs opensOnly_held) hstep
    simp only [Place.after]
    rcases hheight with hheight | hheight | ⟨_, hheight⟩
    · omega
    · rw [hheight]
      omega
    · omega
  | @stay n place before next T hstep hstay hnew ih =>
    have hheight := step_height hopen ((T.passes hfirst).throughout hs opensOnly_held) hstep
    have hle := (step_forward hE hstep).1
    simp only [Place.after]
    rcases hheight with hheight | hheight | ⟨hlt, _⟩
    · omega
    · -- the step would lead back to the key of its own place
      refine absurd ?_ hnew
      rw [hheight]
      exact List.mem_cons_self
    · exact absurd hlt hstay

/-- Where the steps run out, there is a trail of so many of them. -/
theorem of_endless (hinner : c.InnerEnds s)
    (hfirst : c.continueBlocks s [] s.blocks (.start s) = .ok first)
    (T : c.Trail first n place before)
    (h : c.steps fuel (keys (place :: before)) place = .error .endless) :
    ∃ place' before', c.Trail first (n + fuel) place' before' := by
  induction fuel generalizing n place before with
  | zero => exact ⟨place, before, T⟩
  | succ fuel ih =>
    rw [Nat.add_succ, ← Nat.succ_add]
    rcases bind_eq_error.mp h with h | ⟨found, hstep, h⟩
    · exact absurd h (step_ends hinner (T.passes hfirst))
    · cases found with
      | none => cases h
      | some next =>
        simp only at h
        split at h
        · exact ih (T.advance hstep ‹_›) h
        · split at h
          · cases h
          · next hnew =>
            exact ih (T.stay hstep ‹_› fun hmem => hnew (List.contains_iff_mem.mpr hmem)) h

end Trail

/-- A line ends, if the texts of its captures do, with no more rules open than it had and it has
characters. -/
theorem highlight_ends (hE : c.engine.Forward) (hopen : c.grammar.OpeningsConsume c.engine)
    (hs : s.Held c.grammar) (hinner : c.InnerEnds s) :
    Ends (c.highlight s) ∧ ∀ s' regions, c.highlight s = .ok (s', regions) →
      s'.height ≤ s.height + c.text.size := by
  have hheight {first place : Place} {n : Nat} {before : List Place}
      (hfirst : c.continueBlocks s [] s.blocks (.start s) = .ok first)
      (T : c.Trail first n place before) : place.state.height ≤ s.height + c.text.size := by
    have hlow := (T.bounded hE hopen hs hfirst).2
    have hle := T.position_le hE (continueBlocks_forward hE hfirst)
    have := continueBlocks_height hfirst
    omega
  constructor
  · refine (continueBlocks_ends hinner .start).bind fun first hfirst => ?_
    refine Ends.bind (fun h => ?_) fun _ _ => ends_pure
    obtain ⟨place, before, T⟩ := Trail.of_endless hinner hfirst .start h
    have hn := (T.bounded hE hopen hs hfirst).1
    have hle := T.position_le hE (continueBlocks_forward hE hfirst)
    have hlimit := c.lt_stepLimit first.state
    omega
  · intro s' regions h
    obtain ⟨seen, last, final, hp, hh, rfl, _⟩ := highlight_ok h
    obtain ⟨first, n, before, hfirst, T, rfl⟩ := hp.trail
    cases hh with
    | spent => exact hheight hfirst T
    | @back next _ _ hback =>
      -- the state has the height of one that was there before
      obtain ⟨place, hmem, hkey⟩ := List.mem_map.mp (List.contains_iff_mem.mp hback)
      have heq : place.state.height = next.state.height := congrArg Prod.fst hkey
      refine Nat.le_trans (Nat.le_of_eq heq.symm) ?_
      rcases List.mem_cons.mp hmem with rfl | hmem
      · exact hheight hfirst T
      · obtain ⟨_, _, T'⟩ := T.earlier place hmem
        exact hheight hfirst T'

end LineContext

/-- Where openings consume something, every text ends, with captures nested as deep as they may be.
-/
theorem highlightWithin_ends {engine : Regex.Engine} {g : Grammar} {depth : Nat}
    {text : Array Char} {s : State} {firstLine : Bool} (hE : engine.Forward)
    (hopen : g.OpeningsConsume engine) (hs : s.Held g) :
    Ends (highlightWithin engine g depth text s firstLine) := by
  induction depth generalizing text s firstLine with
  | zero => exact fun h => nomatch h
  | succ depth ih =>
    rw [highlightWithin_succ]
    refine (LineContext.highlight_ends hE hopen hs fun u scope t s' ht hn => ?_).1
    exact (ih (hn.held (ht.holds hs))).bind fun _ _ => ends_pure

/-- **How the steps of a line end.** For an engine whose matches end in the text, at or behind the
position that they were looked for at, for every grammar, every state that lines leave behind, every
line, and captures nested up to any depth: the steps that are taken one after another are a trail,
on which no two places at one position have one key; and if they go on and on, the stack grows
without bound at some position. If the patterns that open rules consume something, whatever they
match, the line ends after so many steps, and so do the texts of its captures; the stack never has
more entries than it had and the line has characters. -/
theorem line_ends {grammar : Grammar} {g : CompiledGrammar} {engine : Regex.Engine} {depth : Nat}
    {s : State} (hE : engine.Forward) (hg : CompiledGrammar.ofGrammar grammar = .ok g)
    (hs : g.Reaches engine depth s) (line : List Char) (firstLine : Bool) :
    (∀ first, (g.context engine depth line firstLine).continueBlocks s [] s.blocks (.start s) =
        .ok first →
      (∀ n place before, (g.context engine depth line firstLine).Trail first n place before →
        (∀ fuel, (g.context engine depth line firstLine).steps (n + fuel) [first.state.key] first =
          (g.context engine depth line firstLine).steps fuel (keys (place :: before)) place) ∧
        (keys (place :: before)).Nodup ∧
          ∀ earlier ∈ before, earlier.position = place.position) ∧
      ((∀ n, ∃ place before, (g.context engine depth line firstLine).Trail first n place before) →
        ∃ position, ∀ height, ∃ n place before,
          (g.context engine depth line firstLine).Trail first n place before ∧
            place.position = position ∧ height < place.state.height) ∧
      (grammar.OpeningsConsume engine →
        ∀ n place before, (g.context engine depth line firstLine).Trail first n place before →
          n ≤ 2 * line.length + s.height ∧ place.state.height ≤ s.height + line.length)) ∧
    (grammar.OpeningsConsume engine →
      Ends (highlightWithin engine g.grammar depth line.toArray s firstLine) ∧
        ∀ s' regions,
          highlightWithin engine g.grammar depth line.toArray s firstLine = .ok (s', regions) →
          s'.height ≤ s.height + line.length) := by
  have hmade := hs.made hg
  have hheld := hs.held hg
  obtain ⟨rfl, _⟩ := CompiledGrammar.ofGrammar_ok hg
  have hsize : (g.context engine depth line firstLine).text.size = line.length := List.size_toArray
  have hforward : (g.context engine depth line firstLine).engine.Forward := hE
  refine ⟨fun first hfirst => ⟨fun n place before T =>
    ⟨T.steps_eq, T.nodup_keys, T.position_eq hE⟩,
    LineContext.Trail.unbounded hforward hmade hfirst, fun hopen n place before T => ?_⟩,
    fun hopen => ?_⟩
  · obtain ⟨hn, hlow⟩ := T.bounded hforward hopen hheld hfirst
    have hle := T.position_le hforward (LineContext.continueBlocks_forward hforward hfirst)
    have hstart := LineContext.continueBlocks_height hfirst
    omega
  · refine ⟨highlightWithin_ends hE hopen hheld, fun s' regions h => ?_⟩
    refine hsize ▸ (LineContext.highlight_ends hforward hopen hheld
      fun u scope t s' ht hn => ?_).2 s' regions (CompiledGrammar.highlight_context h)
    exact (highlightWithin_ends hE hopen (hn.held (ht.holds hheld))).bind
      fun _ _ => ends_pure

theorem remarkGrammar_openingsConsume : remarkGrammar.OpeningsConsume .standard := by
  intro rule hrule pattern hopening
  have hmem : .ok pattern ∈ remarkGrammar.checked :=
    hrule.ownChecked_subset (List.mem_append_left _ (List.mem_map_of_mem (by simp [hopening])))
  have hchecked : remarkGrammar.checked =
      [.ok (.str "> "), .ok (.str "> "), .ok (.str "\\("), .ok (.str "\\)")] := rfl
  have hfits : Pattern.Fits .standard true pattern := by
    rw [hchecked] at hmem
    simp only [List.mem_cons, Except.ok.injEq, List.not_mem_nil, or_false] at hmem
    rcases hmem with rfl | rfl | rfl | rfl
    all_goals exact Pattern.fits_of_isPlain Regex.Engine.standard_sound (by decide +kernel)
  exact hfits.consumes

/-- A line of a quote with an open aside: it ends, with no more than so many rules open. -/
theorem line_ends_remark : ∃ g s, CompiledGrammar.ofGrammar remarkGrammar = .ok g ∧
    g.Reaches .standard captureDepth s ∧ s.height = 3 ∧
    Ends (g.highlight .standard s "> ((\n".toList false) ∧
    ∀ s' regions, g.highlight .standard s "> ((\n".toList false = .ok (s', regions) →
      s'.height ≤ 8 := by
  have hrun : (do
      let g ← CompiledGrammar.ofGrammar remarkGrammar
      let behind ← g.highlight .standard g.start "> a (b\n".toList true
      return behind.1.height : Outcome Nat).toOption = some 3 := by
    decide +kernel
  obtain ⟨g, hg, hrun⟩ := bind_eq_ok.mp (toOption_eq_some.mp hrun)
  obtain ⟨⟨s, regions⟩, hline, hrun⟩ := bind_eq_ok.mp hrun
  have hheight : s.height = 3 := pure_eq_ok.mp hrun
  have hs : g.Reaches .standard captureDepth s := .line .start hline
  obtain ⟨hends, hlow⟩ := (line_ends Regex.Engine.standard_forward hg hs "> ((\n".toList false).2
    remarkGrammar_openingsConsume
  rw [hheight] at hlow
  exact ⟨g, s, hg, hs, hheight, hends, hlow⟩

end Rubric
