import Mathlib.Data.List.MinMax
import Rubric.Proofs.Line.Trail
import Rubric.Proofs.Line.Unanchored

/-!
# The guard that ends a line

A line ends when a step that consumes nothing leads back to a key that its position has seen. The
key is the height of the stack with the innermost rule; what the next step does depends as well on
whether `\G` may match, which closing a rule takes back, and on the end that was made for the entry.
As long as the rules seen at the position go on to choose as they did, nothing more would be
consumed: the stack keeps what it was lowest on, and above that only rules that were seen are opened
again (`Stops.returns`, `Stops.consumes_nothing`). `guard_stops` says that there is no other way for
the guard to be wrong, and so none at all where no pattern asks for `\G` and no end has references.
-/

namespace Rubric
namespace LineContext
variable {c : LineContext} {s s' : State} {anchor anchor' : Option Nat} {choice : Choice}
  {first place : Place} {before : List Place} {n : Nat}

/-- A step leads from a place to the next, whatever was seen. -/
def Leads (c : LineContext) (place later : Place) : Prop :=
  ∃ next, c.step place.state place.position place.anchor = .ok (some next) ∧
    later = place.after next

/-- The place that the next step leads to, where there is one. -/
def follow (c : LineContext) (place : Place) : Outcome Place := do
  (← c.step place.state place.position place.anchor).elim (throw .guarded) fun next =>
    return place.after next

theorem leads_of_follow {later : Place} (h : c.follow place = .ok later) : c.Leads place later := by
  obtain ⟨_ | next, hstep, h⟩ := bind_eq_ok.mp h
  · exact absurd h throw_ne_ok
  · exact ⟨next, hstep, (pure_eq_ok.mp h).symm⟩

theorem Leads.ready {later : Place} (H : place.state.Ready c.grammar) (h : c.Leads place later) :
    later.state.Ready c.grammar := by
  obtain ⟨next, hstep, rfl⟩ := h
  exact step_throughout (fun _ h => h.ready H) H hstep

/-- The guard ends the line behind a trail: the next step consumes nothing and leads back to a key
that its position has seen. -/
structure Stops (c : LineContext) (s : State) (first : Place) (n : Nat) (place : Place)
    (before : List Place) (next : Step) : Prop where
  begins : c.continueBlocks s [] s.blocks (.start s) = .ok first
  trail : c.Trail first n place before
  step : c.step place.state place.position place.anchor = .ok (some next)
  stays : ¬ place.position < next.position
  back : next.state.key ∈ keys (place :: before)

/-- There the steps end, however many more may be taken. -/
theorem Stops.steps_eq {next : Step} (H : c.Stops s first n place before next) (fuel : Nat) :
    c.steps (n + (fuel + 1)) [first.state.key] first =
      .ok { place.after next with position := place.position } := by
  rw [H.trail.steps_eq, steps, H.step, ok_bind]
  simp only [if_neg H.stays, List.contains_iff_mem.mpr H.back, if_true]
  rfl

/-- The entry is on top, and the choice opened it. -/
structure Tops (c : LineContext) (choice : Choice) (s : State) (entry : Entry) : Prop where
  current : entry = s.current
  openable : entry.rule.isOpenable = true
  opened : ∃ rule m, choice = .candidate rule m ∧ c.grammar.compileRule rule = .ok entry.rule

/-- A stack that gets no lower than it was in part keeps that part, and what lies above it was there
or has been opened. -/
theorem Moves.keeps {up base : List Entry} {e : Entry} (h : c.Moves s anchor choice s' anchor')
    (hs : s.current :: s.below = up ++ e :: base) (hheight : base.length + 1 ≤ s'.height) :
    ∃ up', s'.current :: s'.below = up' ++ e :: base ∧
      ∀ x ∈ up', x ∈ up ∨ c.Tops choice s' x := by
  cases h with
  | closes =>
    cases hb : s.below with
    | nil =>
      rw [State.pop_eq_self hb]
      exact ⟨up, hs, fun x hx => .inl hx⟩
    | cons entry below =>
      cases up with
      | nil =>
        obtain ⟨rfl, rfl⟩ := List.cons.inj hs
        simp only [State.pop, State.height, hb, List.length_cons] at hheight
        omega
      | cons u up =>
        have htail := (List.cons.inj hs).2
        rw [hb] at htail
        refine ⟨up, by simpa [State.pop, hb] using htail, fun x hx => .inl ?_⟩
        exact List.mem_cons_of_mem _ hx
  | stays => exact ⟨up, hs, fun x hx => .inl hx⟩
  | opens hc ho hrule hbelow =>
    refine ⟨s'.current :: up, by rw [hbelow, hs, List.cons_append], fun x hx => ?_⟩
    rcases List.mem_cons.mp hx with rfl | hx
    · exact .inr ⟨rfl, hrule ▸ ho, _, _, rfl, hrule ▸ hc⟩
    · exact .inl hx

/-- The entry that a choice opens is the one that it opens from anywhere. -/
theorem Tops.current_rule {e : Entry} {t : State} (h : c.Tops choice t e)
    (hmoves : c.Moves s anchor choice s' anchor') : s'.current.rule = e.rule := by
  obtain ⟨_, ho, rule, m, rfl, hc⟩ := h
  cases hmoves with
  | stays hc' =>
    rw [Except.ok.inj (hc.symm.trans hc')] at ho
    cases ho
  | opens hc' _ hrule _ => rw [hrule, Except.ok.inj (hc.symm.trans hc')]

/-- Only closing a rule makes the stack lower. -/
theorem Moves.height_le (h : c.Moves s anchor choice s' anchor') :
    s.height ≤ s'.height ∨ s' = s.pop ∧ ∃ rule m, choice = .closing rule m := by
  cases h with
  | closes => exact .inr ⟨rfl, _, _, rfl⟩
  | stays => exact .inl (Nat.le_refl _)
  | opens _ _ _ hbelow => exact .inl (by simp [State.height, hbelow])

theorem Moves.eq_pop {rule : Rule} {m : Regex.Match}
    (h : c.Moves s anchor (.closing rule m) s' anchor') : s' = s.pop := by
  generalize hc : Choice.closing rule m = choice at h
  cases h with
  | closes => rfl
  | stays | opens => cases hc

/-- A stack that is higher than the lowest one gets no lower than that by a step, nor does one with
as much below it, if the same choice did not make the lowest one lower. -/
theorem Moves.height_ge_of_alike {low other later : Place} {s₀ : State} {anchor₀ : Option Nat}
    (h : c.Moves later.state later.anchor choice s' anchor')
    (h₀ : c.Moves other.state other.anchor choice s₀ anchor₀)
    (hcases : later.state.below = low.state.below ∧ other = low ∨
      low.state.height < later.state.height)
    (hleast : low.state.height ≤ s₀.height) : low.state.height ≤ s'.height := by
  have hlater : low.state.height ≤ later.state.height := by
    rcases hcases with ⟨hbelow, _⟩ | hlt
    · simp [State.height, hbelow]
    · exact Nat.le_of_lt hlt
  rcases h.height_le with hle | ⟨rfl, rule, m, rfl⟩
  · exact Nat.le_trans hlater hle
  by_cases hb : later.state.below = []
  · rwa [State.pop_eq_self hb]
  · have hpopped := State.height_pop hb
    rcases hcases with ⟨hbelow, rfl⟩ | hlt
    · -- the choice closes a rule in the lowest place too
      rw [hbelow] at hb
      have hpopped₀ := State.height_pop hb
      rw [h₀.eq_pop] at hleast
      omega
    · omega

namespace Trail

theorem ready (hs : s.Ready c.grammar)
    (hfirst : c.continueBlocks s [] s.blocks (.start s) = .ok first)
    (T : c.Trail first n place before) :
    ∀ other ∈ place :: before, other.state.Ready c.grammar := by
  have hplace {n : Nat} {place : Place} {before : List Place} (T : c.Trail first n place before) :
      place.state.Ready c.grammar :=
    (T.passes hfirst).throughout hs opensOnly_ready
  refine List.forall_mem_cons.mpr ⟨hplace T, fun other h => ?_⟩
  obtain ⟨_, _, T'⟩ := T.earlier other h
  exact hplace T'

/-- From each place on a trail a step that consumes nothing leads to the next. -/
theorem leads (T : c.Trail first n place before) : ∀ earlier ∈ before, ∃ next,
    c.step earlier.state earlier.position earlier.anchor = .ok (some next) ∧
      ¬ earlier.position < next.position ∧ earlier.after next ∈ place :: before := by
  induction T with
  | start | advance => exact fun _ h => nomatch h
  | stay _ hstep hstay _ ih =>
    refine List.forall_mem_cons.mpr ⟨⟨_, hstep, hstay, List.mem_cons_self⟩, fun earlier h => ?_⟩
    obtain ⟨next', hstep', hstay', hmem⟩ := ih earlier h
    exact ⟨next', hstep', hstay', List.mem_cons_of_mem _ hmem⟩

/-- The stack of the lowest place on a trail is part of the stack at its end, and what lies above it
was on top at some place. -/
theorem lowest (T : c.Trail first n place before) {low : Place} (hmem : low ∈ place :: before)
    (hlow : ∀ other ∈ place :: before, low.state.height ≤ other.state.height) :
    ∃ up, place.state.current :: place.state.below =
        up ++ low.state.current :: low.state.below ∧
      ∀ x ∈ up, ∃ other ∈ place :: before, x.rule = other.state.current.rule := by
  induction T with
  | start | advance =>
    cases List.mem_singleton.mp hmem
    exact ⟨[], rfl, fun _ h => nomatch h⟩
  | stay T hstep _ _ ih =>
    obtain ⟨hnew, hold⟩ := List.forall_mem_cons.mp hlow
    rcases List.mem_cons.mp hmem with rfl | hmem
    · exact ⟨[], rfl, fun _ h => nomatch h⟩
    · obtain ⟨up, hstack, hup⟩ := ih hmem hold
      obtain ⟨choice, _, _, hmoves⟩ := step_moves hstep
      obtain ⟨up', hstack', hup'⟩ := hmoves.keeps hstack hnew
      refine ⟨up', hstack', fun x hx => ?_⟩
      rcases hup' x hx with hx | hx
      · obtain ⟨other, hother, hrule⟩ := hup x hx
        exact ⟨other, List.mem_cons_of_mem _ hother, hrule⟩
      · exact ⟨_, List.mem_cons_self, by rw [hx.current]; rfl⟩

end Trail

/-- Where the guard ends a line, each place of the position leads to a rule and a height that the
position has seen. -/
theorem Stops.returns {next : Step} (H : c.Stops s first n place before next)
    (hE : c.engine.Forward) (hs : s.Ready c.grammar) :
    ∀ earlier ∈ place :: before, earlier.position = place.position ∧ ∃ next',
      c.step earlier.state earlier.position earlier.anchor = .ok (some next') ∧
        next'.position = place.position ∧
        ∃ other ∈ place :: before, next'.state.current.rule = other.state.current.rule ∧
          next'.state.height = other.state.height := by
  have hready := H.trail.ready hs H.begins
  intro earlier hmem
  have hposition : earlier.position = place.position := by
    rcases List.mem_cons.mp hmem with rfl | hmem
    · rfl
    · exact H.trail.position_eq hE earlier hmem
  obtain ⟨next', hstep', hstay', hkey⟩ : ∃ next',
      c.step earlier.state earlier.position earlier.anchor = .ok (some next') ∧
        ¬ earlier.position < next'.position ∧ next'.state.key ∈ keys (place :: before) := by
    rcases List.mem_cons.mp hmem with rfl | hmem
    · exact ⟨next, H.step, H.stays, H.back⟩
    · obtain ⟨next', hstep', hstay', hmem'⟩ := H.trail.leads earlier hmem
      exact ⟨next', hstep', hstay', List.mem_map_of_mem (f := fun p => p.state.key) hmem'⟩
  have hnext : next'.state.Ready c.grammar := Leads.ready (hready earlier hmem) ⟨_, hstep', rfl⟩
  obtain ⟨other, hother, heq⟩ := List.mem_map.mp hkey
  obtain ⟨hheight, hsource⟩ := Prod.mk.inj heq
  refine ⟨hposition, next', hstep', ?_, other, hother, ?_, hheight.symm⟩
  · rw [← hposition]
    exact Nat.le_antisymm (Nat.not_lt.mp hstay') (step_forward hE hstep').1
  · exact hnext.current.eq_of_source? (hready other hother).current hsource.symm

/-- Some place is the lowest. -/
theorem exists_lowest (place : Place) (before : List Place) :
    ∃ low ∈ place :: before, ∀ other ∈ place :: before, low.state.height ≤ other.state.height := by
  let height (p : Place) := p.state.height
  cases h : (place :: before).argmin height with
  | none => exact absurd (List.argmin_eq_none.mp h) (List.cons_ne_nil _ _)
  | some low =>
    exact ⟨low, List.argmin_mem h, fun _ ho => List.le_of_mem_argmin (f := height) ho h⟩

/-- A place that the line goes on to behind the guard: the lowest of the places that it has come by
is part of its stack, and above that lie rules that it has come by. -/
structure Behind (place : Place) (before : List Place) (low later : Place) : Prop where
  position_eq : later.position = place.position
  stack : ∃ up, later.state.current :: later.state.below =
      up ++ low.state.current :: low.state.below ∧
    ∀ x ∈ up, ∃ other ∈ place :: before, x.rule = other.state.current.rule

namespace Behind
variable {low later : Place}

/-- Its innermost rule is one that the line has come by: the lowest, if its stack has no more. -/
theorem exists_alike (H : Behind place before low later) (hmem : low ∈ place :: before) :
    ∃ other ∈ place :: before, later.state.current.rule = other.state.current.rule ∧
      (later.state.below = low.state.below ∧ other = low ∨
        low.state.height < later.state.height) := by
  obtain ⟨up, hstack, hup⟩ := H.stack
  cases up with
  | nil =>
    obtain ⟨hcurrent, hbelow⟩ := List.cons.inj hstack
    exact ⟨low, hmem, by rw [hcurrent], .inl ⟨hbelow, rfl⟩⟩
  | cons u up =>
    obtain ⟨hcurrent, hbelow⟩ := List.cons.inj hstack
    have hlength : later.state.below.length = (up ++ low.state.current :: low.state.below).length :=
      congrArg List.length hbelow
    obtain ⟨other, hother, hrule⟩ := hup u List.mem_cons_self
    refine ⟨other, hother, by rw [hcurrent, hrule], .inr ?_⟩
    simp only [List.length_append, List.length_cons] at hlength
    simp only [State.height]
    omega

/-- The place where the guard ends a line is such a place. -/
theorem start {next : Step} (H : c.Stops s first n place before next) (hE : c.engine.Forward)
    (hs : s.Ready c.grammar) (hmem : low ∈ place :: before)
    (hlow : ∀ other ∈ place :: before, low.state.height ≤ other.state.height) :
    Behind place before low (place.after next) := by
  obtain ⟨_, next', hstep', hposition, back, hbackmem, hrule, hheight⟩ :=
    H.returns hE hs place List.mem_cons_self
  cases H.step.symm.trans hstep'
  obtain ⟨up, hstack, hup⟩ := H.trail.lowest hmem hlow
  obtain ⟨choice, _, _, hmoves⟩ := step_moves hstep'
  obtain ⟨up', hstack', hup'⟩ := hmoves.keeps hstack (hheight ▸ hlow back hbackmem)
  refine ⟨hposition, up', hstack', fun x hx => ?_⟩
  rcases hup' x hx with hx | hx
  · exact hup x hx
  · exact ⟨back, hbackmem, by rw [hx.current, hrule]⟩

/-- If its innermost rule chooses as it did before, the next step consumes nothing, and leads to
another such place. -/
theorem step {next : Step} (B : Behind place before low later)
    (H : c.Stops s first n place before next) (hE : c.engine.Forward) (hs : s.Ready c.grammar)
    (hmem : low ∈ place :: before)
    (hlow : ∀ other ∈ place :: before, low.state.height ≤ other.state.height)
    (halike : ∀ other ∈ place :: before, later.state.current.rule = other.state.current.rule →
      ∀ choice choice', c.choose other.state other.position other.anchor = .ok (some choice) →
        c.choose later.state later.position later.anchor = .ok (some choice') → choice = choice')
    {last : Place} (hleads : c.Leads later last) : Behind place before low last := by
  obtain ⟨next', hstep', rfl⟩ := hleads
  obtain ⟨choice, hchoose, hposition, hmoves⟩ := step_moves hstep'
  obtain ⟨other, hother, hrule, hcases⟩ := B.exists_alike hmem
  obtain ⟨_, next₀, hstep₀, hposition₀, back, hbackmem, hbackrule, hbackheight⟩ :=
    H.returns hE hs other hother
  obtain ⟨choice₀, hchoose₀, hstop₀, hmoves₀⟩ := step_moves hstep₀
  cases halike other hother hrule _ _ hchoose₀ hchoose
  have hheight := hmoves.height_ge_of_alike hmoves₀ hcases (hbackheight ▸ hlow back hbackmem)
  obtain ⟨up, hstack, hup⟩ := B.stack
  obtain ⟨up', hstack', hup'⟩ := hmoves.keeps hstack hheight
  refine ⟨?_, up', hstack', fun x hx => ?_⟩
  · exact (hposition.trans hstop₀.symm).trans hposition₀
  · rcases hup' x hx with hx | hx
    · exact hup x hx
    · exact ⟨back, hbackmem, (hx.current_rule hmoves₀).symm.trans hbackrule⟩

end Behind

/-- Where no rule chooses otherwise than before, the steps behind the guard consume nothing. -/
theorem Stops.consumes_nothing {next : Step} (H : c.Stops s first n place before next)
    (hE : c.engine.Forward) (hs : s.Ready c.grammar)
    (halike : ∀ later, Relation.ReflTransGen c.Leads (place.after next) later →
      ∀ other ∈ place :: before, later.position = other.position →
        later.state.current.rule = other.state.current.rule →
        ∀ choice choice', c.choose other.state other.position other.anchor = .ok (some choice) →
          c.choose later.state later.position later.anchor = .ok (some choice') →
          choice = choice') :
    ∀ later, Relation.ReflTransGen c.Leads (place.after next) later →
      later.position = place.position := by
  obtain ⟨low, hmem, hlow⟩ := exists_lowest place before
  have hbehind : ∀ later, Relation.ReflTransGen c.Leads (place.after next) later →
      Behind place before low later := by
    intro later hleads
    induction hleads with
    | refl => exact .start H hE hs hmem hlow
    | tail hleads hlast ih =>
      refine ih.step H hE hs hmem hlow (fun other hother => ?_) hlast
      have hposition := (H.returns hE hs other hother).1
      exact halike _ hleads other hother (ih.position_eq.trans hposition.symm)
  exact fun later hleads => (hbehind later hleads).position_eq

/-- Two places at one position with the same innermost rule take different matches, because `\G`
may match at one of them only or because the rule has different ends there. -/
structure Disagree (c : LineContext) (earlier later : Place) : Prop where
  position_eq : later.position = earlier.position
  rule_eq : later.state.current.rule = earlier.state.current.rule
  choices : ∃ choice choice',
    c.choose earlier.state earlier.position earlier.anchor = .ok (some choice) ∧
      c.choose later.state later.position later.anchor = .ok (some choice') ∧ choice ≠ choice'
  cause : ¬ (later.anchor = some later.position ↔ earlier.anchor = some earlier.position) ∨
    later.state.current.ending ≠ earlier.state.current.ending

theorem Disagree.of_ne {earlier later : Place} {choice' : Choice}
    (hposition : later.position = earlier.position)
    (hrule : later.state.current.rule = earlier.state.current.rule)
    (h : c.choose earlier.state earlier.position earlier.anchor = .ok (some choice))
    (h' : c.choose later.state later.position later.anchor = .ok (some choice'))
    (hne : choice ≠ choice') : c.Disagree earlier later := by
  refine ⟨hposition, hrule, ⟨choice, choice', h, h', hne⟩, ?_⟩
  by_contra hsame
  obtain ⟨hanchor, hending⟩ := not_or.mp hsame
  rw [hposition] at hanchor h'
  have heq : c.choose later.state earlier.position later.anchor =
      c.choose earlier.state earlier.position earlier.anchor := by
    refine choose_alike hrule (not_not.mp hending) ?_
    rw [Bool.eq_iff_iff, beq_iff_eq, beq_iff_eq]
    exact not_not.mp hanchor
  exact hne (Option.some.inj (Except.ok.inj (h.symm.trans (heq.symm.trans h'))))

end LineContext

/-- **When the guard is right to end a line.** For an engine whose matches end in the text, at or
behind the position that they were looked for at, for every grammar, every line or text of a
capture, and every state whose entries were made from the grammar, as those are that lines leave
behind and those that such a text begins with: where a step that consumes nothing leads back to a
key that its position has seen, the steps that would follow without the guard never consume
anything, unless they come by a rule that the position has seen and that takes another match now. It
does so only because `\G` may match now and might not before, or the other way round, or because
another end was made for its entry. So the guard is right whenever no pattern of the grammar asks
for `\G` and none that ends a rule has references to groups. -/
theorem guard_stops {c : LineContext} {s : State} {first place : Place} {before : List Place}
    {n : Nat} {next : Step} (hE : c.engine.Forward) (hs : s.Ready c.grammar)
    (H : c.Stops s first n place before next) :
    ((∀ later, Relation.ReflTransGen c.Leads (place.after next) later →
        later.position = place.position) ∨
      ∃ earlier ∈ place :: before, ∃ later,
        Relation.ReflTransGen c.Leads (place.after next) later ∧ c.Disagree earlier later) ∧
    (c.grammar.Unanchored →
      ∀ later, Relation.ReflTransGen c.Leads (place.after next) later →
        later.position = place.position) := by
  constructor
  · by_cases hdisagree : ∃ earlier ∈ place :: before, ∃ later,
        Relation.ReflTransGen c.Leads (place.after next) later ∧ c.Disagree earlier later
    · exact .inr hdisagree
    · refine .inl (H.consumes_nothing hE hs ?_)
      intro later hleads other hother hposition hrule choice choice' h h'
      by_contra hne
      exact hdisagree ⟨other, hother, later, hleads, .of_ne hposition hrule h h' hne⟩
  · intro hg
    have hready := H.trail.ready hs H.begins
    have hlater : ∀ later, Relation.ReflTransGen c.Leads (place.after next) later →
        later.state.Ready c.grammar := by
      intro later hleads
      induction hleads with
      | refl => exact LineContext.Leads.ready (hready place List.mem_cons_self) ⟨_, H.step, rfl⟩
      | tail _ hlast ih => exact hlast.ready ih
    refine H.consumes_nothing hE hs ?_
    intro later hleads other hother hposition hrule choice choice' h h'
    rw [hposition] at h'
    exact LineContext.choose_unanchored hg (hready other hother).current
      (hlater later hleads).current hrule.symm h h'

/-- A grammar of letters in parentheses, with a rule that is empty and only begins where `\G` may
match. -/
def lookGrammar : Grammar where
  scopeName := .str "text.look"
  patterns :=
    [{ scopes := ["meta.span.look"]
       opening := some (.str "\\(")
       closing := some (.str "\\)")
       children :=
         [{ opening := some (.str "\\G(?=a)"), closing := some (.str "(?=a)") },
          { scopes := ["letter.look"], single := some (.str "a") }] }]
  repository := []

/-- On a letter in parentheses the guard ends the line where the empty rule is closed, in front of
the letter, which the next step would consume. -/
theorem look_stops : ∃ g first n place before next, CompiledGrammar.ofGrammar lookGrammar = .ok g ∧
    (g.context .standard captureDepth "(a)\n".toList true).Stops g.start first n place before next ∧
    ∃ later, (g.context .standard captureDepth "(a)\n".toList true).Leads (place.after next) later ∧
      place.position < later.position := by
  have hrun : (do
      let g ← CompiledGrammar.ofGrammar lookGrammar
      let c := g.context .standard captureDepth "(a)\n".toList true
      let first ← c.continueBlocks g.start [] g.start.blocks (.start g.start)
      let inside ← c.follow first
      let place ← c.follow inside
      let behind ← c.follow place
      let last ← c.follow behind
      return (decide (first.position < inside.position), decide (inside.position < place.position),
        (keys [inside]).contains place.state.key, decide (place.position < behind.position),
        (keys [place, inside]).contains behind.state.key, decide (place.position < last.position)) :
      Outcome (Bool × Bool × Bool × Bool × Bool × Bool)).toOption =
        some (true, false, false, false, true, true) := by
    decide +kernel
  obtain ⟨g, hg, hrun⟩ := bind_eq_ok.mp (toOption_eq_some.mp hrun)
  obtain ⟨first, hfirst, hrun⟩ := bind_eq_ok.mp hrun
  obtain ⟨inside, hinside, hrun⟩ := bind_eq_ok.mp hrun
  obtain ⟨place, hplace, hrun⟩ := bind_eq_ok.mp hrun
  obtain ⟨behind, hbehind, hrun⟩ := bind_eq_ok.mp hrun
  obtain ⟨last, hlast, hrun⟩ := bind_eq_ok.mp hrun
  obtain ⟨opened, hopened, rfl⟩ := LineContext.leads_of_follow hinside
  obtain ⟨began, hbegan, rfl⟩ := LineContext.leads_of_follow hplace
  obtain ⟨next, hnext, rfl⟩ := LineContext.leads_of_follow hbehind
  have hrun := pure_eq_ok.mp hrun
  simp only [Prod.mk.injEq, decide_eq_true_eq, decide_eq_false_iff_not] at hrun
  obtain ⟨hadvance, hstay, hnew, hstays, hback, hconsumes⟩ := hrun
  have T := LineContext.Trail.advance .start hopened hadvance
  refine ⟨g, first, _, _, _, next, hg,
    ⟨hfirst, T.stay hbegan hstay fun hmem => ?_, hnext, hstays, List.contains_iff_mem.mp hback⟩,
    last, LineContext.leads_of_follow hlast, hconsumes⟩
  exact Bool.eq_false_iff.mp hnew (List.contains_iff_mem.mpr hmem)

/-- A grammar with nothing but an empty rule, which begins wherever it likes. -/
def quietGrammar : Grammar where
  scopeName := .str "text.quiet"
  patterns := [{ opening := some (.str "(?=a)"), closing := some (.str "(?=a)") }]
  repository := []

theorem quietGrammar_unanchored : quietGrammar.Unanchored := by
  have hrules : ∀ rule, quietGrammar.Holds rule →
      rule.closing = some (.str "(?=a)") ∧ rule.continuing = none := by
    intro rule h
    have hmem : rule ∈ quietGrammar.patterns := by
      induction h with
      | pattern h => exact h
      | entry h => cases h
      | part _ h ih =>
        simp only [quietGrammar, List.mem_singleton] at ih
        subst ih
        simp [Rule.parts] at h
    simp only [quietGrammar, List.mem_singleton] at hmem
    subst hmem
    exact ⟨rfl, rfl⟩
  have hendings : ∀ rule, quietGrammar.Holds rule → ∀ q, rule.closing = some (.str q) ∨
      rule.continuing = some (.str q) → Pattern.refers q.toList = false := by
    intro rule h q hq
    obtain ⟨hclosing, hcontinuing⟩ := hrules rule h
    rw [hclosing, hcontinuing] at hq
    rcases hq with hq | hq
    · cases hq
      decide
    · cases hq
  refine ⟨fun p hp => ?_, hendings⟩
  cases hp with
  | checked h =>
    have hchecked : quietGrammar.checked = [.ok (.str "(?=a)"), .ok (.str "(?=a)")] := rfl
    rw [hchecked] at h
    simp only [List.mem_cons, Except.ok.injEq, List.not_mem_nil, or_false, or_self] at h
    exact ⟨_, h, by decide⟩
  | expanded h hq hrefers _ =>
    rw [hendings _ h _ hq] at hrefers
    cases hrefers
  | never h _ hnone => cases (hrules _ h).1.symm.trans hnone

/-- In front of the letter a it opens the empty rule and closes it again, and the guard ends the
line. -/
theorem quiet_stops : ∃ g first n place before next,
    CompiledGrammar.ofGrammar quietGrammar = .ok g ∧
    (g.context .standard captureDepth "a\n".toList true).Stops
      g.start first n place before next := by
  have hrun : (do
      let g ← CompiledGrammar.ofGrammar quietGrammar
      let c := g.context .standard captureDepth "a\n".toList true
      let first ← c.continueBlocks g.start [] g.start.blocks (.start g.start)
      let place ← c.follow first
      let behind ← c.follow place
      return (decide (first.position < place.position), (keys [first]).contains place.state.key,
        decide (place.position < behind.position),
        (keys [place, first]).contains behind.state.key) :
      Outcome (Bool × Bool × Bool × Bool)).toOption = some (false, false, false, true) := by
    decide +kernel
  obtain ⟨g, hg, hrun⟩ := bind_eq_ok.mp (toOption_eq_some.mp hrun)
  obtain ⟨first, hfirst, hrun⟩ := bind_eq_ok.mp hrun
  obtain ⟨place, hplace, hrun⟩ := bind_eq_ok.mp hrun
  obtain ⟨behind, hbehind, hrun⟩ := bind_eq_ok.mp hrun
  obtain ⟨began, hbegan, rfl⟩ := LineContext.leads_of_follow hplace
  obtain ⟨next, hnext, rfl⟩ := LineContext.leads_of_follow hbehind
  have hrun := pure_eq_ok.mp hrun
  simp only [Prod.mk.injEq, decide_eq_false_iff_not] at hrun
  obtain ⟨hstay, hnew, hstays, hback⟩ := hrun
  refine ⟨g, first, _, _, _, next, hg, hfirst, .stay .start hbegan hstay fun hmem => ?_, hnext,
    hstays, List.contains_iff_mem.mp hback⟩
  exact Bool.eq_false_iff.mp hnew (List.contains_iff_mem.mpr hmem)

/-- In the first grammar the rule of the parentheses takes another match than before; in the second
nothing would be consumed. -/
theorem guard_stops_look :
    (∃ g place before next, CompiledGrammar.ofGrammar lookGrammar = .ok g ∧
      ∃ earlier ∈ place :: before, ∃ later,
        Relation.ReflTransGen (g.context .standard captureDepth "(a)\n".toList true).Leads
          (place.after next)
          later ∧ (g.context .standard captureDepth "(a)\n".toList true).Disagree earlier later) ∧
    ∃ g first n place before next, CompiledGrammar.ofGrammar quietGrammar = .ok g ∧
      (g.context .standard captureDepth "a\n".toList true).Stops g.start first n place before next ∧
      ∀ later, Relation.ReflTransGen (g.context .standard captureDepth "a\n".toList true).Leads
        (place.after next) later → later.position = place.position := by
  have hready {grammar : Grammar} {g : CompiledGrammar}
      (hg : CompiledGrammar.ofGrammar grammar = .ok g) : g.start.Ready g.grammar :=
    (CompiledGrammar.Reaches.start : g.Reaches .standard captureDepth g.start).ready hg
  constructor
  · obtain ⟨g, first, n, place, before, next, hg, H, later, hleads, hconsumes⟩ := look_stops
    rcases (guard_stops Regex.Engine.standard_forward (hready hg) H).1 with hsound | hdisagree
    · exact absurd (hsound later (.single hleads)) (Nat.ne_of_gt hconsumes)
    · exact ⟨g, place, before, next, hg, hdisagree⟩
  · obtain ⟨g, first, n, place, before, next, hg, H⟩ := quiet_stops
    have hplain : g.grammar.Unanchored :=
      (CompiledGrammar.ofGrammar_ok hg).1 ▸ quietGrammar_unanchored
    exact ⟨g, first, n, place, before, next, hg, H,
      (guard_stops Regex.Engine.standard_forward (hready hg) H).2 hplain⟩

/-- So the guard ends the line in front of a letter that would be consumed. -/
theorem guard_not_sound : ∃ g first n place before next later,
    CompiledGrammar.ofGrammar lookGrammar = .ok g ∧
    (g.context .standard captureDepth "(a)\n".toList true).Stops g.start first n place before next ∧
    (∀ fuel, (g.context .standard captureDepth "(a)\n".toList true).steps (n + (fuel + 1))
      [first.state.key]
      first = .ok { place.after next with position := place.position }) ∧
    Relation.ReflTransGen (g.context .standard captureDepth "(a)\n".toList true).Leads
      (place.after next)
      later ∧ place.position < later.position := by
  obtain ⟨g, first, n, place, before, next, hg, H, later, hleads, hconsumes⟩ := look_stops
  exact ⟨g, first, n, place, before, next, later, hg, H, H.steps_eq, .single hleads, hconsumes⟩

end Rubric
