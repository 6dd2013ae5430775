import Mathlib.Data.List.Perm.Subperm
import Mathlib.Data.List.ProdSigma
import Rubric.Proofs.Line.Moves

/-!
# The way that the steps of a line take

A line's steps leave a trail (`LineContext.Trail`): how many of them were taken, the place where the
line stands, and the places at the same position that they came by. What is open on the way are
rules of the grammar, finitely many (`CompiledRule.Made`), and at one position no two places have
one key. So if the stack stays low the trail is short (`Trail.le_of_height`), and a trail without
end is one on which the stack grows without bound at some position (`Trail.unbounded`).
-/

namespace Rubric

/-! ## The rules that are made ready -/

/-- The rule was made ready from the grammar itself or from one of its rules. -/
inductive CompiledRule.Made (g : Grammar) : CompiledRule → Prop
  | root : g.compile = .ok compiled → Made g compiled
  | rule : rule ∈ g.rules → g.compileRule rule = .ok compiled → Made g compiled

namespace CompiledRule.Made
variable {g : Grammar} {compiled : CompiledRule}

theorem inner_of (h : compiled.Made g) : ∀ c ∈ compiled.inner, Candidate.Of g.rules c := by
  cases h with
  | root h =>
    obtain ⟨inner, hinner, h⟩ := bind_eq_ok.mp h
    cases pure_eq_ok.mp h
    exact Grammar.expand_patterns_of hinner
  | rule hmem h =>
    rcases Grammar.inner_of_compileRule h with hnone | ⟨cs, hcs, hinner⟩
    · rw [hnone]
      exact fun _ hc => nomatch hc
    · rw [hinner]
      exact Grammar.expand_children_of hmem hcs

theorem source?_mem (h : compiled.Made g) : compiled.source? ∈ none :: g.rules.map some := by
  cases h with
  | root h =>
    obtain ⟨inner, _, h⟩ := bind_eq_ok.mp h
    cases pure_eq_ok.mp h
    exact List.mem_cons_self
  | rule hmem h =>
    rw [Grammar.source?_compileRule h]
    exact List.mem_cons_of_mem _ (List.mem_map_of_mem hmem)

end CompiledRule.Made

/-- The rule of each entry of the state was made from the grammar or from one of its rules. -/
abbrev State.Made (g : Grammar) (s : State) : Prop :=
  s.Throughout fun e => e.rule.Made g

namespace LineContext
variable {c : LineContext} {s : State}

theorem opensOnly_made : c.OpensOnly s fun e => e.rule.Made c.grammar := by
  intro seen place e _ H h
  obtain ⟨rule, m, compiled, names, ending, hchoose, hc, _, hopen⟩ := h.opened
  obtain ⟨p, hp⟩ := choose_mem hchoose
  exact (opened_ok hopen).2 ▸ .rule (H.current.inner_of _ hp).1 hc

end LineContext

theorem CompiledGrammar.Reaches.made {grammar : Grammar} {g : CompiledGrammar}
    {engine : Regex.Engine} {depth : Nat} {s : State} (hg : ofGrammar grammar = .ok g)
    (h : g.Reaches engine depth s) : s.Made g.grammar := by
  refine h.throughout (.root ?_) fun _ _ _ _ _ => LineContext.opensOnly_made
  obtain ⟨root, hroot, hg⟩ := bind_eq_ok.mp hg
  cases pure_eq_ok.mp hg
  exact hroot

/-! ## Trails -/

/-- There are no more keys than that of states of a height. -/
def Grammar.keyCount (g : Grammar) (height : Nat) : Nat :=
  (height + 1) * (g.rules.length + 1)

/-- The keys of the states at places. -/
def keys (places : List Place) : List State.Key :=
  places.map (·.state.key)

namespace LineContext

/-- From the first place on, `n` steps lead to a place. `before` are the places at the same position
that they came by, the last one first. -/
inductive Trail (c : LineContext) (first : Place) :
    (n : Nat) → Place → (before : List Place) → Prop
  | start : Trail c first 0 first []
  | advance : Trail c first n place before →
    c.step place.state place.position place.anchor = .ok (some next) →
    place.position < next.position → Trail c first (n + 1) (place.after next) []
  | stay : Trail c first n place before →
    c.step place.state place.position place.anchor = .ok (some next) →
    ¬ place.position < next.position → next.state.key ∉ keys (place :: before) →
    Trail c first (n + 1) (place.after next) (place :: before)

namespace Trail
variable {c : LineContext} {s : State} {first place : Place} {before : List Place} {n : Nat}

/-- The keys on the trail are those that the steps have seen. -/
theorem passes (h : c.continueBlocks s [] s.blocks (.start s) = .ok first)
    (T : c.Trail first n place before) : c.Passes s (keys (place :: before)) place := by
  induction T with
  | start => exact .start h
  | advance _ hstep hlt ih => exact ih.advance hstep hlt
  | stay _ hstep hstay hnew ih =>
    exact ih.stay hstep hstay (Bool.eq_false_iff.mpr fun hc => hnew (List.contains_iff_mem.mp hc))

/-- From the end of the trail on, the steps are those that are left from its start on. -/
theorem steps_eq (T : c.Trail first n place before) (fuel : Nat) :
    c.steps (n + fuel) [first.state.key] first = c.steps fuel (keys (place :: before)) place := by
  induction T generalizing fuel with
  | start => rw [Nat.zero_add]; rfl
  | @advance n _ _ next _ hstep hlt ih =>
    rw [Nat.add_assoc, Nat.add_comm 1, ih, steps, hstep, ok_bind]
    simp only [if_pos hlt]
    rfl
  | stay _ hstep hstay hnew ih =>
    rw [Nat.add_assoc, Nat.add_comm 1, ih, steps, hstep, ok_bind]
    simp only [if_neg hstay, List.contains_iff_mem, if_neg hnew]
    rfl

/-- Each place on the trail has a trail of its own. -/
theorem earlier (T : c.Trail first n place before) :
    ∀ place' ∈ before, ∃ n' before', c.Trail first n' place' before' := by
  induction T with
  | start | advance => exact fun _ h => nomatch h
  | stay T _ _ _ ih => exact List.forall_mem_cons.mpr ⟨⟨_, _, T⟩, ih⟩

theorem nodup_keys (T : c.Trail first n place before) : (keys (place :: before)).Nodup := by
  induction T with
  | start | advance => simp [keys]
  | stay _ _ _ hnew ih => exact List.nodup_cons.mpr ⟨hnew, ih⟩

theorem position_eq (hE : c.engine.Forward) (T : c.Trail first n place before) :
    ∀ earlier ∈ before, earlier.position = place.position := by
  induction T with
  | start | advance => exact fun _ h => nomatch h
  | @stay n place before next _ hstep hstay _ ih =>
    have heq : place.position = next.position :=
      Nat.le_antisymm (step_forward hE hstep).1 (Nat.not_lt.mp hstay)
    exact List.forall_mem_cons.mpr ⟨heq, fun earlier h => (ih earlier h).trans heq⟩

theorem position_le (hE : c.engine.Forward) (hfirst : first.position ≤ c.text.size)
    (T : c.Trail first n place before) : place.position ≤ c.text.size := by
  cases T with
  | start => exact hfirst
  | advance _ hstep | stay _ hstep => exact (step_forward hE hstep).2

end Trail

/-- The blocks that a line goes on with lie in the line. -/
theorem continueBlocks_forward {c : LineContext} {s : State} {first : Place}
    (hE : c.engine.Forward) (h : c.continueBlocks s [] s.blocks (.start s) = .ok first) :
    first.position ≤ c.text.size := by
  have hasks {kept left : List (CompiledRule × Nat)} {place : Place}
      (H : c.Asks s kept left place) : place.position ≤ c.text.size := by
    induction H with
    | start => exact Nat.zero_le _
    | goOn _ hask _ ih =>
      unfold askBlock at hask
      split at hask
      · exact (Pattern.findAt_forward hE ih hask).2
      · cases hask
  rcases Asks.start.continueBlocks_ok h with ⟨_, ha⟩ | ⟨_, _, _, _, _, ha, _, rfl⟩
  · exact hasks ha
  · have hpos := hasks ha
    exact hpos

/-! ## Low stacks -/

namespace Trail
variable {c : LineContext} {s : State} {first place : Place} {before : List Place}
  {n height : Nat}

/-- Places of low stacks at one position are few, since their keys are different. -/
theorem length_lt_keyCount (hs : s.Made c.grammar)
    (hfirst : c.continueBlocks s [] s.blocks (.start s) = .ok first)
    (hlow : ∀ n place before, c.Trail first n place before → place.state.height ≤ height)
    (T : c.Trail first n place before) : before.length < c.grammar.keyCount height := by
  have hkey {n : Nat} {place : Place} {before : List Place} (T : c.Trail first n place before) :
      place.state.key ∈
        List.range (height + 1) ×ˢ (none :: c.grammar.rules.map some) := by
    have hmade := ((T.passes hfirst).throughout hs opensOnly_made).current
    exact List.mem_product.mpr
      ⟨List.mem_range.mpr (Nat.lt_succ_of_le (hlow _ _ _ T)), hmade.source?_mem⟩
  have hsubset : keys (place :: before) ⊆
      List.range (height + 1) ×ˢ (none :: c.grammar.rules.map some) := by
    intro key h
    obtain ⟨place', hmem, rfl⟩ := List.mem_map.mp h
    rcases List.mem_cons.mp hmem with rfl | hmem
    · exact hkey T
    · obtain ⟨_, _, T'⟩ := T.earlier place' hmem
      exact hkey T'
  have hlength := (List.subperm_of_subset T.nodup_keys hsubset).length_le
  rw [List.length_product] at hlength
  exact Nat.lt_of_succ_le (by simpa [keys, Grammar.keyCount] using hlength)

/-- Low stacks allow as many steps as there are keys, once for each position. -/
theorem le_of_height (hE : c.engine.Forward) (hs : s.Made c.grammar)
    (hfirst : c.continueBlocks s [] s.blocks (.start s) = .ok first)
    (hlow : ∀ n place before, c.Trail first n place before → place.state.height ≤ height)
    (T : c.Trail first n place before) :
    n ≤ place.position * c.grammar.keyCount height + before.length := by
  induction T with
  | start => exact Nat.zero_le _
  | @advance n place before next T _ hlt ih =>
    have hfew := length_lt_keyCount hs hfirst hlow T
    have hnext : (place.position + 1) * c.grammar.keyCount height ≤
        next.position * c.grammar.keyCount height := Nat.mul_le_mul_right _ hlt
    rw [Nat.add_mul, Nat.one_mul] at hnext
    simp only [Place.after, List.length_nil]
    omega
  | @stay n place before next _ hstep hstay _ ih =>
    have hnext : place.position * c.grammar.keyCount height ≤
        next.position * c.grammar.keyCount height :=
      Nat.mul_le_mul_right _ (step_forward hE hstep).1
    simp only [Place.after, List.length_cons]
    omega

/-- If the steps go on and on, the stack grows without bound at some position. -/
theorem unbounded (hE : c.engine.Forward) (hs : s.Made c.grammar)
    (hfirst : c.continueBlocks s [] s.blocks (.start s) = .ok first)
    (hendless : ∀ n, ∃ place before, c.Trail first n place before) :
    ∃ position, ∀ height, ∃ n place before, c.Trail first n place before ∧
      place.position = position ∧ height < place.state.height := by
  by_contra hbounded
  have hbound : ∀ position, ∃ height, ∀ n place before, c.Trail first n place before →
      place.position = position → place.state.height ≤ height := by
    intro position
    by_contra hnone
    refine hbounded ⟨position, fun height => ?_⟩
    by_contra hlow
    refine hnone ⟨height, fun n place before T hposition => Nat.not_lt.mp fun hhigh => ?_⟩
    exact hlow ⟨n, place, before, T, hposition, hhigh⟩
  choose bound hbound using hbound
  -- one height for all positions of the line
  have hall : ∀ size, ∃ height, ∀ position, position ≤ size → bound position ≤ height := by
    intro size
    induction size with
    | zero => exact ⟨bound 0, fun position h => Nat.le_of_eq (by rw [Nat.le_zero.mp h])⟩
    | succ size ih =>
      obtain ⟨height, hheight⟩ := ih
      refine ⟨max height (bound (size + 1)), fun position h => ?_⟩
      rcases Nat.le_succ_iff.mp h with h | rfl
      · exact Nat.le_trans (hheight position h) (Nat.le_max_left _ _)
      · exact Nat.le_max_right _ _
  obtain ⟨height, hheight⟩ := hall c.text.size
  have hposition := continueBlocks_forward hE hfirst
  have hlow (n : Nat) (place : Place) (before : List Place) (T : c.Trail first n place before) :
      place.state.height ≤ height :=
    Nat.le_trans (hbound _ n place before T rfl) (hheight _ (T.position_le hE hposition))
  obtain ⟨place, before, T⟩ :=
    hendless (c.text.size * c.grammar.keyCount height + c.grammar.keyCount height)
  have hle := le_of_height hE hs hfirst hlow T
  have hfew := length_lt_keyCount hs hfirst hlow T
  have hmul : place.position * c.grammar.keyCount height ≤
      c.text.size * c.grammar.keyCount height :=
    Nat.mul_le_mul_right _ (T.position_le hE hposition)
  omega

end Trail

end LineContext

end Rubric
