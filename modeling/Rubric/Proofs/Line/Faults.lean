import Rubric.Line.Highlight
import Rubric.Proofs.Registry.Faults

/-!
# The faults of rules and patterns

Two faults are of the steps of a line themselves: a rule that stands where its kind cannot, and a
stack that grows for ever (`Fault.isOfSteps`). Whatever else fails on the way fails with another
one: writing out rules, making patterns ready and searching with them, and opening an entry are
plain (`Plain`).
-/

namespace Rubric

variable {α β : Type}

/-- The fault is one of the steps of a line themselves, not of the rules and patterns that they use.
-/
def Fault.isOfSteps : Fault → Bool
  | .guarded | .endless => true
  | _ => false

/-- The computation has a result, or fails with a fault that is not one of the steps. -/
def Plain (x : Outcome α) : Prop :=
  ∀ e, x = .error e → e.isOfSteps = false

theorem plain_ok {a : α} : Plain (.ok a) :=
  fun _ h => nomatch h

theorem plain_pure {a : α} : Plain (pure a) :=
  plain_ok

theorem plain_error {e : Fault} (h : e.isOfSteps = false) : Plain (.error e : Outcome α) := by
  rintro _ ⟨rfl⟩
  exact h

namespace Plain
variable {x : Outcome α} {f : α → Outcome β}

theorem bind (hx : Plain x) (hf : ∀ a, x = .ok a → Plain (f a)) : Plain (x >>= f) := by
  intro e h
  rcases bind_eq_error.mp h with h | ⟨a, ha, h⟩
  · exact hx e h
  · exact hf a ha e h

theorem ne_error {e : Fault} (hx : Plain x) (he : e.isOfSteps = true) : x ≠ .error e := by
  intro h
  rw [hx e h] at he
  cases he

/-- With a fault of the steps only what follows can fail. -/
theorem bind_error {e : Fault} (hx : Plain x) (he : e.isOfSteps = true)
    (h : (x >>= f) = .error e) : ∃ a, x = .ok a ∧ f a = .error e :=
  (bind_eq_error.mp h).resolve_left (hx.ne_error he)

end Plain

theorem mapM_plain {ι : Type} {f : ι → Outcome α} {items : List ι} (h : ∀ i ∈ items, Plain (f i)) :
    Plain (items.mapM f) := by
  induction items with
  | nil => exact plain_pure
  | cons i rest ih =>
    rw [List.mapM_cons]
    exact (h i (List.mem_cons_self ..)).bind fun _ _ =>
      (ih fun j hj => h j (List.mem_cons_of_mem _ hj)).bind fun _ _ => plain_pure

theorem Grammar.expand_plain (g : Grammar) (rules : List Rule) : Plain (g.expand rules) := by
  intro e h
  rcases expand_error h with rfl | ⟨m, rfl⟩ <;> rfl

namespace Pattern
variable {engine : Regex.Engine} {a : Anchoring} {pattern : Json} {patterns : List Json}
  {text : Array Char} {position : Nat}

theorem barred_plain (a : Anchoring) (pattern : Json) : Plain (barred a pattern) := by
  unfold barred
  split
  · exact plain_ok
  · split
    · exact plain_ok
    · exact plain_error rfl

theorem ready_plain (engine : Regex.Engine) (pattern : Json) : Plain (ready engine pattern) := by
  unfold ready
  split
  · next s =>
    cases engine.compile s.toList with
    | error e => exact plain_error rfl
    | ok matcher => exact plain_ok
  · exact plain_error rfl

theorem find_plain : Plain (find engine a pattern text position) :=
  ((barred_plain a pattern).bind fun _ _ => ready_plain engine _).bind fun _ _ => plain_pure

theorem findAt_plain : Plain (findAt engine a pattern text position) :=
  ((barred_plain a pattern).bind fun _ _ => ready_plain engine _).bind fun _ _ => plain_pure

theorem findAny_plain : Plain (findAny engine a patterns text position) :=
  ((mapM_plain fun _ _ => barred_plain a _).bind fun _ _ =>
    mapM_plain fun _ _ => ready_plain engine _).bind fun _ _ => plain_pure

theorem referenceIndex_plain (ds : List Char) : Plain (referenceIndex ds) := by
  unfold referenceIndex
  split
  · exact plain_error rfl
  · exact plain_ok

theorem expandFrom_plain (group : Nat → List Char) (lead : Lead) (pattern : List Char) :
    Plain (expandFrom group lead pattern) := by
  fun_induction expandFrom group lead pattern with
  | case1 | case4 => exact plain_ok
  | case2 _ ih | case5 _ _ ih | case9 _ _ _ _ ih => exact ih
  | case3 _ _ _ ih | case6 _ _ _ _ _ ih | case7 _ _ _ _ _ ih =>
    exact ih.bind fun _ _ => plain_pure
  | case8 => exact (referenceIndex_plain _).bind fun _ _ => plain_pure
  | case10 ds c rest _ ihSlashes ihPlain =>
    refine (referenceIndex_plain _).bind fun _ _ => ?_
    simp only
    split
    · exact ihSlashes.bind fun _ _ => plain_pure
    · exact ihPlain.bind fun _ _ => plain_pure

end Pattern

namespace LineContext
variable {c : LineContext} {s : State} {position : Nat} {anchor : Option Nat}

theorem chooseCandidate_plain {candidates : List Candidate} :
    Plain (c.chooseCandidate position anchor candidates) := by
  refine Plain.bind ?_ fun found _ => ?_
  · unfold findCandidate
    split
    · exact plain_ok
    · exact Pattern.findAny_plain
  · split <;> exact plain_pure

theorem findEnding_plain {entry : Entry} : Plain (c.findEnding entry position anchor) := by
  unfold findEnding
  split
  · exact Pattern.find_plain
  · exact plain_error rfl

theorem askBlock_plain {entry : Entry} : Plain (c.askBlock entry position anchor) := by
  unfold askBlock
  split
  · exact Pattern.findAt_plain
  · exact plain_error rfl

theorem opened_plain {m : Regex.Match} {rule : CompiledRule} {names : List String}
    {ending : Json} : Plain (c.opened s m rule names ending) := by
  unfold opened
  split
  · exact (Pattern.expandFrom_plain _ _ _).bind fun _ _ => plain_pure
  · exact plain_error rfl

end LineContext

end Rubric
