import Mathlib.Data.List.Infix
import Mathlib.Data.List.NodupEquivFin
import Mathlib.Logic.Relation
import Rubric.Theme.Selector

/-!
# What a selector matches

Each part of a selector takes the first scope that it begins, and no scope is looked at twice. That
finds a place for each part whenever there are such places at all (`matchesStack_iff_places`): no
part helps a later one by passing over a scope that it could take.
-/

namespace Rubric

/-- The second stack has one more scope than the first, somewhere, or one of its scopes has more
segments at its end. -/
inductive Deepens : List Segments → List Segments → Prop
  | scope (outer inner : List Segments) (scope : Segments) :
    Deepens (outer ++ inner) (outer ++ scope :: inner)
  | segments (outer inner : List Segments) (scope more : Segments) :
    Deepens (outer ++ scope :: inner) (outer ++ (scope ++ more) :: inner)

namespace Selector

/-- The parts begin scopes of the stack, in their order. -/
abbrev FitsIn (selector : Selector) (stack : List Segments) : Prop :=
  List.SublistForall₂ (· <+: ·) selector stack

theorem FitsIn.refl (stack : List Segments) : FitsIn stack stack :=
  (List.Sublist.refl stack).sublistForall₂

theorem FitsIn.trans {selector : Selector} {stack deeper : List Segments}
    (h : selector.FitsIn stack) (hdeeper : FitsIn stack deeper) : selector.FitsIn deeper :=
  IsTrans.trans selector stack deeper h hdeeper

theorem FitsIn.tail {part : Segments} {selector : Selector} {stack : List Segments}
    (h : FitsIn (part :: selector) stack) : selector.FitsIn stack :=
  FitsIn.trans (List.tail_sublistForall₂_self (part :: selector)) h

theorem partMatches_iff {part scope : Segments} : partMatches part scope = true ↔ part <+: scope :=
  List.isPrefixOf_iff_prefix

variable {selector : Selector} {stack : List Segments}

/-- The first choice of each part leaves room for the others if any choice does. -/
theorem matchesStack_iff_fitsIn : selector.matchesStack stack = true ↔ selector.FitsIn stack := by
  induction stack generalizing selector with
  | nil =>
    cases selector with
    | nil => exact iff_of_true rfl .nil
    | cons part parts => exact iff_of_false Bool.false_ne_true fun h => nomatch h
  | cons scope stack ih =>
    cases selector with
    | nil => exact iff_of_true rfl .nil
    | cons part parts =>
      rw [matchesStack]
      split
      · next hpart =>
        rw [ih]
        refine ⟨.cons (partMatches_iff.mp hpart), fun h => ?_⟩
        cases h with
        | cons _ h => exact h
        -- the part was to stand deeper, and can stand here as well
        | cons_right h => exact FitsIn.tail h
      · next hpart =>
        rw [ih]
        refine ⟨.cons_right, fun h => ?_⟩
        cases h with
        | cons hprefix _ => exact absurd (partMatches_iff.mpr hprefix) hpart
        | cons_right h => exact h

/-- A selector fits in a stack if there are places for its parts, each deeper than the one before.
-/
theorem fitsIn_iff_places :
    selector.FitsIn stack ↔
      ∃ place : Fin selector.length → Fin stack.length,
        StrictMono place ∧ ∀ i, selector.get i <+: stack.get (place i) := by
  rw [FitsIn, List.sublistForall₂_iff]
  constructor
  · rintro ⟨scopes, hscopes, hsub⟩
    obtain ⟨hlength, hparts⟩ := List.forall₂_iff_get.mp hscopes
    obtain ⟨f, hf⟩ := List.sublist_iff_exists_fin_orderEmbedding_get_eq.mp hsub
    refine ⟨fun i => f (i.cast hlength), fun i j hij => f.strictMono hij, fun i => ?_⟩
    rw [← hf]
    exact hparts i i.isLt (hlength ▸ i.isLt)
  · rintro ⟨place, hmono, hparts⟩
    refine ⟨List.ofFn fun i => stack.get (place i), ?_, ?_⟩
    · refine List.forall₂_iff_get.mpr ⟨(List.length_ofFn).symm, fun i hi hi' => ?_⟩
      rw [List.get_ofFn]
      exact hparts ⟨i, hi⟩
    · have hlength : (List.ofFn fun i => stack.get (place i)).length = selector.length :=
        List.length_ofFn
      refine List.sublist_iff_exists_fin_orderEmbedding_get_eq.mpr
        ⟨OrderEmbedding.ofStrictMono (fun i => place (i.cast hlength)) fun i j hij => hmono hij,
          fun i => ?_⟩
      rw [List.get_ofFn]
      rfl

end Selector

open Selector in
/-- A stack fits in each one that is deeper. -/
theorem Deepens.fitsIn {stack deeper : List Segments} (h : Deepens stack deeper) :
    FitsIn stack deeper := by
  cases h with
  | scope outer inner scope =>
    exact ((List.sublist_cons_self scope inner).append_left outer).sublistForall₂
  | segments outer inner scope more =>
    have hinner : FitsIn (scope :: inner) ((scope ++ more) :: inner) :=
      .cons (List.prefix_append scope more) (FitsIn.refl inner)
    induction outer with
    | nil => exact hinner
    | cons first outer ih => exact .cons (List.prefix_refl first) ih

namespace Selector

/-- **Greedy matching is complete.** A selector matches a stack just if its parts have places in it,
each deeper than the one before, at scopes that they begin. Further scopes and further segments do
not take that away. -/
theorem matchesStack_iff_places (selector : Selector) (stack : List Segments) :
    (selector.matchesStack stack = true ↔
      ∃ place : Fin selector.length → Fin stack.length,
        StrictMono place ∧ ∀ i, selector.get i <+: stack.get (place i)) ∧
      ∀ deeper, Relation.ReflTransGen Deepens stack deeper →
        selector.matchesStack stack = true → selector.matchesStack deeper = true := by
  refine ⟨matchesStack_iff_fitsIn.trans fitsIn_iff_places, fun deeper hdeeper h => ?_⟩
  induction hdeeper with
  | refl => exact h
  | tail _ hstep ih =>
    rw [matchesStack_iff_fitsIn] at ih ⊢
    exact ih.trans hstep.fitsIn

/-- The second part begins the scope that the first part takes as well, and has to go deeper. -/
theorem matchesStack_iff_places_nested :
    ∃ place : Fin 2 → Fin 3, StrictMono place ∧
      (∀ i, ([["meta"], ["meta"]] : Selector).get i <+:
        [["meta", "block"], ["source"], ["meta", "line"]].get (place i)) ∧
      matchesStack [["meta"], ["meta"]]
        [["text"], ["meta", "block"], ["source"], ["meta", "line", "c"]] = true := by
  obtain ⟨hplaces, hdeeper⟩ := matchesStack_iff_places [["meta"], ["meta"]]
    [["meta", "block"], ["source"], ["meta", "line"]]
  obtain ⟨place, hmono, hparts⟩ := hplaces.mp rfl
  refine ⟨place, hmono, hparts, hdeeper _ ?_ rfl⟩
  exact (Relation.ReflTransGen.single (.scope [] _ ["text"])).tail
    (.segments [["text"], ["meta", "block"], ["source"]] [] ["meta", "line"] ["c"])

end Selector

end Rubric
