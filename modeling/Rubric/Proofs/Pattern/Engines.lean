import Rubric.Pattern.Search
import Rubric.Proofs.Outcome

/-!
# Engines that read a pattern alike

If two engines read patterns alike, a search with these finds the same with both (`find_congr`,
`findAt_congr`, `findAny_congr`). So what is shown of searches with the engine of this library holds
of those with any engine that agrees with it on the patterns.
-/

namespace Rubric

/-- The two engines read the pattern alike, whichever of its anchors may match. -/
def Regex.Engine.Agrees (engine other : Regex.Engine) (p : Json) : Prop :=
  ∀ s a, p = .str s →
    other.compile (Pattern.anchored a s.toList) = engine.compile (Pattern.anchored a s.toList)

theorem Regex.Engine.Agrees.refl (engine : Regex.Engine) (p : Json) : engine.Agrees engine p :=
  fun _ _ _ => rfl

theorem Regex.Engine.Agrees.compile_eq {engine other : Regex.Engine} {pattern : List Char}
    (h : engine.Agrees other (.str (String.ofList pattern))) :
    other.compile pattern = engine.compile pattern := by
  have hcompile := h _ ⟨true, true⟩ rfl
  rwa [String.toList_ofList] at hcompile

namespace Pattern
variable {engine other : Regex.Engine} {p : Json} {patterns : List Json} {a : Anchoring}
  {text : Array Char} {position : Nat}

theorem ready_congr {b : Json} (h : engine.Agrees other p) (hb : barred a p = .ok b) :
    ready other b = ready engine b := by
  cases p with
  | str s =>
    cases hb
    simp only [ready, String.toList_ofList, h s a rfl]
  | _ =>
    simp only [barred] at hb
    split at hb
    · cases hb
      rfl
    · cases hb

theorem prepare_congr (h : engine.Agrees other p) : prepare other a p = prepare engine a p :=
  bind_congr_ok fun _ hb => ready_congr h hb

theorem prepareAll_congr (h : ∀ p ∈ patterns, engine.Agrees other p) :
    prepareAll other a patterns = prepareAll engine a patterns := by
  refine bind_congr_ok fun bs hbs => mapM_congr fun b hb => ?_
  obtain ⟨p, hp, hb⟩ := exists_of_mem_mapM hbs hb
  exact ready_congr (h p hp) hb

theorem find_congr (h : engine.Agrees other p) :
    find other a p text position = find engine a p text position := by
  rw [find, find, prepare_congr h]

theorem findAt_congr (h : engine.Agrees other p) :
    findAt other a p text position = findAt engine a p text position := by
  rw [findAt, findAt, prepare_congr h]

theorem findAny_congr (h : ∀ p ∈ patterns, engine.Agrees other p) :
    findAny other a patterns text position = findAny engine a patterns text position := by
  rw [findAny, findAny, prepareAll_congr h]

end Pattern

end Rubric
