import Mathlib.Data.List.Forall2
import Rubric.Pattern.Search
import Rubric.Proofs.Outcome
import Rubric.Proofs.Regex.Layout

/-!
# Searching with patterns that fit

A pattern fits an engine if it can be made ready on every line and its matches are laid out as they
should be. A search with patterns that fit always has an answer (`find_total`, `findAny_total`), and
with a sound engine all patterns of the plain syntax fit (`fits_of_isPlain`).
-/

namespace Rubric

namespace Regex.Matcher

/-- All matches lie where they were asked for. They consume something, if `strict`. -/
def Regular (strict : Bool) (matcher : Matcher) : Prop :=
  ∀ text origin position m, position ≤ text.size →
    matcher.attempt text origin position = some m →
    m.Laid text.size position ∧ (strict = true → position < m.stop)

/-- The match lies at or behind the position. -/
structure Found (strict : Bool) (size position : Nat) (m : Match) : Prop where
  position_le : position ≤ m.start
  laid : m.Laid size m.start
  lt : strict = true → m.start < m.stop

variable {matcher : Matcher} {matchers : List Matcher} {text : Array Char}
  {origin position tries index : Nat} {m : Match} {strict : Bool}

theorem tryAt_some (h : matcher.tryAt text origin position = some m) :
    matcher.attempt text origin position = some m := by
  unfold tryAt at h
  split at h
  · exact h
  · cases h

theorem searchFrom_some (h : matcher.searchFrom text origin position tries = some m) :
    ∃ p, position ≤ p ∧ p < position + tries ∧ matcher.attempt text origin p = some m := by
  induction tries generalizing position with
  | zero => cases h
  | succ tries ih =>
    unfold searchFrom at h
    split at h
    · next hfound =>
      cases h
      exact ⟨position, Nat.le_refl _, by omega, tryAt_some hfound⟩
    · obtain ⟨p, h1, h2, h3⟩ := ih h
      exact ⟨p, by omega, by omega, h3⟩

/-- A search finds a match at or behind the position where it begins. -/
theorem search_some (h : matcher.search text position = some m) :
    ∃ p, position ≤ p ∧ p ≤ text.size ∧ matcher.attempt text position p = some m := by
  obtain ⟨p, h1, h2, h3⟩ := searchFrom_some h
  exact ⟨p, h1, by omega, h3⟩

theorem firstOf_some {base : Nat}
    (h : firstOf text origin position base matchers = some (index, m)) :
    base ≤ index ∧ ∃ matcher, matchers[index - base]? = some matcher ∧
      matcher.attempt text origin position = some m := by
  induction matchers generalizing base with
  | nil => cases h
  | cons first rest ih =>
    unfold firstOf at h
    split at h
    · next hfound =>
      cases h
      refine ⟨Nat.le_refl _, first, ?_, tryAt_some hfound⟩
      rw [Nat.sub_self, List.getElem?_cons_zero]
    · obtain ⟨hle, matcher, hget, hm⟩ := ih h
      refine ⟨by omega, matcher, ?_, hm⟩
      rw [show index - base = index - (base + 1) + 1 by omega, List.getElem?_cons_succ]
      exact hget

theorem searchAnyFrom_some
    (h : searchAnyFrom matchers text origin position tries = some (index, m)) :
    ∃ p matcher, position ≤ p ∧ p < position + tries ∧ matchers[index]? = some matcher ∧
      matcher.attempt text origin p = some m := by
  induction tries generalizing position with
  | zero => cases h
  | succ tries ih =>
    unfold searchAnyFrom at h
    split at h
    · next hfound =>
      cases h
      obtain ⟨_, matcher, hget, hm⟩ := firstOf_some hfound
      exact ⟨position, matcher, Nat.le_refl _, by omega, hget, hm⟩
    · obtain ⟨p, matcher, h1, h2, h3⟩ := ih h
      exact ⟨p, matcher, by omega, by omega, h3⟩

theorem searchAny_some (h : searchAny matchers text position = some (index, m)) :
    ∃ p matcher, position ≤ p ∧ p ≤ text.size ∧ matchers[index]? = some matcher ∧
      matcher.attempt text position p = some m := by
  obtain ⟨p, matcher, h1, h2, h3⟩ := searchAnyFrom_some h
  exact ⟨p, matcher, h1, by omega, h3⟩

theorem Regular.found {p : Nat} (H : matcher.Regular strict) (h1 : position ≤ p)
    (h2 : p ≤ text.size) (h : matcher.attempt text origin p = some m) :
    Found strict text.size position m := by
  obtain ⟨hlaid, hlt⟩ := H text origin p m h2 h
  have heq := hlaid.start_eq
  subst heq
  exact ⟨h1, hlaid, hlt⟩

end Regex.Matcher

namespace Pattern
open Regex (Engine Matcher)

/-- The pattern can be made ready on every line, and its matches lie where they should. -/
def Fits (engine : Engine) (strict : Bool) (pattern : Json) : Prop :=
  ∀ a, ∃ matcher, prepare engine a pattern = .ok matcher ∧ matcher.Regular strict

/-- A search with the pattern can find the match. -/
def Finds (engine : Engine) (a : Anchoring) (pattern : Json) (text : Array Char) (position : Nat)
    (m : Regex.Match) : Prop :=
  ∃ matcher p, prepare engine a pattern = .ok matcher ∧ position ≤ p ∧ p ≤ text.size ∧
    matcher.attempt text position p = some m

/-- Whatever a search with the pattern finds ends behind the position where the search began. -/
def Consumes (engine : Engine) (pattern : Json) : Prop :=
  ∀ a text position m, Finds engine a pattern text position m → position < m.stop

variable {engine : Engine} {strict : Bool} {pattern : Json} {patterns : List Json}
  {text : Array Char} {position : Nat} {a : Anchoring} {m : Regex.Match}

/-! ## What searches find -/

theorem find_finds (h : find engine a pattern text position = .ok (some m)) :
    Finds engine a pattern text position m := by
  obtain ⟨matcher, hready, h⟩ := bind_eq_ok.mp h
  obtain ⟨p, hfound⟩ := Matcher.search_some (pure_eq_ok.mp h)
  exact ⟨matcher, p, hready, hfound⟩

theorem forall₂_prepare {matchers : List Matcher}
    (h : prepareAll engine a patterns = .ok matchers) :
    List.Forall₂ (fun pattern matcher => prepare engine a pattern = .ok matcher) patterns
      matchers := by
  obtain ⟨bs, hbs, hms⟩ := bind_eq_ok.mp h
  have hbarred := forall₂_of_mapM hbs
  have hready := forall₂_of_mapM hms
  clear h hbs hms
  induction hbarred generalizing matchers with
  | nil =>
    cases hready
    exact .nil
  | cons hb _ ih =>
    cases hready with
    | cons hm hready => exact .cons (bind_eq_ok.mpr ⟨_, hb, hm⟩) (ih hready)

theorem findAny_finds {index : Nat}
    (h : findAny engine a patterns text position = .ok (some (index, m))) :
    ∃ pattern, patterns[index]? = some pattern ∧ Finds engine a pattern text position m := by
  obtain ⟨matchers, hready, h⟩ := bind_eq_ok.mp h
  obtain ⟨p, matcher, h1, h2, hget, h3⟩ := Matcher.searchAny_some (pure_eq_ok.mp h)
  have hall := forall₂_prepare hready
  obtain ⟨hlt, rfl⟩ := List.getElem?_eq_some_iff.mp hget
  have hlt' : index < patterns.length := by rwa [hall.length_eq]
  exact ⟨_, List.getElem?_eq_getElem hlt', _, p, hall.get hlt' hlt, h1, h2, h3⟩

/-! ## Patterns that fit -/

theorem Fits.found (H : Fits engine strict pattern) (h : Finds engine a pattern text position m) :
    Matcher.Found strict text.size position m := by
  obtain ⟨matcher, p, hready, h1, h2, h3⟩ := h
  obtain ⟨matcher', hready', hregular⟩ := H a
  cases hready.symm.trans hready'
  exact hregular.found h1 h2 h3

theorem Fits.consumes (H : Fits engine true pattern) : Consumes engine pattern := by
  intro a text position m h
  have hm := H.found h
  exact Nat.lt_of_le_of_lt hm.position_le (hm.lt rfl)

theorem find_total (a : Anchoring) (text : Array Char) (position : Nat)
    (H : Fits engine strict pattern) :
    ∃ found, find engine a pattern text position = .ok found ∧
      ∀ m, found = some m → Finds engine a pattern text position m := by
  obtain ⟨matcher, hready, _⟩ := H a
  have h : find engine a pattern text position = .ok (matcher.search text position) :=
    bind_eq_ok.mpr ⟨matcher, hready, rfl⟩
  exact ⟨_, h, fun m hm => find_finds (hm ▸ h)⟩

theorem prepareAll_total (a : Anchoring) (H : ∀ pattern ∈ patterns, Fits engine strict pattern) :
    ∃ matchers, prepareAll engine a patterns = .ok matchers ∧
      List.Forall₂ (fun pattern matcher => prepare engine a pattern = .ok matcher) patterns
        matchers := by
  have hlist : ∃ bs matchers, patterns.mapM (barred a) = .ok bs ∧
      bs.mapM (ready engine) = .ok matchers := by
    induction patterns with
    | nil => exact ⟨[], [], rfl, rfl⟩
    | cons pattern rest ih =>
      obtain ⟨bs, ms, hbs, hms⟩ := ih fun p hp => H p (List.mem_cons_of_mem _ hp)
      obtain ⟨matcher, hready, _⟩ := H pattern (List.mem_cons_self ..) a
      obtain ⟨b, hb, hmatcher⟩ := bind_eq_ok.mp hready
      refine ⟨b :: bs, matcher :: ms, ?_, ?_⟩
      · simp [List.mapM_cons, hb, hbs, ok_bind, pure, Except.pure]
      · simp [List.mapM_cons, hmatcher, hms, ok_bind, pure, Except.pure]
  obtain ⟨bs, ms, hbs, hms⟩ := hlist
  have h : prepareAll engine a patterns = .ok ms := bind_eq_ok.mpr ⟨bs, hbs, hms⟩
  exact ⟨ms, h, forall₂_prepare h⟩

theorem findAny_total (a : Anchoring) (text : Array Char) (position : Nat)
    (H : ∀ pattern ∈ patterns, Fits engine strict pattern) :
    ∃ found, findAny engine a patterns text position = .ok found ∧
      ∀ index m, found = some (index, m) →
        ∃ pattern, patterns[index]? = some pattern ∧ Finds engine a pattern text position m := by
  obtain ⟨matchers, hready, _⟩ := prepareAll_total a H
  have h : findAny engine a patterns text position =
      .ok (Matcher.searchAny matchers text position) := bind_eq_ok.mpr ⟨matchers, hready, rfl⟩
  exact ⟨_, h, fun index m hm => findAny_finds (hm ▸ h)⟩

/-! ## Patterns of the plain syntax -/

/-- The pattern is of the plain syntax and has none of the anchors that may be barred. Its matches
consume something, if `strict`. -/
def isPlain (strict : Bool) (pattern : List Char) : Bool :=
  !hasPair '\\' 'A' pattern && !hasPair '\\' 'G' pattern &&
    match Regex.Expression.compile pattern with
    | .ok r => r.isPlain && (!strict || r.root.advances)
    | .error _ => false

theorem anchored_eq_self {s : List Char} (hA : hasPair '\\' 'A' s = false)
    (hG : hasPair '\\' 'G' s = false) : anchored a s = s := by
  have hno : (a.barred.any fun c => hasPair '\\' c s) = false := by
    unfold Anchoring.barred
    cases a.firstLine <;> cases a.here <;> simp [hA, hG]
  simp [anchored, mask, hno]

theorem prepare_eq_compile {s : String} (h : isPlain strict s.toList = true) :
    prepare engine a (.str s) = (engine.compile s.toList).mapError .regex := by
  simp only [isPlain, Bool.and_eq_true, Bool.not_eq_true'] at h
  obtain ⟨⟨hA, hG⟩, _⟩ := h
  simp [prepare, barred, ready, anchored_eq_self hA hG, ok_bind]

/-- What a search with a plain pattern finds is a match of its expression. -/
theorem Finds.matches {s : String} {r : Regex.Expression} (hE : engine.Sound)
    (h : isPlain strict s.toList = true) (hr : Regex.Expression.compile s.toList = .ok r)
    (H : Finds engine a (.str s) text position m) :
    r.isPlain = true ∧ ∃ p, p ≤ text.size ∧ r.Matches text position p m := by
  have hplain : r.isPlain = true := by
    simp only [isPlain, hr, Bool.and_eq_true] at h
    exact h.2.1
  obtain ⟨matcher, p, hready, _, hp, hm⟩ := H
  obtain ⟨matcher', hcompile, hmatches⟩ := hE s.toList r hr hplain
  rw [prepare_eq_compile h, hcompile] at hready
  cases hready
  exact ⟨hplain, p, hp, hmatches _ _ _ _ hm⟩

theorem fits_of_isPlain {s : String} (hE : engine.Sound) (h : isPlain strict s.toList = true) :
    Fits engine strict (.str s) := by
  intro a
  have hcompiled := h
  simp only [isPlain, Bool.and_eq_true] at h
  obtain ⟨_, hplain⟩ := h
  split at hplain
  · next r hr =>
    obtain ⟨hplain, hstrict⟩ := Bool.and_eq_true_iff.mp hplain
    obtain ⟨matcher, hcompile, hmatches⟩ := hE s.toList r hr hplain
    refine ⟨matcher, ?_, fun text origin position m hpos hm => ?_⟩
    · rw [prepare_eq_compile hcompiled, hcompile]
      rfl
    · have H := hmatches text origin position m hm
      refine ⟨H.laid hplain hpos, fun hs => H.lt_stop hplain ?_⟩
      simpa [hs] using hstrict
  · cases hplain

end Pattern

end Rubric
