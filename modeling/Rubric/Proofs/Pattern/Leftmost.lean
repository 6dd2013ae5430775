import Rubric.Proofs.Pattern.Search
import Rubric.Proofs.Regex.Firsts
import Rubric.Proofs.Regex.Reads

/-!
# What a search finds

The engine of this library finds the leftmost match. Where a text goes on with characters in front
of which none of the patterns begins, and then comes to one in front of which a pattern matches,
that match is found (`find_eq_some`, `findAny_eq_some`); where it goes on with such characters to
its end, nothing is (`find_eq_none`, `findAny_eq_none`).
-/

namespace Rubric

/-! ## Leftmost matches -/

namespace Regex.Matcher
variable {matcher : Matcher} {matchers pre post : List Matcher} {text : Array Char}
  {origin position k tries base : Nat} {m : Match}

/-- Positions without a match are passed over. -/
theorem searchFrom_skip (hmiss : ∀ i < k, matcher.tryAt text origin (position + i) = none)
    (hk : k ≤ tries) : matcher.searchFrom text origin position tries =
      matcher.searchFrom text origin (position + k) (tries - k) := by
  induction k generalizing position tries with
  | zero => rfl
  | succ k ih =>
    obtain ⟨tries, rfl⟩ := Nat.exists_eq_succ_of_ne_zero (Nat.ne_of_gt (Nat.zero_lt_of_lt hk))
    have hfirst := hmiss 0 (Nat.succ_pos k)
    rw [Nat.add_zero] at hfirst
    rw [searchFrom, hfirst, Nat.succ_sub_succ, Nat.add_comm k, ← Nat.add_assoc]
    refine ih (fun i hi => ?_) (Nat.le_of_succ_le_succ hk)
    rw [Nat.add_assoc, Nat.add_comm 1]
    exact hmiss (i + 1) (Nat.succ_lt_succ hi)

theorem search_eq_some (hmiss : ∀ i < k, matcher.tryAt text position (position + i) = none)
    (hhit : matcher.tryAt text position (position + k) = some m) (hk : position + k ≤ text.size) :
    matcher.search text position = some m := by
  rw [search, searchFrom_skip hmiss (by omega),
    show text.size + 1 - position - k = text.size - position - k + 1 by omega, searchFrom, hhit]

theorem search_eq_none (hmiss : ∀ i, matcher.tryAt text position (position + i) = none) :
    matcher.search text position = none := by
  rw [search, searchFrom_skip (fun i _ => hmiss i) (Nat.le_refl _), Nat.sub_self]
  rfl

theorem search_miss (hmiss : ∀ i < k, matcher.tryAt text position (position + i) = none)
    (hk : position + k ≤ text.size) (h : matcher.search text position = some m) :
    ∃ p, position + k ≤ p ∧ p ≤ text.size ∧ matcher.attempt text position p = some m := by
  rw [search, searchFrom_skip hmiss (by omega)] at h
  obtain ⟨p, h1, h2, h3⟩ := searchFrom_some h
  exact ⟨p, h1, by omega, h3⟩

theorem firstOf_eq_none (hmiss : ∀ m ∈ matchers, m.tryAt text origin position = none) :
    firstOf text origin position base matchers = none := by
  induction matchers generalizing base with
  | nil => rfl
  | cons first rest ih =>
    rw [firstOf, hmiss first (List.mem_cons_self ..)]
    exact ih fun m hm => hmiss m (List.mem_cons_of_mem _ hm)

theorem firstOf_eq_some (hpre : ∀ m ∈ pre, m.tryAt text origin position = none)
    (hhit : matcher.tryAt text origin position = some m) :
    firstOf text origin position base (pre ++ matcher :: post) = some (base + pre.length, m) := by
  induction pre generalizing base with
  | nil =>
    rw [List.nil_append, firstOf, hhit]
    rfl
  | cons first rest ih =>
    rw [List.cons_append, firstOf, hpre first (List.mem_cons_self ..)]
    rw [List.length_cons, Nat.add_comm rest.length, ← Nat.add_assoc]
    exact ih fun m hm => hpre m (List.mem_cons_of_mem _ hm)

/-- Positions without a match of any are passed over. -/
theorem searchAnyFrom_skip (hmiss : ∀ i < k, firstOf text origin (position + i) 0 matchers = none)
    (hk : k ≤ tries) : searchAnyFrom matchers text origin position tries =
      searchAnyFrom matchers text origin (position + k) (tries - k) := by
  induction k generalizing position tries with
  | zero => rfl
  | succ k ih =>
    obtain ⟨tries, rfl⟩ := Nat.exists_eq_succ_of_ne_zero (Nat.ne_of_gt (Nat.zero_lt_of_lt hk))
    have hfirst := hmiss 0 (Nat.succ_pos k)
    rw [Nat.add_zero] at hfirst
    rw [searchAnyFrom, hfirst, Nat.succ_sub_succ, Nat.add_comm k, ← Nat.add_assoc]
    refine ih (fun i hi => ?_) (Nat.le_of_succ_le_succ hk)
    rw [Nat.add_assoc, Nat.add_comm 1]
    exact hmiss (i + 1) (Nat.succ_lt_succ hi)

theorem searchAny_eq_some {index : Nat}
    (hmiss : ∀ i < k, firstOf text position (position + i) 0 matchers = none)
    (hhit : firstOf text position (position + k) 0 matchers = some (index, m))
    (hk : position + k ≤ text.size) : searchAny matchers text position = some (index, m) := by
  rw [searchAny, searchAnyFrom_skip hmiss (by omega),
    show text.size + 1 - position - k = text.size - position - k + 1 by omega, searchAnyFrom, hhit]

theorem searchAny_eq_none (hmiss : ∀ i, firstOf text position (position + i) 0 matchers = none) :
    searchAny matchers text position = none := by
  rw [searchAny, searchAnyFrom_skip (fun i _ => hmiss i) (Nat.le_refl _), Nat.sub_self]
  rfl

theorem searchAny_miss {index : Nat}
    (hmiss : ∀ i < k, firstOf text position (position + i) 0 matchers = none)
    (hk : position + k ≤ text.size) (h : searchAny matchers text position = some (index, m)) :
    ∃ p matcher, position + k ≤ p ∧ p ≤ text.size ∧ matchers[index]? = some matcher ∧
      matcher.attempt text position p = some m := by
  rw [searchAny, searchAnyFrom_skip hmiss (by omega)] at h
  obtain ⟨p, matcher, h1, h2, h3, h4⟩ := searchAnyFrom_some h
  exact ⟨p, matcher, h1, by omega, h3, h4⟩

end Regex.Matcher

/-! ## Patterns and what they begin with -/

namespace Pattern
open Regex (CharSet Engine Expression Match Matcher)

/-- The pattern is of the plain syntax, and its matches begin with a character of the set. -/
def Starts (pattern : Json) (set : CharSet) : Prop :=
  ∃ s, pattern = .str s ∧ isPlain false s.toList = true ∧
    ∃ r, Expression.compile s.toList = .ok r ∧ r.root.firsts = some (set, false)

variable {pattern : Json} {set : CharSet} {a : Anchoring} {text : Array Char}
  {origin position : Nat} {w rest : List Char} {c : Char} {m : Match}

theorem Starts.fits (H : Starts pattern set) : Fits .standard false pattern := by
  obtain ⟨s, rfl, hplain, _⟩ := H
  exact fits_of_isPlain Engine.standard_sound hplain

/-- A matcher of the pattern finds nothing where another character stands, or none. -/
theorem Starts.tryAt_eq_none {matcher : Matcher} (H : Starts pattern set)
    (hready : prepare .standard a pattern = .ok matcher)
    (h : ∀ c, text[position]? = some c → set.contains c = false) :
    matcher.tryAt text origin position = none := by
  obtain ⟨s, rfl, hplain, r, hr, hfirsts⟩ := H
  have hplain' : r.isPlain = true := by
    simp only [isPlain, hr, Bool.and_eq_true] at hplain
    exact hplain.2.1
  obtain ⟨matcher', hcompile, hmatches⟩ := Engine.standard_sound s.toList r hr hplain'
  rw [prepare_eq_compile hplain, hcompile] at hready
  cases hready
  rw [Option.eq_none_iff_forall_not_mem]
  intro m hm
  obtain ⟨c, hc, hset⟩ := (hmatches _ _ _ _ (Matcher.tryAt_some hm)).firsts hfirsts
  rw [h c hc] at hset
  cases hset

theorem getElem?_of_drop (hp : text.toList.drop position = w ++ rest) {i : Nat}
    (hi : i < w.length) : text[position + i]? = some w[i] := by
  have hget : (text.toList.drop position)[i]? = some w[i] := by
    rw [hp, List.getElem?_append_left hi, List.getElem?_eq_getElem hi]
  rwa [List.getElem?_drop, Array.getElem?_toList] at hget

theorem getElem?_of_drop_cons (hp : text.toList.drop position = w ++ c :: rest) :
    text[position + w.length]? = some c := by
  rw [← Array.getElem?_toList, ← List.getElem?_drop, hp, List.getElem?_append_right (Nat.le_refl _),
    Nat.sub_self]
  rfl

theorem le_size_of_drop (hp : text.toList.drop position = w ++ c :: rest) :
    position + w.length < text.size := by
  have hlen := congrArg List.length hp
  simp only [List.length_drop, Array.length_toList, List.length_append, List.length_cons] at hlen
  omega

/-- In front of the characters none of the patterns begins. -/
def Avoid (sets : List CharSet) (w : List Char) : Prop :=
  ∀ c ∈ w, ∀ set ∈ sets, set.contains c = false

instance (sets : List CharSet) (w : List Char) : Decidable (Avoid sets w) :=
  List.decidableBAll _ w

theorem Starts.misses {matcher : Matcher} (H : Starts pattern set)
    (hready : prepare .standard a pattern = .ok matcher) (hw : Avoid [set] w)
    (hp : text.toList.drop position = w ++ rest) :
    ∀ i < w.length, matcher.tryAt text position (position + i) = none := by
  intro i hi
  apply H.tryAt_eq_none hready
  intro c hc
  rw [getElem?_of_drop hp hi] at hc
  cases hc
  exact hw _ (List.getElem_mem hi) set (List.mem_singleton_self _)

theorem find_eq_some {matcher : Matcher} (H : Starts pattern set)
    (hready : prepare .standard a pattern = .ok matcher) (hw : Avoid [set] w)
    (hp : text.toList.drop position = w ++ c :: rest)
    (hhit : matcher.tryAt text position (position + w.length) = some m) :
    find .standard a pattern text position = .ok (some m) :=
  bind_eq_ok.mpr ⟨matcher, hready, congrArg _ (Matcher.search_eq_some (H.misses hready hw hp) hhit
    (Nat.le_of_lt (le_size_of_drop hp)))⟩

theorem find_eq_none (H : Starts pattern set) (hw : Avoid [set] w)
    (hp : text.toList.drop position = w) :
    find .standard a pattern text position = .ok none := by
  obtain ⟨matcher, hready, _⟩ := H.fits a
  refine bind_eq_ok.mpr ⟨matcher, hready, congrArg _ (Matcher.search_eq_none fun i => ?_)⟩
  rcases Nat.lt_or_ge i w.length with hi | hi
  · exact H.misses hready hw (by rw [hp, List.append_nil]) i hi
  · apply H.tryAt_eq_none hready
    intro c hc
    have hget : (text.toList.drop position)[i]? = some c := by
      rwa [List.getElem?_drop, Array.getElem?_toList]
    rw [hp, List.getElem?_eq_none hi] at hget
    cases hget

theorem add_le_size_of_drop (hpos : position ≤ text.size)
    (hp : text.toList.drop position = w ++ rest) : position + w.length ≤ text.size := by
  have hlen := congrArg List.length hp
  simp only [List.length_drop, Array.length_toList, List.length_append] at hlen
  omega

/-- What is found lies behind characters in front of which the pattern does not begin. -/
theorem find_behind (H : Starts pattern set) (hw : Avoid [set] w) (hpos : position ≤ text.size)
    (hp : text.toList.drop position = w ++ rest) :
    ∃ found, find .standard a pattern text position = .ok found ∧
      ∀ m, found = some m → position + w.length ≤ m.start := by
  obtain ⟨matcher, hready, hregular⟩ := H.fits a
  refine ⟨_, bind_eq_ok.mpr ⟨matcher, hready, rfl⟩, fun m hm => ?_⟩
  obtain ⟨p, h1, h2, h3⟩ := Matcher.search_miss (H.misses hready hw hp)
    (add_le_size_of_drop hpos hp) hm
  rw [((hregular text position p m h2 h3).1).start_eq]
  exact h1

/-! ## Several patterns -/

/-- The matcher is the pattern, made ready. -/
def Ready (a : Anchoring) (pattern : Json) (matcher : Matcher) : Prop :=
  prepare .standard a pattern = .ok matcher

variable {patterns pre post : List Json} {sets setsPre setsPost : List CharSet}
  {matchers : List Matcher}

theorem Starts.tryAny_eq_none (H : List.Forall₂ Starts patterns sets)
    (hready : List.Forall₂ (Ready a) patterns matchers)
    (h : ∀ c, text[position]? = some c → ∀ set ∈ sets, set.contains c = false) :
    ∀ matcher ∈ matchers, matcher.tryAt text origin position = none := by
  induction H generalizing matchers with
  | nil =>
    cases hready
    exact fun _ h => nomatch h
  | cons hstarts _ ih =>
    cases hready with
    | cons hfirst hrest =>
      intro matcher hmem
      rcases List.mem_cons.mp hmem with rfl | hmem
      · exact hstarts.tryAt_eq_none hfirst fun c hc => h c hc _ (List.mem_cons_self ..)
      · exact ih hrest (fun c hc set hs => h c hc set (List.mem_cons_of_mem _ hs)) matcher hmem

theorem Starts.missAny (H : List.Forall₂ Starts patterns sets)
    (hready : List.Forall₂ (Ready a) patterns matchers) (hw : Avoid sets w)
    (hp : text.toList.drop position = w ++ rest) :
    ∀ i < w.length, Matcher.firstOf text position (position + i) 0 matchers = none := by
  intro i hi
  refine Matcher.firstOf_eq_none (Starts.tryAny_eq_none H hready fun c hc => ?_)
  rw [getElem?_of_drop hp hi] at hc
  cases hc
  exact hw _ (List.getElem_mem hi)

theorem Starts.readyAny (a : Anchoring) (H : List.Forall₂ Starts patterns sets) :
    ∃ matchers, prepareAll .standard a patterns = .ok matchers ∧
      List.Forall₂ (Ready a) patterns matchers := by
  have hfits : ∀ pattern ∈ patterns, Fits .standard false pattern := fun pattern hmem => by
    obtain ⟨i, hi, rfl⟩ := List.getElem_of_mem hmem
    exact (H.get hi (by rw [← H.length_eq]; exact hi)).fits
  exact prepareAll_total a hfits

/-- Of the patterns that match in front of the character the first is found. -/
theorem findAny_eq_some (Hpre : List.Forall₂ Starts pre setsPre) (H : Starts pattern set)
    (Hpost : List.Forall₂ Starts post setsPost) (hw : Avoid (setsPre ++ set :: setsPost) w)
    (hc : Avoid setsPre [c]) (hp : text.toList.drop position = w ++ c :: rest)
    (hhit : ∀ matcher, Ready a pattern matcher →
      matcher.tryAt text position (position + w.length) = some m) :
    findAny .standard a (pre ++ pattern :: post) text position = .ok (some (pre.length, m)) := by
  have Hall : List.Forall₂ Starts (pre ++ pattern :: post) (setsPre ++ set :: setsPost) :=
    List.rel_append Hpre (.cons H Hpost)
  obtain ⟨matchers, hmatchers, hall⟩ := Starts.readyAny a Hall
  have hpre := List.forall₂_take pre.length hall
  have hdrop := List.forall₂_drop pre.length hall
  rw [List.take_left] at hpre
  rw [List.drop_left] at hdrop
  refine bind_eq_ok.mpr ⟨matchers, hmatchers, congrArg _ ?_⟩
  refine Matcher.searchAny_eq_some (Starts.missAny Hall hall hw hp) ?_
    (Nat.le_of_lt (le_size_of_drop hp))
  rw [← List.take_append_drop pre.length matchers]
  generalize matchers.take pre.length = front at hpre ⊢
  generalize matchers.drop pre.length = back at hdrop ⊢
  cases hdrop with
  | @cons _ matcher _ rest hready _ =>
    have hmiss : ∀ m ∈ front, m.tryAt text position (position + w.length) = none := by
      apply Starts.tryAny_eq_none Hpre hpre
      intro d hd
      cases (getElem?_of_drop_cons hp).symm.trans hd
      exact hc c (List.mem_singleton_self c)
    rw [Matcher.firstOf_eq_some hmiss (hhit matcher hready), Nat.zero_add, hpre.length_eq]

/-- None of the patterns is found in what is left of the line. -/
theorem findAny_eq_none (H : List.Forall₂ Starts patterns sets) (hw : Avoid sets w)
    (hp : text.toList.drop position = w) :
    findAny .standard a patterns text position = .ok none := by
  obtain ⟨matchers, hmatchers, hall⟩ := Starts.readyAny a H
  refine bind_eq_ok.mpr ⟨matchers, hmatchers, congrArg _ (Matcher.searchAny_eq_none fun i => ?_)⟩
  refine Matcher.firstOf_eq_none (Starts.tryAny_eq_none H hall fun c hc => ?_)
  have hget : w[i]? = some c := by
    rw [← hp, List.getElem?_drop, Array.getElem?_toList]
    exact hc
  exact hw c (List.mem_of_getElem? hget)

/-- What is found of the patterns lies behind characters in front of which none begins. -/
theorem findAny_behind (H : List.Forall₂ Starts patterns sets) (hw : Avoid sets w)
    (hpos : position ≤ text.size) (hp : text.toList.drop position = w ++ rest) :
    ∃ found, findAny .standard a patterns text position = .ok found ∧
      ∀ index m, found = some (index, m) → index < patterns.length ∧
        position + w.length ≤ m.start := by
  obtain ⟨matchers, hmatchers, hall⟩ := Starts.readyAny a H
  refine ⟨_, bind_eq_ok.mpr ⟨matchers, hmatchers, rfl⟩, fun index m hm => ?_⟩
  obtain ⟨p, matcher, h1, h2, hget, h3⟩ := Matcher.searchAny_miss
    (Starts.missAny H hall hw hp) (add_le_size_of_drop hpos hp) hm
  obtain ⟨hlt, hmatcher⟩ := List.getElem?_eq_some_iff.mp hget
  have hlt' : index < patterns.length := by rw [hall.length_eq]; exact hlt
  have hlt'' : index < sets.length := by rw [← H.length_eq]; exact hlt'
  obtain ⟨matcher', hready', hregular⟩ := (H.get hlt' hlt'').fits a
  have hready : Ready a patterns[index] matchers[index] := hall.get hlt' hlt
  cases hready.symm.trans hready'
  rw [hmatcher] at hregular
  rw [((hregular text position p m h2 h3).1).start_eq]
  exact ⟨hlt', h1⟩

end Pattern

end Rubric
