import Rubric.Proofs.Line.Course
import Rubric.Proofs.Pattern.Leftmost

/-!
# What a step chooses

With the engine of this library, what comes next in a line decides on the step: a candidate
(`choose_candidate`), the end of the innermost rule (`choose_closing_of`), or none
(`choose_none`). In front of what comes next there may stand characters with which none of the
patterns begins. Behind such characters a candidate comes before the end of the rule where both
begin at one place.
-/

namespace Rubric

open Pattern (Avoid Starts)
open Regex (CharSet Engine Match)

/-- The patterns of the candidates begin with characters of these sets. -/
def Begin (candidates : List Candidate) (sets : List CharSet) : Prop :=
  List.Forall₂ Starts (candidates.map (·.1)) sets

/-- What is looked for under the entry: candidates, and an end that begins with a character of the
set, if it is an entry that is closed. -/
inductive Entry.Looks (e : Entry) (candidates : List Candidate) : Option CharSet → Prop
  | root {name : Json} : e.rule = .root name candidates → Looks e candidates none
  | span {rule : Rule} {closing : Json} {pattern : List Char} {set : CharSet} :
    e.rule = .span rule closing candidates → e.ending = some pattern →
    Starts (.str (String.ofList pattern)) set → Looks e candidates (some set)

namespace LineContext
variable {c : LineContext} {s : State} {position : Nat} {anchor : Option Nat}
  {pre post candidates : List Candidate} {pattern : Json} {rule : Rule} {set : CharSet}
  {ending : Option CharSet} {sets setsPre setsPost : List CharSet} {w rest : List Char} {x : Char}
  {m : Match}

theorem chooseCandidate_eq_some (anchor : Option Nat) (rule : Rule) (hE : c.engine = .standard)
    (Hpre : Begin pre setsPre)
    (H : Starts pattern set) (Hpost : Begin post setsPost)
    (hw : Avoid (setsPre ++ set :: setsPost) w) (hx : Avoid setsPre [x])
    (hp : c.text.toList.drop position = w ++ x :: rest)
    (hhit : ∀ a matcher, Pattern.Ready a pattern matcher →
      matcher.tryAt c.text position (position + w.length) = some m) :
    c.chooseCandidate position anchor (pre ++ (pattern, rule) :: post) =
      .ok (some (.candidate rule m)) := by
  have hfind : c.findCandidate position anchor (pre ++ (pattern, rule) :: post) =
      .ok (some (pre.length, m)) := by
    have hempty : (pre ++ (pattern, rule) :: post).isEmpty = false := by simp
    rw [findCandidate, hempty, hE, List.map_append, List.map_cons, if_neg Bool.false_ne_true,
      Pattern.findAny_eq_some Hpre H Hpost hw hx hp (hhit _), List.length_map]
  rw [chooseCandidate, hfind, ok_bind]
  simp [pure, Except.pure]

theorem chooseCandidate_eq_none (anchor : Option Nat) (hE : c.engine = .standard)
    (H : Begin candidates sets)
    (hw : Avoid sets w) (hp : c.text.toList.drop position = w) :
    c.chooseCandidate position anchor candidates = .ok none := by
  have hfind : c.findCandidate position anchor candidates = .ok none := by
    rw [findCandidate]
    split
    · rfl
    · rw [hE]
      exact Pattern.findAny_eq_none H hw hp
  rw [chooseCandidate, hfind]
  rfl

theorem chooseCandidate_behind (anchor : Option Nat) (hE : c.engine = .standard)
    (H : Begin candidates sets)
    (hw : Avoid sets w) (hpos : position ≤ c.text.size)
    (hp : c.text.toList.drop position = w ++ rest) :
    ∃ found, c.chooseCandidate position anchor candidates = .ok found ∧
      ∀ choice, found = some choice → position + w.length ≤ choice.found.start := by
  cases hempty : candidates.isEmpty with
  | true =>
    refine ⟨none, ?_, fun _ h => nomatch h⟩
    rw [chooseCandidate, findCandidate, hempty]
    rfl
  | false =>
    obtain ⟨found, hfind, hbehind⟩ :=
      Pattern.findAny_behind (a := c.anchoring position anchor) H hw hpos hp
    have hcandidate : c.findCandidate position anchor candidates = .ok found := by
      rw [findCandidate, hempty, if_neg Bool.false_ne_true, hE, hfind]
    rw [chooseCandidate, hcandidate, ok_bind]
    cases found with
    | none => exact ⟨none, rfl, fun _ h => nomatch h⟩
    | some found =>
      obtain ⟨hlt, hle⟩ := hbehind found.1 found.2 rfl
      rw [List.length_map] at hlt
      refine ⟨_, rfl, fun choice h => ?_⟩
      rw [List.getElem?_eq_getElem hlt] at h
      cases h
      exact hle

/-! ## Steps -/

theorem choose_root {name : Json} (hrule : s.current.rule = .root name candidates) :
    c.choose s position anchor = c.chooseCandidate position anchor candidates := by
  rw [choose, hrule]

theorem choose_span {closing : Json} {found : Option Match}
    (hrule : s.current.rule = .span rule closing candidates)
    (hfind : c.findEnding s.current position anchor = .ok found) :
    c.choose s position anchor =
      match found with
      | none => c.chooseCandidate position anchor candidates
      | some end? =>
        if end?.start = position then .ok (some (.closing rule end?))
        else do
          match ← c.chooseCandidate position anchor candidates with
          | none => return some (.closing rule end?)
          | some choice =>
            if end?.start < choice.found.start then return some (.closing rule end?)
            else return some choice := by
  rw [choose, hrule]
  simp only [hfind, ok_bind]
  cases found <;> rfl

theorem findEnding_eq {pattern : List Char} (h : s.current.ending = some pattern) :
    c.findEnding s.current position anchor =
      Pattern.find c.engine (c.anchoring position anchor) (.str (String.ofList pattern)) c.text
        position := by
  rw [findEnding, h]

/-- The next step is one for a candidate, if what comes next begins with it, and does not end the
innermost rule as well, unless other characters come first. -/
theorem choose_candidate (hE : c.engine = .standard)
    (hlooks : s.current.Looks (pre ++ (pattern, rule) :: post) ending)
    (Hpre : Begin pre setsPre) (H : Starts pattern set) (Hpost : Begin post setsPost)
    (hw : Avoid (ending.toList ++ (setsPre ++ set :: setsPost)) w) (hx : Avoid setsPre [x])
    (hending : Avoid ending.toList [x] ∨ w ≠ []) (hpos : position ≤ c.text.size)
    (hp : c.text.toList.drop position = w ++ x :: rest)
    (hhit : ∀ a matcher, Pattern.Ready a pattern matcher →
      matcher.tryAt c.text position (position + w.length) = some m)
    (hm : m.start = position + w.length) :
    c.choose s position anchor = .ok (some (.candidate rule m)) := by
  have hcandidate := chooseCandidate_eq_some anchor rule hE Hpre H Hpost
    (fun y hy z hz => hw y hy z (List.mem_append_right _ hz)) hx hp hhit
  cases hlooks with
  | root hrule => rw [choose_root hrule, hcandidate]
  | @span rule' closing end? endSet hrule hend Hend =>
    have hwend : Avoid [endSet] w := fun y hy z hz => hw y hy z (List.mem_append_left _ hz)
    have hpx : c.text.toList.drop position = (w ++ [x]) ++ rest := by simpa using hp
    have hbehind : ∃ found, c.findEnding s.current position anchor = .ok found ∧
        ∀ e, found = some e → position < e.start ∧ m.start ≤ e.start := by
      rw [findEnding_eq hend, hE]
      rcases hending with hx | hne
      · have hwx : Avoid [endSet] (w ++ [x]) := fun y hy z hz =>
          (List.mem_append.mp hy).elim (hwend y · z hz) (hx y · z hz)
        obtain ⟨found, hfind, hle⟩ := Pattern.find_behind (a := c.anchoring position anchor) Hend
          hwx hpos hpx
        refine ⟨found, hfind, fun e he => ?_⟩
        have hle := hle e he
        rw [List.length_append, List.length_singleton] at hle
        omega
      · obtain ⟨found, hfind, hle⟩ := Pattern.find_behind (a := c.anchoring position anchor) Hend
          hwend hpos hp
        refine ⟨found, hfind, fun e he => ?_⟩
        have hle := hle e he
        have := List.length_pos_iff.mpr hne
        omega
    obtain ⟨found, hfind, hlater⟩ := hbehind
    rw [choose_span hrule hfind, hcandidate]
    cases found with
    | none => rfl
    | some e =>
      obtain ⟨hlt, hle⟩ := hlater e rfl
      have hne : ¬ e.start = position := Nat.ne_of_gt hlt
      have hnlt : ¬ e.start < (Choice.candidate rule m).found.start := Nat.not_lt.mpr hle
      simp only [hne, if_false, ok_bind, hnlt]
      rfl

/-- The next step closes the innermost rule, if its end comes next, and no candidate does, unless
the end comes at once. -/
theorem choose_closing_of {closing : Json} {pattern : List Char} {endSet : CharSet}
    (hE : c.engine = .standard) (hrule : s.current.rule = .span rule closing candidates)
    (hend : s.current.ending = some pattern) (Hend : Starts (.str (String.ofList pattern)) endSet)
    (H : Begin candidates sets) (hw : Avoid [endSet] w)
    (hfree : w = [] ∨ Avoid sets (w ++ [x])) (hpos : position ≤ c.text.size)
    (hp : c.text.toList.drop position = w ++ x :: rest)
    (hhit : ∀ a matcher, Pattern.Ready a (.str (String.ofList pattern)) matcher →
      matcher.tryAt c.text position (position + w.length) = some m)
    (hm : m.start = position + w.length) :
    c.choose s position anchor = .ok (some (.closing rule m)) := by
  have hfind : c.findEnding s.current position anchor = .ok (some m) := by
    obtain ⟨matcher, hready, _⟩ := Hend.fits (c.anchoring position anchor)
    rw [findEnding_eq hend, hE]
    exact Pattern.find_eq_some Hend hready hw hp (hhit _ _ hready)
  rw [choose_span hrule hfind]
  simp only
  split
  · rfl
  · next hne =>
    rcases hfree with rfl | hfree
    · exact absurd hm hne
    · have hpx : c.text.toList.drop position = (w ++ [x]) ++ rest := by simpa using hp
      obtain ⟨found, hcandidate, hle⟩ := chooseCandidate_behind anchor hE H hfree hpos hpx
      rw [hcandidate, ok_bind]
      cases found with
      | none => rfl
      | some choice =>
        have hle := hle choice rfl
        rw [List.length_append, List.length_singleton] at hle
        have hlt : m.start < choice.found.start := by omega
        simp only [hlt, if_true]
        rfl

/-- There is no next step, if nothing of what is left of the line begins a match. -/
theorem choose_none (hE : c.engine = .standard) (hlooks : s.current.Looks candidates ending)
    (H : Begin candidates sets) (hw : Avoid (ending.toList ++ sets) w)
    (hp : c.text.toList.drop position = w) : c.choose s position anchor = .ok none := by
  have hcandidate := chooseCandidate_eq_none anchor hE H
    (fun y hy z hz => hw y hy z (List.mem_append_right _ hz)) hp
  cases hlooks with
  | root hrule => rw [choose_root hrule, hcandidate]
  | span hrule hend Hend =>
    have hfind : c.findEnding s.current position anchor = .ok none := by
      rw [findEnding_eq hend, hE]
      exact Pattern.find_eq_none Hend (fun y hy z hz => hw y hy z (List.mem_append_left _ hz)) hp
    rw [choose_span hrule hfind, hcandidate]

end LineContext

end Rubric
