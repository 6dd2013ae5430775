import Rubric.Proofs.Line.Coverage

/-!
# Groups that are cut

A capture with rules of its own gives its group any number of regions, and a later group in it may
begin in one of them and end in another. Such a group takes the place of a part of the first region
alone, and the others cover its rest a second time. So the regions of a match lie side by side
exactly if each group, when the captures come to it, lies in the region that it begins in
(`matchRegions_tiles_iff`), whatever the regions before it were made of.
-/

namespace Rubric

/-- The captures come to a group that took part, and `made` are the regions before it. -/
inductive ComesTo (g : Grammar) (inner : Highlights) (text : Array Char) (scope : Scope)
    (m : Regex.Match) : List (Int × Rule) → (position : Nat) → (regions : List Region) →
    (span : Regex.Span) → (made : List Region) → Prop
  | here : Pattern.takenSpan? m capture.1 = some span →
    ComesTo g inner text scope m (capture :: rest) position regions span regions
  | later :
    addCapture g inner text scope m capture position regions = .ok (position', regions') →
    ComesTo g inner text scope m rest position' regions' span made →
    ComesTo g inner text scope m (capture :: rest) position regions span made

/-- Each group lies in the match, and in the region that it begins in when the captures come to it.
-/
def Uncut (g : Grammar) (inner : Highlights) (text : Array Char) (scope : Scope) (m : Regex.Match)
    (captures : List (Int × Rule)) (position : Nat) (regions : List Region) : Prop :=
  ∀ span made, ComesTo g inner text scope m captures position regions span made →
    Regex.Span.Within span (m.start, m.stop) ∧ Holds made span

section
variable {g : Grammar} {inner : Highlights} {text : Array Char} {scope : Scope} {m : Regex.Match}
  {capture : Int × Rule} {captures : List (Int × Rule)} {position position' : Nat}
  {regions regions' : List Region}

/-- A group that is not cut leaves the regions side by side. -/
theorem Fills.addCapture_tiles
    (hfills : Fills g inner text scope m (capture :: captures) position regions)
    (hm : m.Inside text.size) (H : Tiles m.start position regions)
    (hspan : ∀ span, Pattern.takenSpan? m capture.1 = some span →
      Regex.Span.Within span (m.start, m.stop) ∧ Holds regions span)
    (h : addCapture g inner text scope m capture position regions = .ok (position', regions')) :
    Tiles m.start position' regions' ∧ (position ≤ m.stop → position' ≤ m.stop) := by
  cases htaken : Pattern.takenSpan? m capture.1 with
  | none =>
    cases (addCapture_none htaken).symm.trans h
    exact ⟨H, id⟩
  | some span =>
    obtain ⟨⟨hstart, hstop⟩, hholds⟩ := hspan span htaken
    obtain ⟨nested, hnested, hadded⟩ := hfills.added hm htaken h
    refine ⟨hadded.tiles H hnested hstart hholds, fun hpos => ?_⟩
    cases hadded with
    | inside _ _ _ => exact hpos
    | behind _ => exact hstop

/-- Groups that are not cut leave the regions side by side. -/
theorem Uncut.captureRegions_tiles (hcut : Uncut g inner text scope m captures position regions)
    (hfills : Fills g inner text scope m captures position regions) (hm : m.Inside text.size)
    (H : Tiles m.start position regions) (hpos : position ≤ m.stop)
    (h : captureRegions g inner text scope m captures position regions =
      .ok (position', regions')) :
    Tiles m.start position' regions' ∧ position' ≤ m.stop := by
  induction captures generalizing position regions with
  | nil =>
    cases h
    exact ⟨H, hpos⟩
  | cons capture rest ih =>
    obtain ⟨⟨position₁, regions₁⟩, hadd, h⟩ := bind_eq_ok.mp h
    obtain ⟨H₁, hpos₁⟩ :=
      hfills.addCapture_tiles hm H (fun span htaken => hcut span _ (.here htaken)) hadd
    exact ih (fun span made hc => hcut span made (.later hadd hc)) (hfills.rest hadd) H₁
      (hpos₁ hpos) h

/-- If there is room behind the captures, none of their groups was cut. -/
theorem captureRegions_uncut (hfills : Fills g inner text scope m captures position regions)
    (hm : m.Inside text.size) (H : Tiles m.start position regions)
    (h : captureRegions g inner text scope m captures position regions = .ok (position', regions'))
    (hroom : Room m position' regions') :
    Uncut g inner text scope m captures position regions := by
  induction captures generalizing position regions with
  | nil => exact fun _ _ hc => nomatch hc
  | cons capture rest ih =>
    obtain ⟨⟨position₁, regions₁⟩, hadd, h⟩ := bind_eq_ok.mp h
    have hspan : ∀ span, Pattern.takenSpan? m capture.1 = some span →
        Regex.Span.Within span (m.start, m.stop) ∧ Holds regions span := by
      intro span htaken
      obtain ⟨hstart, hstop, hholds⟩ := addCapture_room hfills hm H htaken hadd
        (hroom.before (hfills.rest hadd) hm h)
      exact ⟨⟨hstart, hstop⟩, hholds⟩
    intro span made hc
    cases hc with
    | here htaken => exact hspan span htaken
    | later hadd' hc =>
      cases hadd.symm.trans hadd'
      exact ih (hfills.rest hadd) (hfills.addCapture_tiles hm H hspan hadd).1 h span made hc

end

/-- **When the regions of a match lie side by side.** For every match in a text and for captures
whose rules may have rules of their own, as long as each text that they take for themselves comes
out covered from end to end: the regions lie side by side, from the start of the match to its end,
exactly if each group that took part lies in the match and is not cut by the regions made before
it. It is enough that no position of the match is covered twice, and none outside of it. -/
theorem matchRegions_tiles_iff {g : Grammar} {inner : Highlights} {text : Array Char}
    {scope : Scope} {m : Regex.Match} {captures : List (Int × Rule)} {regions : List Region}
    (hm : m.Inside text.size) (hfills : Fills g inner text scope m captures m.start [])
    (h : matchRegions g inner text scope m captures = .ok regions) :
    (Tiles m.start m.stop regions ↔ Uncut g inner text scope m captures m.start []) ∧
      ((∀ x, coverage regions x ≤ stretch m.start m.stop x) → Tiles m.start m.stop regions) := by
  obtain ⟨position, covered, hcaptures, hcoverage⟩ := matchRegions_coverage h
  have hnone : Tiles m.start m.start [] := rfl
  have huncut (hle : ∀ x, coverage regions x ≤ stretch m.start m.stop x) :
      Uncut g inner text scope m captures m.start [] :=
    captureRegions_uncut hfills hm hnone hcaptures fun x => hcoverage x ▸ hle x
  have htiles (hcut : Uncut g inner text scope m captures m.start []) :
      Tiles m.start m.stop regions := by
    obtain ⟨H, hpos⟩ := hcut.captureRegions_tiles hfills hm hnone hm.le_stop hcaptures
    obtain ⟨_, hcaptures', h⟩ := bind_eq_ok.mp h
    cases hcaptures.symm.trans hcaptures'
    simp only at h
    split at h
    · cases pure_eq_ok.mp h
      exact H.append (.single scope ‹_›)
    · cases pure_eq_ok.mp h
      rwa [← Nat.le_antisymm hpos (Nat.not_lt.mp ‹_›)]
  exact ⟨⟨fun H => huncut fun x => Nat.le_of_eq H.coverage_eq, htiles⟩,
    fun hle => htiles (huncut hle)⟩

/-- A capture whose text is highlighted by a rule for the letter a. -/
def letterCapture : Rule where
  children := [{ scopes := ["letter"], single := some (.str "a") }]

/-- Where a region begins and ends. -/
def Region.span (r : Region) : Regex.Span :=
  (r.start, r.stop)

/-- To lie side by side is a matter of where regions begin and end. -/
theorem tiles_of_spans (scope : Scope) {a b : Nat} {regions : List Region}
    (H : Tiles a b ((regions.map Region.span).map fun span => ⟨span.1, span.2, scope⟩)) :
    Tiles a b regions := by
  induction regions generalizing a with
  | nil => exact H
  | cons r rest ih => exact ⟨H.1, H.2.1, ih H.2.2⟩

/-- The letter a of the text ab gets a region of its own under the capture. -/
theorem letterCapture_fills {captures : List (Int × Rule)} {spans : List (Option Regex.Span)}
    (hbare : ∀ c ∈ captures, c.2.isBare = true) :
    Fills emptyGrammar (nestedHighlights .standard emptyGrammar 2) "ab".toList.toArray
      [.str "text.empty"] ⟨0, 2, some (0, 2) :: spans⟩ ((1, letterCapture) :: captures) 0 [] := by
  intro t s hn regs hr
  cases hn with
  | later _ hn => exact fills_bare hbare t s hn regs hr
  | here htaken hcomp =>
    cases htaken
    have hrun : (do
        let compiled ← emptyGrammar.compileRule letterCapture
        let regs ← nestedHighlights .standard emptyGrammar 2 ("ab".toList.toArray.extract 0 2)
          (compiled.start [.str "text.empty"])
        return regs.map Region.span : Outcome (List Regex.Span)).toOption =
          some [(0, 1), (1, 2)] := by
      decide +kernel
    obtain ⟨_, hcomp', hrun⟩ := bind_eq_ok.mp (toOption_eq_some.mp hrun)
    cases hcomp.symm.trans hcomp'
    obtain ⟨_, hr', hrun⟩ := bind_eq_ok.mp hrun
    cases hr.symm.trans hr'
    have hspans := pure_eq_ok.mp hrun
    refine tiles_of_spans [] ?_
    rw [hspans]
    exact ⟨rfl, by decide, rfl, by decide, rfl⟩

/-- The group of the letter b lies in a region that the capture before it made. -/
theorem matchRegions_tiles_letter : ∃ regions,
    matchRegions emptyGrammar (nestedHighlights .standard emptyGrammar 2) "ab".toList.toArray
      [.str "text.empty"] ⟨0, 2, [some (0, 2), some (1, 2)]⟩
      [(1, letterCapture), (2, { scopes := ["second"] })] = .ok regions ∧ Tiles 0 2 regions := by
  have hrun : (do
      let made ← addCapture emptyGrammar (nestedHighlights .standard emptyGrammar 2)
        "ab".toList.toArray [.str "text.empty"] ⟨0, 2, [some (0, 2), some (1, 2)]⟩
        (1, letterCapture) 0 []
      let regions ← matchRegions emptyGrammar (nestedHighlights .standard emptyGrammar 2)
        "ab".toList.toArray [.str "text.empty"] ⟨0, 2, [some (0, 2), some (1, 2)]⟩
        [(1, letterCapture), (2, { scopes := ["second"] })]
      return (made.2.map Region.span, regions.length) :
        Outcome (List Regex.Span × Nat)).toOption = some ([(0, 1), (1, 2)], 2) := by
    decide +kernel
  obtain ⟨⟨position, made⟩, hmade, hrun⟩ := bind_eq_ok.mp (toOption_eq_some.mp hrun)
  obtain ⟨regions, h, hrun⟩ := bind_eq_ok.mp hrun
  have hspans : made.map Region.span = [(0, 1), (1, 2)] :=
    congrArg Prod.fst (pure_eq_ok.mp hrun)
  have hm : Regex.Match.Inside "ab".toList.toArray.size ⟨0, 2, [some (0, 2), some (1, 2)]⟩ :=
    ⟨by decide, by decide, by simp⟩
  have huncut : Uncut emptyGrammar (nestedHighlights .standard emptyGrammar 2)
      "ab".toList.toArray [.str "text.empty"] ⟨0, 2, [some (0, 2), some (1, 2)]⟩
      [(1, letterCapture), (2, { scopes := ["second"] })] 0 [] := by
    intro span made' hc
    cases hc with
    | here htaken =>
      cases htaken
      exact ⟨⟨by decide, by decide⟩, fun _ hr => nomatch hr⟩
    | later hadd hc =>
      cases hmade.symm.trans hadd
      cases hc with
      | here htaken =>
        cases htaken
        refine ⟨⟨by decide, by decide⟩, fun r hr _ _ => ?_⟩
        have hmem := List.mem_map_of_mem (f := Region.span) hr
        rw [hspans] at hmem
        simp only [Region.span, List.mem_cons, Prod.mk.injEq, List.not_mem_nil, or_false] at hmem
        simp only at *
        omega
      | later _ hc => cases hc
  exact ⟨regions, h, (matchRegions_tiles_iff hm (letterCapture_fills (by decide)) h).1.mpr huncut⟩

/-- The text ab is a group of its own twice over. The second begins in the region of the letter a
and ends behind it, and the letter b is covered twice. -/
theorem matchRegions_cut :
    Pattern.find .standard ⟨true, true⟩ (.str "((ab))") "ab".toList.toArray 0 =
        .ok (some ⟨0, 2, [some (0, 2), some (0, 2)]⟩) ∧
      Nested (0, 2) (0, 2) ∧
      ∃ regions, matchRegions emptyGrammar (nestedHighlights .standard emptyGrammar 2)
        "ab".toList.toArray [.str "text.empty"] ⟨0, 2, [some (0, 2), some (0, 2)]⟩
        [(1, letterCapture), (2, { scopes := ["second"] })] = .ok regions ∧
        regions.map Region.span = [(0, 2), (1, 2)] ∧ coverage regions 1 = 2 := by
  refine ⟨toOption_eq_some.mp (by decide +kernel), .inr ⟨by decide, by decide⟩, ?_⟩
  have hrun : (do
      let regions ← matchRegions emptyGrammar (nestedHighlights .standard emptyGrammar 2)
        "ab".toList.toArray [.str "text.empty"] ⟨0, 2, [some (0, 2), some (0, 2)]⟩
        [(1, letterCapture), (2, { scopes := ["second"] })]
      return (regions.map Region.span, coverage regions 1) :
        Outcome (List Regex.Span × Nat)).toOption = some ([(0, 2), (1, 2)], 2) := by
    decide +kernel
  obtain ⟨regions, h, hrun⟩ := bind_eq_ok.mp (toOption_eq_some.mp hrun)
  obtain ⟨hspans, hcovered⟩ := Prod.mk.inj (pure_eq_ok.mp hrun)
  exact ⟨regions, h, hspans, hcovered⟩

end Rubric
