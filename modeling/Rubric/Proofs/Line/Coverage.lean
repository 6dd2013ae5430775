import Rubric.Proofs.Line.Proper
import Rubric.Proofs.Line.Steady

/-!
# How often the regions of a match cover it

Captures that only give scopes make one region of each group. No capture takes away from what is
covered (`addCapture_coverage`), so if each position of the match is covered once in the end, none
was covered twice on the way. That leaves a group only the region that it begins in, and makes the
groups nested, each later one in the earlier ones or apart from them. Together with the converse
this says exactly when the regions cover the match once (`matchRegions_once_iff`).
-/

namespace Rubric

/-- How many of the regions the position lies in. -/
def coverage (regions : List Region) (x : Nat) : Nat :=
  regions.countP fun r => r.start ≤ x && x < r.stop

/-- One for the positions from `a` up to `b`, none for the others. -/
def stretch (a b x : Nat) : Nat :=
  if a ≤ x ∧ x < b then 1 else 0

/-- A later group lies in an earlier one or apart from it. -/
def Nested (earlier later : Regex.Span) : Prop :=
  Regex.Span.Apart later earlier ∨ Regex.Span.Within later earlier

/-- The parts of a region that a group takes the place of: what lies in front of the group, the
group and what lies behind it. -/
def Region.cut (old : Region) (span : Regex.Span) (scope : Scope) : List Region :=
  (if old.start < span.1 then [⟨old.start, span.1, old.scope⟩] else []) ++
    [⟨span.1, span.2, scope⟩] ++
      (if span.2 < old.stop then [⟨span.2, old.stop, old.scope⟩] else [])

@[simp] theorem Region.cut_ne_nil (old : Region) (span : Regex.Span) (scope : Scope) :
    old.cut span scope ≠ [] := by
  simp [Region.cut]

section
variable {x a b : Nat}

@[simp] theorem stretch_self : stretch a a x = 0 :=
  if_neg (by omega)

@[simp] theorem coverage_nil : coverage [] x = 0 := rfl

@[simp] theorem coverage_append (xs ys : List Region) :
    coverage (xs ++ ys) x = coverage xs x + coverage ys x :=
  List.countP_append

@[simp] theorem coverage_cons (r : Region) (regions : List Region) :
    coverage (r :: regions) x = stretch r.start r.stop x + coverage regions x := by
  rw [coverage, List.countP_cons, Nat.add_comm, coverage, stretch]
  simp

@[simp] theorem coverage_gap (scope : Scope) :
    coverage (if a < b then [⟨a, b, scope⟩] else []) x = stretch a b x := by
  split
  · simp
  · rw [coverage_nil, stretch, if_neg (by omega)]

@[simp] theorem coverage_replace (old : Region) (span : Regex.Span) (nested : List Region) :
    coverage (old.replace span nested) x =
      stretch old.start span.1 x + coverage nested x + stretch span.2 old.stop x := by
  simp [Region.replace, Nat.add_assoc]

theorem Tiles.coverage_eq {regions : List Region} (H : Tiles a b regions) :
    coverage regions x = stretch a b x := by
  induction regions generalizing a with
  | nil =>
    cases H
    simp
  | cons r rest ih =>
    obtain ⟨rfl, hlt, H⟩ := H
    have hle := H.le
    rw [coverage_cons, ih H]
    simp only [stretch]
    split_ifs <;> omega

end

/-! ## What a capture that only gives scopes makes -/

section
variable {engine : Regex.Engine} {g : Grammar} {depth : Nat} {text : Array Char} {scope : Scope}
  {m : Regex.Match} {span : Regex.Span} {capture : Int × Rule}
  {captures : List (Int × Rule)} {position position' : Nat} {regions regions' : List Region}

/-- The region of a group that only gets scopes. -/
theorem nestedRegions_bare (engine : Regex.Engine) (g : Grammar) (depth : Nat) (scope : Scope)
    (rule : Rule) (hlt : span.1 < span.2) (hle : span.2 ≤ text.size) :
    nestedRegions (nestedHighlights engine g (depth + 1)) text span scope (.group rule []) =
      .ok [⟨span.1, span.2, scope ++ rule.scopes.map .str⟩] := by
  have hsize : (text.extract span.1 span.2).size = span.2 - span.1 := by
    rw [Array.size_extract]
    omega
  obtain ⟨regions, hline⟩ := (lineContext engine g depth (text.extract span.1 span.2)
    false).highlight_group rule scope
  have hwhole := (LineContext.highlight_bare rfl hline).trans
    (if_pos (show 0 < (text.extract span.1 span.2).size by omega))
  have hstop : span.2 - span.1 + span.1 = span.2 := by omega
  refine bind_eq_ok.mpr ⟨_, bind_eq_ok.mpr ⟨_, hline, rfl⟩, ?_⟩
  simp [hwhole, lineContext, CompiledRule.scopes, Region.shift, hsize, hstop, pure, Except.pure]

theorem regionIndex_le (p : Nat) (regions : List Region) (j : Nat) :
    regionIndex p regions j ≤ j := by
  induction j with
  | zero => exact Nat.le_refl _
  | succ j ih =>
    unfold regionIndex
    split
    · split
      · exact Nat.le_succ_of_le ih
      · exact Nat.le_refl _
    · exact Nat.le_refl _

/-- A group that begins inside of what is covered takes the place of a part of some region. -/
theorem addCapture_inside (engine : Regex.Engine) (g : Grammar) (depth : Nat) (scope : Scope)
    (hbare : capture.2.isBare = true) (hm : m.Inside text.size)
    (htaken : Pattern.takenSpan? m capture.1 = some span) (hin : span.1 < position)
    (hne : regions ≠ []) :
    ∃ xs old ys, regions = xs ++ old :: ys ∧
      addCapture g (nestedHighlights engine g (depth + 1)) text scope m capture position regions =
        .ok (position, xs ++ old.cut span (old.scope ++ capture.2.scopes.map .str) ++ ys) := by
  have hlen := List.length_pos_iff.mpr hne
  have hindex := regionIndex_le span.1 regions (regions.length - 1)
  obtain ⟨j, hj, hjlt⟩ : ∃ j, regionIndex span.1 regions (regions.length - 1) = j ∧
      j < regions.length := ⟨_, rfl, by omega⟩
  have hnested := nestedRegions_bare engine g depth regions[j].scope capture.2
    (takenSpan?_lt htaken) (takenSpan?_le hm htaken)
  refine ⟨regions.take j, regions[j], regions.drop (j + 1), ?_, ?_⟩
  · rw [List.getElem_cons_drop, List.take_append_drop]
  · simp only [addCapture, htaken, Grammar.compileRule_of_isBare hbare, ok_bind, if_pos hin,
      splitRegion, hj, List.getElem?_eq_getElem hjlt, hnested]
    rfl

/-- A group that begins behind what is covered is put behind it. -/
theorem addCapture_behind (engine : Regex.Engine) (g : Grammar) (depth : Nat) (scope : Scope)
    (regions : List Region) (hbare : capture.2.isBare = true) (hm : m.Inside text.size)
    (htaken : Pattern.takenSpan? m capture.1 = some span) (hle : position ≤ span.1) :
    addCapture g (nestedHighlights engine g (depth + 1)) text scope m capture position regions =
      .ok (span.2, regions ++ (if position < span.1 then [⟨position, span.1, scope⟩] else []) ++
        [⟨span.1, span.2, scope ++ capture.2.scopes.map .str⟩]) := by
  have hnested := nestedRegions_bare engine g depth scope capture.2
    (takenSpan?_lt htaken) (takenSpan?_le hm htaken)
  simp only [addCapture, htaken, Grammar.compileRule_of_isBare hbare, ok_bind,
    if_neg (Nat.not_lt.mpr hle), hnested]
  rfl

/-! ## Where there is no region to split -/

/-- Once there is a region, each further group gets its own. -/
theorem captureRegions_total_of_ne_nil (engine : Regex.Engine) (g : Grammar) (depth : Nat)
    (scope : Scope) (position : Nat) (hbare : ∀ c ∈ captures, c.2.isBare = true)
    (hm : m.Inside text.size) (hne : regions ≠ []) :
    ∃ position' regions', captureRegions g (nestedHighlights engine g (depth + 1)) text scope m
      captures position regions = .ok (position', regions') := by
  induction captures generalizing position regions with
  | nil => exact ⟨_, _, rfl⟩
  | cons capture rest ih =>
    have hfirst := hbare capture (List.mem_cons_self ..)
    have hadd : ∃ position₁ regions₁, regions₁ ≠ [] ∧
        addCapture g (nestedHighlights engine g (depth + 1)) text scope m capture position
          regions = .ok (position₁, regions₁) := by
      cases htaken : Pattern.takenSpan? m capture.1 with
      | none => exact ⟨_, _, hne, addCapture_none htaken⟩
      | some span =>
        by_cases hin : span.1 < position
        · obtain ⟨_, _, _, _, h⟩ :=
            addCapture_inside engine g depth scope hfirst hm htaken hin hne
          exact ⟨_, _, by simp, h⟩
        · exact ⟨_, _, by simp, addCapture_behind engine g depth scope regions hfirst hm htaken
            (Nat.not_lt.mp hin)⟩
    obtain ⟨position₁, regions₁, hne₁, h⟩ := hadd
    obtain ⟨position', regions', h'⟩ :=
      ih position₁ (fun c hc => hbare c (List.mem_cons_of_mem _ hc)) hne₁
    exact ⟨position', regions', bind_eq_ok.mpr ⟨_, h, h'⟩⟩

/-- The regions of a match are made, unless the first of its groups begins in front of it. -/
theorem captureRegions_cases (engine : Regex.Engine) (g : Grammar) (depth : Nat)
    (scope : Scope) (hbare : ∀ c ∈ captures, c.2.isBare = true) (hm : m.Inside text.size) :
    ((∃ x, (takenSpans m captures).head? = some x ∧ x.1.1 < m.start) ∧
      captureRegions g (nestedHighlights engine g (depth + 1)) text scope m captures m.start [] =
        .error .captureOrder) ∨
    ((∀ x, (takenSpans m captures).head? = some x → m.start ≤ x.1.1) ∧
      ∃ position regions, captureRegions g (nestedHighlights engine g (depth + 1)) text scope m
        captures m.start [] = .ok (position, regions)) := by
  induction captures with
  | nil => exact .inr ⟨fun _ h => (nomatch h), _, _, rfl⟩
  | cons capture rest ih =>
    have hfirst := hbare capture (List.mem_cons_self ..)
    have hrest : ∀ c ∈ rest, c.2.isBare = true := fun c hc =>
      hbare c (List.mem_cons_of_mem _ hc)
    cases htaken : Pattern.takenSpan? m capture.1 with
    | none =>
      rw [takenSpans_cons_none htaken, captureRegions, addCapture_none htaken]
      exact ih hrest
    | some span =>
      rw [takenSpans_cons_some htaken, captureRegions]
      by_cases hin : span.1 < m.start
      · refine .inl ⟨⟨_, rfl, hin⟩, ?_⟩
        simp only [addCapture, htaken, Grammar.compileRule_of_isBare hfirst, ok_bind, if_pos hin]
        rfl
      · refine .inr ⟨fun x hx => ?_, ?_⟩
        · cases hx
          exact Nat.not_lt.mp hin
        · rw [addCapture_behind engine g depth scope [] hfirst hm htaken (Nat.not_lt.mp hin)]
          exact captureRegions_total_of_ne_nil engine g depth scope _ hrest hm (by simp)

/-! ## Nothing that is covered gets lost -/

/-- Each text that the captures take for themselves comes out covered from end to end. -/
def Fills (g : Grammar) (inner : Highlights) (text : Array Char) (scope : Scope)
    (m : Regex.Match) (captures : List (Int × Rule)) (position : Nat) (regions : List Region) :
    Prop :=
  ∀ t s, Nests g inner text scope m captures position regions t s →
    ∀ regs, inner t s = .ok regs → Tiles 0 t.size regs

theorem fills_bare (hbare : ∀ c ∈ captures, c.2.isBare = true) :
    Fills g (nestedHighlights engine g (depth + 1)) text scope m captures position regions := by
  intro t s hn regs hr
  obtain ⟨rule, sc, hrule, hs⟩ := nests_bare hbare hn
  exact (demands_bare hbare t s hn rule _ sc hs (Grammar.compileRule_of_isBare hrule) regs hr).tiles

section
variable {inner : Highlights}

theorem Fills.rest (H : Fills g inner text scope m (capture :: captures) position regions)
    (h : addCapture g inner text scope m capture position regions = .ok (position', regions')) :
    Fills g inner text scope m captures position' regions' :=
  fun t s hn => H t s (.later h hn)

/-- What the first capture adds, if its group took part, covers the group. -/
theorem Fills.added (H : Fills g inner text scope m (capture :: captures) position regions)
    (hm : m.Inside text.size) (htaken : Pattern.takenSpan? m capture.1 = some span)
    (h : addCapture g inner text scope m capture position regions = .ok (position', regions')) :
    ∃ nested, Tiles span.1 span.2 nested ∧
      Region.Added scope span nested position regions position' regions' := by
  obtain ⟨compiled, nested, hcomp, hnested, hadded⟩ := addCapture_some htaken h
  obtain ⟨regs, hr, heq⟩ := bind_eq_ok.mp hnested
  cases pure_eq_ok.mp heq
  have hlt := takenSpan?_lt htaken
  have hle := takenSpan?_le hm htaken
  have hsize : (text.extract span.1 span.2).size = span.2 - span.1 := by
    rw [Array.size_extract]
    omega
  have ht := (H _ _ (.here htaken hcomp) regs hr).shift span.1
  rw [hsize, Nat.zero_add, Nat.sub_add_cancel (Nat.le_of_lt hlt)] at ht
  exact ⟨_, ht, hadded⟩

/-- A capture covers what was covered before and what it goes on over, and it covers its group. -/
theorem addCapture_coverage
    (hfills : Fills g inner text scope m (capture :: captures) position regions)
    (hm : m.Inside text.size)
    (h : addCapture g inner text scope m capture position regions = .ok (position', regions'))
    (x : Nat) :
    coverage regions x + stretch position position' x ≤ coverage regions' x ∧
      ∀ span, Pattern.takenSpan? m capture.1 = some span →
        stretch span.1 span.2 x ≤ coverage regions' x := by
  cases htaken : Pattern.takenSpan? m capture.1 with
  | none =>
    cases (addCapture_none htaken).symm.trans h
    exact ⟨by simp, fun _ h => nomatch h⟩
  | some span =>
    suffices H : coverage regions x + stretch position position' x ≤ coverage regions' x ∧
        stretch span.1 span.2 x ≤ coverage regions' x from
      ⟨H.1, fun _ heq => by cases heq; exact H.2⟩
    obtain ⟨nested, hnested, hadded⟩ := hfills.added hm htaken h
    cases hadded with
    | inside hin heq _ =>
      rw [heq]
      simp only [coverage_append, coverage_cons, coverage_replace, hnested.coverage_eq, stretch]
      constructor <;> split_ifs <;> omega
    | behind hle =>
      simp only [coverage_append, coverage_gap, hnested.coverage_eq, stretch]
      constructor <;> split_ifs <;> omega

theorem captureRegions_coverage (hfills : Fills g inner text scope m captures position regions)
    (hm : m.Inside text.size)
    (h : captureRegions g inner text scope m captures position regions =
      .ok (position', regions')) (x : Nat) :
    coverage regions x + stretch position position' x ≤ coverage regions' x := by
  induction captures generalizing position regions with
  | nil =>
    cases h
    simp
  | cons capture rest ih =>
    obtain ⟨⟨position₁, regions₁⟩, hadd, h⟩ := bind_eq_ok.mp h
    have hfirst := (addCapture_coverage hfills hm hadd x).1
    have hrest := ih (hfills.rest hadd) h
    have hsplit : stretch position position' x ≤
        stretch position position₁ x + stretch position₁ position' x := by
      simp only [stretch]
      split_ifs <;> omega
    omega

/-! ## Room for the groups -/

/-- With the rest of the match from the position on, no position of the match would be covered
twice, and none outside of it. -/
def Room (m : Regex.Match) (position : Nat) (regions : List Region) : Prop :=
  ∀ x, coverage regions x + stretch position m.stop x ≤ stretch m.start m.stop x

theorem Room.before (H : Room m position' regions')
    (hfills : Fills g inner text scope m captures position regions) (hm : m.Inside text.size)
    (h : captureRegions g inner text scope m captures position regions =
      .ok (position', regions')) : Room m position regions := by
  intro x
  have hroom := H x
  have hmore := captureRegions_coverage hfills hm h x
  have hsplit : stretch position m.stop x ≤
      stretch position position' x + stretch position' m.stop x := by
    simp only [stretch]
    split_ifs <;> omega
  omega

/-- If there is room behind a capture, then its group lies in the match and in the region that it
begins in. -/
theorem addCapture_room
    (hfills : Fills g inner text scope m (capture :: captures) position regions)
    (hm : m.Inside text.size) (H : Tiles m.start position regions)
    (htaken : Pattern.takenSpan? m capture.1 = some span)
    (h : addCapture g inner text scope m capture position regions = .ok (position', regions'))
    (hroom : Room m position' regions') :
    m.start ≤ span.1 ∧ span.2 ≤ m.stop ∧ Holds regions span := by
  have hlt := takenSpan?_lt htaken
  have hgroup (x : Nat) (h1 : span.1 ≤ x) (h2 : x < span.2) : m.start ≤ x ∧ x < m.stop := by
    have hcovered := (addCapture_coverage hfills hm h x).2 span htaken
    have hroom := hroom x
    simp only [stretch] at hcovered hroom
    split_ifs at hcovered hroom <;> omega
  have hstart := (hgroup span.1 (Nat.le_refl _) hlt).1
  have hstop := (hgroup (span.2 - 1) (by omega) (by omega)).2
  refine ⟨hstart, by omega, ?_⟩
  obtain ⟨nested, hnested, hadded⟩ := hfills.added hm htaken h
  cases hadded with
  | @inside xs old ys hin heq hindex =>
    obtain ⟨hxs, h3, h4, hys⟩ := H.around hstart hin heq hindex
    have hold : span.2 ≤ old.stop := by
      -- otherwise the group and what lies behind the region both cover its end
      refine Nat.le_of_not_lt fun hover => ?_
      have hroom := hroom old.stop
      simp only [coverage_append, coverage_replace, hnested.coverage_eq, hys.coverage_eq,
        stretch] at hroom
      have hle := hys.le
      split_ifs at hroom <;> omega
    intro r hr h5 h6
    rw [heq] at hr
    rcases List.mem_append.mp hr with hr | hr
    · have := hxs.mem r hr
      omega
    · rcases List.mem_cons.mp hr with rfl | hr
      · exact hold
      · have := hys.mem r hr
        omega
  | behind hle =>
    intro r hr _ h6
    have := H.mem r hr
    omega

end

/-! ## Groups that are nested -/

/-- What a group in the match makes of regions side by side, if it begins inside of them. -/
theorem addCapture_split (engine : Regex.Engine) (g : Grammar) (depth : Nat) (scope : Scope)
    (hbare : capture.2.isBare = true) (hm : m.Inside text.size)
    (H : Tiles m.start position regions) (htaken : Pattern.takenSpan? m capture.1 = some span)
    (hstart : m.start ≤ span.1) (hin : span.1 < position) :
    ∃ xs old ys, regions = xs ++ old :: ys ∧ Tiles m.start old.start xs ∧
      old.start ≤ span.1 ∧ span.1 < old.stop ∧ Tiles old.stop position ys ∧
      addCapture g (nestedHighlights engine g (depth + 1)) text scope m capture position regions =
        .ok (position, xs ++ old.cut span (old.scope ++ capture.2.scopes.map .str) ++ ys) := by
  obtain ⟨xs, old, ys, hregions, hxs, h3, h4, hys, _, heq⟩ := H.splitRegion_eq hstart hin
    (nestedHighlights engine g (depth + 1)) text scope (.group capture.2 [])
  have hnested := nestedRegions_bare engine g depth old.scope capture.2
    (takenSpan?_lt htaken) (takenSpan?_le hm htaken)
  refine ⟨xs, old, ys, hregions, hxs, h3, h4, hys, ?_⟩
  simp only [addCapture, htaken, Grammar.compileRule_of_isBare hbare, ok_bind, if_pos hin, heq,
    hnested]
  rfl

/-- The span is covered, and each of the regions lies in it or apart from it. -/
structure CutAlong (position : Nat) (regions : List Region) (span : Regex.Span) : Prop where
  stop_le : span.2 ≤ position
  parts : ∀ r ∈ regions, Nested span (r.start, r.stop)

/-- A group that keeps to one region is nested with a span that the regions are cut along. -/
theorem CutAlong.nested {later : Regex.Span} (S : CutAlong position regions span) {a : Nat}
    (H : Tiles a position regions) (hstart : a ≤ later.1) (hholds : Holds regions later) :
    Nested span later := by
  by_cases hin : later.1 < span.2
  · have hlt := Nat.lt_of_lt_of_le hin S.stop_le
    obtain ⟨xs, old, ys, rfl, _, h1, h2, _⟩ := H.exists_around hstart hlt
    have hmem : old ∈ xs ++ old :: ys := by simp
    have hle := hholds old hmem h1 h2
    rcases S.parts old hmem with hpart | hpart
    · left
      simp only [Regex.Span.Apart] at hpart ⊢
      omega
    · right
      simp only [Regex.Span.Within] at hpart ⊢
      omega
  · exact .inl (.inr (Nat.not_lt.mp hin))

theorem forall_mem_gap {P : Region → Prop} {a b : Nat} (h : a < b → P ⟨a, b, scope⟩) :
    ∀ r ∈ (if a < b then [⟨a, b, scope⟩] else []), P r := by
  split
  · exact List.forall_mem_singleton.mpr (h ‹_›)
  · exact fun _ hr => nomatch hr

theorem forall_mem_cut {P : Region → Prop} {old : Region}
    (front : old.start < span.1 → P ⟨old.start, span.1, old.scope⟩)
    (group : P ⟨span.1, span.2, scope⟩)
    (behind : span.2 < old.stop → P ⟨span.2, old.stop, old.scope⟩) :
    ∀ r ∈ old.cut span scope, P r := by
  simp only [Region.cut, List.forall_mem_append, List.forall_mem_singleton]
  exact ⟨⟨forall_mem_gap front, group⟩, forall_mem_gap behind⟩

/-- The parts of a region that is split lie in it, and so they are nested as it was. -/
theorem CutAlong.split {earlier : Regex.Span} {xs ys : List Region} {old : Region} {sc : Scope}
    (S : CutAlong position (xs ++ old :: ys) earlier) (h3 : old.start ≤ span.1)
    (hold : span.2 ≤ old.stop) (hlt : span.1 < span.2) :
    CutAlong position (xs ++ old.cut span sc ++ ys) earlier := by
  obtain ⟨hxs, hrest⟩ := List.forall_mem_append.mp S.parts
  obtain ⟨hpart, hys⟩ := List.forall_mem_cons.mp hrest
  have hin {a b : Nat} (h1 : old.start ≤ a) (h2 : b ≤ old.stop) : Nested earlier (a, b) := by
    simp only [Nested, Regex.Span.Apart, Regex.Span.Within] at hpart ⊢
    omega
  have hle := Nat.le_of_lt hlt
  have hcut : ∀ r ∈ old.cut span sc, Nested earlier (r.start, r.stop) :=
    forall_mem_cut (fun _ => hin (Nat.le_refl _) (Nat.le_trans hle hold)) (hin h3 hold)
      fun _ => hin (Nat.le_trans h3 hle) (Nat.le_refl _)
  exact ⟨S.stop_le, List.forall_mem_append.mpr ⟨List.forall_mem_append.mpr ⟨hxs, hcut⟩, hys⟩⟩

/-- Behind a capture the regions are cut along its group, and along each span that they were cut
along before. -/
theorem addCapture_cutAlong (hbare : capture.2.isBare = true) (hm : m.Inside text.size)
    (H : Tiles m.start position regions) (htaken : Pattern.takenSpan? m capture.1 = some span)
    (hstart : m.start ≤ span.1) (hholds : Holds regions span)
    (h : addCapture g (nestedHighlights engine g (depth + 1)) text scope m capture position
      regions = .ok (position', regions')) :
    CutAlong position' regions' span ∧
      ∀ earlier, CutAlong position regions earlier → CutAlong position' regions' earlier := by
  have hlt := takenSpan?_lt htaken
  have hwithin : Nested span (span.1, span.2) := .inr ⟨Nat.le_refl _, Nat.le_refl _⟩
  by_cases hin : span.1 < position
  · obtain ⟨xs, old, ys, rfl, hxs, h3, h4, hys, h'⟩ :=
      addCapture_split engine g depth scope hbare hm H htaken hstart hin
    cases h'.symm.trans h
    have hold := hholds old (by simp) h3 h4
    refine ⟨⟨Nat.le_trans hold hys.le, ?_⟩, fun earlier S => S.split h3 hold hlt⟩
    have hcut : ∀ r ∈ old.cut span (old.scope ++ capture.2.scopes.map .str),
        Nested span (r.start, r.stop) :=
      forall_mem_cut (fun _ => .inl (.inl (Nat.le_refl _))) hwithin
        fun _ => .inl (.inr (Nat.le_refl _))
    intro r hr
    rcases List.mem_append.mp hr with hr | hr
    · rcases List.mem_append.mp hr with hr | hr
      · exact .inl (.inl (Nat.le_trans (hxs.mem r hr).2.2 h3))
      · exact hcut r hr
    · exact .inl (.inr (Nat.le_trans hold (hys.mem r hr).1))
  · have hle := Nat.not_lt.mp hin
    cases (addCapture_behind engine g depth scope regions hbare hm htaken hle).symm.trans h
    refine ⟨⟨Nat.le_refl _, ?_⟩, fun earlier S => ⟨?_, ?_⟩⟩
    · simp only [List.forall_mem_append, List.forall_mem_singleton]
      refine ⟨⟨fun r hr => .inl (.inl ?_), forall_mem_gap fun _ => .inl (.inl (Nat.le_refl _))⟩,
        hwithin⟩
      exact Nat.le_trans (H.mem r hr).2.2 hle
    · exact Nat.le_trans S.stop_le (by omega)
    · simp only [List.forall_mem_append, List.forall_mem_singleton]
      exact ⟨⟨S.parts, forall_mem_gap fun _ => .inl (.inr S.stop_le)⟩,
        .inl (.inr (Nat.le_trans S.stop_le hle))⟩

/-- If there is room behind the captures, then their groups lie in the match and are nested. -/
theorem captureRegions_nested (hbare : ∀ c ∈ captures, c.2.isBare = true)
    (hm : m.Inside text.size) (H : Tiles m.start position regions) (hpos : position ≤ m.stop)
    (h : captureRegions g (nestedHighlights engine g (depth + 1)) text scope m captures position
      regions = .ok (position', regions')) (hroom : Room m position' regions') :
    (∀ x ∈ takenSpans m captures, Regex.Span.Within x.1 (m.start, m.stop) ∧
      ∀ earlier, CutAlong position regions earlier → Nested earlier x.1) ∧
    (takenSpans m captures).Pairwise fun earlier later => Nested earlier.1 later.1 := by
  induction captures generalizing position regions with
  | nil => exact ⟨fun _ hx => (nomatch hx), .nil⟩
  | cons capture rest ih =>
    have hfirst := hbare capture (List.mem_cons_self ..)
    have hrest : ∀ c ∈ rest, c.2.isBare = true := fun c hc =>
      hbare c (List.mem_cons_of_mem _ hc)
    obtain ⟨⟨position₁, regions₁⟩, hadd, h⟩ := bind_eq_ok.mp h
    cases htaken : Pattern.takenSpan? m capture.1 with
    | none =>
      cases (addCapture_none htaken).symm.trans hadd
      rw [takenSpans_cons_none htaken]
      exact ih hrest H hpos h
    | some span =>
      obtain ⟨hstart, hstop, hholds⟩ :=
        addCapture_room (fills_bare hbare) hm H htaken hadd
          (hroom.before (fills_bare hrest) hm h)
      obtain ⟨H₁, hpos₁, _⟩ := addCapture_tiles H hpos hm.stop_le
        (fun _ heq => by cases htaken.symm.trans heq; exact ⟨hstart, hstop, hholds⟩)
        (fun span compiled regs hs hc => demands_bare hbare _ _ (.here hs hc) _ _ _ rfl hc regs)
        hadd
      obtain ⟨hcut, hkept⟩ := addCapture_cutAlong hfirst hm H htaken hstart hholds hadd
      obtain ⟨hlater, hpairs⟩ := ih hrest H₁ hpos₁ h
      rw [takenSpans_cons_some htaken]
      constructor
      · refine List.forall_mem_cons.mpr ⟨⟨⟨hstart, hstop⟩, fun _ S => ?_⟩, fun x hx => ?_⟩
        · exact S.nested H hstart hholds
        · exact ⟨(hlater x hx).1, fun _ S => (hlater x hx).2 _ (hkept _ S)⟩
      · exact List.pairwise_cons.mpr ⟨fun x hx => (hlater x hx).2 _ hcut, hpairs⟩

/-! ## The regions of a match -/

theorem matchRegions_coverage {inner : Highlights}
    (h : matchRegions g inner text scope m captures = .ok regions) :
    ∃ position covered, captureRegions g inner text scope m captures m.start [] =
      .ok (position, covered) ∧
      ∀ x, coverage regions x = coverage covered x + stretch position m.stop x := by
  obtain ⟨⟨position, covered⟩, hcaptures, h⟩ := bind_eq_ok.mp h
  refine ⟨position, covered, hcaptures, fun x => ?_⟩
  have heq : regions =
      covered ++ if position < m.stop then [⟨position, m.stop, scope⟩] else [] := by
    simp only at h
    split at h
    · exact (pure_eq_ok.mp h).symm.trans (by rw [if_pos ‹_›])
    · exact (pure_eq_ok.mp h).symm.trans (by rw [if_neg ‹_›, List.append_nil])
  rw [heq, coverage_append, coverage_gap]

/-- There are regions of a match, unless the first of its groups begins in front of it. -/
theorem matchRegions_cases (engine : Regex.Engine) (g : Grammar) (depth : Nat) (scope : Scope)
    (hbare : ∀ c ∈ captures, c.2.isBare = true) (hm : m.Inside text.size) :
    ((∃ x, (takenSpans m captures).head? = some x ∧ x.1.1 < m.start) ∧
      matchRegions g (nestedHighlights engine g (depth + 1)) text scope m captures =
        .error .captureOrder) ∨
    ((∀ x, (takenSpans m captures).head? = some x → m.start ≤ x.1.1) ∧ ∃ regions,
      matchRegions g (nestedHighlights engine g (depth + 1)) text scope m captures =
        .ok regions) := by
  rcases captureRegions_cases engine g depth scope hbare hm with ⟨hfirst, h⟩ |
    ⟨hfirst, position, regions, h⟩
  · refine .inl ⟨hfirst, ?_⟩
    rw [matchRegions, h]
    rfl
  · refine .inr ⟨hfirst, ?_⟩
    simp only [matchRegions, h, ok_bind]
    split
    · exact ⟨_, rfl⟩
    · exact ⟨_, rfl⟩

/-- Regions of a match that do not cover any position twice, and none outside, are those of groups
that lie in it and are nested. -/
theorem nested_of_coverage_le (hbare : ∀ c ∈ captures, c.2.isBare = true)
    (hm : m.Inside text.size)
    (h : matchRegions g (nestedHighlights engine g (depth + 1)) text scope m captures = .ok regions)
    (hle : ∀ x, coverage regions x ≤ stretch m.start m.stop x) :
    (∀ x ∈ takenSpans m captures, Regex.Span.Within x.1 (m.start, m.stop)) ∧
      (takenSpans m captures).Pairwise fun earlier later => Nested earlier.1 later.1 := by
  obtain ⟨position, covered, hcaptures, hcoverage⟩ := matchRegions_coverage h
  have hroom : Room m position covered := fun x => hcoverage x ▸ hle x
  have hnone : Tiles m.start m.start [] := rfl
  obtain ⟨hinside, hnested⟩ :=
    captureRegions_nested hbare hm hnone hm.le_stop hcaptures hroom
  exact ⟨fun x hx => (hinside x hx).1, hnested⟩

/-- Under captures that only give scopes nested groups fit. -/
theorem fits_of_bare (hbare : ∀ c ∈ captures, c.2.isBare = true)
    (hnested : (takenSpans m captures).Pairwise fun earlier later => Nested earlier.1 later.1) :
    (takenSpans m captures).Pairwise Fits := by
  refine hnested.imp_of_mem fun {x _} hx _ h => ⟨h, fun hne => absurd ?_ hne⟩
  obtain ⟨capture, hmem, hx⟩ := List.mem_filterMap.mp hx
  obtain ⟨_, _, rfl⟩ := Option.map_eq_some_iff.mp hx
  have hrule := hbare capture hmem
  simp only [Rule.isBare, Bool.and_eq_true, List.isEmpty_iff] at hrule
  exact hrule.2

/-- Groups that lie in the match and are nested make regions side by side. -/
theorem tiles_of_nested (engine : Regex.Engine) (g : Grammar) (depth : Nat) (scope : Scope)
    (hbare : ∀ c ∈ captures, c.2.isBare = true) (hm : m.Inside text.size)
    (hinside : ∀ x ∈ takenSpans m captures, Regex.Span.Within x.1 (m.start, m.stop))
    (hnested : (takenSpans m captures).Pairwise fun earlier later => Nested earlier.1 later.1) :
    ∃ regions, matchRegions g (nestedHighlights engine g (depth + 1)) text scope m captures =
      .ok regions ∧ Tiles m.start m.stop regions := by
  have hsound : Use.Sound ⟨text, m.start, false, m, captures⟩ :=
    ⟨Nat.le_refl _, fun h => Bool.noConfusion h, hm.le_stop, hm.stop_le, hinside,
      fits_of_bare hbare hnested⟩
  have hanswers : Answers g (nestedHighlights engine g (depth + 1)) captures := answers_bare hbare
  obtain ⟨regions, h⟩ := matchRegions_total hsound (demands_bare hbare) hanswers
  exact ⟨regions, h, matchRegions_tiles hsound (demands_bare hbare) h⟩

end

/-- **When captures cover a match exactly once.** For every match in a text, look-arounds or not,
and for captures that only give scopes, in any order: there are regions unless the first of the
groups, in the order of the captures, begins in front of the match. They cover each position of the
match once, and no other, exactly if all groups lie in the match and each lies in the earlier ones
or apart from them; it is enough that no position is covered twice and none outside. Then they lie
side by side, in order. -/
theorem matchRegions_once_iff {engine : Regex.Engine} {g : Grammar} {depth : Nat}
    {text : Array Char} {scope : Scope} {m : Regex.Match} {captures : List (Int × Rule)}
    (hm : m.Inside text.size) (hbare : ∀ c ∈ captures, c.2.isBare = true) :
    (((∃ x, (takenSpans m captures).head? = some x ∧ x.1.1 < m.start) ∧
        matchRegions g (nestedHighlights engine g (depth + 1)) text scope m captures =
          .error .captureOrder) ∨
      ((∀ x, (takenSpans m captures).head? = some x → m.start ≤ x.1.1) ∧ ∃ regions,
        matchRegions g (nestedHighlights engine g (depth + 1)) text scope m captures =
          .ok regions)) ∧
    ((∃ regions, matchRegions g (nestedHighlights engine g (depth + 1)) text scope m captures =
        .ok regions ∧ ∀ x, coverage regions x = stretch m.start m.stop x) ↔
      (∀ x ∈ takenSpans m captures, Regex.Span.Within x.1 (m.start, m.stop)) ∧
        (takenSpans m captures).Pairwise fun earlier later => Nested earlier.1 later.1) ∧
    ∀ regions, matchRegions g (nestedHighlights engine g (depth + 1)) text scope m captures =
      .ok regions → (∀ x, coverage regions x ≤ stretch m.start m.stop x) →
        Tiles m.start m.stop regions := by
  refine ⟨matchRegions_cases engine g depth scope hbare hm, ⟨fun ⟨regions, h, honce⟩ => ?_,
    fun ⟨hinside, hnested⟩ => ?_⟩, fun regions h hle => ?_⟩
  · exact nested_of_coverage_le hbare hm h fun x => Nat.le_of_eq (honce x)
  · obtain ⟨regions, h, H⟩ := tiles_of_nested engine g depth scope hbare hm hinside hnested
    exact ⟨regions, h, fun _ => H.coverage_eq⟩
  · obtain ⟨hinside, hnested⟩ := nested_of_coverage_le hbare hm h hle
    obtain ⟨regions', h', H⟩ := tiles_of_nested engine g depth scope hbare hm hinside hnested
    cases h.symm.trans h'
    exact H

/-- A grammar without rules, for matches that stand by themselves. -/
def emptyGrammar : Grammar where
  scopeName := .str "text.empty"
  patterns := []
  repository := []

/-- Groups that are named from the right to the left, one of them in another. -/
theorem matchRegions_once_backward : ∃ regions,
    matchRegions emptyGrammar (nestedHighlights .standard emptyGrammar 1) "abcd".toList.toArray
      [.str "text.empty"] ⟨0, 4, [some (2, 4), some (2, 3), some (0, 1)]⟩
      [(1, { scopes := ["outer"] }), (2, { scopes := ["inner"] }), (3, { scopes := ["first"] })] =
        .ok regions ∧ Tiles 0 4 regions := by
  have hm : Regex.Match.Inside "abcd".toList.toArray.size
      ⟨0, 4, [some (2, 4), some (2, 3), some (0, 1)]⟩ :=
    ⟨by decide, by decide, by simp⟩
  have hbare : ∀ c ∈ ([(1, { scopes := ["outer"] }), (2, { scopes := ["inner"] }),
      (3, { scopes := ["first"] })] : List (Int × Rule)), c.2.isBare = true := by
    decide
  obtain ⟨_, hiff, htiles⟩ :=
    @matchRegions_once_iff .standard emptyGrammar 0 _ [.str "text.empty"] _ _ hm hbare
  obtain ⟨regions, h, honce⟩ := hiff.mpr ⟨by
    simp [takenSpans, Pattern.takenSpan?, Pattern.groupSpan?, Regex.Span.Within], by
    simp [takenSpans, Pattern.takenSpan?, Pattern.groupSpan?, Nested, Regex.Span.Within,
      Regex.Span.Apart]⟩
  exact ⟨regions, h, htiles regions h fun x => Nat.le_of_eq (honce x)⟩

/-- A group in a look-ahead is covered although it lies behind the match, and for one in a
look-behind there is no region to split. -/
theorem matchRegions_looking :
    (Pattern.find .standard ⟨true, true⟩ (.str "a(?=(b))") "ab".toList.toArray 0 =
        .ok (some ⟨0, 1, [some (1, 2)]⟩) ∧
      ∃ regions, matchRegions emptyGrammar (nestedHighlights .standard emptyGrammar 1)
        "ab".toList.toArray [.str "text.empty"] ⟨0, 1, [some (1, 2)]⟩
        [(1, { scopes := ["ahead"] })] = .ok regions ∧ coverage regions 1 = 1) ∧
    Pattern.find .standard ⟨true, true⟩ (.str "(?<=(a))b") "ab".toList.toArray 0 =
        .ok (some ⟨1, 2, [some (0, 1)]⟩) ∧
      matchRegions emptyGrammar (nestedHighlights .standard emptyGrammar 1)
        "ab".toList.toArray [.str "text.empty"] ⟨1, 2, [some (0, 1)]⟩
        [(1, { scopes := ["behind"] })] = .error .captureOrder := by
  refine ⟨⟨toOption_eq_some.mp (by decide +kernel), ?_⟩,
    toOption_eq_some.mp (by decide +kernel), ?_⟩
  · have hrun : (do
        let regions ← matchRegions emptyGrammar (nestedHighlights .standard emptyGrammar 1)
          "ab".toList.toArray [.str "text.empty"] ⟨0, 1, [some (1, 2)]⟩
          [(1, { scopes := ["ahead"] })]
        return coverage regions 1 : Outcome Nat).toOption = some 1 := by
      decide +kernel
    obtain ⟨regions, h, hcovered⟩ := bind_eq_ok.mp (toOption_eq_some.mp hrun)
    exact ⟨regions, h, pure_eq_ok.mp hcovered⟩
  · rfl

end Rubric
