import Rubric.Proofs.Line.Tiles

/-!
# The regions of a match

The regions of a match cover it if the match is `Use.Sound`: it lies where it was searched for, and
the groups that its captures name are nested. The one place where that could fail is a group that
begins inside of what is covered already. The groups before it decide whether the region that it
begins in is large enough for it (`Holds`), and each of them leaves room for those that fit it.
-/

namespace Rubric

/-- The groups that captures name, as far as they took part and are not empty, each with its rule,
in the order of the captures. -/
def takenSpans (m : Regex.Match) (captures : List (Int × Rule)) : List (Regex.Span × Rule) :=
  captures.filterMap fun capture =>
    (Pattern.takenSpan? m capture.1).map fun span => (span, capture.2)

/-- The first span lies in the second. -/
def Regex.Span.Within (x y : Regex.Span) : Prop :=
  y.1 ≤ x.1 ∧ x.2 ≤ y.2

/-- The spans have no position in common. -/
def Regex.Span.Apart (x y : Regex.Span) : Prop :=
  x.2 ≤ y.1 ∨ y.2 ≤ x.1

/-- A group fits a group of an earlier capture: it lies in it or apart from it, and apart from it if
the earlier one has rules for its text. -/
def Fits (earlier later : Regex.Span × Rule) : Prop :=
  (Regex.Span.Apart later.1 earlier.1 ∨ Regex.Span.Within later.1 earlier.1) ∧
    (earlier.2.children ≠ [] → ¬ Regex.Span.Within later.1 earlier.1)

/-- The match lies where it was searched for, and the groups that its captures name are nested. -/
structure Use.Sound (u : Use) : Prop where
  position_le : u.position ≤ u.found.start
  start_eq : u.fixed = true → u.found.start = u.position
  start_le : u.found.start ≤ u.found.stop
  stop_le : u.found.stop ≤ u.text.size
  inside : ∀ x ∈ takenSpans u.found u.captures, u.found.start ≤ x.1.1 ∧ x.1.2 ≤ u.found.stop
  nested : (takenSpans u.found u.captures).Pairwise Fits

/-- The region that the span begins in, if there is one, holds all of it. -/
def Holds (regions : List Region) (span : Regex.Span) : Prop :=
  ∀ r ∈ regions, r.start ≤ span.1 → span.1 < r.stop → span.2 ≤ r.stop

theorem takenSpan?_lt {m : Regex.Match} {index : Int} {span : Regex.Span}
    (h : Pattern.takenSpan? m index = some span) : span.1 < span.2 := by
  unfold Pattern.takenSpan? at h
  split at h
  · split at h
    · cases h; assumption
    · cases h
  · cases h

theorem takenSpans_lt {m : Regex.Match} {captures : List (Int × Rule)} :
    ∀ x ∈ takenSpans m captures, x.1.1 < x.1.2 := by
  intro x hx
  obtain ⟨capture, _, hx⟩ := List.mem_filterMap.mp hx
  obtain ⟨span, hs, rfl⟩ := Option.map_eq_some_iff.mp hx
  exact takenSpan?_lt hs

section
variable {g : Grammar} {inner : Highlights} {text : Array Char} {scope : Scope} {m : Regex.Match}

/-- A text that a capture takes for itself, highlighted as the captures demand it: its regions cover
it, and a rule without children leaves it in one piece. -/
structure Covers (rule : Rule) (t : Array Char) (regions : List Region) : Prop where
  tiles : Tiles 0 t.size regions
  whole : rule.children = [] → 0 < t.size → ∃ scope, regions = [⟨0, t.size, scope⟩]

theorem nestedRegions_tiles {rule : Rule} {compiled : CompiledRule} {span : Regex.Span}
    {nested : List Region} (hlt : span.1 < span.2) (hle : span.2 ≤ text.size)
    (hinner : ∀ regions, inner (text.extract span.1 span.2) (compiled.start scope) = .ok regions →
      Covers rule (text.extract span.1 span.2) regions)
    (h : nestedRegions inner text span scope compiled = .ok nested) :
    Tiles span.1 span.2 nested ∧
      (rule.children = [] → ∃ scope', nested = [⟨span.1, span.2, scope'⟩]) := by
  obtain ⟨regions, hr, h⟩ := bind_eq_ok.mp h
  cases pure_eq_ok.mp h
  have hsize : (text.extract span.1 span.2).size = span.2 - span.1 := by
    simp only [Array.size_extract]; omega
  have hstop : span.2 - span.1 + span.1 = span.2 := by omega
  have H := hinner _ hr
  constructor
  · have := H.tiles.shift span.1
    rwa [hsize, hstop, Nat.zero_add] at this
  · intro hc
    obtain ⟨scope', rfl⟩ := H.whole hc (by omega)
    exact ⟨scope', by simp [Region.shift, hsize, hstop]⟩

/-- A later group that fits keeps inside of the regions of a group. -/
theorem holds_nested {rule : Rule} {span : Regex.Span} {nested : List Region}
    (H : Tiles span.1 span.2 nested)
    (hwhole : rule.children = [] → ∃ scope', nested = [⟨span.1, span.2, scope'⟩])
    {later : Regex.Span × Rule} (hlt : later.1.1 < later.1.2) (hf : Fits (span, rule) later) :
    Holds nested later.1 := by
  intro r hr h1 h2
  have hmem := H.mem r hr
  have hin : Regex.Span.Within later.1 span := by
    rcases hf.1 with h | h
    · simp only [Regex.Span.Apart] at h; omega
    · exact h
  by_cases hc : rule.children = []
  · obtain ⟨scope', rfl⟩ := hwhole hc
    cases List.mem_singleton.mp hr
    exact hin.2
  · exact absurd hin (hf.2 hc)

/-- A later group that fits keeps inside of the piece that ends where a group begins. -/
theorem holds_before {a : Nat} {sc : Scope} {rule : Rule} {span : Regex.Span}
    {later : Regex.Span × Rule} (hspan : span.1 < span.2) (hf : Fits (span, rule) later) :
    Holds (if a < span.1 then [⟨a, span.1, sc⟩] else []) later.1 := by
  intro r hr _ h2
  split at hr
  · cases List.mem_singleton.mp hr
    have := hf.1
    simp only [Regex.Span.Apart, Regex.Span.Within] at this
    simp only at h2 ⊢
    omega
  · cases hr

theorem Holds.append {xs ys : List Region} {span : Regex.Span} (hx : Holds xs span)
    (hy : Holds ys span) : Holds (xs ++ ys) span := by
  intro r hr
  rcases List.mem_append.mp hr with h | h
  · exact hx r h
  · exact hy r h

theorem Holds.of_append {xs ys : List Region} {span : Regex.Span} (h : Holds (xs ++ ys) span) :
    Holds xs span ∧ Holds ys span :=
  ⟨fun r hr => h r (List.mem_append_left _ hr), fun r hr => h r (List.mem_append_right _ hr)⟩

/-! ## What one capture does -/

/-- The region with others in the place of a group: what lies of it in front of the group and behind
the group stays. -/
def Region.replace (old : Region) (span : Regex.Span) (nested : List Region) : List Region :=
  (if old.start < span.1 then [⟨old.start, span.1, old.scope⟩] else []) ++ nested ++
    (if span.2 < old.stop then [⟨span.2, old.stop, old.scope⟩] else [])

/-- What a capture makes of the regions before it: those of its group take the place of a part of
one region, or they are put behind what is covered. -/
inductive Region.Added (scope : Scope) (span : Regex.Span) (nested : List Region) (position : Nat)
    (regions : List Region) : Nat → List Region → Prop
  | inside : span.1 < position → regions = xs ++ old :: ys →
    xs.length = regionIndex span.1 regions (regions.length - 1) →
    Added scope span nested position regions position (xs ++ old.replace span nested ++ ys)
  | behind : position ≤ span.1 →
    Added scope span nested position regions span.2
      (regions ++ (if position < span.1 then [⟨position, span.1, scope⟩] else []) ++ nested)

theorem addCapture_none {capture : Int × Rule} {position : Nat} {regions : List Region}
    (h : Pattern.takenSpan? m capture.1 = none) :
    addCapture g inner text scope m capture position regions = .ok (position, regions) := by
  rw [addCapture, h]

/-- A capture whose group took part makes its rule ready, highlights the text of the group and adds
the regions that it gets for it. -/
theorem addCapture_some {capture : Int × Rule} {span : Regex.Span} {position position' : Nat}
    {regions regions' : List Region} (htaken : Pattern.takenSpan? m capture.1 = some span)
    (h : addCapture g inner text scope m capture position regions = .ok (position', regions')) :
    ∃ compiled nested, g.compileRule capture.2 = .ok compiled ∧
      nestedRegions inner text span (groupScope scope position regions span) compiled =
        .ok nested ∧
      Region.Added scope span nested position regions position' regions' := by
  simp only [addCapture, htaken] at h
  obtain ⟨compiled, hcomp, h⟩ := bind_eq_ok.mp h
  refine ⟨compiled, ?_⟩
  by_cases hin : span.1 < position
  · rw [if_pos hin] at h
    obtain ⟨replaced, hsplit, h⟩ := bind_eq_ok.mp h
    cases pure_eq_ok.mp h
    simp only [splitRegion] at hsplit
    split at hsplit
    · cases hsplit
    · next old hold =>
      obtain ⟨nested, hnested, hsplit⟩ := bind_eq_ok.mp hsplit
      cases pure_eq_ok.mp hsplit
      obtain ⟨hlt, hget⟩ := List.getElem?_eq_some_iff.mp hold
      have hscope : groupScope scope position regions span = old.scope := by
        simp only [groupScope, if_pos hin, hold]
      refine ⟨nested, hcomp, by rwa [hscope], .inside hin ?_ ?_⟩
      · rw [← hget, List.getElem_cons_drop, List.take_append_drop]
      · exact List.length_take_of_le (Nat.le_of_lt hlt)
  · rw [if_neg hin] at h
    obtain ⟨nested, hnested, h⟩ := bind_eq_ok.mp h
    cases pure_eq_ok.mp h
    have hscope : groupScope scope position regions span = scope := if_neg hin
    exact ⟨nested, hcomp, by rwa [hscope], .behind (Nat.not_lt.mp hin)⟩

/-- The regions of a group that keeps to one of the regions before it are added to these without a
gap and without an overlap. -/
theorem Region.Added.tiles {span : Regex.Span} {a position position' : Nat}
    {nested regions regions' : List Region}
    (h : Region.Added scope span nested position regions position' regions')
    (H : Tiles a position regions) (hnested : Tiles span.1 span.2 nested) (hstart : a ≤ span.1)
    (hholds : Holds regions span) : Tiles a position' regions' := by
  cases h with
  | @inside xs old ys hin heq hindex =>
    obtain ⟨hxs, h3, h4, hys⟩ := H.around hstart hin heq hindex
    have hold := hholds old (by simp [heq]) h3 h4
    exact (hxs.append (((Tiles.gap old.scope h3).append hnested).append
      (Tiles.gap old.scope hold))).append hys
  | behind hle => exact (H.append (Tiles.gap scope hle)).append hnested

/-- What one capture makes of regions that cover the match as far as a position. -/
theorem addCapture_tiles {capture : Int × Rule} {position position' : Nat}
    {regions regions' : List Region} (H : Tiles m.start position regions)
    (hpos : position ≤ m.stop) (hstop : m.stop ≤ text.size)
    (hspan : ∀ span, Pattern.takenSpan? m capture.1 = some span →
      m.start ≤ span.1 ∧ span.2 ≤ m.stop ∧ Holds regions span)
    (hinner : ∀ span compiled regs, Pattern.takenSpan? m capture.1 = some span →
      g.compileRule capture.2 = .ok compiled →
      inner (text.extract span.1 span.2)
        (compiled.start (groupScope scope position regions span)) = .ok regs →
      Covers capture.2 (text.extract span.1 span.2) regs)
    (h : addCapture g inner text scope m capture position regions = .ok (position', regions')) :
    Tiles m.start position' regions' ∧ position' ≤ m.stop ∧
      ∀ later : Regex.Span × Rule, later.1.1 < later.1.2 → Holds regions later.1 →
        (∀ span, Pattern.takenSpan? m capture.1 = some span → Fits (span, capture.2) later) →
        Holds regions' later.1 := by
  cases htaken : Pattern.takenSpan? m capture.1 with
  | none =>
    cases (addCapture_none htaken).symm.trans h
    exact ⟨H, hpos, fun _ _ h _ => h⟩
  | some span =>
    obtain ⟨hstart, hend, hholds⟩ := hspan span htaken
    have hlt := takenSpan?_lt htaken
    obtain ⟨compiled, nested, hcomp, hnested, hadded⟩ := addCapture_some htaken h
    obtain ⟨ht, hwhole⟩ := nestedRegions_tiles hlt (Nat.le_trans hend hstop)
      (fun regs => hinner span compiled regs htaken hcomp) hnested
    refine ⟨hadded.tiles H ht hstart hholds, ?_⟩
    cases hadded with
    | @inside xs old ys hin heq hindex =>
      subst heq
      refine ⟨hpos, fun later hlater hh hf => ?_⟩
      obtain ⟨hhx, hhy⟩ := hh.of_append
      have hho := hhy old (List.mem_cons_self ..)
      refine (hhx.append (((holds_before hlt (hf span rfl)).append
        (holds_nested ht hwhole hlater (hf span rfl))).append ?_)).append
        fun r hr => hhy r (List.mem_cons_of_mem _ hr)
      obtain ⟨_, h3, _, _⟩ := H.around hstart hin rfl hindex
      intro r hr h5 h6
      split at hr
      · cases List.mem_singleton.mp hr
        exact hho (by simp only at h5; omega) h6
      · cases hr
    | behind hle =>
      refine ⟨hend, fun later hlater hh hf => ?_⟩
      exact (hh.append (holds_before hlt (hf span rfl))).append
        (holds_nested ht hwhole hlater (hf span rfl))

theorem takenSpans_cons_none {capture : Int × Rule} {rest : List (Int × Rule)}
    (h : Pattern.takenSpan? m capture.1 = none) :
    takenSpans m (capture :: rest) = takenSpans m rest := by
  simp [takenSpans, h]

theorem takenSpans_cons_some {capture : Int × Rule} {rest : List (Int × Rule)}
    {span : Regex.Span} (h : Pattern.takenSpan? m capture.1 = some span) :
    takenSpans m (capture :: rest) = (span, capture.2) :: takenSpans m rest := by
  simp [takenSpans, h]

/-- Where the groups of captures are nested, the first can have its regions, and where it leaves
room the others can. -/
theorem takenSpans_cons {capture : Int × Rule} {rest : List (Int × Rule)} {regions : List Region}
    (hinside : ∀ x ∈ takenSpans m (capture :: rest), m.start ≤ x.1.1 ∧ x.1.2 ≤ m.stop)
    (hnested : (takenSpans m (capture :: rest)).Pairwise Fits)
    (hholds : ∀ x ∈ takenSpans m (capture :: rest), Holds regions x.1) :
    (∀ span, Pattern.takenSpan? m capture.1 = some span →
      m.start ≤ span.1 ∧ span.2 ≤ m.stop ∧ Holds regions span) ∧
    ∀ regions', (∀ later : Regex.Span × Rule, later.1.1 < later.1.2 → Holds regions later.1 →
        (∀ span, Pattern.takenSpan? m capture.1 = some span → Fits (span, capture.2) later) →
        Holds regions' later.1) →
      (∀ x ∈ takenSpans m rest, m.start ≤ x.1.1 ∧ x.1.2 ≤ m.stop) ∧
        (takenSpans m rest).Pairwise Fits ∧ ∀ x ∈ takenSpans m rest, Holds regions' x.1 := by
  cases hs : Pattern.takenSpan? m capture.1 with
  | none =>
    rw [takenSpans_cons_none hs] at hinside hnested hholds
    have hno {P : Regex.Span → Prop} (span : Regex.Span) (h : none = some span) : P span := by
      cases h
    exact ⟨hno, fun regions' hkeep => ⟨hinside, hnested, fun x hx =>
      hkeep x (takenSpans_lt x hx) (hholds x hx) hno⟩⟩
  | some span =>
    rw [takenSpans_cons_some hs] at hinside hnested hholds
    have hfirst := List.mem_cons_self (a := (span, capture.2)) (l := takenSpans m rest)
    obtain ⟨hfits, hrest⟩ := List.pairwise_cons.mp hnested
    refine ⟨fun span' h => ?_, fun regions' hkeep => ⟨fun x hx =>
      hinside x (List.mem_cons_of_mem _ hx), hrest, fun x hx => ?_⟩⟩
    · cases h
      exact ⟨(hinside _ hfirst).1, (hinside _ hfirst).2, hholds _ hfirst⟩
    · apply hkeep x (takenSpans_lt x hx) (hholds x (List.mem_cons_of_mem _ hx))
      intro span' h
      cases h
      exact hfits x hx

/-- Each text that the captures take for themselves comes out as its rule demands. -/
def Demands (g : Grammar) (inner : Highlights) (text : Array Char) (scope : Scope)
    (m : Regex.Match) (captures : List (Int × Rule)) (position : Nat) (regions : List Region) :
    Prop :=
  ∀ t s, Nests g inner text scope m captures position regions t s →
    ∀ rule compiled sc, s = compiled.start sc → g.compileRule rule = .ok compiled →
      ∀ regs, inner t s = .ok regs → Covers rule t regs

theorem captureRegions_tiles {captures : List (Int × Rule)} {position position' : Nat}
    {regions regions' : List Region} (H : Tiles m.start position regions)
    (hpos : position ≤ m.stop) (hstop : m.stop ≤ text.size)
    (hinside : ∀ x ∈ takenSpans m captures, m.start ≤ x.1.1 ∧ x.1.2 ≤ m.stop)
    (hnested : (takenSpans m captures).Pairwise Fits)
    (hholds : ∀ x ∈ takenSpans m captures, Holds regions x.1)
    (hinner : Demands g inner text scope m captures position regions)
    (h : captureRegions g inner text scope m captures position regions =
      .ok (position', regions')) :
    Tiles m.start position' regions' ∧ position' ≤ m.stop := by
  induction captures generalizing position regions with
  | nil =>
    cases h
    exact ⟨H, hpos⟩
  | cons capture rest ih =>
    obtain ⟨⟨position₁, regions₁⟩, hadd, h⟩ := bind_eq_ok.mp h
    obtain ⟨hspan, hrest⟩ := takenSpans_cons hinside hnested hholds
    obtain ⟨H₁, hpos₁, hkeep⟩ := addCapture_tiles H hpos hstop hspan
      (fun span compiled regs hs hc => hinner _ _ (.here hs hc) _ _ _ rfl hc regs) hadd
    obtain ⟨hinside', hnested', hholds'⟩ := hrest regions₁ hkeep
    exact ih H₁ hpos₁ hinside' hnested' hholds' (fun t s hn => hinner t s (.later hadd hn)) h

/-- The texts that captures take for themselves can be highlighted. -/
def Answers (g : Grammar) (inner : Highlights) (captures : List (Int × Rule)) : Prop :=
  ∀ capture ∈ captures, ∃ compiled, g.compileRule capture.2 = .ok compiled ∧
    ∀ t sc, ∃ regions, inner t (compiled.start sc) = .ok regions

theorem addCapture_total (text : Array Char) (scope : Scope) {capture : Int × Rule}
    {compiled : CompiledRule} {position : Nat} {regions : List Region}
    (H : Tiles m.start position regions)
    (hspan : ∀ span, Pattern.takenSpan? m capture.1 = some span → m.start ≤ span.1)
    (hcomp : g.compileRule capture.2 = .ok compiled)
    (hinner : ∀ t sc, ∃ regions, inner t (compiled.start sc) = .ok regions) :
    ∃ position' regions',
      addCapture g inner text scope m capture position regions = .ok (position', regions') := by
  have hnested (span : Regex.Span) (sc : Scope) :
      ∃ nested, nestedRegions inner text span sc compiled = .ok nested := by
    obtain ⟨regs, hregs⟩ := hinner (text.extract span.1 span.2) sc
    exact ⟨_, bind_eq_ok.mpr ⟨regs, hregs, rfl⟩⟩
  unfold addCapture
  cases htaken : Pattern.takenSpan? m capture.1 with
  | none => exact ⟨_, _, rfl⟩
  | some span =>
    simp only [hcomp, ok_bind]
    by_cases hin : span.1 < position
    · obtain ⟨xs, old, ys, _, _, _, _, _, _, heq⟩ :=
        H.splitRegion_eq (hspan span htaken) hin inner text scope compiled
      obtain ⟨nested, hn⟩ := hnested span old.scope
      rw [if_pos hin, heq, hn]
      exact ⟨_, _, rfl⟩
    · obtain ⟨nested, hn⟩ := hnested span scope
      rw [if_neg hin, hn]
      exact ⟨_, _, rfl⟩

theorem captureRegions_total {captures : List (Int × Rule)} {position : Nat}
    {regions : List Region} (H : Tiles m.start position regions) (hpos : position ≤ m.stop)
    (hstop : m.stop ≤ text.size)
    (hinside : ∀ x ∈ takenSpans m captures, m.start ≤ x.1.1 ∧ x.1.2 ≤ m.stop)
    (hnested : (takenSpans m captures).Pairwise Fits)
    (hholds : ∀ x ∈ takenSpans m captures, Holds regions x.1)
    (hinner : Demands g inner text scope m captures position regions)
    (hanswers : Answers g inner captures) :
    ∃ position' regions',
      captureRegions g inner text scope m captures position regions =
        .ok (position', regions') := by
  induction captures generalizing position regions with
  | nil => exact ⟨position, regions, rfl⟩
  | cons capture rest ih =>
    obtain ⟨compiled, hcomp, hstart⟩ := hanswers capture (List.mem_cons_self ..)
    obtain ⟨hspan, hrest⟩ := takenSpans_cons hinside hnested hholds
    obtain ⟨position₁, regions₁, hadd⟩ := addCapture_total text scope H
      (fun span hs => (hspan span hs).1) hcomp hstart
    obtain ⟨H₁, hpos₁, hkeep⟩ := addCapture_tiles H hpos hstop hspan
      (fun span compiled regs hs hc => hinner _ _ (.here hs hc) _ _ _ rfl hc regs) hadd
    obtain ⟨hinside', hnested', hholds'⟩ := hrest regions₁ hkeep
    obtain ⟨position', regions', h⟩ := ih H₁ hpos₁ hinside' hnested' hholds'
      (fun t s hn => hinner t s (.later hadd hn))
      fun c hc => hanswers c (List.mem_cons_of_mem _ hc)
    exact ⟨position', regions', bind_eq_ok.mpr ⟨_, hadd, h⟩⟩

/-- The regions of a match cover it. -/
theorem matchRegions_tiles {u : Use} {regions : List Region} (hu : u.Sound)
    (hinner : Demands g inner u.text scope u.found u.captures u.found.start [])
    (h : matchRegions g inner u.text scope u.found u.captures = .ok regions) :
    Tiles u.found.start u.found.stop regions := by
  obtain ⟨⟨position, regions₁⟩, hcaptures, h⟩ := bind_eq_ok.mp h
  have hnone : Tiles u.found.start u.found.start [] := rfl
  obtain ⟨H, hpos⟩ := captureRegions_tiles hnone hu.start_le hu.stop_le hu.inside hu.nested
    (fun _ _ _ hr => nomatch hr) hinner hcaptures
  simp only at h
  split at h
  · cases pure_eq_ok.mp h
    exact H.append (.single scope ‹_›)
  · cases pure_eq_ok.mp h
    rwa [← Nat.le_antisymm hpos (Nat.not_lt.mp ‹_›)]

theorem matchRegions_total {u : Use} (hu : u.Sound)
    (hinner : Demands g inner u.text scope u.found u.captures u.found.start [])
    (hanswers : Answers g inner u.captures) :
    ∃ regions, matchRegions g inner u.text scope u.found u.captures = .ok regions := by
  have hnone : Tiles u.found.start u.found.start [] := rfl
  obtain ⟨position, regions, h⟩ := captureRegions_total hnone hu.start_le hu.stop_le hu.inside
    hu.nested (fun _ _ _ hr => nomatch hr) hinner hanswers
  unfold matchRegions
  simp only [h, ok_bind]
  split
  · exact ⟨_, rfl⟩
  · exact ⟨_, rfl⟩

end

end Rubric
