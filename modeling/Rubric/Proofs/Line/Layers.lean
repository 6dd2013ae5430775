import Rubric.Proofs.Line.Coverage

/-!
# The scopes that captures give

Where captures only give scopes, and the groups lie in the match and are nested, each position of
the match gets the scopes of all groups that it lies in, in the order of the captures
(`matchRegions_scope`). The captures that are done have cut the regions so finely that all
positions of a region lie in the same of their groups (`Layered`); the group of one more capture
takes the place of a part of one region, or is put behind them all.
-/

namespace Rubric

/-- The position lies in the group of that number, which took part. -/
def Regex.Match.covers (m : Regex.Match) (index : Int) (x : Nat) : Bool :=
  match Pattern.groupSpan? m index with
  | some (some span) => span.1 ≤ x && x < span.2
  | _ => false

/-- The scopes of all captures whose groups the position lies in, in order. -/
def captureScopes (m : Regex.Match) (captures : List (Int × Rule)) (x : Nat) : Scope :=
  (captures.filter fun capture => m.covers capture.1 x).flatMap fun capture =>
    capture.2.scopes.map .str

section
variable {m : Regex.Match} {index : Int} {span : Regex.Span} {capture : Int × Rule}
  {captures done : List (Int × Rule)} {x : Nat}

theorem covers_of_none (h : Pattern.takenSpan? m index = none) : m.covers index x = false := by
  rcases hgroup : Pattern.groupSpan? m index with _ | _ | span
  · simp only [Regex.Match.covers, hgroup]
  · simp only [Regex.Match.covers, hgroup]
  · have hempty : ¬ span.1 < span.2 := by
      simpa [Pattern.takenSpan?, hgroup] using h
    simp only [Regex.Match.covers, hgroup, Bool.and_eq_false_iff, decide_eq_false_iff_not]
    omega

theorem covers_of_some (h : Pattern.takenSpan? m index = some span) :
    m.covers index x = (decide (span.1 ≤ x) && decide (x < span.2)) := by
  rcases hgroup : Pattern.groupSpan? m index with _ | _ | group
  · simp only [Pattern.takenSpan?, hgroup] at h
    cases h
  · simp only [Pattern.takenSpan?, hgroup] at h
    cases h
  · have hspan : group = span := by
      simp only [Pattern.takenSpan?, hgroup, Option.ite_none_right_eq_some, Option.some.injEq] at h
      exact h.2
    simp only [Regex.Match.covers, hgroup, hspan]

theorem captureScopes_concat (hx : m.covers capture.1 x = true) :
    captureScopes m (done ++ [capture]) x =
      captureScopes m done x ++ capture.2.scopes.map .str := by
  simp [captureScopes, List.filter_append, hx]

theorem captureScopes_concat_of_not (hx : m.covers capture.1 x = false) :
    captureScopes m (done ++ [capture]) x = captureScopes m done x := by
  simp [captureScopes, List.filter_append, hx]

/-- No group reaches a position behind them all. -/
theorem captureScopes_eq_nil
    (h : ∀ c ∈ captures, ∀ span, Pattern.takenSpan? m c.1 = some span → span.2 ≤ x) :
    captureScopes m captures x = [] := by
  have hnone : captures.filter (fun c => m.covers c.1 x) = [] := by
    refine List.filter_eq_nil_iff.mpr fun c hc => ?_
    cases htaken : Pattern.takenSpan? m c.1 with
    | none => simp [covers_of_none htaken]
    | some span =>
      have := h c hc span htaken
      simp only [covers_of_some htaken, Bool.and_eq_true, decide_eq_true_eq]
      omega
  rw [captureScopes, hnone]
  rfl

end

/-- The regions that the captures have made so far lie side by side up to the position, which no
group passes. Each position gets the scopes of the groups that it lies in. -/
structure Layered (scope : Scope) (m : Regex.Match) (done : List (Int × Rule)) (position : Nat)
    (regions : List Region) : Prop where
  tiles : Tiles m.start position regions
  stop_le : ∀ c ∈ done, ∀ span, Pattern.takenSpan? m c.1 = some span → span.2 ≤ position
  scope : ∀ r ∈ regions, ∀ x, r.start ≤ x → x < r.stop → r.scope = scope ++ captureScopes m done x

section
variable {engine : Regex.Engine} {g : Grammar} {depth : Nat} {text : Array Char} {scope : Scope}
  {m : Regex.Match} {span : Regex.Span} {capture : Int × Rule} {captures done : List (Int × Rule)}
  {position position' : Nat} {regions regions' : List Region}

/-- A group that begins inside of the regions gets its scopes on top of those of the region that it
lies in. -/
theorem Layered.inside {xs ys : List Region} {old : Region}
    (L : Layered scope m done position regions)
    (htaken : Pattern.takenSpan? m capture.1 = some span)
    (heq : regions = xs ++ old :: ys) (hxs : Tiles m.start old.start xs) (h3 : old.start ≤ span.1)
    (hold : span.2 ≤ old.stop) (hys : Tiles old.stop position ys) :
    Layered scope m (done ++ [capture]) position
      (xs ++ old.cut span (old.scope ++ capture.2.scopes.map .str) ++ ys) := by
  subst heq
  have hlt := takenSpan?_lt htaken
  obtain ⟨hxscope, hscope⟩ := List.forall_mem_append.mp L.scope
  obtain ⟨holdscope, hyscope⟩ := List.forall_mem_cons.mp hscope
  have houtside (x : Nat) (hx : x < span.1 ∨ span.2 ≤ x) :
      captureScopes m (done ++ [capture]) x = captureScopes m done x := by
    apply captureScopes_concat_of_not
    rw [covers_of_some htaken, Bool.and_eq_false_iff]
    simp only [decide_eq_false_iff_not]
    omega
  refine ⟨?_, ?_, List.forall_mem_append.mpr ⟨List.forall_mem_append.mpr ⟨?_, ?_⟩, ?_⟩⟩
  · have hgroup : Tiles span.1 span.2
        [⟨span.1, span.2, old.scope ++ capture.2.scopes.map .str⟩] := .single _ hlt
    exact (hxs.append (((Tiles.gap old.scope h3).append hgroup).append
      (Tiles.gap old.scope hold))).append hys
  · refine List.forall_mem_append.mpr ⟨L.stop_le, List.forall_mem_singleton.mpr fun span' h => ?_⟩
    cases htaken.symm.trans h
    exact Nat.le_trans hold hys.le
  · intro r hr x h1 h2
    rw [hxscope r hr x h1 h2, houtside x (.inl ?_)]
    have := (hxs.mem r hr).2.2
    omega
  · refine forall_mem_cut (fun _ x h1 h2 => ?_) (fun x h1 h2 => ?_) fun _ x h1 h2 => ?_
    · simp only at h1 h2 ⊢
      rw [holdscope x (by omega) (by omega), houtside x (.inl h2)]
    · simp only at h1 h2 ⊢
      rw [holdscope x (by omega) (by omega), captureScopes_concat, List.append_assoc]
      simp [covers_of_some htaken, h1, h2]
    · simp only at h1 h2 ⊢
      rw [holdscope x (by omega) (by omega), houtside x (.inr h1)]
  · intro r hr x h1 h2
    rw [hyscope r hr x h1 h2, houtside x (.inr ?_)]
    have := (hys.mem r hr).1
    omega

/-- A group behind the regions gets its scopes on top of those of the match, and what lies between
them and the group only those of the match. -/
theorem Layered.behind (L : Layered scope m done position regions)
    (htaken : Pattern.takenSpan? m capture.1 = some span) (hle : position ≤ span.1) :
    Layered scope m (done ++ [capture]) span.2
      (regions ++ (if position < span.1 then [⟨position, span.1, scope⟩] else []) ++
        [⟨span.1, span.2, scope ++ capture.2.scopes.map .str⟩]) := by
  have hlt := takenSpan?_lt htaken
  have hdone (x : Nat) (hx : position ≤ x) : captureScopes m done x = [] :=
    captureScopes_eq_nil fun c hc span h => Nat.le_trans (L.stop_le c hc span h) hx
  have hbefore (x : Nat) (hx : x < span.1) :
      captureScopes m (done ++ [capture]) x = captureScopes m done x := by
    apply captureScopes_concat_of_not
    simp [covers_of_some htaken, Nat.not_le.mpr hx]
  refine ⟨?_, ?_, List.forall_mem_append.mpr ⟨List.forall_mem_append.mpr ⟨?_, ?_⟩, ?_⟩⟩
  · exact (L.tiles.append (.gap scope hle)).append (.single _ hlt)
  · refine List.forall_mem_append.mpr ⟨fun c hc span' h => ?_,
      List.forall_mem_singleton.mpr fun span' h => ?_⟩
    · have := L.stop_le c hc span' h
      omega
    · cases htaken.symm.trans h
      exact Nat.le_refl _
  · intro r hr x h1 h2
    rw [L.scope r hr x h1 h2, hbefore x]
    have := (L.tiles.mem r hr).2.2
    omega
  · refine forall_mem_gap fun _ x h1 h2 => ?_
    simp only at h1 h2 ⊢
    rw [hbefore x h2, hdone x h1, List.append_nil]
  · refine List.forall_mem_singleton.mpr fun x h1 h2 => ?_
    simp only at h1 h2 ⊢
    rw [captureScopes_concat, hdone x (by omega), List.nil_append]
    simp [covers_of_some htaken, h1, h2]

/-- A capture whose group, if it took part, lies in the match and in one region adds a layer. -/
theorem Layered.addCapture (engine : Regex.Engine) (g : Grammar) (depth : Nat)
    (hbare : capture.2.isBare = true) (hm : m.Inside text.size)
    (L : Layered scope m done position regions)
    (hspan : ∀ span, Pattern.takenSpan? m capture.1 = some span →
      m.start ≤ span.1 ∧ span.2 ≤ m.stop ∧ Holds regions span) :
    ∃ position' regions', addCapture g (nestedHighlights engine g (depth + 1)) text scope m capture
        position regions = .ok (position', regions') ∧
      Layered scope m (done ++ [capture]) position' regions' := by
  cases htaken : Pattern.takenSpan? m capture.1 with
  | none =>
    refine ⟨_, _, addCapture_none htaken, L.tiles, ?_, fun r hr x h1 h2 => ?_⟩
    · refine List.forall_mem_append.mpr ⟨L.stop_le, List.forall_mem_singleton.mpr fun span h => ?_⟩
      cases htaken.symm.trans h
    · rw [L.scope r hr x h1 h2, captureScopes_concat_of_not (covers_of_none htaken)]
  | some span =>
    obtain ⟨hstart, _, hholds⟩ := hspan span htaken
    by_cases hin : span.1 < position
    · obtain ⟨xs, old, ys, heq, hxs, h3, h4, hys, h⟩ :=
        addCapture_split engine g depth scope hbare hm L.tiles htaken hstart hin
      have hold := hholds old (by simp [heq]) h3 h4
      exact ⟨_, _, h, L.inside htaken heq hxs h3 hold hys⟩
    · have hle := Nat.not_lt.mp hin
      exact ⟨_, _, addCapture_behind engine g depth scope regions hbare hm htaken hle,
        L.behind htaken hle⟩

theorem Layered.captureRegions (engine : Regex.Engine) (g : Grammar) (depth : Nat)
    (hbare : ∀ c ∈ captures, c.2.isBare = true) (hm : m.Inside text.size)
    (L : Layered scope m done position regions) (hpos : position ≤ m.stop)
    (hinside : ∀ x ∈ takenSpans m captures, m.start ≤ x.1.1 ∧ x.1.2 ≤ m.stop)
    (hnested : (takenSpans m captures).Pairwise Fits)
    (hholds : ∀ x ∈ takenSpans m captures, Holds regions x.1) :
    ∃ position' regions', captureRegions g (nestedHighlights engine g (depth + 1)) text scope m
        captures position regions = .ok (position', regions') ∧ position' ≤ m.stop ∧
      Layered scope m (done ++ captures) position' regions' := by
  induction captures generalizing position regions done with
  | nil => exact ⟨_, _, rfl, hpos, by rwa [List.append_nil]⟩
  | cons capture rest ih =>
    obtain ⟨hspan, hrest⟩ := takenSpans_cons hinside hnested hholds
    obtain ⟨position₁, regions₁, hadd, L₁⟩ :=
      L.addCapture engine g depth (hbare capture (List.mem_cons_self ..)) hm hspan
    obtain ⟨_, hpos₁, hkeep⟩ := addCapture_tiles L.tiles hpos hm.stop_le hspan
      (fun span compiled regs hs hc => demands_bare hbare _ _ (.here hs hc) _ _ _ rfl hc regs) hadd
    obtain ⟨hinside', hnested', hholds'⟩ := hrest regions₁ hkeep
    obtain ⟨position', regions', h, hpos', L'⟩ :=
      ih (fun c hc => hbare c (List.mem_cons_of_mem _ hc)) L₁ hpos₁ hinside' hnested' hholds'
    rw [List.append_assoc, List.singleton_append] at L'
    exact ⟨position', regions', bind_eq_ok.mpr ⟨_, hadd, h⟩, hpos', L'⟩

end

/-- **The scopes that captures give.** Where the captures only give scopes, the groups that took
part lie in the match and each lies in the earlier ones or apart from them, there are regions, which
lie side by side from the start of the match to its end. Each position of the match is in one of
them, with the scope of the match and on top of it the scopes of all captures whose groups the
position lies in, in the order of the captures. -/
theorem matchRegions_scope {engine : Regex.Engine} {g : Grammar} {depth : Nat}
    {text : Array Char} {scope : Scope} {m : Regex.Match} {captures : List (Int × Rule)}
    (hm : m.Inside text.size) (hbare : ∀ c ∈ captures, c.2.isBare = true)
    (hinside : ∀ x ∈ takenSpans m captures, Regex.Span.Within x.1 (m.start, m.stop))
    (hnested : (takenSpans m captures).Pairwise fun earlier later => Nested earlier.1 later.1) :
    ∃ regions, matchRegions g (nestedHighlights engine g (depth + 1)) text scope m captures =
        .ok regions ∧
      Tiles m.start m.stop regions ∧
      ∀ x, m.start ≤ x → x < m.stop →
        (∃ r ∈ regions, r.start ≤ x ∧ x < r.stop) ∧
          ∀ r ∈ regions, r.start ≤ x → x < r.stop →
            r.scope = scope ++ captureScopes m captures x := by
  have hstart : Layered scope m [] m.start [] :=
    ⟨rfl, fun _ hc => (nomatch hc), fun _ hr => (nomatch hr)⟩
  obtain ⟨position, covered, h, hpos, L⟩ := hstart.captureRegions engine g depth hbare hm
    hm.le_stop hinside (fits_of_bare hbare hnested) fun _ _ _ hr => nomatch hr
  rw [List.nil_append] at L
  have hbehind (x : Nat) (hx : position ≤ x) : captureScopes m captures x = [] :=
    captureScopes_eq_nil fun c hc span htaken => Nat.le_trans (L.stop_le c hc span htaken) hx
  obtain ⟨regions, heq, hregions⟩ : ∃ regions,
      regions = covered ++ (if position < m.stop then [⟨position, m.stop, scope⟩] else []) ∧
      matchRegions g (nestedHighlights engine g (depth + 1)) text scope m captures =
        .ok regions := by
    refine ⟨_, rfl, bind_eq_ok.mpr ⟨_, h, ?_⟩⟩
    by_cases hrest : position < m.stop
    · simp only [if_pos hrest]
      rfl
    · simp only [if_neg hrest, List.append_nil]
      rfl
  have H : Tiles m.start m.stop regions := heq ▸ L.tiles.append (.gap scope hpos)
  have hscope : ∀ r ∈ regions, ∀ x, r.start ≤ x → x < r.stop →
      r.scope = scope ++ captureScopes m captures x := by
    rw [heq]
    refine List.forall_mem_append.mpr ⟨L.scope, forall_mem_gap fun _ x h1 h2 => ?_⟩
    simp only at h1 h2 ⊢
    rw [hbehind x h1, List.append_nil]
  refine ⟨regions, hregions, H, fun x h1 h2 => ⟨?_, fun r hr h3 h4 => hscope r hr x h3 h4⟩⟩
  obtain ⟨xs, r, ys, rfl, _, h3, h4, _⟩ := H.exists_around h1 h2
  exact ⟨r, by simp, h3, h4⟩

/-- A match with one group in another, one that took no part and one that is empty. -/
def layeredMatch : Regex.Match :=
  ⟨0, 6, [some (1, 5), some (2, 4), none, some (3, 3)]⟩

/-- Captures of its groups, one of them named twice, and of a group that does not exist. -/
def layeredCaptures : List (Int × Rule) :=
  [(1, { scopes := ["outer"] }), (2, { scopes := ["inner"] }), (2, { scopes := ["again"] }),
    (3, { scopes := ["absent"] }), (4, { scopes := ["empty"] }), (9, { scopes := ["none"] })]

theorem matchRegions_scope_layered : ∃ regions,
    matchRegions emptyGrammar (nestedHighlights .standard emptyGrammar 1) "abcdef".toList.toArray
      [.str "text.empty"] layeredMatch layeredCaptures = .ok regions ∧ Tiles 0 6 regions ∧
      ∃ r ∈ regions, r.start ≤ 3 ∧ 3 < r.stop ∧
        r.scope = [.str "text.empty", .str "outer", .str "inner", .str "again"] := by
  have hm : layeredMatch.Inside "abcdef".toList.toArray.size :=
    ⟨by decide, by decide, by simp [layeredMatch]⟩
  have hspans : takenSpans layeredMatch layeredCaptures =
      [((1, 5), { scopes := ["outer"] }), ((2, 4), { scopes := ["inner"] }),
        ((2, 4), { scopes := ["again"] })] := by
    simp [takenSpans, layeredMatch, layeredCaptures, Pattern.takenSpan?, Pattern.groupSpan?]
  have hinside : ∀ x ∈ takenSpans layeredMatch layeredCaptures,
      Regex.Span.Within x.1 (layeredMatch.start, layeredMatch.stop) := by
    rw [hspans]
    simp [layeredMatch, Regex.Span.Within]
  have hnested : (takenSpans layeredMatch layeredCaptures).Pairwise fun earlier later =>
      Nested earlier.1 later.1 := by
    rw [hspans]
    simp [Nested, Regex.Span.Within, Regex.Span.Apart]
  obtain ⟨regions, h, H, hscope⟩ := @matchRegions_scope .standard emptyGrammar 0 _
    [.str "text.empty"] layeredMatch layeredCaptures hm (by decide) hinside hnested
  obtain ⟨⟨r, hr, h1, h2⟩, hall⟩ := hscope 3 (by decide) (by decide)
  refine ⟨regions, h, H, r, hr, h1, h2, (hall r hr h1 h2).trans ?_⟩
  simp [captureScopes, layeredMatch, layeredCaptures, Regex.Match.covers, Pattern.groupSpan?]

end Rubric
