import Rubric.Document.ThemedToken
import Rubric.Proofs.Line.Nesting
import Rubric.Proofs.Line.Scopes
import Rubric.Proofs.Pattern.Search
import Rubric.Proofs.Regex.Inside

/-!
# Proper regions

If the matches of an engine keep inside of the text, then no region of a line is empty or reaches
out of the line, whatever the grammar (`highlightWithin_proper`). The regions need not lie side by
side for that: each of the places where one is made, cut or moved keeps it proper by itself.
-/

namespace Rubric

/-- None of the regions is empty or reaches behind the first `size` characters. -/
def Proper (size : Nat) (regions : List Region) : Prop :=
  ∀ r ∈ regions, r.start < r.stop ∧ r.stop ≤ size

namespace Proper
variable {size : Nat} {xs ys regions : List Region}

theorem nil : Proper size [] := by
  intro r hr
  cases hr

theorem append (hx : Proper size xs) (hy : Proper size ys) : Proper size (xs ++ ys) :=
  List.forall_mem_append.mpr ⟨hx, hy⟩

/-- The piece between two positions, if there is one. -/
theorem gap {a b : Nat} (scope : Scope) (h : b ≤ size) :
    Proper size (if a < b then [⟨a, b, scope⟩] else []) := by
  intro r hr
  split at hr
  · cases List.mem_singleton.mp hr
    exact ⟨‹_›, h⟩
  · cases hr

theorem shift {n : Nat} (H : Proper size regions) :
    Proper (size + n) (regions.map (·.shift n)) := by
  refine List.forall_mem_map.mpr fun r hr => ?_
  obtain ⟨h1, h2⟩ := H r hr
  exact ⟨Nat.add_lt_add_right h1 n, Nat.add_le_add_right h2 n⟩

theorem take (H : Proper size regions) (n : Nat) : Proper size (regions.take n) :=
  fun r hr => H r (List.mem_of_mem_take hr)

theorem drop (H : Proper size regions) (n : Nat) : Proper size (regions.drop n) :=
  fun r hr => H r (List.mem_of_mem_drop hr)

end Proper

/-! ## Captures -/

/-- The texts that captures take for themselves get proper regions. -/
def InnerProper (inner : Highlights) : Prop :=
  ∀ t s regions, inner t s = .ok regions → Proper t.size regions

theorem takenSpan?_le {size : Nat} {m : Regex.Match} {index : Int} {span : Regex.Span}
    (hm : m.Inside size) (h : Pattern.takenSpan? m index = some span) : span.2 ≤ size := by
  have hgroup : Pattern.groupSpan? m index = some (some span) := by
    unfold Pattern.takenSpan? at h
    split at h
    · next hgroup =>
      split at h
      · cases h
        exact hgroup
      · cases h
    · cases h
  have hmem : some span ∈ some (m.start, m.stop) :: m.groups := by
    unfold Pattern.groupSpan? at hgroup
    simp only at hgroup
    split at hgroup
    · exact List.mem_of_getElem? hgroup
    · split at hgroup
      · exact List.mem_of_getElem? hgroup
      · cases hgroup
  rcases List.mem_cons.mp hmem with heq | hmem
  · cases heq
    exact hm.stop_le
  · exact hm.groups_le span hmem

section
variable {g : Grammar} {inner : Highlights} {text : Array Char} {scope : Scope} {m : Regex.Match}

theorem nestedRegions_proper {span : Regex.Span} {compiled : CompiledRule} {nested : List Region}
    (hi : InnerProper inner) (hlt : span.1 < span.2) (hle : span.2 ≤ text.size)
    (h : nestedRegions inner text span scope compiled = .ok nested) : Proper text.size nested := by
  obtain ⟨regions, hr, h⟩ := bind_eq_ok.mp h
  cases pure_eq_ok.mp h
  have hsize : (text.extract span.1 span.2).size + span.1 ≤ text.size := by
    rw [Array.size_extract]
    omega
  intro r hmem
  obtain ⟨h1, h2⟩ := (hi _ _ _ hr).shift r hmem
  exact ⟨h1, Nat.le_trans h2 hsize⟩

/-- The pieces of a region that is split are proper, even where the group does not lie in it. -/
theorem splitRegion_proper {span : Regex.Span} {compiled : CompiledRule}
    {regions regions' : List Region} (hi : InnerProper inner) (hlt : span.1 < span.2)
    (hle : span.2 ≤ text.size) (H : Proper text.size regions)
    (h : splitRegion inner text compiled span regions = .ok regions') :
    Proper text.size regions' := by
  unfold splitRegion at h
  simp only at h
  split at h
  · exact absurd h throw_ne_ok
  · next old hold =>
    obtain ⟨nested, hn, h⟩ := bind_eq_ok.mp h
    cases pure_eq_ok.mp h
    obtain ⟨_, hstop⟩ := H old (List.mem_of_getElem? hold)
    have hfirst : Proper text.size
        (if old.start < span.1 then [⟨old.start, span.1, old.scope⟩] else []) :=
      .gap old.scope (by omega)
    have hlast : Proper text.size
        (if span.2 < old.stop then [⟨span.2, old.stop, old.scope⟩] else []) :=
      .gap old.scope hstop
    have hnested := nestedRegions_proper hi hlt hle hn
    exact ((H.take _).append ((hfirst.append hnested).append hlast)).append (H.drop _)

theorem addCapture_proper {capture : Int × Rule} {position position' : Nat}
    {regions regions' : List Region} (hi : InnerProper inner) (hm : m.Inside text.size)
    (H : Proper text.size regions)
    (h : addCapture g inner text scope m capture position regions = .ok (position', regions')) :
    Proper text.size regions' := by
  unfold addCapture at h
  split at h
  · cases h
    exact H
  · next span htaken =>
    have hlt := takenSpan?_lt htaken
    have hle := takenSpan?_le hm htaken
    obtain ⟨compiled, _, h⟩ := bind_eq_ok.mp h
    split at h
    · obtain ⟨replaced, hr, h⟩ := bind_eq_ok.mp h
      cases pure_eq_ok.mp h
      exact splitRegion_proper hi hlt hle H hr
    · obtain ⟨nested, hn, h⟩ := bind_eq_ok.mp h
      cases pure_eq_ok.mp h
      exact (H.append (.gap scope (by omega))).append (nestedRegions_proper hi hlt hle hn)

theorem captureRegions_proper {captures : List (Int × Rule)} {position position' : Nat}
    {regions regions' : List Region} (hi : InnerProper inner) (hm : m.Inside text.size)
    (H : Proper text.size regions)
    (h : captureRegions g inner text scope m captures position regions =
      .ok (position', regions')) : Proper text.size regions' := by
  induction captures generalizing position regions with
  | nil =>
    cases h
    exact H
  | cons capture rest ih =>
    obtain ⟨⟨position₁, regions₁⟩, hadd, h⟩ := bind_eq_ok.mp h
    exact ih (addCapture_proper hi hm H hadd) h

/-- The regions of a match that lies inside of the text are proper. -/
theorem matchRegions_proper {captures : List (Int × Rule)} {regions : List Region}
    (hi : InnerProper inner) (hm : m.Inside text.size)
    (h : matchRegions g inner text scope m captures = .ok regions) : Proper text.size regions := by
  obtain ⟨⟨position, regions₁⟩, hcaptures, h⟩ := bind_eq_ok.mp h
  have H := captureRegions_proper hi hm .nil hcaptures
  simp only at h
  split at h
  · next hlt =>
    cases pure_eq_ok.mp h
    apply H.append
    intro r hr
    cases List.mem_singleton.mp hr
    exact ⟨hlt, hm.stop_le⟩
  · cases pure_eq_ok.mp h
    exact H

end

/-! ## Searches -/

namespace Pattern
open Regex (Engine Matcher)
variable {engine : Engine} {a : Anchoring} {pattern : Json} {patterns : List Json}
  {text : Array Char} {position : Nat} {m : Regex.Match}

theorem ready_keepsInside {matcher : Matcher} (hE : engine.KeepsInside)
    (h : ready engine pattern = .ok matcher) : matcher.KeepsInside := by
  unfold ready at h
  split at h
  · exact hE _ matcher (mapError_eq_ok.mp h)
  · cases h

theorem find_inside (hE : engine.KeepsInside)
    (h : find engine a pattern text position = .ok (some m)) : m.Inside text.size := by
  obtain ⟨matcher, hprepare, h⟩ := bind_eq_ok.mp h
  obtain ⟨_, _, hready⟩ := bind_eq_ok.mp hprepare
  obtain ⟨p, _, hp, hm⟩ := Matcher.search_some (pure_eq_ok.mp h)
  exact ready_keepsInside hE hready _ _ _ _ hp hm

theorem findAt_inside (hE : engine.KeepsInside) (hp : position ≤ text.size)
    (h : findAt engine a pattern text position = .ok (some m)) : m.Inside text.size := by
  obtain ⟨matcher, hprepare, h⟩ := bind_eq_ok.mp h
  obtain ⟨_, _, hready⟩ := bind_eq_ok.mp hprepare
  exact ready_keepsInside hE hready _ _ _ _ hp (pure_eq_ok.mp h)

theorem findAny_inside {index : Nat} (hE : engine.KeepsInside)
    (h : findAny engine a patterns text position = .ok (some (index, m))) :
    m.Inside text.size := by
  obtain ⟨matchers, hprepare, h⟩ := bind_eq_ok.mp h
  obtain ⟨_, _, hready⟩ := bind_eq_ok.mp hprepare
  obtain ⟨p, matcher, _, hp, hget, hm⟩ := Matcher.searchAny_some (pure_eq_ok.mp h)
  obtain ⟨_, _, hmatcher⟩ := exists_of_mem_mapM hready (List.mem_of_getElem? hget)
  exact ready_keepsInside hE hmatcher _ _ _ _ hp hm

end Pattern

/-! ## Lines -/

namespace LineContext
variable {c : LineContext} {s : State} {position : Nat} {anchor : Option Nat}

theorem chooseCandidate_inside {candidates : List Candidate} {choice : Choice}
    (hE : c.engine.KeepsInside)
    (h : c.chooseCandidate position anchor candidates = .ok (some choice)) :
    choice.found.Inside c.text.size := by
  obtain ⟨found, hfind, h⟩ := bind_eq_ok.mp h
  cases found with
  | none => cases pure_eq_ok.mp h
  | some found =>
    obtain ⟨_, _, rfl⟩ := Option.map_eq_some_iff.mp (pure_eq_ok.mp h)
    unfold findCandidate at hfind
    split at hfind
    · cases hfind
    · exact Pattern.findAny_inside hE hfind

theorem choose_inside {choice : Choice} (hE : c.engine.KeepsInside)
    (h : c.choose s position anchor = .ok (some choice)) : choice.found.Inside c.text.size := by
  unfold choose at h
  split at h
  case h_1 => cases h
  case h_2 rule closing candidates hrule =>
    obtain ⟨ending, hending, h⟩ := bind_eq_ok.mp h
    cases ending with
    | none => exact chooseCandidate_inside hE h
    | some ending =>
      have hinside : ending.Inside c.text.size := by
        unfold findEnding at hending
        split at hending
        · exact Pattern.find_inside hE hending
        · cases hending
      simp only at h
      split at h
      · cases pure_eq_ok.mp h
        exact hinside
      · obtain ⟨found, hfound, h⟩ := bind_eq_ok.mp h
        cases found with
        | none =>
          cases pure_eq_ok.mp h
          exact hinside
        | some other =>
          simp only at h
          split at h
          · cases pure_eq_ok.mp h
            exact hinside
          · cases pure_eq_ok.mp h
            exact chooseCandidate_inside hE hfound
  all_goals exact chooseCandidate_inside hE h

theorem step_proper {next : Step} (hE : c.engine.KeepsInside) (hi : InnerProper c.inner)
    (h : c.step s position anchor = .ok (some next)) : Proper c.text.size next.regions := by
  obtain ⟨choice, hchoose, htake⟩ := step_ok h
  obtain ⟨_, regions, hr, hregions⟩ := take_ok htake
  have hm := choose_inside hE hchoose
  rw [hregions]
  exact Proper.append (.gap _ (Nat.le_trans hm.le_stop hm.stop_le)) (matchRegions_proper hi hm hr)

theorem Asks.proper (hE : c.engine.KeepsInside) (hi : InnerProper c.inner)
    {kept left : List (CompiledRule × Nat)} {place : Place} (H : c.Asks s kept left place) :
    place.position ≤ c.text.size ∧ Proper c.text.size place.regions := by
  induction H with
  | start => exact ⟨Nat.zero_le _, .nil⟩
  | @goOn kept rule height left place m regions _ hask hr ih =>
    have hm : m.Inside c.text.size := by
      unfold askBlock at hask
      split at hask
      · exact Pattern.findAt_inside hE ih.1 hask
      · cases hask
    exact ⟨hm.stop_le, ih.2.append (matchRegions_proper hi hm hr)⟩

theorem Passes.proper (hE : c.engine.KeepsInside) (hi : InnerProper c.inner)
    {seen : List State.Key} {place : Place} (H : c.Passes s seen place) :
    Proper c.text.size place.regions := by
  induction H with
  | start h =>
    rcases Asks.start.continueBlocks_ok h with ⟨_, H⟩ | ⟨_, _, _, _, _, H, _, rfl⟩
    · exact (H.proper hE hi).2
    · exact (H.proper hE hi).2
  | advance _ h _ ih | stay _ h _ _ ih => exact ih.append (step_proper hE hi h)

theorem highlight_proper {s' : State} {regions : List Region} (hE : c.engine.KeepsInside)
    (hi : InnerProper c.inner) (h : c.highlight s = .ok (s', regions)) :
    Proper c.text.size regions := by
  obtain ⟨_, last, final, hp, hh, rfl, rfl⟩ := highlight_ok h
  have hlast := hp.proper hE hi
  have hfinal : Proper c.text.size final.regions := by
    cases hh with
    | spent => exact hlast
    | back hstep => exact hlast.append (step_proper hE hi hstep)
  exact hfinal.append (.gap _ (Nat.le_refl _))

end LineContext

theorem highlightWithin_proper {engine : Regex.Engine} {g : Grammar} {depth : Nat}
    {text : Array Char} {s s' : State} {firstLine : Bool} {regions : List Region}
    (hE : engine.KeepsInside)
    (h : highlightWithin engine g depth text s firstLine = .ok (s', regions)) :
    Proper text.size regions := by
  induction depth generalizing text s s' firstLine regions with
  | zero => cases h
  | succ depth ih =>
    rw [highlightWithin_succ] at h
    refine LineContext.highlight_proper hE (fun t s regs hinner => ?_) h
    obtain ⟨⟨s', regs'⟩, hline, hr⟩ := bind_eq_ok.mp hinner
    cases pure_eq_ok.mp hr
    exact ih hline

end Rubric
