import Rubric.Proofs.Line.Course

/-!
# Regions side by side

Regions that cover a stretch of a line (`Tiles`), and what becomes of them when one is split for a
group that begins inside of it (`Tiles.splitRegion_eq`).
-/

namespace Rubric

/-- The regions cover the stretch from one position to another, in order and without a gap, and none
of them is empty. -/
def Tiles : Nat → Nat → List Region → Prop
  | a, b, [] => a = b
  | a, b, r :: rest => r.start = a ∧ a < r.stop ∧ Tiles r.stop b rest

namespace Tiles

theorem le {a b : Nat} {regions : List Region} (H : Tiles a b regions) : a ≤ b := by
  induction regions generalizing a with
  | nil => exact Nat.le_of_eq H
  | cons r rest ih => exact Nat.le_trans (Nat.le_of_lt H.2.1) (ih H.2.2)

theorem append {a b d : Nat} {xs ys : List Region} (H : Tiles a b xs) (H' : Tiles b d ys) :
    Tiles a d (xs ++ ys) := by
  induction xs generalizing a with
  | nil => cases H; exact H'
  | cons r rest ih => exact ⟨H.1, H.2.1, ih H.2.2⟩

theorem single {a b : Nat} (scope : Scope) (h : a < b) : Tiles a b [⟨a, b, scope⟩] :=
  ⟨rfl, h, rfl⟩

/-- The piece between two positions, if they differ. -/
theorem gap {a b : Nat} (scope : Scope) (h : a ≤ b) :
    Tiles a b (if a < b then [⟨a, b, scope⟩] else []) := by
  split
  · exact single scope ‹_›
  · exact Nat.le_antisymm h (Nat.not_lt.mp ‹_›)

theorem shift {a b : Nat} {regions : List Region} (n : Nat) (H : Tiles a b regions) :
    Tiles (a + n) (b + n) (regions.map (·.shift n)) := by
  induction regions generalizing a with
  | nil => cases H; rfl
  | cons r rest ih =>
    refine ⟨?_, ?_, ih H.2.2⟩
    · simp [Region.shift, H.1]
    · simpa [Region.shift] using H.2.1

theorem mem {a b : Nat} {regions : List Region} (H : Tiles a b regions) :
    ∀ r ∈ regions, a ≤ r.start ∧ r.start < r.stop ∧ r.stop ≤ b := by
  induction regions generalizing a with
  | nil => simp
  | cons r rest ih =>
    obtain ⟨rfl, hlt, H⟩ := H
    intro x hx
    cases hx with
    | head => exact ⟨Nat.le_refl _, hlt, H.le⟩
    | tail _ hx =>
      obtain ⟨h1, h2⟩ := ih H x hx
      exact ⟨Nat.le_trans (Nat.le_of_lt hlt) h1, h2⟩

/-- There is no region exactly if there is nothing to cover. -/
theorem eq_nil_iff {a b : Nat} {regions : List Region} (H : Tiles a b regions) :
    regions = [] ↔ a = b := by
  cases regions with
  | nil => exact ⟨fun _ => H, fun _ => rfl⟩
  | cons r rest =>
    have := H.2.2.le
    have := H.2.1
    constructor
    · intro h; cases h
    · intro h; omega

/-- The region that a position falls into, with what lies on its two sides. -/
theorem exists_around {a b p : Nat} {regions : List Region} (H : Tiles a b regions) (h1 : a ≤ p)
    (h2 : p < b) :
    ∃ xs old ys, regions = xs ++ old :: ys ∧ Tiles a old.start xs ∧ old.start ≤ p ∧
      p < old.stop ∧ Tiles old.stop b ys := by
  induction regions generalizing a with
  | nil => cases H; omega
  | cons r rest ih =>
    obtain ⟨rfl, hlt, H⟩ := H
    by_cases hp : p < r.stop
    · exact ⟨[], r, rest, rfl, rfl, h1, hp, H⟩
    · obtain ⟨xs, old, ys, rfl, hxs, h⟩ := ih H (Nat.not_lt.mp hp)
      exact ⟨r :: xs, old, ys, rfl, ⟨rfl, hlt, hxs⟩, h⟩

end Tiles

/-! ## The region that is split -/

/-- The regions that end behind the position begin at the index found. -/
theorem regionIndex_append {p : Nat} {xs ys : List Region} (hx : ∀ r ∈ xs, r.stop ≤ p)
    (hy : ∀ r ∈ ys, p < r.stop) (n : Nat) (hn : n < ys.length) :
    regionIndex p (xs ++ ys) (xs.length + n) = xs.length := by
  induction n with
  | zero =>
    cases hlen : xs.length with
    | zero => rfl
    | succ k =>
      have hk : k < xs.length := by omega
      have := hx _ (List.getElem_mem hk)
      simp only [regionIndex, List.getElem?_append_left hk, List.getElem?_eq_getElem hk]
      exact if_neg (Nat.not_lt.mpr this)
  | succ n ih =>
    have hk : n < ys.length := by omega
    have := hy _ (List.getElem_mem hk)
    rw [← Nat.add_assoc]
    simp only [regionIndex, List.getElem?_append_right (Nat.le_add_right _ _),
      Nat.add_sub_cancel_left, List.getElem?_eq_getElem hk, if_pos this]
    exact ih hk

/-- The index of the region that a position falls into, where regions lie side by side. -/
theorem Tiles.regionIndex_eq {a b p : Nat} {xs ys : List Region} {old : Region}
    (hxs : Tiles a old.start xs) (h1 : old.start ≤ p) (h2 : p < old.stop)
    (hys : Tiles old.stop b ys) :
    regionIndex p (xs ++ old :: ys) ((xs ++ old :: ys).length - 1) = xs.length := by
  have hlen : (xs ++ old :: ys).length - 1 = xs.length + ys.length := by simp
  rw [hlen]
  refine regionIndex_append (fun r hr => ?_) (fun r hr => ?_) _ (Nat.lt_succ_self _)
  · exact Nat.le_trans (hxs.mem r hr).2.2 h1
  · cases hr with
    | head => exact h2
    | tail _ hr => have := hys.mem r hr; omega

/-- The region that is split for a position is the one that it falls into. -/
theorem Tiles.around {a b p : Nat} {regions xs ys : List Region} {old : Region}
    (H : Tiles a b regions) (h1 : a ≤ p) (h2 : p < b) (heq : regions = xs ++ old :: ys)
    (hindex : xs.length = regionIndex p regions (regions.length - 1)) :
    Tiles a old.start xs ∧ old.start ≤ p ∧ p < old.stop ∧ Tiles old.stop b ys := by
  obtain ⟨xs', old', ys', rfl, hxs, h3, h4, hys⟩ := H.exists_around h1 h2
  rw [hxs.regionIndex_eq h3 h4 hys] at hindex
  obtain ⟨rfl, hrest⟩ := List.append_inj heq hindex.symm
  cases hrest
  exact ⟨hxs, h3, h4, hys⟩

/-- What splitting does: the region that the group begins in is replaced by its part in front of
the group, the regions of the group and its part behind the group. -/
theorem Tiles.splitRegion_eq {a b : Nat} {regions : List Region} (H : Tiles a b regions)
    {span : Regex.Span} (h1 : a ≤ span.1) (h2 : span.1 < b) (inner : Highlights)
    (text : Array Char) (scope : Scope) (rule : CompiledRule) :
    ∃ xs old ys, regions = xs ++ old :: ys ∧ Tiles a old.start xs ∧ old.start ≤ span.1 ∧
      span.1 < old.stop ∧ Tiles old.stop b ys ∧ groupScope scope b regions span = old.scope ∧
      splitRegion inner text rule span regions = (do
        let nested ← nestedRegions inner text span old.scope rule
        return xs ++ ((if old.start < span.1 then [⟨old.start, span.1, old.scope⟩] else []) ++
          nested ++
            (if span.2 < old.stop then [⟨span.2, old.stop, old.scope⟩] else [])) ++ ys) := by
  obtain ⟨xs, old, ys, rfl, hxs, h3, h4, hys⟩ := H.exists_around h1 h2
  have hindex := hxs.regionIndex_eq h3 h4 hys
  have hold : (xs ++ old :: ys)[xs.length]? = some old := by simp
  refine ⟨xs, old, ys, rfl, hxs, h3, h4, hys, ?_, ?_⟩
  · simp only [groupScope, if_pos h2, hindex, hold]
  · simp only [splitRegion, hindex, hold]
    simp

end Rubric
