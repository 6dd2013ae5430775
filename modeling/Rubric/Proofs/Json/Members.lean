import Rubric.Json.Value

/-!
# Members

A member that is written is found again, and the others stay (`member?_put`). In a table that many
members are written to, each is one that stood there before or was written
(`mem_of_mem_foldl_put`), and of those written under one name the last is found
(`member?_foldl_last`).
-/

namespace Rubric

/-- The last of the items that have a property. -/
def IsLast (p : β → Prop) (items : List β) (x : β) : Prop :=
  ∃ before after, items = before ++ x :: after ∧ p x ∧ ∀ y ∈ after, ¬p y

theorem exists_isLast {p : β → Prop} {items : List β} (h : ∃ x ∈ items, p x) :
    ∃ x, IsLast p items x := by
  induction items with
  | nil =>
    obtain ⟨x, hx, _⟩ := h
    cases hx
  | cons x rest ih =>
    by_cases hrest : ∃ y ∈ rest, p y
    · obtain ⟨y, before, after, rfl, hy, hafter⟩ := ih hrest
      exact ⟨y, x :: before, after, rfl, hy, hafter⟩
    · obtain ⟨y, hy, hp⟩ := h
      rcases List.mem_cons.mp hy with rfl | hy
      · exact ⟨y, [], rest, rfl, hp, fun z hz hpz => hrest ⟨z, hz, hpz⟩⟩
      · exact absurd ⟨y, hy, hp⟩ hrest

namespace IsLast
variable {p : γ → Prop} {items : List β} {x : β}

theorem mem {p : β → Prop} (h : IsLast p items x) : x ∈ items := by
  obtain ⟨before, after, rfl, _⟩ := h
  exact List.mem_append_right _ (List.mem_cons_self ..)

theorem holds {p : β → Prop} (h : IsLast p items x) : p x := by
  obtain ⟨_, _, _, hx, _⟩ := h
  exact hx

theorem map {f : β → γ} (h : IsLast (fun y => p (f y)) items x) :
    IsLast p (items.map f) (f x) := by
  obtain ⟨before, after, rfl, hx, hafter⟩ := h
  exact ⟨before.map f, after.map f, by simp, hx, by simpa using hafter⟩

theorem of_map {f : β → γ} {z : γ} (h : IsLast p (items.map f) z) :
    ∃ x, f x = z ∧ IsLast (fun y => p (f y)) items x := by
  obtain ⟨before, after, hitems, hz, hafter⟩ := h
  obtain ⟨front, back, rfl, rfl, hback⟩ := List.map_eq_append_iff.mp hitems
  obtain ⟨x, rest, rfl, rfl, rfl⟩ := List.map_eq_cons_iff.mp hback
  exact ⟨x, rfl, front, rest, rfl, hz, by simpa using hafter⟩

end IsLast

namespace Json

variable {α β : Type} {members : List (String × α)} {name other : String} {value : α}

theorem member?_cons (entry : String × α) :
    member? (entry :: members) name =
      if entry.1 = name then some entry.2 else member? members name := by
  unfold member?
  by_cases h : entry.1 = name
  · simp [h]
  · simp [h]

theorem member?_eq_none (h : members.any (·.1 == name) = false) : member? members name = none := by
  rw [member?, List.find?_eq_none.mpr (List.any_eq_false.mp h)]
  rfl

theorem member?_append_of_none {more : List (String × α)} (h : member? members name = none) :
    member? (members ++ more) name = member? more name := by
  induction members with
  | nil => rfl
  | cons entry rest ih =>
    rw [member?_cons] at h
    split at h
    · cases h
    · next hne => rw [List.cons_append, member?_cons, if_neg hne, ih h]

theorem member?_append_ne (hne : other ≠ name) :
    member? (members ++ [(name, value)]) other = member? members other := by
  induction members with
  | nil => simp [member?, hne.symm]
  | cons entry rest ih => rw [List.cons_append, member?_cons, member?_cons, ih]

/-- Writes in the place of the members of the name. -/
def overwrite (name : String) (value : α) (entry : String × α) : String × α :=
  if entry.1 = name then (name, value) else entry

theorem put_eq : put members name value =
    if members.any (·.1 == name) then members.map (overwrite name value)
    else members ++ [(name, value)] := by
  have hmap : (fun ((k, old) : String × α) => if k == name then (k, value) else (k, old)) =
      overwrite name value := by
    funext ⟨k, old⟩
    by_cases h : k = name <;> simp [overwrite, h]
  rw [← hmap]
  rfl

theorem map_overwrite_of_none (h : members.any (·.1 == name) = false) :
    members.map (overwrite name value) = members := by
  conv => rhs; rw [← List.map_id members]
  apply List.map_congr_left
  intro entry hmem
  exact if_neg (by simpa using List.any_eq_false.mp h entry hmem)

theorem member?_map_overwrite (h : members.any (·.1 == name) = true) :
    member? (members.map (overwrite name value)) other =
      if other = name then some value else member? members other := by
  induction members with
  | nil => cases h
  | cons entry rest ih =>
    rw [List.map_cons, member?_cons, member?_cons]
    by_cases hentry : entry.1 = name
    · rw [overwrite, if_pos hentry, hentry]
      by_cases hother : name = other
      · rw [if_pos hother, if_pos hother.symm]
      · rw [if_neg hother, if_neg hother, if_neg (Ne.symm hother)]
        cases hrest : rest.any (·.1 == name) with
        | true => rw [ih hrest, if_neg (Ne.symm hother)]
        | false => rw [map_overwrite_of_none hrest]
    · have hrest : rest.any (·.1 == name) = true := by simpa [hentry] using h
      rw [overwrite, if_neg hentry, ih hrest]
      by_cases hother : entry.1 = other
      · rw [if_pos hother, if_pos hother, if_neg (hother ▸ hentry)]
      · rw [if_neg hother, if_neg hother]

/-- What is written is found, and all else as before. -/
theorem member?_put : member? (put members name value) other =
    if other = name then some value else member? members other := by
  rw [put_eq]
  split
  · next h => exact member?_map_overwrite h
  · next h =>
    have h := Bool.not_eq_true _ ▸ h
    split
    · next heq => rw [heq, member?_append_of_none (member?_eq_none h), member?_cons, if_pos rfl]
    · next hne => exact member?_append_ne hne

variable (key : β → String) (val : β → α) {items : List β}

section
variable (writes : β → Prop) [DecidablePred writes]
  {step : List (String × α) → β → List (String × α)}
  (hstep : ∀ members x,
    member? (step members x) name = if writes x then some (val x) else member? members name)
include hstep

theorem member?_foldl_of_none (h : ∀ x ∈ items, ¬writes x) :
    member? (items.foldl step members) name = member? members name := by
  induction items generalizing members with
  | nil => rfl
  | cons x rest ih =>
    rw [List.foldl_cons, ih fun y hy => h y (List.mem_cons_of_mem _ hy), hstep,
      if_neg (h x (List.mem_cons_self ..))]

/-- Of several values that are written under one name the last is found. -/
theorem member?_foldl_last {x : β} (h : IsLast writes items x) :
    member? (items.foldl step members) name = some (val x) := by
  obtain ⟨before, after, rfl, hx, hafter⟩ := h
  rw [List.foldl_append, List.foldl_cons, member?_foldl_of_none val writes hstep hafter, hstep,
    if_pos hx]

end

theorem member?_foldl_put_const {names : List String} :
    member? (names.foldl (fun known other => put known other value) members) name =
      if name ∈ names then some value else member? members name := by
  have hstep (known : List (String × α)) (other : String) :
      member? (put known other value) name =
        if name = other then some value else member? known name :=
    member?_put
  split
  · next hmem =>
    obtain ⟨other, hlast⟩ := exists_isLast (p := (name = ·)) ⟨name, hmem, rfl⟩
    exact member?_foldl_last (fun _ => value) (name = ·) hstep hlast
  · next hmem =>
    apply member?_foldl_of_none (fun _ => value) (name = ·) hstep
    rintro _ hother rfl
    exact hmem hother

end Json

end Rubric
