import Rubric.Proofs.Theme.Winner
import Rubric.Theme.Bundled
import Rubric.Theme.Reader

/-!
# Themes that are read

The foreground of a theme is the last one that its object gives it, among its colors or by a rule
for the theme itself, and may be null. A rule for scopes has a selector that was read, with a last
part to be ranked by, and sets no foreground to null (`Theme.ofJson_ok`).
-/

namespace Rubric

/-! ## Rules -/

/-- The rule has a part to be ranked by, and if it sets a foreground, that is a color. -/
structure ThemeRule.Readable (rule : ThemeRule) : Prop where
  parts : rule.selector ≠ []
  color : rule.foreground ≠ some .null

theorem Selector.ne_nil_of_ofText {s : String} {selector : Selector} (h : ofText s = .ok selector) :
    selector ≠ [] := by
  unfold ofText at h
  cases hwords : Text.words s with
  | nil =>
    rw [hwords] at h
    cases h
  | cons part rest =>
    simp only [hwords, List.mapM_cons] at h
    split at h
    · next hparts =>
      cases h
      obtain ⟨first, _, hparts⟩ := Option.bind_eq_some_iff.mp hparts
      obtain ⟨others, _, hparts⟩ := Option.bind_eq_some_iff.mp hparts
      cases hparts
      exact List.cons_ne_nil _ _
    · cases h

theorem Selector.ne_nil_of_ofJson {v : Json} {selector : Selector} (h : ofJson v = .ok selector) :
    selector ≠ [] := by
  cases v with
  | str s => exact ne_nil_of_ofText h
  | _ => cases h

/-- The selector of the rule was read from a value, and if the rule sets a foreground, that is a
color. -/
structure ThemeRule.IsRead (rule : ThemeRule) : Prop where
  selector : ∃ v, Selector.ofJson v = .ok rule.selector
  color : rule.foreground ≠ some .null

theorem ThemeRule.IsRead.readable {rule : ThemeRule} (h : rule.IsRead) : rule.Readable := by
  obtain ⟨v, hv⟩ := h.selector
  exact ⟨Selector.ne_nil_of_ofJson hv, h.color⟩

/-! ## Foregrounds -/

/-- The foreground that settings give. -/
def settingsForeground? : Json → Option Json
  | .obj members => Json.member? members "foreground"
  | _ => none

/-- The foreground that a rule gives the theme itself, if one of its selectors stands for the theme.
-/
def ruleForeground? : Json → Option Json
  | .obj members =>
    match listedSelectors members with
    | .ok selectors =>
      if selectors.contains (.str "") then
        settingsForeground? ((Json.member? members "settings").getD (.obj []))
      else none
    | .error _ => none
  | _ => none

/-- The foregrounds that a theme gives itself, in order: one of its colors, then those of its rules.
-/
def themeForegrounds (members : List (String × Json)) : List Json :=
  (firstColor ((Json.member? members "colors").getD (.obj []))
    foregroundNames).toOption.join.toList ++
    ((ruleList members).toOption.getD []).filterMap ruleForeground?

section
variable {settings rule selector : Json} {ground ground' : Ground} {rules : List ThemeRule}
  {selectors items : List Json}

/-- A selector that stands for the theme sets its foreground. -/
theorem readSelector_ok (h : readSelector settings ground selector = .ok (ground', rules)) :
    ground'.foreground =
        (if selector == .str "" then settingsForeground? settings else none).getD
          ground.foreground ∧
      ∀ rule ∈ rules, rule.IsRead := by
  unfold readSelector at h
  split at h
  · next hself =>
    obtain ⟨members, hmembers, h⟩ := bind_eq_ok.mp h
    cases pure_eq_ok.mp h
    rw [if_pos hself]
    cases settings with
    | obj members' =>
      cases hmembers
      exact ⟨rfl, fun _ h => nomatch h⟩
    | _ => cases hmembers
  · next hself =>
    rw [if_neg hself]
    split at h
    · cases pure_eq_ok.mp h
      exact ⟨rfl, fun _ h => nomatch h⟩
    · next parts hparts =>
      obtain ⟨members, hmembers, h⟩ := bind_eq_ok.mp h
      obtain ⟨fontStyle, _, h⟩ := bind_eq_ok.mp h
      cases pure_eq_ok.mp h
      refine ⟨rfl, List.forall_mem_singleton.mpr ⟨⟨selector, hparts⟩, ?_⟩⟩
      dsimp only
      split
      · exact Option.some_ne_none _ |>.symm
      · exact Option.some_ne_none _ |>.symm
      · next hnull _ => exact fun hcolor => hnull (by cases hcolor; rfl)

theorem readSelectors_ok (h : readSelectors settings ground selectors = .ok (ground', rules)) :
    ground'.foreground =
        (if selectors.contains (.str "") then settingsForeground? settings else none).getD
          ground.foreground ∧
      ∀ rule ∈ rules, rule.IsRead := by
  induction selectors generalizing ground rules with
  | nil =>
    cases h
    exact ⟨rfl, fun _ h => nomatch h⟩
  | cons selector rest ih =>
    obtain ⟨⟨ground₁, first⟩, hfirst, h⟩ := bind_eq_ok.mp h
    obtain ⟨⟨ground₂, others⟩, hothers, h⟩ := bind_eq_ok.mp h
    cases pure_eq_ok.mp h
    obtain ⟨hground₁, hrules₁⟩ := readSelector_ok hfirst
    obtain ⟨hground₂, hrules₂⟩ := ih hothers
    refine ⟨?_, List.forall_mem_append.mpr ⟨hrules₁, hrules₂⟩⟩
    have hcomm : (Json.str "" == selector) = (selector == Json.str "") := BEq.comm
    rw [hground₂, hground₁, List.contains_cons, hcomm]
    cases selector == Json.str "" with
    | false => rfl
    | true =>
      rw [Bool.true_or, if_pos rfl]
      split
      · cases settingsForeground? settings <;> rfl
      · rfl

/-- Each rule may set the foreground of the theme anew. -/
theorem readThemeRules_ok (h : readThemeRules ground items = .ok (ground', rules)) :
    ground'.foreground = (items.filterMap ruleForeground?).getLast?.getD ground.foreground ∧
      ∀ rule ∈ rules, rule.IsRead := by
  induction items generalizing ground rules with
  | nil =>
    cases h
    exact ⟨rfl, fun _ h => nomatch h⟩
  | cons item rest ih =>
    obtain ⟨members, hmembers, h⟩ := bind_eq_ok.mp h
    obtain ⟨selectors, hselectors, h⟩ := bind_eq_ok.mp h
    obtain ⟨⟨ground₁, first⟩, hfirst, h⟩ := bind_eq_ok.mp h
    obtain ⟨⟨ground₂, others⟩, hothers, h⟩ := bind_eq_ok.mp h
    cases pure_eq_ok.mp h
    obtain ⟨hground₁, hrules₁⟩ := readSelectors_ok hfirst
    obtain ⟨hground₂, hrules₂⟩ := ih hothers
    refine ⟨?_, List.forall_mem_append.mpr ⟨hrules₁, hrules₂⟩⟩
    have hitem : ruleForeground? item =
        if selectors.contains (.str "") then
          settingsForeground? ((Json.member? members "settings").getD (.obj []))
        else none := by
      cases item with
      | obj members' =>
        cases hmembers
        simp only [ruleForeground?, hselectors]
      | _ => cases hmembers
    rw [hground₂, hground₁, ← hitem, List.filterMap_cons]
    cases ruleForeground? item with
    | none => rfl
    | some color => rw [List.getLast?_cons, Option.getD_some, Option.getD_some]

end

/-- The foreground of a theme is the last one that it gives itself, null or not. -/
theorem Theme.ofJson_ok {name : Json} {members : List (String × Json)} {theme : Theme}
    (h : Theme.ofJson name (.obj members) = .ok theme) :
    theme.foreground = (themeForegrounds members).getLast?.getD defaultForeground ∧
      theme.name = (if name.isSet then name else (Json.member? members "name").getD (.str "")) ∧
      ∀ rule ∈ theme.rules, rule.IsRead := by
  obtain ⟨members', hmembers, h⟩ := bind_eq_ok.mp h
  cases hmembers
  obtain ⟨foreground, hforeground, h⟩ := bind_eq_ok.mp h
  obtain ⟨background, _, h⟩ := bind_eq_ok.mp h
  obtain ⟨items, hitems, h⟩ := bind_eq_ok.mp h
  obtain ⟨⟨ground, rules⟩, hrules, h⟩ := bind_eq_ok.mp h
  cases pure_eq_ok.mp h
  obtain ⟨hground, hreadable⟩ := readThemeRules_ok hrules
  refine ⟨?_, rfl, hreadable⟩
  have hlist : (ruleList members).toOption.getD [] = items := by
    rw [hitems]
    rfl
  have hcolor :
      (firstColor ((Json.member? members "colors").getD (.obj [])) foregroundNames).toOption.join =
      foreground := by
    rw [hforeground]
    rfl
  show ground.foreground = _
  rw [hground, themeForegrounds, List.getLast?_append, hlist, hcolor]
  cases (items.filterMap ruleForeground?).getLast? with
  | none => cases foreground <;> rfl
  | some color => rfl

/-- The rules of a theme that is read can be ranked. -/
theorem Theme.ranked_of_ofJson {name : Json} {members : List (String × Json)} {theme : Theme}
    (h : Theme.ofJson name (.obj members) = .ok theme) : theme.Ranked :=
  fun rule hmem => ((Theme.ofJson_ok h).2.2 rule hmem).readable.parts

/-- The rules of a bundled theme can be ranked. -/
theorem Theme.ranked_of_named {name : Json} {theme : Theme} (h : Theme.named name = .ok theme) :
    theme.Ranked := by
  have hall : ∀ known ∈ Theme.all, ∀ rule ∈ known.2.rules, rule.selector ≠ [] := by decide
  unfold named at h
  split at h
  · split at h
    · next hknown =>
      cases h
      obtain ⟨front, back, heq, _⟩ := List.lookup_eq_some_iff.mp hknown
      rw [heq] at hall
      exact hall (_, theme) (List.mem_append_right _ (List.mem_cons_self ..))
    · cases h
  · cases h

theorem Theme.ranked_standard : Theme.standard.Ranked := by
  have h : Theme.named (.str Theme.defaultName) = .ok Theme.standard := rfl
  exact Theme.ranked_of_named h

end Rubric
