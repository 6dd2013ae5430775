import Rubric.Proofs.Outcome
import Rubric.Theme.Style

/-!
# Styles

A theme has a style for every stack if and only if each of its rules can be ranked
(`Theme.ranked_iff`). The color of a style is one of the theme's (`Theme.color_mem_of_resolve`). A
cache of styles that holds what the theme resolves goes on to do so, and gives what the theme would
(`StyleCache.get_ok`).
-/

namespace Rubric

/-! ## Ranked themes -/

/-- Each rule of a theme has a last part to be ranked by. -/
def Theme.Ranked (theme : Theme) : Prop :=
  ∀ rule ∈ theme.rules, rule.selector ≠ []

theorem rank_eq {selector : Selector} (hparts : selector ≠ []) (index : Nat) :
    rank selector index = .ok ((selector.getLast hparts).length, index) := by
  rw [rank, Selector.specificity, List.getLast?_eq_some_getLast hparts]
  rfl

theorem bestOf_total {rules : List ThemeRule} (H : ∀ rule ∈ rules, rule.selector ≠ [])
    (stack : List Segments) (index : Nat) (color : Option (Rank × Json))
    (fontStyle : Option (Rank × FontStyle)) :
    ∃ best, bestOf stack index rules color fontStyle = .ok best := by
  induction rules generalizing index color fontStyle with
  | nil => exact ⟨_, rfl⟩
  | cons rule rest ih =>
    obtain ⟨hparts, hrest⟩ := List.forall_mem_cons.mp H
    unfold bestOf
    split
    · rw [rank_eq hparts, ok_bind]
      exact ih hrest ..
    · exact ih hrest ..

/-- A rule that cannot be ranked matches every stack. -/
theorem selector_ne_nil_of_bestOf {rules : List ThemeRule} {stack : List Segments} {index : Nat}
    {color : Option (Rank × Json)} {fontStyle : Option (Rank × FontStyle)}
    {best : Option (Rank × Json) × Option (Rank × FontStyle)}
    (h : bestOf stack index rules color fontStyle = .ok best) :
    ∀ rule ∈ rules, rule.selector ≠ [] := by
  induction rules generalizing index color fontStyle with
  | nil => exact fun _ hmem => nomatch hmem
  | cons rule rest ih =>
    unfold bestOf at h
    split at h
    · obtain ⟨_, hrank, h⟩ := bind_eq_ok.mp h
      refine List.forall_mem_cons.mpr ⟨fun hnil => ?_, ih h⟩
      rw [hnil] at hrank
      cases hrank
    · next hfits =>
      refine List.forall_mem_cons.mpr ⟨fun hnil => hfits ?_, ih h⟩
      simp [hnil, Selector.matchesStack]

/-- A theme has a style for a stack of scopes, whichever it is, just if its rules can be ranked. -/
theorem Theme.ranked_iff {theme : Theme} (stack : List Segments) :
    theme.Ranked ↔ ∃ style, theme.styleOf stack = .ok style := by
  constructor
  · intro H
    obtain ⟨best, hbest⟩ := bestOf_total H stack 0 none none
    exact ⟨_, bind_eq_ok.mpr ⟨best, hbest, rfl⟩⟩
  · rintro ⟨style, h⟩
    obtain ⟨best, hbest, _⟩ := bind_eq_ok.mp h
    exact selector_ne_nil_of_bestOf hbest

/-! ## Colors -/

/-- The colors that a theme can give. -/
def Theme.colors (theme : Theme) : List Json :=
  theme.foreground :: theme.rules.filterMap (·.foreground)

theorem better_mem {α : Type} {held : Option (Rank × α)} {rank : Rank} {new : Option α}
    {rank' : Rank} {value : α} (h : better held rank new = some (rank', value)) :
    held = some (rank', value) ∨ new = some value := by
  unfold better at h
  split at h
  · exact .inl h
  · split at h
    · cases h
      exact .inr rfl
    · split at h
      · cases h
        exact .inr rfl
      · exact .inl h

theorem bestOf_mem {stack : List Segments} {index : Nat} {rules : List ThemeRule}
    {color best : Option (Rank × Json)} {fontStyle bestStyle : Option (Rank × FontStyle)}
    {rank : Rank} {value : Json}
    (h : bestOf stack index rules color fontStyle = .ok (best, bestStyle))
    (hbest : best = some (rank, value)) :
    color = some (rank, value) ∨ value ∈ rules.filterMap (·.foreground) := by
  induction rules generalizing index color fontStyle with
  | nil =>
    cases h
    exact .inl hbest
  | cons rule rest ih =>
    have hrest : value ∈ rest.filterMap (·.foreground) →
        value ∈ (rule :: rest).filterMap (·.foreground) := fun hmem =>
      ((List.sublist_cons_self rule rest).filterMap _).subset hmem
    unfold bestOf at h
    split at h
    · obtain ⟨_, _, h⟩ := bind_eq_ok.mp h
      rcases ih h with hbetter | hmem
      · rcases better_mem hbetter with hheld | hnew
        · exact .inl hheld
        · exact .inr (List.mem_filterMap.mpr ⟨rule, List.mem_cons_self .., hnew⟩)
      · exact .inr (hrest hmem)
    · rcases ih h with hheld | hmem
      · exact .inl hheld
      · exact .inr (hrest hmem)

theorem Theme.color_mem_of_styleOf {theme : Theme} {stack : List Segments} {style : Style}
    (h : theme.styleOf stack = .ok style) : style.color ∈ theme.colors := by
  obtain ⟨⟨best, bestStyle⟩, hbest, h⟩ := bind_eq_ok.mp h
  cases pure_eq_ok.mp h
  show (best.map (·.2)).getD theme.foreground ∈ theme.colors
  cases best with
  | none => exact List.mem_cons_self ..
  | some best =>
    rcases bestOf_mem hbest rfl with h | h
    · cases h
    · exact List.mem_cons_of_mem _ h

/-! ## Resolving -/

section
variable {theme : Theme} {scopes : List Json} {style : Style}

theorem Theme.color_mem_of_resolve (h : theme.resolve scopes = .ok style) :
    style.color ∈ theme.colors := by
  obtain ⟨_, _, h⟩ := bind_eq_ok.mp h
  exact Theme.color_mem_of_styleOf h

theorem mapM_scopeSegments (names : List String) :
    (names.map Json.str).mapM scopeSegments = .ok (names.map (Text.split '.')) := by
  induction names with
  | nil => rfl
  | cons name rest ih =>
    rw [List.map_cons, List.mapM_cons, ih]
    rfl

theorem Theme.resolve_eq (theme : Theme) (names : List String) :
    theme.resolve (names.map .str) = theme.styleOf (names.reverse.map (Text.split '.')) := by
  rw [resolve, ← List.map_reverse, mapM_scopeSegments, ok_bind]

/-- Under a theme whose rules can be ranked, scopes that are texts can be resolved. -/
theorem Theme.Ranked.resolve (H : theme.Ranked) (names : List String) :
    ∃ style, theme.resolve (names.map .str) = .ok style := by
  rw [Theme.resolve_eq]
  exact (Theme.ranked_iff _).mp H

theorem scopeSegments_ok {scope : Json} {segments : Segments}
    (h : scopeSegments scope = .ok segments) :
    ∃ name, scope = .str name := by
  cases scope with
  | str name => exact ⟨name, rfl⟩
  | _ => cases h

theorem texts_of_mapM_scopeSegments {stack : List Segments}
    (h : scopes.mapM scopeSegments = .ok stack) :
    ∃ names : List String, scopes = names.map .str := by
  induction scopes generalizing stack with
  | nil => exact ⟨[], rfl⟩
  | cons scope rest ih =>
    rw [List.mapM_cons] at h
    obtain ⟨segments, hscope, h⟩ := bind_eq_ok.mp h
    obtain ⟨others, hrest, _⟩ := bind_eq_ok.mp h
    obtain ⟨name, rfl⟩ := scopeSegments_ok hscope
    obtain ⟨names, rfl⟩ := ih hrest
    exact ⟨name :: names, rfl⟩

/-- Only texts can be resolved. -/
theorem Theme.texts_of_resolve (h : theme.resolve scopes = .ok style) :
    ∃ names : List String, scopes = names.map .str := by
  obtain ⟨stack, hstack, _⟩ := bind_eq_ok.mp h
  obtain ⟨names, hnames⟩ := texts_of_mapM_scopeSegments hstack
  refine ⟨names.reverse, ?_⟩
  rw [List.map_reverse, ← hnames, List.reverse_reverse]

/-- A list that is the same as one of texts is that list. -/
theorem eq_of_sameItems {names : List String} (h : Json.sameItems (names.map .str) scopes = true) :
    scopes = names.map .str := by
  induction names generalizing scopes with
  | nil =>
    cases scopes with
    | nil => rfl
    | cons scope rest => simp [Json.sameItems] at h
  | cons name names ih =>
    cases scopes with
    | nil => simp [Json.sameItems] at h
    | cons scope rest =>
      simp only [List.map_cons, Json.sameItems, Bool.and_eq_true] at h
      rw [ih h.2, List.map_cons, Json.same_str.mp h.1]

end

/-! ## The cache -/

/-- The cache holds what the theme resolves. -/
structure StyleCache.Of (theme : Theme) (cache : StyleCache) : Prop where
  theme_eq : cache.theme = theme
  resolve_eq : ∀ entry ∈ cache.styles, theme.resolve entry.1 = .ok entry.2

namespace StyleCache
variable {theme : Theme} {cache cache' : StyleCache} {scopes : List Json} {style : Style}

theorem Of.start (theme : Theme) : StyleCache.Of theme { theme } where
  theme_eq := rfl
  resolve_eq _ h := nomatch h

theorem mapM_asKey_ok {keys : List Json} (h : scopes.mapM Json.asKey = .ok keys) :
    keys = scopes := by
  induction scopes generalizing keys with
  | nil => cases h; rfl
  | cons scope rest ih =>
    rw [List.mapM_cons] at h
    obtain ⟨key, hkey, h⟩ := bind_eq_ok.mp h
    obtain ⟨others, hrest, h⟩ := bind_eq_ok.mp h
    cases pure_eq_ok.mp h
    rw [ih hrest]
    unfold Json.asKey at hkey
    split at hkey
    · cases hkey
      rfl
    · cases hkey

/-- The cache gives what the theme resolves, whether it was held or not. -/
theorem get_outcome (H : cache.Of theme) (scopes : List Json) :
    (cache.get scopes).map (·.1) = (scopes.mapM Json.asKey >>= theme.resolve) := by
  unfold get
  cases hkeys : scopes.mapM Json.asKey with
  | error e => rfl
  | ok keys =>
    simp only [ok_bind]
    split
    · next known held hfind =>
      have hheld := H.resolve_eq _ (List.mem_of_find?_eq_some hfind)
      have hsame : Json.sameItems known keys = true := by simpa using List.find?_some hfind
      obtain ⟨names, rfl⟩ := Theme.texts_of_resolve hheld
      rw [eq_of_sameItems hsame, hheld]
      rfl
    · rw [H.theme_eq]
      cases theme.resolve keys <;> rfl

/-- A style that the cache gives is the one that the theme resolves, and the cache goes on to hold
such styles. -/
theorem get_ok (H : cache.Of theme) (h : cache.get scopes = .ok (style, cache')) :
    theme.resolve scopes = .ok style ∧ cache'.Of theme := by
  have hresolve : theme.resolve scopes = .ok style := by
    have hmap : (cache.get scopes).map (·.1) = .ok style := by rw [h]; rfl
    rw [get_outcome H] at hmap
    obtain ⟨keys, hkeys, hresolve⟩ := bind_eq_ok.mp hmap
    cases mapM_asKey_ok hkeys
    exact hresolve
  refine ⟨hresolve, ?_⟩
  obtain ⟨keys, hkeys, h⟩ := bind_eq_ok.mp h
  cases mapM_asKey_ok hkeys
  split at h
  · cases pure_eq_ok.mp h
    exact H
  · obtain ⟨fresh, _, h⟩ := bind_eq_ok.mp h
    cases pure_eq_ok.mp h
    refine ⟨H.theme_eq, fun entry hmem => ?_⟩
    rcases List.mem_append.mp hmem with hmem | hmem
    · exact H.resolve_eq entry hmem
    · cases List.mem_singleton.mp hmem
      exact hresolve

/-- Under a theme whose rules can be ranked, scopes that are texts have a style. -/
theorem get_texts (H : cache.Of theme) (hranked : theme.Ranked) (names : List String) :
    ∃ style cache', cache.get (names.map .str) = .ok (style, cache') := by
  have hkeys : (names.map Json.str).mapM Json.asKey = .ok (names.map .str) := by
    induction names with
    | nil => rfl
    | cons name rest ih =>
      rw [List.map_cons, List.mapM_cons, ih]
      rfl
  obtain ⟨style, hstyle⟩ := hranked.resolve names
  rw [get, hkeys, ok_bind]
  split
  · exact ⟨_, _, rfl⟩
  · refine ⟨_, _, bind_eq_ok.mpr ⟨style, ?_, rfl⟩⟩
    rw [H.theme_eq, hstyle]

end StyleCache

end Rubric
