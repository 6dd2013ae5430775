import Mathlib.Data.Prod.Lex
import Rubric.Proofs.Theme.Style

/-!
# The winners of a theme

Of the rules that compete for an aspect of a style, its color or its font style, the one with the
greatest rank wins (`Wins`). The pass over the rules holds the winner of each aspect among those it
has seen (`HoldsBest`), and from there the style is what the winners decide (`winners_decide`).
-/

namespace Rubric

/-! ## Ranks -/

/-- The rank of a rule at a place: the number of segments of the last part of its selector, then the
place. -/
def ThemeRule.rankAt (rule : ThemeRule) (place : Nat) (hparts : rule.selector ≠ []) : Nat ×ₗ Nat :=
  toLex ((rule.selector.getLast hparts).length, place)

theorem ThemeRule.rank_eq_ok {rule : ThemeRule} {place : Nat} {best : Rank}
    (hparts : rule.selector ≠ []) :
    rank rule.selector place = .ok best ↔ toLex best = rule.rankAt place hparts := by
  rw [rank_eq hparts, Except.ok.injEq, eq_comm]
  exact toLex_inj.symm

theorem Rank.outranks_iff {a b : Rank} : a.outranks b = true ↔ toLex b < toLex a := by
  rw [outranks, Prod.Lex.toLex_lt_toLex, Bool.or_eq_true, Bool.and_eq_true, decide_eq_true_eq,
    decide_eq_true_eq, beq_iff_eq, eq_comm]

/-! ## Winners -/

section
variable {α : Type}

/-- The rule at a place of the theme matches the stack, and sets the aspect to a value. -/
structure Competes (stack : List Segments) (aspect : ThemeRule → Option α) (rules : List ThemeRule)
    (place : Nat) (rule : ThemeRule) (value : α) : Prop where
  placed : rules[place]? = some rule
  fits : rule.selector.matchesStack stack = true
  sets : aspect rule = some value

/-- Of the rules that compete, the one at this place has the greatest rank. -/
structure Wins (stack : List Segments) (aspect : ThemeRule → Option α) (rules : List ThemeRule)
    (place : Nat) (rule : ThemeRule) (value : α) : Prop where
  competes : Competes stack aspect rules place rule value
  parts : rule.selector ≠ []
  greatest : ∀ place' rule' value' (parts' : rule'.selector ≠ []),
    Competes stack aspect rules place' rule' value' →
      rule'.rankAt place' parts' ≤ rule.rankAt place parts

/-- The value is that of the winner, or the default if no rule competes. -/
def Decides (stack : List Segments) (aspect : ThemeRule → Option α) (rules : List ThemeRule)
    (default value : α) : Prop :=
  (∃ place rule, Wins stack aspect rules place rule value) ∨
    (∀ place rule value', ¬ Competes stack aspect rules place rule value') ∧ value = default

/-- The place that a rule of a theme has behind the insertion of another one at a place. -/
def placeBehind (inserted place : Nat) : Nat :=
  if place < inserted then place else place + 1

/-- If the rule set the aspect at its place between the others, the rule that wins without it would
have a greater rank. -/
def Loses (stack : List Segments) (aspect : ThemeRule → Option α) (before after : List ThemeRule)
    (new : ThemeRule) : Prop :=
  ∀ (parts : new.selector ≠ []) (value : α), aspect new = some value →
    ∃ place rule value', ∃ winner : Wins stack aspect (before ++ after) place rule value',
      new.rankAt before.length parts <
        rule.rankAt (placeBehind before.length place) winner.parts

variable {stack : List Segments} {aspect : ThemeRule → Option α}
  {rules before after : List ThemeRule}
  {place place' : Nat} {rule rule' new : ThemeRule} {default value value' : α}

theorem Wins.unique (h : Wins stack aspect rules place rule value)
    (h' : Wins stack aspect rules place' rule' value') : value = value' := by
  have heq :=
    le_antisymm (h'.greatest _ _ _ h.parts h.competes) (h.greatest _ _ _ h'.parts h'.competes)
  have hplace : place = place' := congrArg (fun r => (ofLex r).2) heq
  subst hplace
  cases h.competes.placed.symm.trans h'.competes.placed
  exact Option.some.inj (h.competes.sets.symm.trans h'.competes.sets)

theorem Decides.unique (h : Decides stack aspect rules default value)
    (h' : Decides stack aspect rules default value') : value = value' := by
  rcases h with ⟨_, _, h⟩ | ⟨hnone, rfl⟩
  · rcases h' with ⟨_, _, h'⟩ | ⟨hnone, _⟩
    · exact h.unique h'
    · exact absurd h.competes (hnone _ _ _)
  · rcases h' with ⟨_, _, h'⟩ | ⟨_, rfl⟩
    · exact absurd h'.competes (hnone _ _ _)
    · rfl

/-! ## One rule more -/

theorem getElem?_placeBehind (before after : List ThemeRule) (new : ThemeRule) (place : Nat) :
    (before ++ new :: after)[placeBehind before.length place]? = (before ++ after)[place]? := by
  unfold placeBehind
  split
  · next hlt => rw [List.getElem?_append_left hlt, List.getElem?_append_left hlt]
  · next hle =>
    rw [List.getElem?_append_right (by omega), List.getElem?_append_right (by omega),
      Nat.sub_add_comm (by omega), List.getElem?_cons_succ]

/-- A place behind the insertion is that of the new rule, or one that a rule had before. -/
theorem placeBehind_cases (inserted place : Nat) :
    place = inserted ∨ ∃ old, place = placeBehind inserted old := by
  unfold placeBehind
  rcases Nat.lt_trichotomy place inserted with hlt | heq | hgt
  · exact .inr ⟨place, by rw [if_pos hlt]⟩
  · exact .inl heq
  · exact .inr ⟨place - 1, by rw [if_neg (by omega)]; omega⟩

theorem competes_placeBehind :
    Competes stack aspect (before ++ new :: after) (placeBehind before.length place) rule value ↔
      Competes stack aspect (before ++ after) place rule value := by
  constructor
  · exact fun h => ⟨getElem?_placeBehind before after new place ▸ h.placed, h.fits, h.sets⟩
  · exact fun h => ⟨(getElem?_placeBehind before after new place).trans h.placed, h.fits, h.sets⟩

/-- An insertion leaves the order of the ranks as it is. -/
theorem rankAt_placeBehind_le {hparts : rule.selector ≠ []} {hparts' : rule'.selector ≠ []}
    (inserted : Nat) (h : rule.rankAt place hparts ≤ rule'.rankAt place' hparts') :
    rule.rankAt (placeBehind inserted place) hparts ≤
      rule'.rankAt (placeBehind inserted place') hparts' := by
  simp only [ThemeRule.rankAt, Prod.Lex.toLex_le_toLex] at h ⊢
  have hmono : place ≤ place' → placeBehind inserted place ≤ placeBehind inserted place' := by
    unfold placeBehind
    split <;> split <;> omega
  exact h.imp_right fun h => ⟨h.1, hmono h.2⟩

theorem Competes.new_eq
    (h : Competes stack aspect (before ++ new :: after) before.length rule value) :
    rule = new := by
  simpa using h.placed.symm

/-- The winner stays the winner, if the new rule does not get a greater rank. -/
theorem Wins.insert (h : Wins stack aspect (before ++ after) place rule value)
    (hnew : ∀ value' (parts' : new.selector ≠ []),
      Competes stack aspect (before ++ new :: after) before.length new value' →
        new.rankAt before.length parts' ≤ rule.rankAt (placeBehind before.length place) h.parts) :
    Wins stack aspect (before ++ new :: after) (placeBehind before.length place) rule value := by
  refine ⟨competes_placeBehind.mpr h.competes, h.parts, fun place' rule' value' parts' h' => ?_⟩
  rcases placeBehind_cases before.length place' with rfl | ⟨old, rfl⟩
  · cases h'.new_eq
    exact hnew value' parts' h'
  · exact rankAt_placeBehind_le _ (h.greatest _ _ _ parts' (competes_placeBehind.mp h'))

/-- A rule that does not match, or loses, decides nothing. -/
theorem Decides.insert (h : Decides stack aspect (before ++ after) default value)
    (hparts : new.selector ≠ [])
    (hnew : new.selector.matchesStack stack = true → Loses stack aspect before after new) :
    Decides stack aspect (before ++ new :: after) default value := by
  rcases h with ⟨place, rule, h⟩ | ⟨hnone, rfl⟩
  · refine .inl ⟨_, rule, h.insert fun value' parts' h' => ?_⟩
    obtain ⟨other, rule', value'', hwins, hlt⟩ := hnew h'.fits parts' value' h'.sets
    exact hlt.le.trans (rankAt_placeBehind_le _ (h.greatest _ _ _ hwins.parts hwins.competes))
  · refine .inr ⟨fun place rule value' h' => ?_, rfl⟩
    rcases placeBehind_cases before.length place with rfl | ⟨old, rfl⟩
    · cases h'.new_eq
      obtain ⟨_, _, _, hwins, _⟩ := hnew h'.fits hparts value' h'.sets
      exact hnone _ _ _ hwins.competes
    · exact hnone _ _ _ (competes_placeBehind.mp h')

/-! ## The pass over the rules -/

/-- What is held behind some rules is the rank and the value of their winner. -/
def HoldsBest (stack : List Segments) (aspect : ThemeRule → Option α) (rules : List ThemeRule) :
    Option (Rank × α) → Prop
  | none => ∀ place rule value, ¬ Competes stack aspect rules place rule value
  | some (best, value) => ∃ place rule, ∃ h : Wins stack aspect rules place rule value,
      toLex best = rule.rankAt place h.parts

variable {held : Option (Rank × α)}

/-- The winner in front of the last rule stays the winner, unless the last rule competes and has a
greater rank. -/
theorem Wins.stays (h : Wins stack aspect rules place rule value)
    (hnew : ∀ value' (parts' : new.selector ≠ []),
      Competes stack aspect (rules ++ [new]) rules.length new value' →
        new.rankAt rules.length parts' ≤ rule.rankAt place h.parts) :
    Wins stack aspect (rules ++ [new]) place rule value := by
  have hlt : place < rules.length := (List.getElem?_eq_some_iff.mp h.competes.placed).1
  have hplace : placeBehind rules.length place = place := if_pos hlt
  rw [← List.append_nil rules] at h
  have hinsert : _ → Wins stack aspect (rules ++ [new]) _ rule value := h.insert
  rw [hplace] at hinsert
  exact hinsert hnew

/-- The last rule wins if its rank is greater than those in front of it. -/
theorem Competes.wins (h : Competes stack aspect (rules ++ [new]) rules.length new value)
    (hparts : new.selector ≠ [])
    (hbest : ∀ place rule value' (parts : rule.selector ≠ []),
      Competes stack aspect rules place rule value' →
        rule.rankAt place parts ≤ new.rankAt rules.length hparts) :
    Wins stack aspect (rules ++ [new]) rules.length new value := by
  refine ⟨h, hparts, fun place rule value' parts h' => ?_⟩
  rcases placeBehind_cases rules.length place with rfl | ⟨old, rfl⟩
  · cases h'.new_eq
    exact le_refl _
  · have hold : Competes stack aspect rules old rule value' := by
      simpa using competes_placeBehind.mp h'
    have hlt : old < rules.length := (List.getElem?_eq_some_iff.mp hold.placed).1
    rw [placeBehind, if_pos hlt]
    exact hbest old rule value' parts hold

/-- What is held stays, if the next rule does not compete. -/
theorem HoldsBest.skip (H : HoldsBest stack aspect rules held)
    (hnew : ∀ value, ¬ Competes stack aspect (rules ++ [new]) rules.length new value) :
    HoldsBest stack aspect (rules ++ [new]) held := by
  cases held with
  | none =>
    intro place rule value h
    rcases placeBehind_cases rules.length place with rfl | ⟨old, rfl⟩
    · cases h.new_eq
      exact hnew value h
    · exact H old rule value (by simpa using competes_placeBehind.mp h)
  | some best =>
    obtain ⟨place, rule, hwins, hbest⟩ := H
    exact ⟨place, rule, hwins.stays fun value' _ h => (hnew value' h).elim, hbest⟩

/-- What is held is compared with the next rule, if that matches. -/
theorem HoldsBest.taken {best : Rank} (H : HoldsBest stack aspect rules held)
    (hparts : new.selector ≠ []) (hfits : new.selector.matchesStack stack = true)
    (hrank : toLex best = new.rankAt rules.length hparts) :
    HoldsBest stack aspect (rules ++ [new]) (better held best (aspect new)) := by
  cases hsets : aspect new with
  | none => exact H.skip fun value h => by cases hsets.symm.trans h.sets
  | some value =>
    have h : Competes stack aspect (rules ++ [new]) rules.length new value :=
      ⟨by simp, hfits, hsets⟩
    cases held with
    | none => exact ⟨_, new, h.wins hparts fun _ _ _ _ h => (H _ _ _ h).elim, hrank⟩
    | some old =>
      obtain ⟨place, rule, hwins, hbest⟩ := H
      rw [better]
      split
      · next hgreater =>
        rw [Rank.outranks_iff, hbest, hrank] at hgreater
        refine ⟨_, new, h.wins hparts fun place' rule' value' parts' h' => ?_, hrank⟩
        exact (hwins.greatest place' rule' value' parts' h').trans hgreater.le
      · next hless =>
        rw [Rank.outranks_iff, hbest, hrank] at hless
        exact ⟨place, rule, hwins.stays fun _ _ _ => not_lt.mp hless, hbest⟩

/-- It stays, if the next rule does not match. -/
theorem HoldsBest.passed (H : HoldsBest stack aspect rules held)
    (hfits : ¬ new.selector.matchesStack stack = true) :
    HoldsBest stack aspect (rules ++ [new]) held :=
  H.skip fun _ h => hfits h.fits

/-- Behind all rules the best of all is held, for the color and for the font style. -/
theorem bestOf_holds {color color' : Option (Rank × Json)}
    {fontStyle fontStyle' : Option (Rank × FontStyle)}
    (hcolor : HoldsBest stack (·.foreground) before color)
    (hfont : HoldsBest stack (·.fontStyle) before fontStyle)
    (h : bestOf stack before.length rules color fontStyle = .ok (color', fontStyle')) :
    HoldsBest stack (·.foreground) (before ++ rules) color' ∧
      HoldsBest stack (·.fontStyle) (before ++ rules) fontStyle' := by
  induction rules generalizing before color fontStyle with
  | nil =>
    cases h
    rw [List.append_nil]
    exact ⟨hcolor, hfont⟩
  | cons new rest ih =>
    have hlength : before.length + 1 = (before ++ [new]).length := by simp
    rw [List.append_cons]
    have hparts := selector_ne_nil_of_bestOf h new (List.mem_cons_self ..)
    unfold bestOf at h
    split at h
    · next hfits =>
      obtain ⟨best, hrank, h⟩ := bind_eq_ok.mp h
      rw [ThemeRule.rank_eq_ok hparts] at hrank
      rw [hlength] at h
      exact ih (hcolor.taken hparts hfits hrank) (hfont.taken hparts hfits hrank) h
    · next hfits =>
      rw [hlength] at h
      exact ih (hcolor.passed hfits) (hfont.passed hfits) h

theorem HoldsBest.decides (H : HoldsBest stack aspect rules held) (default : α) :
    Decides stack aspect rules default ((held.map (·.2)).getD default) := by
  cases held with
  | none => exact .inr ⟨H, rfl⟩
  | some best =>
    obtain ⟨place, rule, hwins, _⟩ := H
    exact .inl ⟨place, rule, hwins⟩

end

/-! ## Styles -/

/-- Color and font style are those of the winners. -/
theorem Theme.styleOf_decides {theme : Theme} {stack : List Segments} {style : Style}
    (h : theme.styleOf stack = .ok style) :
    Decides stack (·.foreground) theme.rules theme.foreground style.color ∧
      Decides stack (·.fontStyle) theme.rules {} style.fontStyle := by
  obtain ⟨⟨color, fontStyle⟩, hbest, h⟩ := bind_eq_ok.mp h
  cases pure_eq_ok.mp h
  have hnone {α : Type} (aspect : ThemeRule → Option α) : HoldsBest stack aspect [] none :=
    fun _ _ _ h => nomatch h.placed
  obtain ⟨hcolor, hfont⟩ := bestOf_holds (hnone _) (hnone _) hbest
  exact ⟨hcolor.decides _, hfont.decides _⟩

/-- **The documented winners.** Of the rules that match a stack of scopes and set a foreground, the
one with the greatest rank gives the color, and if there is none the theme does. In the same way, by
itself, the font style is found. A rule that is inserted anywhere changes nothing if it does not
match, or if the winner of each aspect that it sets has a greater rank. -/
theorem winners_decide (theme : Theme) (H : theme.Ranked) (scopes : List String) :
    ∃ style stack, theme.resolve (scopes.map .str) = .ok style ∧
      stack = scopes.reverse.map (Text.split '.') ∧
      Decides stack (·.foreground) theme.rules theme.foreground style.color ∧
      Decides stack (·.fontStyle) theme.rules {} style.fontStyle ∧
      ∀ before after new, theme.rules = before ++ after → new.selector ≠ [] →
        (new.selector.matchesStack stack = true → Loses stack (·.foreground) before after new ∧
          Loses stack (·.fontStyle) before after new) →
        { theme with rules := before ++ new :: after }.resolve (scopes.map .str) = .ok style := by
  obtain ⟨style, hstyle⟩ := H.resolve scopes
  have hstack := hstyle
  rw [Theme.resolve_eq] at hstack
  obtain ⟨hcolor, hfont⟩ := Theme.styleOf_decides hstack
  refine ⟨style, _, hstyle, rfl, hcolor, hfont, fun before after new hrules hnew hloses => ?_⟩
  have H' : Theme.Ranked { theme with rules := before ++ new :: after } := by
    rw [Theme.Ranked, hrules] at H
    rw [Theme.Ranked, List.forall_mem_append, List.forall_mem_cons]
    obtain ⟨hbefore, hafter⟩ := List.forall_mem_append.mp H
    exact ⟨hbefore, hnew, hafter⟩
  obtain ⟨style', hstyle'⟩ := H'.resolve scopes
  rw [hstyle']
  rw [Theme.resolve_eq] at hstyle'
  obtain ⟨hcolor', hfont'⟩ := Theme.styleOf_decides hstyle'
  rw [hrules] at hcolor hfont
  have hsame := hcolor'.unique (hcolor.insert hnew fun hfits => (hloses hfits).1)
  have hsame' := hfont'.unique (hfont.insert hnew fun hfits => (hloses hfits).2)
  exact congrArg Except.ok (congrArg₂ Style.mk hsame hsame')

/-- A theme whose most specific rule is not the last one. -/
def quotedTheme : Theme where
  name := .str "quoted"
  background := .null
  foreground := .str "#000000"
  rules := [
    { selector := [["meta"], ["string", "quoted"]], foreground := some (.str "#111111") },
    { selector := [["string"]], foreground := some (.str "#222222"),
      fontStyle := some { bold := true } },
    { selector := [["comment"]], foreground := some (.str "#333333") }]

/-- A rule that loses against the first one of `quotedTheme` in color, and in font style against the
second one, if it stands between the two. -/
def plainString : ThemeRule where
  selector := [["string"]]
  foreground := some (.str "#444444")
  fontStyle := some {}

theorem winners_decide_quoted :
    ∃ style, quotedTheme.resolve (["string.quoted.double", "meta.line"].map .str) = .ok style ∧
      style = { color := .str "#111111", fontStyle := { bold := true } } ∧
      { quotedTheme with
        rules := quotedTheme.rules.take 1 ++
          plainString :: quotedTheme.rules.drop 1 : Theme }.resolve
        (["string.quoted.double", "meta.line"].map .str) = .ok style := by
  have H : quotedTheme.Ranked := by
    simp [Theme.Ranked, quotedTheme]
  have hsplit : ["string.quoted.double", "meta.line"].reverse.map (Text.split '.') =
      [["meta", "line"], ["string", "quoted", "double"]] := by
    decide +kernel
  obtain ⟨style, stack, hstyle, rfl, _, _, hinsert⟩ :=
    winners_decide quotedTheme H ["string.quoted.double", "meta.line"]
  refine ⟨style, hstyle, ?_, hinsert _ _ _ (List.take_append_drop 1 quotedTheme.rules).symm
    (List.cons_ne_nil _ _) fun _ => ?_⟩
  · rw [Theme.resolve_eq, hsplit] at hstyle
    exact Except.ok.inj (hstyle.symm.trans rfl)
  · rw [hsplit]
    constructor <;> intro parts value hsets
    -- the first rule gives the color
    · refine ⟨0, _, _, ⟨⟨rfl, rfl, rfl⟩, by decide, fun place rule' value' parts' h => ?_⟩, ?_⟩
      · match place, h with
        | 0, ⟨hrule, _, _⟩ => cases hrule; exact le_refl _
        | 1, ⟨hrule, _, _⟩ =>
          cases hrule
          exact Prod.Lex.toLex_le_toLex.mpr (.inl (Nat.lt_add_one 1))
        | 2, ⟨hrule, hfits, _⟩ => cases hrule; cases hfits
        | _ + 3, ⟨hrule, _, _⟩ => cases hrule
      · exact Prod.Lex.toLex_lt_toLex.mpr (.inl (Nat.lt_add_one 1))
    -- the second one gives the font style
    · refine ⟨1, _, _, ⟨⟨rfl, rfl, rfl⟩, by decide, fun place rule' value' parts' h => ?_⟩, ?_⟩
      · match place, h with
        | 0, ⟨hrule, _, hsets⟩ => cases hrule; cases hsets
        | 1, ⟨hrule, _, _⟩ => cases hrule; exact le_refl _
        | 2, ⟨hrule, hfits, _⟩ => cases hrule; cases hfits
        | _ + 3, ⟨hrule, _, _⟩ => cases hrule
      · exact Prod.Lex.toLex_lt_toLex.mpr (.inr ⟨rfl, Nat.lt_add_one 1⟩)

end Rubric
