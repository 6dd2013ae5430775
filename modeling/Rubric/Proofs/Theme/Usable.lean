import Mathlib.Data.List.TakeWhile
import Rubric.Proofs.Json.Members
import Rubric.Proofs.Theme.Reader
import Rubric.Proofs.Theme.Spelling

/-!
# Themes that can be used

Whatever object a theme is read from, its rules have selectors that can be ranked, and so every
stack of scopes gets a style. An entry in a list of selectors that spells none is passed over:
without it the same theme is read (`themes_usable`), unless nothing is left of a text, which then
stands for the theme itself (`themes_usable_emptied`).
-/

namespace Rubric

/-! ## Blanks around a text -/

namespace Text
variable {words : List (List Char)} {s gap : List Char}

theorem Separated.blank_append (h : Separated words s) (hgap : ∀ c ∈ gap, isBlank c = true) :
    Separated words (gap ++ s) := by
  induction gap with
  | nil => exact h
  | cons c gap ih =>
    obtain ⟨hc, hgap⟩ := List.forall_mem_cons.mp hgap
    exact (ih hgap).cons_blank hc

theorem Separated.append_blank (h : Separated words s) (hgap : ∀ c ∈ gap, isBlank c = true) :
    Separated words (s ++ gap) := by
  induction h with
  | blank h => exact .blank (List.forall_mem_append.mpr ⟨h, hgap⟩)
  | @word _ _ rest _ hfront hne hword hrest _ ih =>
    rw [List.append_assoc _ rest gap]
    refine .word hfront hne hword (fun c hc => ?_) ih
    cases rest with
    | nil => exact hgap c (List.mem_of_mem_head? hc)
    | cons d rest => exact hrest c hc

/-- What is trimmed off a text are blanks. -/
theorem exists_trim (s : List Char) : ∃ gap gap', (∀ c ∈ gap, isBlank c = true) ∧
    (∀ c ∈ gap', isBlank c = true) ∧ s = gap ++ (trim s ++ gap') := by
  refine ⟨s.takeWhile isBlank, ((trimLeft s).reverse.takeWhile isBlank).reverse,
    fun c hc => List.mem_takeWhile_imp hc,
    fun c hc => List.mem_takeWhile_imp (List.mem_reverse.mp hc), ?_⟩
  rw [trim, trimRight, ← List.reverse_append, List.takeWhile_append_dropWhile, List.reverse_reverse,
    trimLeft, List.takeWhile_append_dropWhile]

theorem Separated.of_trim (h : Separated words (trim s)) : Separated words s := by
  obtain ⟨gap, gap', hgap, hgap', hs⟩ := exists_trim s
  rw [hs]
  exact (h.append_blank hgap').blank_append hgap

theorem trim_ne_nil {c : Char} (hmem : c ∈ s) (hc : isBlank c = false) : trim s ≠ [] := by
  obtain ⟨gap, gap', hgap, hgap', hs⟩ := exists_trim s
  intro hnil
  rw [hs, hnil, List.nil_append] at hmem
  have hblank := List.forall_mem_append.mpr ⟨hgap, hgap'⟩ c hmem
  rw [hc] at hblank
  cases hblank

/-- A text of which something is left when it is trimmed is not blank. -/
theorem exists_of_trim_ne_nil (h : trim s ≠ []) : ∃ c ∈ s, isBlank c = false := by
  by_contra hnone
  have hblank : ∀ c ∈ s, isBlank c = true := by simpa using hnone
  have hleft : trimLeft s = [] := List.dropWhile_eq_nil_iff.mpr hblank
  rw [trim, hleft] at h
  exact h rfl

end Text

/-! ## Malformed entries -/

/-- The entry of a list of selectors is malformed. The empty text is not: it stands for the theme
itself. -/
def Selector.IsMalformed (entry : Json) : Prop :=
  entry ≠ .str "" ∧ ∀ s, entry = .str s → ∀ selector : Selector, ¬ selector.Spells s.toList

/-- The second value lists the selectors of the first one but for a malformed entry. In a text the
entries stand between commas. A blank text stands for the theme itself, so an entry that is not
blank is not the last such entry of a text. -/
inductive Prunes : Json → Json → Prop
  | list {front back : List Json} {entry : Json} : Selector.IsMalformed entry →
    Prunes (.arr (front ++ entry :: back)) (.arr (front ++ back))
  | text {front back : List (List Char)} {entry : List Char} :
    (∀ piece ∈ front ++ entry :: back, ',' ∉ piece) →
      (∀ selector : Selector, ¬ selector.Spells entry) →
      ((∃ c ∈ entry, Text.isBlank c = false) →
        ∃ piece ∈ front ++ back, ∃ c ∈ piece, Text.isBlank c = false) →
        Prunes (.str (String.ofList ([','].intercalate (front ++ entry :: back))))
          (.str (String.ofList ([','].intercalate (front ++ back))))

section
variable {settings entry scope scope' : Json} {ground : Ground} {front back : List Json}
  {rule members : List (String × Json)}

/-- A malformed entry is passed over, whatever the settings are. -/
theorem readSelector_malformed (h : Selector.IsMalformed entry) :
    readSelector settings ground entry = .ok (ground, []) := by
  obtain ⟨hne, hspells⟩ := h
  rw [readSelector, if_neg (by simpa using hne)]
  cases hread : Selector.ofJson entry with
  | error _ => rfl
  | ok selector =>
    cases entry with
    | str s => exact absurd (Selector.ofText_eq_ok_iff.mp hread) (hspells s rfl selector)
    | _ => cases hread

theorem readSelectors_malformed (h : Selector.IsMalformed entry) :
    readSelectors settings ground (front ++ entry :: back) =
      readSelectors settings ground (front ++ back) := by
  induction front generalizing ground with
  | nil =>
    rw [List.nil_append, List.nil_append, readSelectors, readSelector_malformed h, ok_bind]
    dsimp only
    cases readSelectors settings ground back <;> rfl
  | cons first front ih =>
    rw [List.cons_append, List.cons_append, readSelectors, readSelectors]
    refine bind_congr_ok fun (ground, _) _ => ?_
    dsimp only
    rw [ih]

/-- The entries of a text, trimmed, without the empty ones. -/
def trimmedPieces (pieces : List (List Char)) : List (List Char) :=
  (pieces.map Text.trim).filter fun piece => !piece.isEmpty

theorem trimmedPieces_ne_nil {pieces : List (List Char)}
    (h : ∃ piece ∈ pieces, ∃ c ∈ piece, Text.isBlank c = false) : trimmedPieces pieces ≠ [] := by
  obtain ⟨piece, hpiece, c, hc, hblank⟩ := h
  refine List.ne_nil_of_mem (a := Text.trim piece)
    (List.mem_filter.mpr ⟨List.mem_map_of_mem hpiece, ?_⟩)
  simpa using Text.trim_ne_nil hc hblank

/-- The selectors that a text lists, one for the theme itself if there are none. -/
def piecesListed (pieces : List (List Char)) : List Json :=
  if (trimmedPieces pieces).isEmpty then [.str ""]
  else (trimmedPieces pieces).map fun piece => .str (String.ofList piece)

theorem listedSelectors_text {pieces : List (List Char)}
    (hscope : Json.member? rule "scope" = some (.str (String.ofList ([','].intercalate pieces))))
    (hcommas : ∀ piece ∈ pieces, ',' ∉ piece) :
    listedSelectors rule = .ok (piecesListed pieces) := by
  have hsplit : ((Text.splitAt ',' ([','].intercalate pieces)).map Text.trim).filter
      (fun piece => !piece.isEmpty) = trimmedPieces pieces := by
    by_cases hnil : pieces = []
    · rw [hnil]
      decide
    · rw [Text.splitAt_intercalate hnil hcommas]
      rfl
  simp only [listedSelectors, hscope, String.toList_ofList, hsplit, piecesListed]

theorem trimmedPieces_append (pieces more : List (List Char)) :
    trimmedPieces (pieces ++ more) = trimmedPieces pieces ++ trimmedPieces more := by
  simp only [trimmedPieces, List.map_append, List.filter_append]

/-- What a rule says is the same without a malformed entry of its list of selectors. -/
theorem Prunes.readSelectors_eq (h : Prunes scope scope')
    (hscope : Json.member? rule "scope" = some scope) :
    (listedSelectors rule >>= readSelectors settings ground) =
      listedSelectors (Json.put rule "scope" scope') >>= readSelectors settings ground := by
  have hscope' : Json.member? (Json.put rule "scope" scope') "scope" = some scope' := by
    rw [Json.member?_put, if_pos rfl]
  cases h with
  | list hentry =>
    have hlist (items : List Json) (rule : List (String × Json))
        (h : Json.member? rule "scope" = some (.arr items)) : listedSelectors rule = .ok items := by
      rw [listedSelectors, h]
      rfl
    rw [hlist _ _ hscope, hlist _ _ hscope', ok_bind, ok_bind, readSelectors_malformed hentry]
  | @text front back entry hcommas hspells hleft =>
    have hsub : front ++ back ⊆ front ++ entry :: back :=
      ((List.sublist_cons_self entry back).append_left front).subset
    rw [listedSelectors_text hscope hcommas,
      listedSelectors_text hscope' fun piece h => hcommas piece (hsub h), ok_bind, ok_bind]
    cases hblank : (Text.trim entry).isEmpty with
    | true =>
      have hsame : trimmedPieces (front ++ entry :: back) = trimmedPieces (front ++ back) := by
        simp [trimmedPieces, hblank]
      rw [piecesListed, piecesListed, hsame]
    | false =>
      have hentry : trimmedPieces (front ++ entry :: back) =
          trimmedPieces front ++ Text.trim entry :: trimmedPieces back := by
        simp [trimmedPieces, hblank]
      have hother :=
        trimmedPieces_ne_nil (hleft (Text.exists_of_trim_ne_nil (by simpa using hblank)))
      rw [piecesListed, piecesListed, hentry, if_neg (by simp), if_neg (by simpa using hother),
        List.map_append, List.map_cons, trimmedPieces_append, List.map_append]
      refine readSelectors_malformed ⟨fun hempty => ?_, fun s hs selector hselector => ?_⟩
      · have := congrArg String.toList (Json.str.inj hempty)
        simp_all
      · cases hs
        rw [String.toList_ofList] at hselector
        exact hspells selector ⟨hselector.ne_nil, hselector.parts, hselector.separated.of_trim⟩

theorem Prunes.readThemeRules_eq (h : Prunes scope scope')
    (hscope : Json.member? rule "scope" = some scope) (outer inner : List Json) :
    readThemeRules ground (outer ++ .obj (Json.put rule "scope" scope') :: inner) =
      readThemeRules ground (outer ++ .obj rule :: inner) := by
  induction outer generalizing ground with
  | nil =>
    have hsettings : Json.member? (Json.put rule "scope" scope') "settings" =
        Json.member? rule "settings" := by
      rw [Json.member?_put, if_neg (by decide)]
    rw [List.nil_append, List.nil_append, readThemeRules, readThemeRules]
    simp only [Json.asObject, ok_bind, hsettings]
    rw [← bind_assoc, ← bind_assoc, h.readSelectors_eq hscope]
  | cons first outer ih =>
    rw [List.cons_append, List.cons_append, readThemeRules, readThemeRules]
    simp only [ih]

/-- The name under which a theme lists its rules. -/
def ruleKey (members : List (String × Json)) : String :=
  if (Json.member? members "tokenColors").isSome then "tokenColors" else "settings"

theorem ruleList_of_ruleKey {items : List Json}
    (h : Json.member? members (ruleKey members) = some (.arr items)) :
    ruleList members = .ok items := by
  unfold ruleKey at h
  unfold ruleList
  cases htokens : Json.member? members "tokenColors" with
  | none =>
    rw [htokens, if_neg (by decide)] at h
    simp only [h]
    rfl
  | some v =>
    rw [htokens, if_pos Option.isSome_some, htokens] at h
    cases h
    rfl

theorem ruleKey_put (v : Json) :
    ruleKey (Json.put members (ruleKey members) v) = ruleKey members := by
  by_cases htokens : (Json.member? members "tokenColors").isSome
  · have hkey : ruleKey members = "tokenColors" := if_pos htokens
    rw [hkey, ruleKey, Json.member?_put, if_pos rfl, if_pos Option.isSome_some]
  · have hkey : ruleKey members = "settings" := if_neg htokens
    have hne : "tokenColors" ≠ "settings" := by decide
    rw [hkey, ruleKey, Json.member?_put, if_neg hne, if_neg htokens]

/-- The same theme is read without a malformed entry in the list of selectors of one of its rules.
-/
theorem Prunes.ofJson_eq (h : Prunes scope scope') {outer inner : List Json}
    (hrules : Json.member? members (ruleKey members) = some (.arr (outer ++ .obj rule :: inner)))
    (hscope : Json.member? rule "scope" = some scope) (name : Json) :
    Theme.ofJson name (.obj (Json.put members (ruleKey members)
        (.arr (outer ++ .obj (Json.put rule "scope" scope') :: inner)))) =
      Theme.ofJson name (.obj members) := by
  have hkey : ruleKey members = "tokenColors" ∨ ruleKey members = "settings" := by
    unfold ruleKey
    split
    · exact .inl rfl
    · exact .inr rfl
  have hother (other : String) (v : Json) (hne : other ≠ "tokenColors")
      (hne' : other ≠ "settings") :
      Json.member? (Json.put members (ruleKey members) v) other = Json.member? members other := by
    rw [Json.member?_put, if_neg]
    rcases hkey with hkey | hkey
    · rwa [hkey]
    · rwa [hkey]
  have hlist (items : List Json) :
      ruleList (Json.put members (ruleKey members) (.arr items)) = .ok items := by
    apply ruleList_of_ruleKey
    rw [ruleKey_put, Json.member?_put, if_pos rfl]
  simp only [Theme.ofJson, Json.asObject, ok_bind, hlist, ruleList_of_ruleKey hrules,
    hother "colors" _ (by decide) (by decide), hother "name" _ (by decide) (by decide),
    h.readThemeRules_eq hscope]

end

/-! ## Rules -/

/-- The selector of the rule has parts, those have segments, and none of these is empty. The rule is
ranked by its last part. -/
structure ThemeRule.Usable (rule : ThemeRule) : Prop where
  parts : rule.selector ≠ []
  segments : ∀ part ∈ rule.selector, part ≠ [] ∧ "" ∉ part
  ranked : ∀ place, rank rule.selector place = .ok ((rule.selector.getLast parts).length, place)

theorem ThemeRule.IsRead.usable {rule : ThemeRule} (h : rule.IsRead) : rule.Usable := by
  refine ⟨h.readable.parts, fun part hpart => ?_, rank_eq h.readable.parts⟩
  obtain ⟨v, hv⟩ := h.selector
  cases v with
  | str s =>
    have hspelled := (Selector.ofText_eq_ok_iff.mp hv).parts part hpart
    exact ⟨hspelled.ne_nil, fun hempty => hspelled.segment_ne "" hempty rfl⟩
  | _ => cases hv

theorem Theme.usable_of_ofJson {name v : Json} {theme : Theme}
    (h : Theme.ofJson name v = .ok theme) :
    ∀ rule ∈ theme.rules, rule.Usable := by
  cases v with
  | obj members => exact fun rule hrule => ((Theme.ofJson_ok h).2.2 rule hrule).usable
  | _ => cases h

/-- Under rules that can be used every stack of scopes has a style. -/
theorem Theme.resolve_of_usable {theme : Theme} (H : ∀ rule ∈ theme.rules, rule.Usable)
    (scopes : List String) : ∃ style, theme.resolve (scopes.map .str) = .ok style :=
  Theme.Ranked.resolve (fun rule hrule => (H rule hrule).parts) scopes

/-- **Selectors of themes.** A selector is read of the texts that spell it, and of its own text. So
the rules of a theme that is read can be ranked, and every stack of scopes gets a style. An entry of
a list of selectors that spells none might as well be left out, as long as something is left of the
list where it is a text. -/
theorem themes_usable :
    (∀ (s : String) (selector : Selector),
      Selector.ofText s = .ok selector ↔ selector.Spells s.toList) ∧
    (∀ (s : String) (selector : Selector), Selector.ofText s = .ok selector →
      Selector.ofText selector.text = .ok selector) ∧
    (∀ (name v : Json) (theme : Theme), Theme.ofJson name v = .ok theme →
      (∀ rule ∈ theme.rules, rule.Usable) ∧
        ∀ scopes : List String, ∃ style, theme.resolve (scopes.map .str) = .ok style) ∧
    ∀ (name : Json) (members rule : List (String × Json)) (outer inner : List Json)
      (scope scope' : Json),
      Json.member? members (ruleKey members) = some (.arr (outer ++ .obj rule :: inner)) →
        Json.member? rule "scope" = some scope → Prunes scope scope' →
          Theme.ofJson name (.obj (Json.put members (ruleKey members)
            (.arr (outer ++ .obj (Json.put rule "scope" scope') :: inner)))) =
              Theme.ofJson name (.obj members) :=
  ⟨fun _ _ => Selector.ofText_eq_ok_iff, fun _ _ => Selector.ofText_text,
    fun _ _ _ h => ⟨Theme.usable_of_ofJson h, Theme.resolve_of_usable (Theme.usable_of_ofJson h)⟩,
    fun name _ _ _ _ _ _ hrules hscope h => h.ofJson_eq hrules hscope name⟩

/-- A rule that colors this scope. -/
def scopedRule (scope : Json) : List (String × Json) :=
  [("scope", scope), ("settings", .obj [("foreground", .str "#a3be8c")])]

/-- A theme with one rule, for this scope. -/
def scopedObject (scope : Json) : List (String × Json) :=
  [("tokenColors", .arr [.obj (scopedRule scope)])]

/-- A selector of a kind that is not known. -/
theorem isMalformed_child : Selector.IsMalformed (.str "meta > string") := by
  refine ⟨fun hempty => absurd (Json.str.inj hempty) (by decide), fun s hs selector hselector => ?_⟩
  cases hs
  have hfault : Selector.ofText "meta > string" = .error (.unsupported "meta > string") := rfl
  cases hfault.symm.trans (Selector.ofText_eq_ok_iff.mpr hselector)

/-- A theme whose rule has a selector, and another one of a kind that is not known, in a list or in
a text. -/
theorem themes_usable_quoted :
    (∃ selector, Selector.ofText "meta.line\t string" = .ok selector ∧
      Selector.ofText selector.text = .ok selector) ∧
    (∃ theme, Theme.ofJson .null (.obj (scopedObject (.arr [.str "string.quoted"]))) = .ok theme ∧
      Theme.ofJson .null
        (.obj (scopedObject (.arr [.str "string.quoted", .str "meta > string"]))) = .ok theme ∧
      (∀ rule ∈ theme.rules, rule.Usable) ∧
      ∃ style, theme.resolve (["string.quoted.double"].map .str) = .ok style) ∧
    Theme.ofJson .null (.obj (scopedObject (.str "string.quoted"))) =
      Theme.ofJson .null (.obj (scopedObject (.str "string.quoted,meta > string"))) := by
  obtain ⟨_, htext, htheme, hprunes⟩ := themes_usable
  have hpruned {scope scope' : Json} (h : Prunes scope scope') :
      Theme.ofJson .null (.obj (scopedObject scope')) =
        Theme.ofJson .null (.obj (scopedObject scope)) :=
    hprunes .null (scopedObject scope) (scopedRule scope) [] [] scope scope' rfl rfl h
  have hlist : Prunes (.arr ([.str "string.quoted"] ++ .str "meta > string" :: []))
      (.arr ([.str "string.quoted"] ++ [])) := .list isMalformed_child
  have hpieces : Prunes
      (.str (String.ofList ([','].intercalate (["string.quoted".toList] ++
        "meta > string".toList :: []))))
      (.str (String.ofList ([','].intercalate (["string.quoted".toList] ++ [])))) :=
    .text (by decide) (isMalformed_child.2 _ rfl) fun _ =>
      ⟨_, List.mem_singleton_self _, 's', by decide, by decide⟩
  have hwhole : String.ofList ([','].intercalate (["string.quoted".toList] ++
      "meta > string".toList :: [])) = "string.quoted,meta > string" := by decide
  have hleft : String.ofList ([','].intercalate (["string.quoted".toList] ++ [])) =
      "string.quoted" := by decide
  rw [hwhole, hleft] at hpieces
  obtain ⟨theme, hread⟩ : ∃ theme,
      Theme.ofJson .null (.obj (scopedObject (.arr [.str "string.quoted"]))) = .ok theme := ⟨_, rfl⟩
  obtain ⟨husable, hresolve⟩ := htheme _ _ _ hread
  have hline : Selector.ofText "meta.line\t string" = .ok [["meta", "line"], ["string"]] := rfl
  exact ⟨⟨_, hline, htext _ _ hline⟩,
    ⟨theme, hread, (hpruned hlist).symm.trans hread, husable, hresolve _⟩, hpruned hpieces⟩

/-- Where a malformed entry is all that a text holds, the rule is passed over. Without the entry the
text is empty, and the rule gives the theme itself its color. -/
theorem themes_usable_emptied :
    (∀ selector : Selector, ¬ selector.Spells "meta > string".toList) ∧
    "meta > string" = String.ofList ([','].intercalate ([] ++ "meta > string".toList :: [])) ∧
    "" = String.ofList ([','].intercalate ([] ++ [])) ∧
    (Theme.ofJson .null (.obj (scopedObject (.str "meta > string")))).toOption.map
      (·.foreground.text) =
      some "#000000" ∧
    (Theme.ofJson .null (.obj (scopedObject (.str "")))).toOption.map (·.foreground.text) =
      some "#a3be8c" :=
  ⟨isMalformed_child.2 _ rfl, by decide, by decide, by decide +kernel, by decide +kernel⟩

end Rubric
