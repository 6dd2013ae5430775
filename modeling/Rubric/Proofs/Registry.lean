import Rubric.Proofs.Highlighter

/-!
# Names of languages and their grammars

Two tables stand between the name of a language and its grammar: the registry knows a language by
the scope name of its grammar, a highlighter knows a grammar by the names of its language. In both
the last entry wins. So a name that no later language has need not have the grammar of its own
language: it has that of the last language with the same scope name (`grammars_by_scope_name`).
-/

namespace Rubric

namespace Language
variable {langs : List Language} {lang : Language}

/-- Ready for use, the language's own grammar is this one. -/
def Loads (files : Files) (lang : Language) (g : CompiledGrammar) : Prop :=
  (Registry.readLanguage .unlimited files lang >>= CompiledGrammar.ofGrammar) = .ok g

/-- The languages differ from each other. -/
def Distinct (langs : List Language) : Prop :=
  langs.Pairwise fun lang later => later.same lang = false

theorem select_of_distinct {found : List Language} (h : Distinct (found ++ langs)) :
    select found (langs.map .language) = .ok (found ++ langs) := by
  induction langs generalizing found with
  | nil => rw [List.map_nil, select, List.append_nil]
  | cons lang rest ih =>
    have hnew : found.any lang.same = false := by
      rw [List.any_eq_false]
      intro other hother
      have hdiffers := (List.pairwise_append.mp h).2.2 other hother lang (List.mem_cons_self ..)
      rw [hdiffers]
      exact Bool.false_ne_true
    rw [List.append_cons] at h ⊢
    simp only [List.map_cons, select, addLanguage, hnew, Bool.false_eq_true, if_false]
    exact ih h

/-- Languages that differ are all taken up. -/
theorem ofChoices_of_distinct (h : Distinct langs) :
    ofChoices (langs.map .language) = .ok langs :=
  select_of_distinct h

end Language

namespace Registry
variable {engine : Regex.Engine} {files : Files} {langs : List Language} {lang own : Language}
  {g : CompiledGrammar}

/-- The registry knows the last language of a scope name. -/
theorem member?_ofLanguages {scope : String}
    (h : IsLast (fun other => scope = other.scopeName) langs own) :
    Json.member? (ofLanguages langs).languages scope = some own := by
  exact Json.member?_foldl_last id (fun other : Language => scope = other.scopeName)
    (fun known other => Json.member?_put) h

theorem load_last (h : (ofLanguages langs).load engine files lang.scopeName = .ok g)
    (hlast : IsLast (fun other => lang.scopeName = other.scopeName) langs own) :
    own.Loads files g := by
  obtain ⟨known, grammar, hknown, hread, hg⟩ := load_ok h
  rw [member?_ofLanguages hlast] at hknown
  cases hknown
  exact bind_eq_ok.mpr ⟨grammar, hread, hg⟩

end Registry

/-- **A name has the last grammar of its scope name.** Let a highlighter be made from choices of
languages; those that differ are all taken up. Let a language be the last one of some name. Then
the highlighter knows that name, and the grammar it has for it is the own grammar of the last
language whose scope name is that of the named language. This is the named language itself if and
only if no later one has its scope name. -/
theorem grammars_by_scope_name (engine : Regex.Engine) (files : Files) (choice : ThemeChoice)
    (choices : Option (List LanguageChoice)) (h : Highlighter)
    (hc : Highlighter.create engine files choice choices = .ok h) :
    ∃ langs,
      Language.ofChoices (choices.getD (Language.common.map fun name => .named (.str name))) =
        .ok langs ∧
      (∀ given : List Language, choices = some (given.map .language) → Language.Distinct given →
        langs = given) ∧
      ∀ (lang : Language) (name : String),
        IsLast (fun other => name ∈ other.names) langs lang →
        ∃ g, h.grammarOf name = .ok g ∧
          (∃ own, IsLast (fun other => lang.scopeName = other.scopeName) langs own) ∧
          ∀ own, IsLast (fun other => lang.scopeName = other.scopeName) langs own →
            own.Loads files g := by
  obtain ⟨_, _, langs, gs, hlangs, hgs, hgrammars⟩ := Highlighter.create_ok hc
  have hloaded := forall₂_of_mapM hgs
  refine ⟨langs, hlangs, fun given hgiven hdistinct => ?_, fun lang name hlast => ?_⟩
  · rw [hgiven, Option.getD_some, Language.ofChoices_of_distinct hdistinct] at hlangs
    cases hlangs
    rfl
  · have hfst := List.map_fst_zip (Nat.le_of_eq hloaded.length_eq)
    obtain ⟨⟨_, g⟩, rfl, hpair⟩ := IsLast.of_map (hfst.symm ▸ hlast)
    have hmember := Highlighter.member?_byName hpair
    refine ⟨g, by simp [Highlighter.grammarOf, hgrammars, hmember], ?_, fun own hown => ?_⟩
    · exact exists_isLast ⟨_, hlast.mem, rfl⟩
    · exact Registry.load_last (List.forall₂_zip hloaded hpair.mem) hown

/-- A language that has scopes for letters. -/
def Language.ofLetters (id : String) (letters : List String) : Language where
  id := id
  scopeName := "source.letters"
  grammar := some (.obj [("scopeName", .str "source.letters"), ("patterns", .arr
    (letters.map fun letter =>
      .obj [("match", .str letter), ("name", .str ("letter." ++ letter))]))])

/-- Two languages of one scope name. -/
theorem grammars_by_scope_name_letters : ∃ h,
    Highlighter.create .standard [] (.value .null)
      (some ([.ofLetters "vowels" ["a", "e"], .ofLetters "none" []].map .language)) = .ok h ∧
    ∃ g, h.grammarOf "vowels" = .ok g ∧ (Language.ofLetters "none" []).Loads [] g := by
  obtain ⟨h, hc⟩ : ∃ h, Highlighter.create .standard [] (.value .null)
      (some ([.ofLetters "vowels" ["a", "e"], .ofLetters "none" []].map .language)) = .ok h :=
    ⟨_, rfl⟩
  obtain ⟨langs, _, hgiven, hnames⟩ := grammars_by_scope_name .standard [] _ _ h hc
  cases hgiven _ rfl (by simp [Language.Distinct, Language.same, Language.ofLetters])
  obtain ⟨g, hg, _, hown⟩ := hnames (.ofLetters "vowels" ["a", "e"]) "vowels"
    ⟨[], [.ofLetters "none" []], rfl, by simp [Language.ofLetters, Language.names]⟩
  refine ⟨h, hc, g, hg, hown _ ⟨[.ofLetters "vowels" ["a", "e"]], [], rfl, rfl, ?_⟩⟩
  simp

/-- No later language has the name, and yet its grammar is not that of its own language. -/
theorem grammars_by_scope_name_foreign : ∃ h g,
    Highlighter.create .standard [] (.value .null)
      (some [.language (.ofLetters "vowels" ["a", "e"]), .language (.ofLetters "none" [])]) =
        .ok h ∧
    "vowels" ∉ (Language.ofLetters "none" []).names ∧ h.grammarOf "vowels" = .ok g ∧
    ¬(Language.ofLetters "vowels" ["a", "e"]).Loads [] g := by
  refine ⟨_, _, rfl, by simp [Language.ofLetters, Language.names], rfl, fun h => ?_⟩
  cases h

end Rubric
