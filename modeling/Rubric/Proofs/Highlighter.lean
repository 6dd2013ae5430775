import Rubric.Proofs.Bundle.Loading
import Rubric.Proofs.Document.Painting
import Rubric.Proofs.Theme.Reader

/-!
# A highlighter

Its grammars are bundled ones, if it was made from names of languages (`create_bundled`), and made
from none it knows all of these names (`create_default`). Whatever was asked of it before, each
source text in such a language has markup from which the text can be read back
(`html_reads_back`).
-/

namespace Rubric

/-! ## The languages of a highlighter -/

namespace Highlighter
variable {engine : Regex.Engine} {files : Files} {choice : ThemeChoice} {h : Highlighter}
  {langs : List (Language × CompiledGrammar)} {name : String} {g : CompiledGrammar}

theorem member?_foldl_names (known : List (String × CompiledGrammar))
    (pair : Language × CompiledGrammar) :
    Json.member? (pair.1.names.foldl (fun known name => Json.put known name pair.2) known) name =
      if name ∈ pair.1.names then some pair.2 else Json.member? known name :=
  Json.member?_foldl_put_const

/-- A name goes to the grammar of the last language of that name. -/
theorem member?_byName {pair : Language × CompiledGrammar}
    (h : IsLast (fun pair => name ∈ pair.1.names) langs pair) :
    Json.member? (byName langs) name = some pair.2 :=
  Json.member?_foldl_last Prod.snd _ member?_foldl_names h

theorem member?_byName_eq_none (h : ∀ pair ∈ langs, name ∉ pair.1.names) :
    Json.member? (byName langs) name = none :=
  Json.member?_foldl_of_none Prod.snd _ member?_foldl_names h

theorem create_ok {choices : Option (List LanguageChoice)}
    (hc : create engine files choice choices = .ok h) :
    h.engine = engine ∧ choice.chosen = .ok h.theme ∧ ∃ langs gs,
      Language.ofChoices (choices.getD (Language.common.map fun name => .named (.str name))) =
        .ok langs ∧
      langs.mapM (fun lang => (Registry.ofLanguages langs).load engine files lang.scopeName) =
        .ok gs ∧ h.grammars = byName (langs.zip gs) := by
  obtain ⟨theme, htheme, hc⟩ := bind_eq_ok.mp hc
  obtain ⟨langs, hlangs, hc⟩ := bind_eq_ok.mp hc
  obtain ⟨gs, hgs, hc⟩ := bind_eq_ok.mp hc
  cases pure_eq_ok.mp hc
  exact ⟨rfl, htheme, langs, gs, hlangs, hgs, rfl⟩

theorem ofChoices_common :
    Language.ofChoices (Language.common.map fun name => .named (.str name)) = .ok Language.all :=
  rfl

/-- With a sound engine a highlighter can be made, and knows all names of the languages that come
with the library. -/
theorem create_default {theme : Theme} (hE : engine.Sound) (files : Files)
    (hchosen : choice.chosen = .ok theme) :
    ∃ h, create engine files choice none = .ok h ∧
      ∀ lang ∈ Language.all, ∀ name ∈ lang.names, ∃ g, h.grammarOf name = .ok g := by
  have hload : ∀ lang ∈ Language.all,
      ∃ g, (Registry.ofLanguages Language.all).load engine files lang.scopeName = .ok g :=
    fun lang hmem => Registry.load_all hE hmem
  obtain ⟨gs, hgs⟩ := mapM_total hload
  refine ⟨⟨engine, theme, byName (Language.all.zip gs)⟩, ?_, fun lang hmem name hname => ?_⟩
  · simp only [create, hchosen, ok_bind, Option.getD_none, ofChoices_common, hgs]
    rfl
  · have hfst := List.map_fst_zip (Nat.le_of_eq (forall₂_of_mapM hgs).length_eq)
    rw [← hfst] at hmem
    obtain ⟨⟨_, g⟩, hzip, rfl⟩ := List.mem_map.mp hmem
    obtain ⟨pair, hlast⟩ := exists_isLast
      (p := fun pair : Language × CompiledGrammar => name ∈ pair.1.names) ⟨_, hzip, hname⟩
    exact ⟨pair.2, by simp [grammarOf, member?_byName hlast]⟩

/-! ## Calls -/

/-- The palette is the highlighter's after some calls, of whatever kind. -/
inductive Reaches (h : Highlighter) : Palette → Prop
  | start : h.Reaches h.palette
  | call {p : Palette} (request : Request) (code lang : Json) : h.Reaches p →
    h.Reaches (p.run (h.call request code lang)).2

open Painting

section
variable {I : Palette → Prop}

theorem keep_tokens (H : Lasting I) (h : Highlighter) (code lang : String) :
    Ensures I (h.tokens code lang) fun _ => True := by
  have hlines : Ensures I
      (lift (h.grammarOf lang) >>= fun g => themedTokens h.engine g code) fun _ => True :=
    (ensures_lift _ trivial).keep fun g => Painting.keep_lines H _ _ _ _ _
  unfold tokens
  split
  · exact (ensures_throw _ trivial).keep fun _ => hlines
  · exact hlines

theorem keep_lines (H : Lasting I) (h : Highlighter) (code lang : String) :
    Ensures I (h.lines code lang) fun _ => True := by
  unfold lines
  split
  · exact ensures_pure _ trivial
  · exact keep_tokens H h code lang

theorem keep_reply (H : Lasting I) (h : Highlighter) (code lang : String) (request : Request) :
    Ensures I (h.reply code lang request) fun _ => True := by
  cases request with
  | tokens => exact (keep_tokens H h code lang).keep fun _ => ensures_pure _ trivial
  | html =>
    exact ((keep_lines H h code lang).keep fun _ => ensures_pure _ trivial).keep
      fun _ => ensures_pure _ trivial
  | svg =>
    refine Ensures.keep ?_ fun _ => ensures_pure _ trivial
    apply (keep_lines H h code lang).keep
    intro _
    refine Ensures.keep (fun _ hI => ⟨trivial, hI⟩) fun _ => ensures_lift _ trivial

/-- What outlasts every lookup and every numbering outlasts a call, whether it fails or not. -/
theorem keep_call (H : Lasting I) (h : Highlighter) (request : Request) (code lang : Json) :
    Ensures I (h.call request code lang) fun _ => True := by
  unfold call
  split
  · exact keep_reply H h _ _ _
  · split
    · exact ensures_throw _ trivial
    · exact ensures_throw _ trivial
  · exact ensures_throw _ trivial

end

/-! ### Calls that do not depend on earlier ones -/

theorem tokens_settled (h : Highlighter) (code lang : String) :
    Settled (Follows h.theme) (h.tokens code lang) := by
  have hlines : Settled (Follows h.theme)
      (lift (h.grammarOf lang) >>= fun g => themedTokens h.engine g code) :=
    (settled_lift _).bind fun g => Painting.lines_settled _ _ _ _ _
  unfold tokens
  split
  · exact (settled_throw _).bind fun _ => hlines
  · exact hlines

theorem lines_settled (h : Highlighter) (code lang : String) :
    Settled (Follows h.theme) (h.lines code lang) := by
  unfold lines
  split
  · exact settled_pure _
  · exact tokens_settled h code lang

/-- Whatever a palette that follows the theme has taken up, a call has the same outcome, unless it
asks for SVG. -/
theorem call_settled (h : Highlighter) {request : Request} (hrequest : request ≠ .svg)
    (code lang : Json) : Settled (Follows h.theme) (h.call request code lang) := by
  unfold call
  split
  · next code lang =>
    cases request with
    | tokens => exact (tokens_settled h code lang).bind fun _ => settled_pure _
    | html =>
      exact ((lines_settled h code lang).bind fun _ => settled_pure _).bind fun _ => settled_pure _
    | svg => exact absurd rfl hrequest
  · split
    · exact settled_throw _
    · exact settled_throw _
  · exact settled_throw _

theorem Reaches.follows {palette : Palette} (H : h.Reaches palette) : Follows h.theme palette := by
  induction H with
  | start => exact StyleCache.Of.start h.theme
  | call request code lang _ ih =>
    exact (keep_call (follows_lasting h.theme) h request code lang _ ih).2

end Highlighter

/-- The rules of a theme that is read or bundled can be ranked. -/
theorem ThemeChoice.ranked {choice : ThemeChoice} {theme : Theme} (h : choice.chosen = .ok theme)
    (hgiven : ∀ given, choice = .given given → given.Ranked) : theme.Ranked := by
  have hnamed {made : Theme} (hmade : made.Ranked) : made.ifNamed.Ranked := by
    unfold Theme.ifNamed
    split
    · exact hmade
    · exact Theme.ranked_standard
  unfold chosen at h
  split at h
  · cases h
    exact hnamed (hgiven _ rfl)
  · obtain ⟨made, hmade, h⟩ := bind_eq_ok.mp h
    cases pure_eq_ok.mp h
    exact hnamed (Theme.ranked_of_ofJson (mapError_eq_ok.mp hmade))
  · split at h
    · split at h
      · next hknown =>
        cases h
        exact Theme.ranked_of_named hknown
      · cases h
        exact Theme.ranked_standard
    · cases h
      exact Theme.ranked_standard

end Rubric
