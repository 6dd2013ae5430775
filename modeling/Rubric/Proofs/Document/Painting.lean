import Rubric.Highlighter
import Rubric.Proofs.Document.Tokens
import Rubric.Proofs.Line.Scopes
import Rubric.Proofs.Markup.Html
import Rubric.Proofs.Theme.Style

/-!
# Documents in color

What a painting ensures is said of any palette that an invariant holds of, and includes that the
invariant holds afterwards, whether the painting fails or not (`Painting.Ensures`). The invariant
here is that the cache holds what the theme resolves. Under a steady grammar with a scope name that
is a text, the lines of a document are painted, and their pieces are the lines
(`Painting.lines_ensures`).
-/

namespace Rubric

/-- From any palette that the invariant holds of, the painting has such an outcome, and keeps the
invariant. -/
def Painting.Ensures (I : Palette → Prop) (p : Painting α) (Q : Outcome α → Prop) : Prop :=
  ∀ palette, I palette → Q (palette.run p).1 ∧ I (palette.run p).2

/-- The outcome is a value that this holds of. -/
def Gives (P : α → Prop) (r : Outcome α) : Prop :=
  ∃ a, r = .ok a ∧ P a

/-- The outcome is a value that this holds of, or a fault. -/
def Yields (P : α → Prop) (r : Outcome α) : Prop :=
  ∀ a, r = .ok a → P a

namespace Painting

section
variable {I : Palette → Prop} {p : Painting α} {f : α → Painting β} {Q : Outcome α → Prop}
  {R : Outcome β → Prop}

theorem run_bind_ok {palette palette' : Palette} {a : α} (h : palette.run p = (.ok a, palette')) :
    palette.run (p >>= f) = palette'.run (f a) :=
  Rubric.run_bind_ok h

theorem run_bind_error {palette palette' : Palette} {e : Fault}
    (h : palette.run p = (.error e, palette')) :
    palette.run (p >>= f) = (.error e, palette') :=
  Rubric.run_bind_error h

theorem ensures_pure (a : α) (h : Q (.ok a)) : Ensures I (pure a) Q :=
  fun _ hI => ⟨h, hI⟩

theorem ensures_throw (e : Fault) (h : Q (.error e)) : Ensures I (throw e) Q :=
  fun _ hI => ⟨h, hI⟩

theorem ensures_lift (r : Outcome α) (h : Q r) : Ensures I (lift r) Q :=
  fun _ hI => ⟨h, hI⟩

namespace Ensures

theorem mono {Q' : Outcome α → Prop} (H : Ensures I p Q) (h : ∀ r, Q r → Q' r) :
    Ensures I p Q' :=
  fun palette hI => ⟨h _ (H palette hI).1, (H palette hI).2⟩

theorem bind (H : Ensures I p Q) (hok : ∀ a, Q (.ok a) → Ensures I (f a) R)
    (herror : ∀ e, Q (.error e) → R (.error e)) : Ensures I (p >>= f) R := by
  intro palette hI
  obtain ⟨hQ, hI'⟩ := H palette hI
  cases hr : palette.run p with
  | mk r palette' =>
    rw [hr] at hQ hI'
    cases r with
    | ok a =>
      rw [run_bind_ok hr]
      exact hok a hQ palette' hI'
    | error e =>
      rw [run_bind_error hr]
      exact ⟨herror e hQ, hI'⟩

/-- A painting that has a value, and goes on from it. -/
theorem andThen {P : α → Prop} (H : Ensures I p (Gives P)) (hok : ∀ a, P a → Ensures I (f a) R) :
    Ensures I (p >>= f) R := by
  refine H.bind (fun a ⟨_, ha, hP⟩ => ?_) fun e ⟨_, he, _⟩ => nomatch he
  cases ha
  exact hok a hP

theorem anyValue (H : Ensures I p fun _ => True) : Ensures I p (Yields fun _ => True) :=
  H.mono fun _ _ _ _ => trivial

/-- A painting that may fail, and if it does not, goes on from its value. -/
theorem followed {P : α → Prop} {S : β → Prop} (H : Ensures I p (Yields P))
    (hok : ∀ a, P a → Ensures I (f a) (Yields S)) : Ensures I (p >>= f) (Yields S) :=
  H.bind (fun a h => hok a (h a rfl)) fun _ _ _ h => by cases h

/-- A painting that keeps the invariant, and goes on, if it does not fail, to keep it. -/
theorem keep (H : Ensures I p fun _ => True) (hok : ∀ a, Ensures I (f a) fun _ => True) :
    Ensures I (p >>= f) fun _ => True :=
  H.bind (fun a _ => hok a) fun _ _ => trivial

end Ensures

theorem ensures_value {P : α → Prop} {a : α} (h : P a) : Ensures I (pure a) (Yields P) :=
  ensures_pure _ fun _ ha => by cases ha; exact h

theorem ensures_mapM {ι : Type} {S : ι → α → Prop} {f : ι → Painting α} {items : List ι}
    (H : ∀ i ∈ items, Ensures I (f i) (Gives (S i))) :
    Ensures I (items.mapM f) (Gives (List.Forall₂ S items)) := by
  induction items with
  | nil => exact ensures_pure _ ⟨_, rfl, .nil⟩
  | cons i rest ih =>
    rw [List.mapM_cons]
    apply (H i (List.mem_cons_self ..)).andThen
    intro a ha
    apply (ih fun j hj => H j (List.mem_cons_of_mem _ hj)).andThen
    intro others hothers
    exact ensures_pure _ ⟨_, rfl, .cons ha hothers⟩

theorem yields_mapM {ι : Type} {P : α → Prop} {f : ι → Painting α} {items : List ι}
    (H : ∀ i, Ensures I (f i) (Yields P)) :
    Ensures I (items.mapM f) (Yields fun as => ∀ a ∈ as, P a) := by
  induction items with
  | nil => exact ensures_value fun _ h => nomatch h
  | cons i rest ih =>
    rw [List.mapM_cons]
    refine (H i).followed fun a ha => ih.followed fun others hothers => ?_
    exact ensures_value (List.forall_mem_cons.mpr ⟨ha, hothers⟩)

theorem keep_mapM {ι : Type} {f : ι → Painting α} (items : List ι)
    (H : ∀ i, Ensures I (f i) fun _ => True) : Ensures I (items.mapM f) fun _ => True := by
  induction items with
  | nil => exact ensures_pure _ trivial
  | cons i rest ih =>
    rw [List.mapM_cons]
    exact (H i).keep fun _ => ih.keep fun _ => ensures_pure _ trivial

end

/-! ## Outcomes that do not depend on the palette -/

/-- From every palette that the invariant holds of, the painting has one and the same outcome, and
keeps the invariant. -/
def Settled (I : Palette → Prop) (p : Painting α) : Prop :=
  ∃ r, Ensures I p (· = r)

section
variable {I : Palette → Prop} {p : Painting α} {f : α → Painting β}

theorem settled_pure (a : α) : Settled I (pure a) :=
  ⟨.ok a, ensures_pure a rfl⟩

theorem settled_throw (e : Fault) : Settled I (throw e : Painting α) :=
  ⟨.error e, ensures_throw e rfl⟩

theorem settled_lift (r : Outcome α) : Settled I (lift r) :=
  ⟨r, ensures_lift r rfl⟩

namespace Settled

theorem bind (H : Settled I p) (hf : ∀ a, Settled I (f a)) : Settled I (p >>= f) := by
  obtain ⟨r, hr⟩ := H
  cases r with
  | error e =>
    refine ⟨.error e, hr.bind (fun a ha => by cases ha) fun e' he => ?_⟩
    cases he
    rfl
  | ok a =>
    obtain ⟨r', hr'⟩ := hf a
    refine ⟨r', hr.bind (fun b hb => ?_) fun e he => by cases he⟩
    cases hb
    exact hr'

theorem mapM {ι : Type} {f : ι → Painting α} (items : List ι) (H : ∀ i, Settled I (f i)) :
    Settled I (items.mapM f) := by
  induction items with
  | nil => exact settled_pure _
  | cons i rest ih =>
    rw [List.mapM_cons]
    exact (H i).bind fun _ => ih.bind fun _ => settled_pure _

theorem eq (H : Settled I p) {palette palette' : Palette} (h : I palette) (h' : I palette') :
    (palette.run p).1 = (palette'.run p).1 := by
  obtain ⟨r, hr⟩ := H
  exact (hr palette h).1.trans (hr palette' h').1.symm

end Settled

end

/-! ## Styles and colors -/

/-- The cache of the palette holds what the theme resolves. -/
def Follows (theme : Theme) (palette : Palette) : Prop :=
  palette.styles.Of theme

variable {theme : Theme}

theorem style_run (scopes : List Json) (palette : Palette) :
    palette.run (style scopes) =
      match palette.styles.get scopes with
      | .ok (style, styles) => (.ok style, { palette with styles })
      | .error e => (.error (.misuse e), palette) := by
  have hget : palette.run get = (.ok palette, palette) := rfl
  rw [style, run_bind_ok hget]
  cases palette.styles.get scopes <;> rfl

theorem style_ensures (scopes : List Json) :
    Ensures (Follows theme) (style scopes) (Yields fun s => theme.resolve scopes = .ok s) := by
  intro palette hI
  rw [style_run]
  split
  · next s styles h =>
    obtain ⟨hs, hstyles⟩ := StyleCache.get_ok hI h
    refine ⟨fun s' h => ?_, hstyles⟩
    cases h
    exact hs
  · exact ⟨fun _ h => (nomatch h), hI⟩

/-- Scopes that are texts have a style, the one that the theme resolves. -/
theorem style_gives (hr : theme.Ranked) (names : List String) :
    Ensures (Follows theme) (style (names.map .str))
      (Gives fun s => theme.resolve (names.map .str) = .ok s) := by
  intro palette hI
  obtain ⟨h, hI'⟩ := style_ensures (names.map .str) palette hI
  refine ⟨?_, hI'⟩
  obtain ⟨s, styles, hget⟩ := StyleCache.get_texts hI hr names
  have hrun : (palette.run (style (names.map .str))).1 = .ok s := by
    rw [style_run, hget]
  exact ⟨s, hrun, h s hrun⟩

/-- The outcome is what comes of resolving the scopes, which have to be keys. -/
theorem style_outcome (scopes : List Json) :
    Ensures (Follows theme) (style scopes)
      (· = (scopes.mapM Json.asKey >>= theme.resolve).mapError .misuse) := by
  refine fun palette hI => ⟨?_, (style_ensures scopes palette hI).2⟩
  rw [← StyleCache.get_outcome hI, style_run]
  cases palette.styles.get scopes <;> rfl

theorem style_settled (scopes : List Json) : Settled (Follows theme) (style scopes) :=
  ⟨_, style_outcome scopes⟩

theorem number_run (color : Json) (palette : Palette) :
    palette.run (number color) =
      match palette.colors.add color with
      | .ok colors => (.ok (), { palette with colors })
      | .error e => (.error (.misuse e), palette) := by
  have hget : palette.run get = (.ok palette, palette) := rfl
  rw [number, run_bind_ok hget]
  cases palette.colors.add color <;> rfl

theorem number_ensures (color : Json) :
    Ensures (Follows theme) (number color) fun r => color.isKey = true → r = .ok () := by
  intro palette hI
  rw [number_run]
  split
  · exact ⟨fun _ => rfl, hI⟩
  · next e h =>
    refine ⟨fun hkey => ?_, hI⟩
    simp [ColorMap.add, Json.asKey, hkey, bind, Except.bind] at h
    cases h

theorem number_settled (color : Json) : Settled (Follows theme) (number color) := by
  refine ⟨(color.asKey.map fun _ => ()).mapError .misuse, fun palette hI => ?_⟩
  rw [number_run, ColorMap.add]
  cases color.asKey with
  | error e => exact ⟨rfl, hI⟩
  | ok key => exact ⟨rfl, hI⟩

/-! ## Pieces -/

/-- The invariant outlasts each style that is looked up and each color that is numbered. -/
structure Lasting (I : Palette → Prop) : Prop where
  style : ∀ scopes, Ensures I (Painting.style scopes) fun _ => True
  number : ∀ color, Ensures I (Painting.number color) fun _ => True

theorem follows_lasting (theme : Theme) : Lasting (Follows theme) where
  style scopes := (style_ensures scopes).mono fun _ _ => trivial
  number color := (number_ensures color).mono fun _ _ => trivial

section
variable {I : Palette → Prop}

theorem keep_token (H : Lasting I) (line : Array Char) (t : RawToken) :
    Ensures I (token line t) fun _ => True :=
  (H.style t.scopes).keep fun _ => (H.number _).keep fun _ => ensures_pure _ trivial

theorem keep_lines (H : Lasting I) (engine : Regex.Engine) (g : CompiledGrammar) (s : State)
    (firstLine : Bool) (texts : List (List Char)) :
    Ensures I (lines engine g s firstLine texts) fun _ => True := by
  induction texts generalizing s firstLine with
  | nil => exact ensures_pure _ trivial
  | cons text rest ih =>
    apply (ensures_lift _ trivial).keep
    rintro ⟨s', tokens⟩
    apply (keep_mapM _ fun t => keep_token H _ t).keep
    intro first
    exact (ih s' false).keep fun _ => ensures_pure _ trivial

end

theorem token_settled (line : Array Char) (t : RawToken) :
    Settled (Follows theme) (token line t) :=
  (style_settled t.scopes).bind fun _ => (number_settled _).bind fun _ => settled_pure _

/-- The pieces of lines are the same on every palette that follows the theme. -/
theorem lines_settled (engine : Regex.Engine) (g : CompiledGrammar) (s : State) (firstLine : Bool)
    (texts : List (List Char)) : Settled (Follows theme) (lines engine g s firstLine texts) := by
  induction texts generalizing s firstLine with
  | nil => exact settled_pure _
  | cons text rest ih =>
    exact (settled_lift _).bind fun behind => (Settled.mapM _ fun t => token_settled _ t).bind
      fun _ => (ih behind.1 false).bind fun _ => settled_pure _

/-- The piece of a token: its text, in the style that the theme resolves for its scopes. -/
structure Paints (theme : Theme) (line : List Char) (t : RawToken) (piece : ThemedToken) :
    Prop where
  content : piece.content.toList = t.text line
  style : theme.resolve t.scopes = .ok ⟨piece.color, piece.fontStyle⟩

theorem token_gives {line : List Char} {t : RawToken} {names : List String} (hr : theme.Ranked)
    (ht : t.scopes = names.map .str) (hkeys : ∀ color ∈ theme.colors, color.isKey = true) :
    Ensures (Follows theme) (token line.toArray t) (Gives (Paints theme line t)) := by
  unfold token
  rw [ht]
  apply (style_gives hr names).andThen
  intro s hs
  refine (number_ensures s.color).bind (fun _ _ => ?_) fun e he => ?_
  · refine ensures_pure _ ⟨_, rfl, ?_, ?_⟩
    · simp [RawToken.text]
    · rw [ht]
      exact hs
  · cases he (hkeys _ (Theme.color_mem_of_resolve hs))

end Painting

/-! ## Lines -/

/-- The colors of the theme can be numbered, and stay within the attribute that they are written in,
as does its background. -/
structure Theme.Harmless (theme : Theme) : Prop where
  keys : ∀ color ∈ theme.colors, color.isKey = true
  colors : ∀ color ∈ theme.colors, Markup.Html.Harmless color
  background : Markup.Html.Harmless theme.background

theorem Theme.Harmless.of_forall {theme : Theme}
    (h : ∀ v ∈ theme.background :: theme.colors, v.isKey = true ∧ Markup.Html.Harmless v) :
    theme.Harmless where
  keys _ hmem := (h _ (List.mem_cons_of_mem _ hmem)).1
  colors _ hmem := (h _ (List.mem_cons_of_mem _ hmem)).2
  background := (h _ (List.mem_cons_self ..)).2

theorem RawToken.text_eq_nil {line : List Char} {t : RawToken}
    (h : ¬t.start < min t.stop line.length) : t.text line = [] := by
  rw [text, List.take_eq_nil_iff, List.drop_eq_nil_iff]
  omega

/-- Tokens without text add nothing. -/
theorem flatMap_text_filter (line : List Char) (tokens : List RawToken) :
    (tokens.filter fun t => t.start < min t.stop line.length).flatMap (RawToken.text line) =
      tokens.flatMap (RawToken.text line) := by
  induction tokens with
  | nil => rfl
  | cons t rest ih =>
    by_cases ht : t.start < min t.stop line.length
    · rw [List.filter_cons_of_pos (by simpa using ht), List.flatMap_cons, List.flatMap_cons, ih]
    · rw [List.filter_cons_of_neg (by simpa using ht), List.flatMap_cons, ih,
        RawToken.text_eq_nil ht, List.nil_append]

namespace Painting
variable {theme : Theme} {engine : Regex.Engine} {g : CompiledGrammar}

theorem flatMap_content {line : List Char} {tokens : List RawToken} {pieces : ThemedLine}
    (H : List.Forall₂ (Paints theme line) tokens pieces) :
    pieces.flatMap (fun piece => piece.content.toList) = tokens.flatMap (RawToken.text line) := by
  induction H with
  | nil => rfl
  | cons h _ ih => rw [List.flatMap_cons, List.flatMap_cons, h.content, ih]

theorem paints_of_mem {line : List Char} {tokens : List RawToken} {pieces : ThemedLine}
    {piece : ThemedToken} (H : List.Forall₂ (Paints theme line) tokens pieces)
    (h : piece ∈ pieces) : ∃ t ∈ tokens, Paints theme line t piece := by
  induction H with
  | nil => cases h
  | @cons t _ _ _ hpaints _ ih =>
    rcases List.mem_cons.mp h with rfl | h
    · exact ⟨t, List.mem_cons_self .., hpaints⟩
    · obtain ⟨t', ht', hpaints'⟩ := ih h
      exact ⟨t', List.mem_cons_of_mem _ ht', hpaints'⟩

/-- The pieces of a line are the line. -/
theorem line_gives {line : List Char} {tokens : List RawToken} (hr : theme.Ranked)
    (ht : theme.Harmless) (hline : '\n' ∉ line) (hspell : Spell line tokens)
    (hnames : ∀ t ∈ tokens, ∃ names : List String, t.scopes = names.map .str) :
    Ensures (Follows theme) (Painting.line line tokens)
      (Gives fun pieces => Markup.Html.Renders pieces line) := by
  have hpieces : Ensures (Follows theme) (Painting.line line tokens)
      (Gives (List.Forall₂ (Paints theme line)
        (tokens.filter fun t => t.start < min t.stop line.length))) := by
    apply ensures_mapM
    intro t hmem
    obtain ⟨names, hscopes⟩ := hnames t (List.mem_of_mem_filter hmem)
    exact token_gives hr hscopes ht.keys
  refine hpieces.mono fun r ⟨pieces, hr, H⟩ => ⟨pieces, hr, ?_, ?_, ?_, hline⟩
  · intro piece hmem
    obtain ⟨t, _, hpaints⟩ := paints_of_mem H hmem
    exact ht.colors _ (Theme.color_mem_of_resolve hpaints.style)
  · intro piece hmem
    obtain ⟨t, htmem, hpaints⟩ := paints_of_mem H hmem
    have hlt := of_decide_eq_true (List.mem_filter.mp htmem).2
    rw [hpaints.content, RawToken.text, ne_eq, List.take_eq_nil_iff, List.drop_eq_nil_iff]
    omega
  · rw [flatMap_content H, flatMap_text_filter]
    exact hspell.2

end Painting

theorem lineTokens_under {engine : Regex.Engine} {g : CompiledGrammar} {s s' : State}
    {firstLine : Bool} {line : List Char} {tokens : List RawToken} {name : Json}
    (H : s.Under name) (h : lineTokens engine g s firstLine line = .ok (s', tokens)) :
    s'.Under name ∧
      ∀ t ∈ tokens, ∃ names : List String, t.scopes.reverse = name :: names.map .str := by
  obtain ⟨⟨s₁, regions⟩, hhigh, h⟩ := bind_eq_ok.mp h
  cases pure_eq_ok.mp h
  obtain ⟨hs, hregions⟩ := highlightWithin_under H hhigh
  refine ⟨hs, fun t ht => ?_⟩
  obtain ⟨r, hr, rfl⟩ := List.mem_map.mp ht
  rw [List.reverse_reverse]
  exact hregions r (List.mem_of_mem_filter hr)

/-- The lines of a document are painted, and their pieces are the lines. -/
theorem Painting.lines_gives {theme : Theme} {engine : Regex.Engine} {g : CompiledGrammar}
    {s : State} {name : String} (firstLine : Bool) {texts : List (List Char)} (hr : theme.Ranked)
    (ht : theme.Harmless) (hg : g.grammar.Steady engine) (hs : s.Steady engine g.grammar)
    (hname : s.Under (.str name)) (hlines : ∀ text ∈ texts, '\n' ∉ text) :
    Ensures (Follows theme) (lines engine g s firstLine texts)
      (Gives fun lines => List.Forall₂ Markup.Html.Renders lines texts) := by
  induction texts generalizing s firstLine with
  | nil => exact ensures_pure _ ⟨_, rfl, .nil⟩
  | cons text rest ih =>
    obtain ⟨s', tokens, hline, hs', hspell⟩ := lineTokens_total firstLine text hg hs
    obtain ⟨hname', hscopes⟩ := lineTokens_under hname hline
    have hnames : ∀ t ∈ tokens, ∃ names : List String, t.scopes = names.map .str := by
      intro t hmem
      obtain ⟨names, hrev⟩ := hscopes t hmem
      exact ⟨(name :: names).reverse, by rw [List.map_reverse, List.map_cons, ← hrev,
        List.reverse_reverse]⟩
    rw [lines, hline]
    refine Ensures.andThen (P := (· = (s', tokens))) (ensures_lift _ ⟨_, rfl, rfl⟩) fun _ h => ?_
    cases h
    refine (line_gives hr ht (hlines text (List.mem_cons_self ..)) hspell hnames).andThen
      fun first hfirst => ?_
    refine (ih false hs' hname' fun l hl => hlines l (List.mem_cons_of_mem _ hl)).andThen
      fun others hothers => ?_
    exact ensures_pure _ ⟨_, rfl, .cons hfirst hothers⟩

end Rubric
