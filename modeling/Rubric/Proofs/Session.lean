import Rubric.Proofs.Line.Recall
import Rubric.Proofs.Registry
import Rubric.Session

/-!
# A highlighter in use

What its calls leave behind is a palette, and a store for each grammar. The stores are never seen:
a session answers as its highlighter does on the palette (`Session.call_answers`). Of the palette
only the numbers of colors are seen, and only in SVG, so all other calls have the outcome that they
have in a new session (`calls_independent`).
-/

namespace Rubric

/-! ## Documents -/

theorem CompiledGrammar.start_heldIn {g : CompiledGrammar} (hroot : g.root.source? = none)
    (store : Store) : g.start.HeldIn store :=
  CompiledRule.start_heldIn fun source h => by
    rw [hroot] at h
    cases h

namespace Recall

theorem lineTokens_runs {engine : Regex.Engine} {g : CompiledGrammar} {s : State}
    {firstLine : Bool} {line : List Char} {store : Store} (hstore : store.Sound g.grammar)
    (hs : s.HeldIn store) :
    Runs g.grammar store (lineTokens engine g s firstLine line)
      (Rubric.lineTokens engine g s firstLine line) fun result later => result.1.HeldIn later :=
  (highlightWithin_runs hstore hs).bind fun _ _ hl _ hbehind => runs_pure hl.sound hbehind

end Recall

namespace Drawing
variable {g : CompiledGrammar} {store : Store} {x : Drawing α} {p : Painting α} {f : α → Drawing β}
  {q : α → Painting β} {R : α → Store → Prop} {S : β → Store → Prop}

/-- On every palette the drawing does what the painting does, and it takes the store to a later one.
Of its value and that store more holds. -/
def Draws (g : CompiledGrammar) (store : Store) (x : Drawing α) (p : Painting α)
    (R : α → Store → Prop) : Prop :=
  ∀ palette : Palette, ∃ later, store.Later g.grammar later ∧
    x.run palette store = ((palette.run p).1, (palette.run p).2, later) ∧
    ∀ a, (palette.run p).1 = .ok a → R a later

theorem draws_pure {a : α} (hs : store.Sound g.grammar) (hR : R a store) :
    Draws g store (pure a) (pure a) R :=
  fun _ => ⟨store, .refl hs, rfl, fun _ hb => by cases hb; exact hR⟩

theorem draws_ofPainting (hs : store.Sound g.grammar) :
    Draws g store (ofPainting p) p fun _ _ => True :=
  fun _ => ⟨store, .refl hs, rfl, fun _ _ => trivial⟩

theorem draws_ofRecall {y : Recall α} {a : Outcome α} (H : Recall.Runs g.grammar store y a R) :
    Draws g store (ofRecall y) (Painting.lift a) R := by
  obtain ⟨⟨ha, hR⟩, hl⟩ := H
  exact fun palette => ⟨_, hl, by rw [← ha]; rfl, fun b hb => hR b (ha.trans hb)⟩

theorem Draws.bind (H : Draws g store x p R)
    (hf : ∀ a later, store.Later g.grammar later → R a later → Draws g later (f a) (q a) S) :
    Draws g store (x >>= f) (p >>= q) S := by
  intro palette
  obtain ⟨later, hl, hrun, hR⟩ := H palette
  cases hp : palette.run p with
  | mk r palette' =>
    rw [hp] at hrun hR
    cases r with
    | error e =>
      refine ⟨later, hl, ?_, ?_⟩
      · rw [Painting.run_bind_error hp]
        exact run_bind_error hrun
      · rw [Painting.run_bind_error hp]
        exact fun _ hb => by cases hb
    | ok a =>
      obtain ⟨last, hl', hrun', hS⟩ := hf a later hl (hR a rfl) palette'
      rw [Painting.run_bind_ok hp]
      exact ⟨last, hl.trans hl', (run_bind_ok hrun).trans hrun', hS⟩

/-- Lines are painted as without a store. -/
theorem lines_draws (engine : Regex.Engine) {s : State} (firstLine : Bool)
    (texts : List (List Char)) (hstore : store.Sound g.grammar) (hs : s.HeldIn store) :
    Draws g store (lines engine g s firstLine texts) (Painting.lines engine g s firstLine texts)
      fun _ _ => True := by
  induction texts generalizing s firstLine store with
  | nil => exact draws_pure hstore trivial
  | cons text rest ih =>
    refine (draws_ofRecall (Recall.lineTokens_runs hstore hs)).bind
      fun behind later hl hbehind => ?_
    refine (draws_ofPainting hl.sound).bind fun first last hl _ => ?_
    refine (ih false hl.sound (hbehind.stays hl)).bind fun _ _ hl _ => draws_pure hl.sound trivial

end Drawing

/-! ## Desks -/

/-- The grammar at a desk is ready, and so is all that its store holds. -/
structure Desk.Sound (desk : Desk) : Prop where
  store : desk.store.Sound desk.grammar.grammar
  root : desk.grammar.root.source? = none

/-- What a desk is for. -/
def Desk.face (desk : Desk) : List String × CompiledGrammar :=
  (desk.names, desk.grammar)

theorem Desk.ofGrammar_map (names : List String) (g : Grammar) :
    (Desk.ofGrammar names g).map Desk.grammar = CompiledGrammar.ofGrammar g := by
  obtain ⟨hroot, _⟩ := Grammar.recallRoot_ends (Store.Sound.empty g)
  rw [CompiledGrammar.ofGrammar, ← hroot, Desk.ofGrammar]
  cases (Store.run {} g.recallRoot).1 <;> rfl

theorem Desk.ofGrammar_ok {names : List String} {g : Grammar} {desk : Desk}
    (h : Desk.ofGrammar names g = .ok desk) : desk.names = names ∧ desk.Sound := by
  obtain ⟨hroot, hl⟩ := Grammar.recallRoot_ends (Store.Sound.empty g)
  obtain ⟨root, hr, h⟩ := bind_eq_ok.mp h
  cases pure_eq_ok.mp h
  rw [hr] at hroot
  obtain ⟨inner, _, hinner⟩ := bind_eq_ok.mp hroot.symm
  cases pure_eq_ok.mp hinner
  exact ⟨rfl, hl.sound, rfl⟩

/-- At a sound desk a source text is painted as without a store. -/
theorem Desk.Sound.tokens_eq {desk : Desk} (H : desk.Sound) (engine : Regex.Engine)
    (palette : Palette)
    (code : String) : ∃ store, { desk with store := store }.Sound ∧
      desk.tokens engine palette code =
        (palette.run (themedTokens engine desk.grammar code), { desk with store := store }) := by
  obtain ⟨store, hl, hrun, _⟩ := Drawing.lines_draws engine true (sourceLines code) H.store
    (CompiledGrammar.start_heldIn H.root desk.store) palette
  refine ⟨store, ⟨hl.sound, H.root⟩, ?_⟩
  simp only [Desk.tokens, hrun]
  rfl

namespace Session
variable {s : Session} {name : String} {desks : List Desk}

section
variable {work : Desk → α × Desk}

theorem atDesk_eq_none (h : ∀ desk ∈ desks, name ∉ desk.names) :
    atDesk name work desks = none := by
  induction desks with
  | nil => rfl
  | cons desk rest ih =>
    obtain ⟨hdesk, hrest⟩ := List.forall_mem_cons.mp h
    simp [atDesk, ih hrest, hdesk]

/-- The work is done at the last desk of the name, and the others stay as they are. -/
theorem atDesk_last {before after : List Desk} {desk : Desk} (hdesk : name ∈ desk.names)
    (hafter : ∀ other ∈ after, name ∉ other.names) :
    atDesk name work (before ++ desk :: after) =
      some ((work desk).1, before ++ (work desk).2 :: after) := by
  induction before with
  | nil => simp [atDesk, atDesk_eq_none hafter, hdesk]
  | cons other before ih => simp [atDesk, ih]

end

/-! ## Calls -/

/-- The highlighter knows the grammars of the desks, each under the names of its desk, and the desks
are sound. -/
structure Sound (s : Session) : Prop where
  desks : ∀ desk ∈ s.desks, desk.Sound
  named : ∀ name face, IsLast (fun face => name ∈ face.1) (s.desks.map Desk.face) face →
    Json.member? s.highlighter.grammars name = some face.2
  unnamed : ∀ name, (∀ face ∈ s.desks.map Desk.face, name ∉ face.1) →
    Json.member? s.highlighter.grammars name = none

/-- What comes of a call in a session is what the painting does on its palette. -/
structure Answers (s : Session) (p : Painting α) (result : Outcome α × Session) : Prop where
  outcome : result.1 = (s.palette.run p).1
  palette : result.2.palette = (s.palette.run p).2
  highlighter : result.2.highlighter = s.highlighter
  sound : result.2.Sound

theorem answers_lift (H : s.Sound) (a : Outcome α) : s.Answers (Painting.lift a) (a, s) :=
  ⟨rfl, rfl, rfl, H⟩

/-- What comes of a call and a rest that leaves the palette as it is. -/
theorem Answers.bind {p : Painting α} {result : Outcome α × Session} {q : α → Painting β}
    {f : Palette → α → Outcome β} (H : s.Answers p result)
    (hq : ∀ palette a, palette.run (q a) = (f palette a, palette)) :
    s.Answers (p >>= q) (result.1 >>= f result.2.palette, result.2) := by
  obtain ⟨houtcome, hpalette, hhighlighter, hsound⟩ := H
  cases hp : s.palette.run p with
  | mk r palette' =>
    rw [hp] at houtcome hpalette
    cases r with
    | ok a =>
      have hrun := (Painting.run_bind_ok hp).trans (hq palette' a)
      exact ⟨by rw [hrun, houtcome, hpalette]; rfl, by rw [hrun, hpalette], hhighlighter, hsound⟩
    | error e =>
      have hrun := Painting.run_bind_error (f := q) hp
      exact ⟨by rw [hrun, houtcome]; rfl, by rw [hrun, hpalette], hhighlighter, hsound⟩

theorem tokens_answers (H : s.Sound) (code lang : String) :
    s.Answers (s.highlighter.tokens code lang) (s.tokens code lang) := by
  unfold tokens Highlighter.tokens
  split
  · exact answers_lift H _
  · by_cases hexists : ∃ desk ∈ s.desks, lang ∈ desk.names
    · obtain ⟨desk, hlast⟩ := exists_isLast (p := fun desk : Desk => lang ∈ desk.names) hexists
      have hmember := H.named lang desk.face (IsLast.map (f := Desk.face) hlast)
      obtain ⟨before, after, hdesks, hdesk, hafter⟩ := hlast
      have hsound := H.desks desk (by rw [hdesks]; simp)
      obtain ⟨store, hstore, htokens⟩ := hsound.tokens_eq s.highlighter.engine s.palette code
      have hgrammar : s.highlighter.grammarOf lang = .ok desk.grammar := by
        rw [Highlighter.grammarOf, hmember]
        rfl
      rw [hdesks, atDesk_last hdesk hafter, htokens, hgrammar]
      refine ⟨rfl, rfl, rfl, ?_⟩
      have hfaces : (before ++ { desk with store := store } :: after).map Desk.face =
          s.desks.map Desk.face := by simp [hdesks, Desk.face]
      refine ⟨fun other hother => ?_, fun name face h => H.named name face (hfaces ▸ h),
        fun name h => H.unnamed name (hfaces ▸ h)⟩
      have hall := H.desks
      rw [hdesks] at hall
      simp only [List.mem_append, List.mem_cons] at hall hother
      rcases hother with hother | rfl | hother
      · exact hall other (.inl hother)
      · exact hstore
      · exact hall other (.inr (.inr hother))
    · have hnone : ∀ desk ∈ s.desks, lang ∉ desk.names :=
        fun desk hdesk hname => hexists ⟨desk, hdesk, hname⟩
      have hmember := H.unnamed lang (by simpa [Desk.face] using hnone)
      have hgrammar : s.highlighter.grammarOf lang = .error (.unknownLanguage (.str lang)) := by
        rw [Highlighter.grammarOf, hmember]
      rw [atDesk_eq_none hnone, hgrammar]
      exact answers_lift H _

theorem lines_answers (H : s.Sound) (code lang : String) :
    s.Answers (s.highlighter.lines code lang) (s.lines code lang) := by
  unfold lines Highlighter.lines
  split
  · exact answers_lift H _
  · exact tokens_answers H code lang

theorem html_answers (H : s.Sound) (code lang : String) :
    s.Answers (s.highlighter.html code lang) (s.html code lang) :=
  (lines_answers H code lang).bind fun _ _ => rfl

theorem svg_answers (H : s.Sound) (code lang : String) :
    s.Answers (s.highlighter.svg code lang) (s.svg code lang) :=
  (lines_answers H code lang).bind fun _ _ => rfl

theorem reply_answers (H : s.Sound) (code lang : String) (request : Highlighter.Request) :
    s.Answers (s.highlighter.reply code lang request) (s.reply code lang request) := by
  cases request with
  | tokens => exact (tokens_answers H code lang).bind fun _ _ => rfl
  | html => exact (html_answers H code lang).bind fun _ _ => rfl
  | svg => exact (svg_answers H code lang).bind fun _ _ => rfl

/-- A session answers as its highlighter does on its palette. -/
theorem call_answers (H : s.Sound) (request : Highlighter.Request) (code lang : Json) :
    s.Answers (s.highlighter.call request code lang) (s.call request code lang) := by
  unfold call
  split
  · exact reply_answers H _ _ request
  · next hno =>
    refine ⟨rfl, ?_, rfl, H⟩
    unfold Highlighter.call
    split
    · exact (hno _ _ rfl rfl).elim
    · split <;> rfl
    · rfl

/-! ## Making a session -/

section
variable {engine : Regex.Engine} {files : Files} {choice : ThemeChoice}
  {choices : Option (List LanguageChoice)} {start : Session}

theorem load_eq (langs : List Language) (lang : Language) :
    (Registry.ofLanguages langs).load engine files lang.scopeName =
      (do
        let g ← (Registry.ofLanguages langs).readGrammar engine files lang.scopeName
        Desk.ofGrammar lang.names g).map Desk.grammar := by
  unfold Registry.load
  cases (Registry.ofLanguages langs).readGrammar engine files lang.scopeName with
  | error e => rfl
  | ok g => exact (Desk.ofGrammar_map lang.names g).symm

/-- A session can be made exactly if its highlighter can, and fails with the same fault. -/
theorem create_map :
    (create engine files choice choices).map highlighter =
      Highlighter.create engine files choice choices := by
  unfold create Highlighter.create
  cases choice.chosen with
  | error e => rfl
  | ok theme =>
    simp only [ok_bind]
    cases Language.ofChoices
      (choices.getD (Language.common.map fun name => .named (.str name))) with
    | error e => rfl
    | ok langs =>
      simp only [ok_bind, load_eq]
      rw [← mapM_map]
      cases langs.mapM fun lang => do
        Desk.ofGrammar lang.names
          (← (Registry.ofLanguages langs).readGrammar engine files lang.scopeName) <;> rfl

theorem map_face {langs : List Language}
    (h : List.Forall₂ (fun lang desk => desk.names = lang.names) langs desks) :
    desks.map Desk.face =
      (langs.zip (desks.map (·.grammar))).map fun pair => (pair.1.names, pair.2) := by
  induction h with
  | nil => rfl
  | cons hnames _ ih => simp [Desk.face, hnames, ih]

/-- A new session is sound. -/
theorem create_ok (hc : create engine files choice choices = .ok start) :
    Highlighter.create engine files choice choices = .ok start.highlighter ∧
      start.palette = start.highlighter.palette ∧ start.Sound := by
  have hhighlighter : Highlighter.create engine files choice choices = .ok start.highlighter := by
    rw [← create_map, hc]
    rfl
  obtain ⟨theme, _, hc⟩ := bind_eq_ok.mp hc
  obtain ⟨langs, _, hc⟩ := bind_eq_ok.mp hc
  obtain ⟨desks, hdesks, hc⟩ := bind_eq_ok.mp hc
  cases pure_eq_ok.mp hc
  have hmade := forall₂_of_mapM hdesks
  have hnames : List.Forall₂ (fun lang desk => desk.names = lang.names) langs desks :=
    hmade.imp fun lang desk h => by
      obtain ⟨g, _, hdesk⟩ := bind_eq_ok.mp h
      exact (Desk.ofGrammar_ok hdesk).1
  refine ⟨hhighlighter, rfl, fun desk hmem => ?_, fun name face h => ?_, fun name h => ?_⟩
  · obtain ⟨lang, _, h⟩ := exists_of_mem_mapM hdesks hmem
    obtain ⟨g, _, hdesk⟩ := bind_eq_ok.mp h
    exact (Desk.ofGrammar_ok hdesk).2
  · rw [map_face hnames] at h
    obtain ⟨pair, rfl, hlast⟩ := h.of_map
    exact Highlighter.member?_byName hlast
  · rw [map_face hnames] at h
    exact Highlighter.member?_byName_eq_none fun pair hpair =>
      h _ (List.mem_map.mpr ⟨pair, hpair, rfl⟩)

/-- With a sound engine there is a session for the languages that come with the library. -/
theorem create_default {theme : Theme} (choice : ThemeChoice) (hE : engine.Sound) (files : Files)
    (hchosen : choice.chosen = .ok theme) :
    ∃ start, create engine files choice none = .ok start ∧ start.highlighter.theme = theme := by
  obtain ⟨h, hh, _⟩ := Highlighter.create_default hE files hchosen
  rw [← create_map] at hh
  cases hc : create engine files choice none with
  | error e =>
    rw [hc] at hh
    cases hh
  | ok start =>
    obtain ⟨_, htheme, _⟩ := Highlighter.create_ok (create_ok hc).1
    cases hchosen.symm.trans htheme
    exact ⟨start, rfl, rfl⟩

end

/-! ## Calls one after another -/

/-- What a call is given. -/
structure Call where
  request : Highlighter.Request
  code : Json
  lang : Json

/-- What a call answers. -/
def answer (s : Session) (c : Call) : Outcome Highlighter.Reply :=
  (s.call c.request c.code c.lang).1

/-- The session behind calls, whatever has come of them. -/
def after (s : Session) (calls : List Call) : Session :=
  calls.foldl (fun s c => (s.call c.request c.code c.lang).2) s

theorem after_append (s : Session) (calls more : List Call) :
    s.after (calls ++ more) = (s.after calls).after more :=
  List.foldl_append

/-- What each call keeps, calls one after another keep. The highlighter stays the one that it was,
and the session stays sound. -/
theorem after_keeps {I : Palette → Prop} (H : Painting.Lasting I) (hs : s.Sound)
    (hI : I s.palette) (calls : List Call) :
    (s.after calls).Sound ∧ (s.after calls).highlighter = s.highlighter ∧
      I (s.after calls).palette := by
  induction calls generalizing s with
  | nil => exact ⟨hs, rfl, hI⟩
  | cons c rest ih =>
    have hanswers := call_answers hs c.request c.code c.lang
    have hkeep := (Highlighter.keep_call H s.highlighter c.request c.code c.lang _ hI).2
    obtain ⟨hsound, hhighlighter, hlast⟩ := ih hanswers.sound (hanswers.palette ▸ hkeep)
    exact ⟨hsound, hhighlighter.trans hanswers.highlighter, hlast⟩

end Session

/-- **Calls do not depend on earlier ones.** Whatever calls a new session has had, tokens and HTML
come out, or fail to, as they would in the new session, and each style held is the one that the
theme resolves for its scopes. -/
theorem calls_independent (engine : Regex.Engine) (files : Files) (choice : ThemeChoice)
    (choices : Option (List LanguageChoice)) (start : Session)
    (hc : Session.create engine files choice choices = .ok start) (calls : List Session.Call) :
    (∀ c : Session.Call, c.request ≠ .svg → (start.after calls).answer c = start.answer c) ∧
    ∀ entry ∈ (start.after calls).palette.styles.styles,
      start.highlighter.theme.resolve entry.1 = .ok entry.2 := by
  obtain ⟨_, hpalette, hsound⟩ := Session.create_ok hc
  have hstart : Painting.Follows start.highlighter.theme start.palette := by
    rw [hpalette]
    exact StyleCache.Of.start _
  obtain ⟨hlater, hhighlighter, hfollows⟩ :=
    Session.after_keeps (Painting.follows_lasting _) hsound hstart calls
  refine ⟨fun c hrequest => ?_, hfollows.resolve_eq⟩
  have hnow := (Session.call_answers hlater c.request c.code c.lang).outcome
  have hfirst := (Session.call_answers hsound c.request c.code c.lang).outcome
  rw [hhighlighter] at hnow
  rw [Session.answer, Session.answer, hnow, hfirst]
  exact (Highlighter.call_settled _ hrequest _ _).eq hfollows hstart

/-- After an SVG and two calls that fail. -/
theorem calls_independent_nord : ∃ start,
    Session.create .standard [] (.value (.str "nord")) none = .ok start ∧
    (start.after [⟨.svg, .str "[1]", .str "json"⟩, ⟨.tokens, .str "[1]", .str "txt"⟩,
        ⟨.html, .str "[1]", .int 3⟩]).answer ⟨.tokens, .str "\x7b\"a\": [1, 2", .str "json"⟩ =
      start.answer ⟨.tokens, .str "\x7b\"a\": [1, 2", .str "json"⟩ := by
  obtain ⟨start, hc, _⟩ := Session.create_default (.value (.str "nord"))
    Regex.Engine.standard_sound [] rfl
  exact ⟨start, hc, (calls_independent _ _ _ _ start hc _).1 _ (by decide)⟩

end Rubric
