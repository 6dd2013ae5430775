import Rubric.Proofs.Grammar.Circles
import Rubric.Proofs.Grammar.Loading
import Rubric.Registry

/-!
# How loading a grammar can fail

Loading a grammar is documented to fail if there is no grammar, or if what there is is none. Reading
it mostly fails like this, and the cases in which it does not are those of `Registry.Breaks`. The
check of its patterns, and writing out what they stand for, fail in other ways too, for values that
are no patterns, for names that are no texts, and for references that go round in a circle.
`loading_faults` says exactly when a grammar loads, and when loading it fails in one of these other
ways.
-/

namespace Rubric

/-- The fault is one that loading a grammar is documented to have. -/
def Fault.isLoading : Fault → Bool
  | .unfound _ _ | .unfit _ _ => true
  | _ => false

/-- The computation fails in a way that loading a grammar is not documented to have. -/
def Outcome.Escapes {α : Type} (x : Outcome α) : Prop :=
  ∃ e, x = .error e ∧ e.isLoading = false

@[simp] theorem Outcome.not_escapes_ok {α : Type} {a : α} : ¬ Outcome.Escapes (.ok a) := nofun

@[simp] theorem Outcome.escapes_error {α : Type} {e : Fault} :
    Outcome.Escapes (.error e : Outcome α) ↔ e.isLoading = false := by
  simp [Outcome.Escapes]

@[simp] theorem Outcome.escapes_throw {α : Type} {e : Fault} :
    Outcome.Escapes (throw e : Outcome α) ↔ e.isLoading = false :=
  Outcome.escapes_error

theorem Outcome.escapes_bind {α β : Type} {x : Outcome α} {f : α → Outcome β} :
    Outcome.Escapes (x >>= f) ↔ x.Escapes ∨ ∃ a, x = .ok a ∧ (f a).Escapes := by
  cases x <;> simp [bind, Except.bind]

/-- The pattern is a text that the engine does not take, for a cause that has a wording. -/
def Regex.Engine.Refuses (engine : Regex.Engine) (p : Except Misuse Json) : Prop :=
  ∃ (s : String) (e : Regex.Error), p = .ok (.str s) ∧ engine.compile s.toList = .error e ∧
    e.message?.isSome = true

theorem Json.eq_str_of_same {v : Json} {s : String} (h : v.same (.str s) = true) : v = .str s := by
  cases v with
  | str t => simpa [same] using h
  | _ => simp [same, sameNumber, toInt?] at h

/-! ## The check -/

namespace Grammar
variable {engine : Regex.Engine} {g : Grammar} {scope : String} {p : Except Misuse Json}

/-- The check lets the patterns pass that the engine takes. -/
theorem checkPattern_ok_iff : checkPattern engine scope p = .ok () ↔ engine.Takes p := by
  refine ⟨fun h => ?_, checkPattern_of_takes scope⟩
  unfold checkPattern at h
  obtain ⟨v, hv, h⟩ := bind_eq_ok.mp h
  have hp := mapError_eq_ok.mp hv
  split at h
  · next s =>
    split at h
    · next matcher hcompile => exact ⟨s, matcher, hp, hcompile⟩
    · exact absurd h throw_ne_ok
  · exact absurd h throw_ne_ok

/-- It fails in the documented way for those that the engine refuses. -/
theorem checkPattern_error {e : Fault} (h : checkPattern engine scope p = .error e) :
    e.isLoading = true ↔ engine.Refuses p := by
  unfold checkPattern at h
  cases p with
  | error m =>
    cases h
    simp [Fault.isLoading, Regex.Engine.Refuses]
  | ok v =>
    cases v with
    | str s =>
      simp only [Except.mapError, ok_bind] at h
      cases hcompile : engine.compile s.toList with
      | ok matcher =>
        rw [hcompile] at h
        cases h
      | error e' =>
        rw [hcompile] at h
        cases hworded : e'.message?.isSome with
        | true =>
          simp only [hworded, if_true] at h
          cases h
          exact iff_of_true rfl ⟨s, e', rfl, hcompile, hworded⟩
        | false =>
          simp only [hworded, Bool.false_eq_true, if_false] at h
          cases h
          refine iff_of_false Bool.false_ne_true ?_
          rintro ⟨s', e, heq, he, hsome⟩
          cases heq
          cases hcompile.symm.trans he
          rw [hworded] at hsome
          cases hsome
    | _ =>
      cases h
      simp [Fault.isLoading, Regex.Engine.Refuses]

/-- All patterns pass the check, or a first one fails it. -/
theorem check_cases (engine : Regex.Engine) (scope : String) (g : Grammar) :
    (g.check engine scope = .ok () ∧ ∀ p ∈ g.checked, engine.Takes p) ∨
      ∃ front p rest e, g.checked = front ++ p :: rest ∧ (∀ q ∈ front, engine.Takes q) ∧
        ¬ engine.Takes p ∧ g.check engine scope = .error e ∧
        checkPattern engine scope p = .error e := by
  unfold check
  induction g.checked with
  | nil => exact .inl ⟨rfl, by simp⟩
  | cons p rest ih =>
    rw [List.forM]
    cases hp : checkPattern engine scope p with
    | error e =>
      refine .inr ⟨[], p, rest, e, rfl, by simp, fun htakes => ?_, rfl, hp⟩
      rw [checkPattern_ok_iff.mpr htakes] at hp
      cases hp
    | ok u =>
      have htakes := checkPattern_ok_iff.mp hp
      rw [ok_bind]
      rcases ih with ⟨hcheck, hall⟩ | ⟨front, q, rest, e, rfl, hfront, hq, hcheck, he⟩
      · exact .inl ⟨hcheck, List.forall_mem_cons.mpr ⟨htakes, hall⟩⟩
      · exact .inr ⟨p :: front, q, rest, e, rfl, List.forall_mem_cons.mpr ⟨htakes, hfront⟩, hq,
          hcheck, he⟩

end Grammar

/-! ## Reading -/

namespace CallStack
variable {stack : CallStack} {work : Work} {v : Json}

theorem hold_eq_ok : stack.hold work = .ok () ↔ stack.holds work = true := by
  simp [hold]

theorem hold_bind (hroom : stack.holds work = true) {α : Type} (x : Outcome α) :
    (do stack.hold work; x) = x := by
  rw [hold_eq_ok.mpr hroom, ok_bind]

theorem hold_bind_escapes {α : Type} {x : Outcome α} :
    Outcome.Escapes (do stack.hold work; x) ↔ stack.holds work = false ∨ x.Escapes := by
  cases hroom : stack.holds work with
  | true => simp [hold_bind hroom]
  | false => simp [hold, hroom, bind, Except.bind, Fault.isLoading]

/-- The value can be written: there is room for that, and no integer in it has too many digits. -/
def Writes (stack : CallStack) (v : Json) : Prop :=
  stack.holds (.message v) = true ∧ v.longInteger? = none

theorem write_of_writes (h : stack.Writes v) : stack.write v = .ok () := by
  rw [write, hold_bind h.1, h.2]
  rfl

theorem write_escapes : (stack.write v).Escapes ↔ ¬ stack.Writes v := by
  rw [write, hold_bind_escapes, Writes]
  cases v.longInteger? with
  | none => simp [pure, Except.pure]
  | some n => simp [Fault.isLoading]

end CallStack

namespace Grammar
variable {stack : CallStack} {v : Json}

/-- Reading a grammar from the value breaks off: its rules are nested too deep, or they are faulty,
and the name that the grammar declares cannot be written in the message about that. -/
def Breaks (stack : CallStack) (v : Json) : Prop :=
  ∃ members, v = .obj members ∧ (stack.holds (.rules v) = false ∨
    ∃ m, ofMembers members = .error m ∧ ¬ stack.Writes (declared members))

theorem ofJson_escapes : (ofJson stack v).Escapes ↔ Breaks stack v := by
  cases v with
  | obj members =>
    have hbreaks : Breaks stack (.obj members) ↔ (stack.holds (.rules (.obj members)) = false ∨
        ∃ m, ofMembers members = .error m ∧ ¬ stack.Writes (declared members)) := by
      simp [Breaks]
    rw [hbreaks, ofJson, CallStack.hold_bind_escapes]
    cases ofMembers members with
    | ok g => simp [pure, Except.pure]
    | error m => simp [Outcome.escapes_bind, CallStack.write_escapes, Fault.isLoading]
  | _ => simp [ofJson, Breaks, Fault.isLoading]

/-- Reading a grammar from the text of a file breaks off: it is nested too deep, or reading a
grammar from the value that it holds breaks off. -/
def TextBreaks (stack : CallStack) (text : List Char) : Prop :=
  stack.holds (.document text) = false ∨ ∃ v, Json.parse text = .ok v ∧ Breaks stack v

theorem ofBytes_escapes {name : String} {bytes : List UInt8} (hpaired : ∀ text,
    Text.ofBytes bytes = .ok text → Json.parse (Text.unifyNewlines text) ≠ .error .unpaired) :
    (ofBytes stack name bytes).Escapes ↔
      ∃ text, Text.ofBytes bytes = .ok text ∧ TextBreaks stack (Text.unifyNewlines text) := by
  unfold ofBytes
  split
  · next e he => simp [he, Fault.isLoading]
  · next text htext =>
    have hunpaired := hpaired text htext
    simp only [htext, Except.ok.injEq, exists_eq_left', TextBreaks, CallStack.hold_bind_escapes]
    split
    · next he => exact absurd he hunpaired
    · next e _ he => simp [he, Fault.isLoading]
    · next v hv => simp [hv, ofJson_escapes]

end Grammar

/-- Reading the grammar of a language breaks off: that of its own value, or that of a file, whose
path ends too soon or whose text is too deep. -/
inductive Language.Breaks (stack : CallStack) (files : Files) (lang : Language) : Prop
  | value {v : Json} : lang.grammar = some v → Grammar.Breaks stack v → lang.Breaks stack files
  | path {path : String} : lang.grammar = none → lang.location = some (.file path) →
      '\x00' ∈ path.toList → lang.Breaks stack files
  | file {path : String} {bytes : List UInt8} {text : List Char} : lang.grammar = none →
      lang.location = some (.file path) → files.read lang.scopeName path = .ok bytes →
      Text.ofBytes bytes = .ok text → Grammar.TextBreaks stack (Text.unifyNewlines text) →
      lang.Breaks stack files

/-- No file holds a document with one half of a surrogate pair. -/
def Files.Paired (files : Files) : Prop :=
  ∀ file ∈ files, ∀ text, Text.ofBytes file.2 = .ok text →
    Json.parse (Text.unifyNewlines text) ≠ .error .unpaired

namespace Registry
variable {engine : Regex.Engine} {stack : CallStack} {files : Files} {r : Registry} {scope : String}
  {lang : Language}

theorem mem_of_read {path : String} {bytes : List UInt8} (h : files.read scope path = .ok bytes) :
    (path, bytes) ∈ files := by
  unfold Files.read at h
  split at h
  · cases h
  · split at h
    · cases h
    · split at h
      · next bytes' hlookup =>
        cases h
        obtain ⟨front, rest, heq, _⟩ := List.lookup_eq_some_iff.mp hlookup
        rw [heq]
        exact List.mem_append_right _ List.mem_cons_self
      · cases h

theorem read_escapes {path : String} : (files.read scope path).Escapes ↔ '\x00' ∈ path.toList := by
  unfold Files.read
  by_cases hends : '\x00' ∈ path.toList
  · simp [hends, Fault.isLoading]
  · simp only [List.contains_iff_mem, hends, if_false, iff_false]
    split
    · simp [Fault.isLoading]
    · split <;> simp [Fault.isLoading]

/-- Whatever a grammar is read from, reading it fails in the documented way unless it breaks off. -/
theorem readLanguage_escapes (hfiles : files.Paired) :
    (readLanguage stack files lang).Escapes ↔ lang.Breaks stack files := by
  unfold readLanguage
  split
  · next v hv =>
    rw [Grammar.ofJson_escapes]
    refine ⟨.value hv, fun h => ?_⟩
    cases h with
    | value hv' h => exact Option.some.inj (hv.symm.trans hv') ▸ h
    | path hv' | file hv' => cases hv.symm.trans hv'
  · next path hv hlocation =>
    refine iff_of_false ?_ fun h => ?_
    · split <;> simp [Fault.isLoading]
    · cases h with
      | value hv' => cases hv.symm.trans hv'
      | path _ hlocation' | file _ hlocation' => cases hlocation.symm.trans hlocation'
  · next path hv hlocation =>
    rw [Outcome.escapes_bind, read_escapes]
    constructor
    · rintro (hends | ⟨bytes, hread, h⟩)
      · exact .path hv hlocation hends
      · obtain ⟨text, htext, h⟩ := (Grammar.ofBytes_escapes (hfiles _ (mem_of_read hread))).mp h
        exact .file hv hlocation hread htext h
    · intro h
      cases h with
      | value hv' => cases hv.symm.trans hv'
      | path _ hlocation' hends =>
        cases hlocation.symm.trans hlocation'
        exact .inl hends
      | file _ hlocation' hread htext h =>
        cases hlocation.symm.trans hlocation'
        exact .inr ⟨_, hread,
          (Grammar.ofBytes_escapes (hfiles _ (mem_of_read hread))).mpr ⟨_, htext, h⟩⟩
  · next hv hlocation =>
    refine iff_of_false (by simp [Fault.isLoading]) fun h => ?_
    cases h with
    | value hv' => cases hv.symm.trans hv'
    | path _ hlocation' | file _ hlocation' => cases hlocation.symm.trans hlocation'

/-- The grammar is read under the scope name, and declares it. -/
def Reads (r : Registry) (files : Files) (scope : String) (g : Grammar) : Prop :=
  ∃ lang, Json.member? r.languages scope = some lang ∧ readLanguage r.stack files lang = .ok g ∧
    g.scopeName = .str scope

/-- Reading a grammar under the scope name breaks off, or what is read declares another name, which
cannot be written in the message about that. -/
def Breaks (r : Registry) (files : Files) (scope : String) : Prop :=
  ∃ lang, Json.member? r.languages scope = some lang ∧ (lang.Breaks r.stack files ∨
    ∃ g, readLanguage r.stack files lang = .ok g ∧ g.scopeName ≠ .str scope ∧
      ¬ r.stack.Writes g.scopeName)

/-- What is not read fails in the documented way unless it breaks off. -/
theorem readGrammar_error (engine : Regex.Engine) (h : ¬ ∃ g, r.Reads files scope g) :
    ∃ e, r.readGrammar engine files scope = .error e ∧
      (files.Paired → (e.isLoading = false ↔ r.Breaks files scope)) := by
  unfold readGrammar
  cases hlang : Json.member? r.languages scope with
  | none => exact ⟨_, rfl, fun _ => by simp [Breaks, hlang, Fault.isLoading]⟩
  | some lang =>
    have hbreaks : r.Breaks files scope ↔ lang.Breaks r.stack files ∨
        ∃ g, readLanguage r.stack files lang = .ok g ∧ g.scopeName ≠ .str scope ∧
          ¬ r.stack.Writes g.scopeName := by
      simp [Breaks, hlang]
    simp only [hbreaks]
    cases hread : readLanguage r.stack files lang with
    | error e =>
      refine ⟨e, rfl, fun hfiles => ?_⟩
      rw [← readLanguage_escapes hfiles, hread]
      simp
    | ok g =>
      have hname : g.scopeName ≠ .str scope := fun hname => h ⟨g, lang, hlang, hread, hname⟩
      have hsame : g.scopeName.same (.str scope) = false :=
        Bool.eq_false_iff.mpr (mt Json.eq_str_of_same hname)
      by_cases hwrites : r.stack.Writes g.scopeName
      · simp only [ok_bind, hsame, CallStack.write_of_writes hwrites]
        refine ⟨_, rfl, fun hfiles => ?_⟩
        simp [← readLanguage_escapes hfiles, hread, hwrites, Fault.isLoading]
      · obtain ⟨e, he, hescapes⟩ := CallStack.write_escapes.mpr hwrites
        simp only [ok_bind, hsame, he]
        exact ⟨e, rfl, fun _ => by simp [hwrites, hname, hescapes]⟩

theorem Reads.not_breaks {g : Grammar} (hfiles : files.Paired) (h : r.Reads files scope g) :
    ¬ r.Breaks files scope := by
  obtain ⟨lang, hlang, hread, hname⟩ := h
  rintro ⟨lang', hlang', h⟩
  cases hlang.symm.trans hlang'
  rcases h with h | ⟨g', hread', hname', _⟩
  · rw [← readLanguage_escapes hfiles, hread] at h
    exact Outcome.not_escapes_ok h
  · cases hread.symm.trans hread'
    exact hname' hname

theorem readGrammar_of_reads (engine : Regex.Engine) {g : Grammar} (h : r.Reads files scope g) :
    r.readGrammar engine files scope = (do g.check engine scope; return g) := by
  obtain ⟨lang, hlang, hread, hname⟩ := h
  have hsame : g.scopeName.same (.str scope) = true := by simp [hname]
  simp only [readGrammar, hlang, hread, ok_bind, hsame]
  rfl

theorem Reads.eq {g g' : Grammar} (h : r.Reads files scope g) (h' : r.Reads files scope g') :
    g = g' := by
  obtain ⟨lang, hlang, hread, _⟩ := h
  obtain ⟨lang', hlang', hread', _⟩ := h'
  cases hlang.symm.trans hlang'
  cases hread.symm.trans hread'
  rfl

end Registry

/-! ## Writing out -/

section
variable {refer : Json → Outcome Candidates}

mutual

/-- Only a reference can stand for nothing. -/
theorem Rule.candidates_error {e : Fault} : ∀ rule : Rule, rule.candidates refer = .error e →
    ∃ target, refer target = .error e
  | ⟨scopes, single, opening, closing, continuing, contentScopes, captures, openingCaptures,
      closingCaptures, continuingCaptures, reference, children⟩, h => by
    unfold Rule.candidates at h
    split at h
    · exact ⟨_, h⟩
    · exact rulesCandidates_error children h
    · cases h
    · cases h

theorem rulesCandidates_error {e : Fault} : ∀ rules : List Rule,
    rulesCandidates refer rules = .error e → ∃ target, refer target = .error e
  | [], h => by cases h
  | rule :: rest, h => by
    rcases bind_eq_error.mp h with h | ⟨first, _, h⟩
    · exact Rule.candidates_error rule h
    · rcases bind_eq_error.mp h with h | ⟨others, _, h⟩
      · exact rulesCandidates_error rest h
      · cases h

end

end

namespace Grammar
variable {g : Grammar} {rules : List Rule} {e : Fault}

theorem expandWith_error {refer : Json → Outcome Candidates}
    (hrefer : ∀ target e, refer target = .error e → e = .nesting ∨ ∃ m, e = .misuse m)
    (h : expandWith refer rules = .error e) : e = .nesting ∨ ∃ m, e = .misuse m := by
  unfold expandWith at h
  split at h
  · obtain ⟨target, ht⟩ := rulesCandidates_error rules h
    exact hrefer target e ht
  · cases h
    exact .inr ⟨_, rfl⟩

theorem refer_error {depth : Nat} {target : Json} (h : g.refer depth target = .error e) :
    e = .nesting ∨ ∃ m, e = .misuse m := by
  induction depth generalizing target e with
  | zero =>
    cases h
    exact .inl rfl
  | succ depth ih =>
    rcases bind_eq_error.mp h with h | ⟨inner, _, h⟩
    · unfold referred at h
      split at h
      · split at h
        · cases h
        · split at h
          · split at h <;> cases h
          · cases h
      · cases h
        exact .inr ⟨_, rfl⟩
    · exact expandWith_error (fun target e => ih) h

/-- Rules cannot be written out for a circle, or for a value that cannot be used in its place. -/
theorem expand_error (h : g.expand rules = .error e) : e = .nesting ∨ ∃ m, e = .misuse m :=
  expandWith_error (fun _ _ => refer_error) h

end Grammar

namespace CompiledGrammar
variable {g : Grammar}

theorem ofGrammar_ok_iff : (∃ c, ofGrammar g = .ok c) ↔ g.Unfolds g.patterns := by
  rw [← Grammar.expand_ok_iff, ofGrammar, Grammar.compile]
  cases g.expand g.patterns with
  | error e => simp [bind, Except.bind]
  | ok cs => simp [bind, Except.bind, pure, Except.pure]

theorem ofGrammar_error {e : Fault} (h : ofGrammar g = .error e) : e.isLoading = false := by
  rcases bind_eq_error.mp h with h | ⟨root, _, h⟩
  · rcases bind_eq_error.mp h with h | ⟨inner, _, h⟩
    · rcases Grammar.expand_error h with rfl | ⟨m, rfl⟩ <;> rfl
    · cases h
  · cases h

/-- A grammar whose patterns are taken is ready for use if there is room to write out what they
stand for, and that can be written out. Else the fault is not a documented one. -/
theorem hold_ofGrammar (stack : CallStack) (g : Grammar) :
    ((∃ c, (do stack.hold (.expansion g); ofGrammar g) = .ok c) ↔
      g.Unfolds g.patterns ∧ stack.holds (.expansion g) = true) ∧
    (Outcome.Escapes (do stack.hold (.expansion g); ofGrammar g) ↔
      ¬(g.Unfolds g.patterns ∧ stack.holds (.expansion g) = true)) := by
  rw [← ofGrammar_ok_iff, CallStack.hold_bind_escapes]
  cases hroom : stack.holds (.expansion g) with
  | false => simp [CallStack.hold, hroom, bind, Except.bind]
  | true =>
    rw [CallStack.hold_bind hroom]
    cases hcompiled : ofGrammar g with
    | ok c => simp
    | error e => simp [ofGrammar_error hcompiled]

end CompiledGrammar

/-! ## Loading -/

namespace Registry
variable {engine : Regex.Engine} {files : Files} {r : Registry} {scope : String} {g : Grammar}

/-- A grammar that is read loads if the engine takes its patterns and what they stand for can be
written out. Else the fault is that of the first pattern that is not taken, or one of another
kind. -/
theorem load_of_reads (engine : Regex.Engine) (hreads : r.Reads files scope g) :
    (∀ p ∈ g.checked, engine.Takes p) ∧ r.load engine files scope =
        (do r.stack.hold (.expansion g); CompiledGrammar.ofGrammar g) ∨
      ∃ front p rest e, g.checked = front ++ p :: rest ∧ (∀ q ∈ front, engine.Takes q) ∧
        ¬ engine.Takes p ∧ r.load engine files scope = .error e ∧
        (e.isLoading = true ↔ engine.Refuses p) := by
  have hread := readGrammar_of_reads engine hreads
  rcases Grammar.check_cases engine scope g with
    ⟨hcheck, hall⟩ | ⟨front, p, rest, e, heq, hfront, hp, hcheck, he⟩
  · refine .inl ⟨hall, ?_⟩
    rw [load, hread, hcheck]
    rfl
  · refine .inr ⟨front, p, rest, e, heq, hfront, hp, ?_, Grammar.checkPattern_error he⟩
    rw [load, hread, hcheck]
    rfl

/-- The first pattern that is not taken is one and the same. -/
theorem first_not_taken {front front' rest rest' : List (Except Misuse Json)}
    {p p' : Except Misuse Json} (h : front ++ p :: rest = front' ++ p' :: rest')
    (hfront : ∀ q ∈ front, engine.Takes q) (hfront' : ∀ q ∈ front', engine.Takes q)
    (hp : ¬ engine.Takes p) (hp' : ¬ engine.Takes p') : p = p' := by
  induction front generalizing front' with
  | nil =>
    cases front' with
    | nil => exact (List.cons.inj h).1
    | cons q front' =>
      obtain ⟨rfl, _⟩ := List.cons.inj h
      exact absurd (hfront' p (List.mem_cons_self ..)) hp
  | cons q front ih =>
    cases front' with
    | nil =>
      obtain ⟨rfl, _⟩ := List.cons.inj h
      exact absurd (hfront q (List.mem_cons_self ..)) hp'
    | cons q' front' =>
      exact ih (List.cons.inj h).2 (List.forall_mem_cons.mp hfront).2
        (List.forall_mem_cons.mp hfront').2

/-- What is not read does not load, and the fault is a documented one unless reading breaks off. -/
theorem load_error (engine : Regex.Engine) (h : ¬ ∃ g, r.Reads files scope g) :
    ∃ e, r.load engine files scope = .error e ∧
      (files.Paired → (e.isLoading = false ↔ r.Breaks files scope)) := by
  obtain ⟨e, he, hbreaks⟩ := readGrammar_error engine h
  refine ⟨e, ?_, hbreaks⟩
  rw [load, he]
  rfl

/-- The check of the grammar stops at a pattern that the engine does not take, and has no wording
for: the value is no text, or the engine's message cannot be read. -/
def Stumbles (engine : Regex.Engine) (g : Grammar) : Prop :=
  ∃ front p rest, g.checked = front ++ p :: rest ∧ (∀ q ∈ front, engine.Takes q) ∧
    ¬ engine.Takes p ∧ ¬ engine.Refuses p

/-- **How loading fails.** Let no file hold one half of a surrogate pair. A grammar loads if it is
read, the engine takes all of its patterns, and what its rules stand for can be written out, with
room on the stack for that. Loading fails in a way that is not documented if reading breaks off, if
the check stumbles, or if the patterns are taken and the rules cannot be written out. -/
theorem loading_faults (engine : Regex.Engine) (files : Files) (hfiles : files.Paired)
    (r : Registry) (scope : String) :
    ((∃ c, r.load engine files scope = .ok c) ↔
      ∃ g, r.Reads files scope g ∧ (∀ p ∈ g.checked, engine.Takes p) ∧
        g.Unfolds g.patterns ∧ r.stack.holds (.expansion g) = true) ∧
    ((∃ e, r.load engine files scope = .error e ∧ e.isLoading = false) ↔
      r.Breaks files scope ∨ ∃ g, r.Reads files scope g ∧ (Stumbles engine g ∨
        (∀ p ∈ g.checked, engine.Takes p) ∧
          ¬(g.Unfolds g.patterns ∧ r.stack.holds (.expansion g) = true))) := by
  by_cases hread : ∃ g, r.Reads files scope g
  case neg =>
    obtain ⟨e, he, hbreaks⟩ := load_error engine hread
    have hnone : ∀ {P : Grammar → Prop}, ¬ ∃ g, r.Reads files scope g ∧ P g :=
      fun ⟨g, hg, _⟩ => hread ⟨g, hg⟩
    rw [iff_false_intro hnone, iff_false_intro hnone, or_false, he, ← hbreaks hfiles]
    simp
  obtain ⟨g, hg⟩ := hread
  -- the grammar that is read is no other than this one
  have honly : ∀ {P : Grammar → Prop}, (∃ g, r.Reads files scope g ∧ P g) ↔ P g :=
    ⟨fun ⟨_, hg', hP⟩ => hg.eq hg' ▸ hP, fun hP => ⟨g, hg, hP⟩⟩
  rw [honly, honly, or_iff_right (hg.not_breaks hfiles)]
  rcases load_of_reads engine hg with
    ⟨hall, hload⟩ | ⟨front, p, rest, e, hchecked, hfront, hp, hload, hloading⟩
  · have hsteady : ¬ Stumbles engine g := by
      rintro ⟨front, p, rest, hchecked, _, hp, _⟩
      exact hp (hall p (by simp [hchecked]))
    rw [hload, and_iff_right hall, and_iff_right hall, or_iff_right hsteady]
    exact CompiledGrammar.hold_ofGrammar r.stack g
  · have hnot : ¬ ∀ p ∈ g.checked, engine.Takes p := fun hall => hp (hall p (by simp [hchecked]))
    have hstumbles : Stumbles engine g ↔ ¬ engine.Refuses p := by
      refine ⟨?_, fun hrefuses => ⟨front, p, rest, hchecked, hfront, hp, hrefuses⟩⟩
      rintro ⟨front', p', rest', hchecked', hfront', hp', hrefuses⟩
      rwa [first_not_taken (hchecked.symm.trans hchecked') hfront hfront' hp hp']
    simp [hload, hnot, hstumbles, ← hloading]

/-- The registry of a language whose grammar is a single rule. -/
def ofRule (rule : Json) : Registry :=
  ofLanguages [{
    id := "rule", scopeName := "text.rule",
    grammar := some (.obj [("scopeName", .str "text.rule"), ("patterns", .arr [rule])]) }]

/-- The registry of a language whose grammar is in a file. -/
def ofFile (path : String) : Registry :=
  ofLanguages [{ id := "file", scopeName := "text.file", location := some (.file path) }]

/-- A file with a grammar that has no patterns. -/
def emptyFile : Files :=
  [("empty", "\x7b\"scopeName\":\"text.file\",\"patterns\":[]\x7d".toList.map (·.toNat.toUInt8))]

/-- A grammar that is read from a file and loads, and a path that ends too soon. -/
theorem loading_faults_files : emptyFile.Paired ∧
    (∃ g, (ofFile "empty").Reads emptyFile "text.file" g ∧ g.Unfolds g.patterns) ∧
    ∃ e, (ofFile "\x00").load .standard emptyFile "text.file" = .error e ∧
      e.isLoading = false := by
  have hpaired : emptyFile.Paired := by
    have hparsed : ∀ file ∈ emptyFile, ((Text.ofBytes file.2).toOption.bind fun text =>
        (Json.parse (Text.unifyNewlines text)).toOption).isSome = true := by
      decide +kernel
    intro file hfile text htext hunpaired
    have hsome := hparsed file hfile
    rw [htext, Except.toOption, Option.bind_some, hunpaired] at hsome
    cases hsome
  refine ⟨hpaired, ?_, ?_⟩
  · have hloads :
        ((ofFile "empty").load .standard emptyFile "text.file").toOption.isSome = true := by
      decide +kernel
    obtain ⟨c, hc⟩ := Option.isSome_iff_exists.mp hloads
    obtain ⟨g, hg, _, hunfolds, _⟩ :=
      (loading_faults .standard emptyFile hpaired _ _).1.mp ⟨c, toOption_eq_some.mp hc⟩
    exact ⟨g, hg, hunfolds⟩
  · exact (loading_faults .standard emptyFile hpaired _ _).2.mpr
      (.inl ⟨_, rfl, .inl (.path rfl rfl (by decide))⟩)

/-- A number in the place of a pattern, a grammar that includes itself, a list in the place of the
name of a reference, and a path that ends too soon: each of them escapes as a fault that is not
documented. -/
theorem loading_faults_escape :
    (ofRule (.obj [("match", .int 5)])).load .standard [] "text.rule" =
      .error (.misuse (.lacks (.int 5) "encode")) ∧
    (ofRule (.obj [("include", .str "$self")])).load .standard [] "text.rule" = .error .nesting ∧
    (ofRule (.obj [("include", .arr [.int 1])])).load .standard [] "text.rule" =
      .error (.misuse .notKey) ∧
    (ofFile "\x00").load .standard [] "text.file" = .error (.misuse .nullCharacter) :=
  ⟨rfl, rfl, rfl, rfl⟩

end Registry

end Rubric
