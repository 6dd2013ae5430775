import Rubric.Proofs.Bundle.JsonSpots

/-!
# Highlighting JSON texts

What the JSON grammar makes of a valid text. Each value leaves the stack as it found it
(`value_leads`), unless an object in it is not closed flush: behind white space the brace begins
both the end of the last member and the match for what is not expected there, and is taken for the
latter. So the text gets no invalid scope, and the stack is back at its bottom, exactly if each
object in it is closed flush or has no members (`json_texts`).
-/

namespace Rubric.JsonText

open Rubric.Bundle (json)
open Pattern (Avoid Hits)
open Regex (CharSet)

variable {g : CompiledGrammar} {k k' : Kind} {s : State}
  {code before front w y x rest ahead : List Char} {c : Char}

/-- Values may stand in it. -/
def Kind.holdsValues : Kind → Bool
  | root | array | member => true
  | object | name | string => false

theorem Kind.tokens_eq (hk : k.holdsValues = true) : ∃ post, k.tokens = values ++ post := by
  cases k with
  | object | name | string => cases hk
  | root => exact ⟨[], rfl⟩
  | array | member => exact ⟨_, rfl⟩

/-- No rule that holds values ends where one begins. -/
theorem Kind.avoid_ending (hk : k.holdsValues = true) (hc : c ∈ valueStarts) :
    Avoid (k.closing?.map (·.2)).toList [c] := by
  have hall : Avoid (k.closing?.map (·.2)).toList valueStarts := by
    cases k with
    | object | name | string => cases hk
    | root | array | member => decide +kernel
  intro d hd
  cases List.mem_singleton.mp hd
  exact hall c hc

theorem Kind.isLoose_of_holdsValues (hk : k.holdsValues = true) : k.isLoose = true := by
  cases k with
  | object | name | string => cases hk
  | root | array | member => rfl

/-- The way through a part of the text: to a spot behind it, with this stack, if there is nothing
wrong in it, or to an invalid scope. -/
inductive Leads (g : CompiledGrammar) (code : List Char) (s : State) (rest : List Char) :
    Bool → Prop
  | on (front : List Char) : At g code front s rest → Leads g code s rest true
  | off : (∀ tokens, linesTokens .standard g g.start true (Text.splitAt '\n' code) = .ok tokens →
      ¬ TokensNamed isValidName tokens) → Leads g code s rest false

theorem Leads.bind {s' : State} {rest' : List Char} {a b : Bool} (h : Leads g code s rest a)
    (hb : ∀ front, At g code front s rest → Leads g code s' rest' b) :
    Leads g code s' rest' (a && b) := by
  cases h with
  | on front h => exact hb front h
  | off h => exact .off h

section
variable (L : Loaded g)
include L

/-! ## Values without values in them -/

/-- Over a value that matches once. -/
theorem In.value {t : Token} {pre post : List Token} (hk : k.holdsValues = true) (H : In k s)
    (hvalues : values = pre ++ t :: post) (ht : t ∈ [constantToken, numberToken]) (hw : Blank w)
    (hflat : '\n' ∉ y) (hy : y.head? = some c) (hc : c ∈ valueStarts)
    (hpre : Avoid (pre.map (·.set)) [c])
    (hhit : ∀ text : Array Char, text.toList = (before ++ w) ++ (y ++ Text.upTo '\n' rest) →
      Hits t.pattern text (before ++ w).length y.length)
    (h : At g code before s (w ++ (y ++ rest))) : At g code (before ++ (w ++ y)) s rest := by
  obtain ⟨more, htokens⟩ := Kind.tokens_eq hk
  rw [hvalues, List.append_assoc, List.cons_append] at htokens
  refine H.once L h htokens ?_ (avoid_blanks (Kind.isLoose_of_holdsValues hk) hw.within) ?_ ?_ hpre
    (Kind.avoid_ending hk hc) hhit
  · exact List.mem_append_left [separatorToken, escapeToken] ht
  · simp [hw.flat, hflat]
  · rw [List.head?_append, hy]
    rfl

theorem constant_at (constant : Constant) (hk : k.holdsValues = true) (H : In k s) (hw : Blank w)
    (hedge : Edge (before ++ w)) (hrest : Ahead stops rest)
    (h : At g code before s (w ++ (constant.chars ++ rest))) :
    At g code (before ++ (w ++ constant.chars)) s rest := by
  have hstart : ∃ c, constant.chars.head? = some c ∧ c ∈ valueStarts := by
    cases constant <;> exact ⟨_, rfl, by decide⟩
  obtain ⟨c, hhead, hc⟩ := hstart
  have hvalues : values = [] ++ constantToken :: values.tail := rfl
  refine H.value L hk hvalues (by simp) hw constant.printable.flat hhead hc
    (fun _ _ _ h => nomatch h)
    (fun text htext => ?_) h
  exact constant_hits constant (parted_of_edge hedge htext) hrest.upTo (drop_of_eq htext)

theorem number_at (n : Number) (hk : k.holdsValues = true) (H : In k s) (hw : Blank w)
    (hrest : Ahead stops rest) (h : At g code before s (w ++ (n.chars ++ rest))) :
    At g code (before ++ (w ++ n.chars)) s rest := by
  obtain ⟨c, more, hn⟩ := List.exists_cons_of_ne_nil (number_chars_ne_nil n)
  have hahead : Ahead ('-' :: digits) (n.chars ++ rest) := number_ahead n
  have hc : c ∈ '-' :: digits := hahead c (by rw [hn]; rfl)
  have hvalues : values = [constantToken] ++ numberToken :: values.drop 2 := rfl
  have hpre : Avoid ([constantToken].map (·.set)) ('-' :: digits) := by decide
  refine H.value L hk hvalues (by simp) hw n.printable.flat (c := c) (by rw [hn]; rfl) ?_ ?_
    (fun text htext => ?_) h
  · have hsub : '-' :: digits ⊆ valueStarts := by decide
    exact hsub hc
  · intro d hd
    exact hpre d (List.mem_singleton.mp hd ▸ hc)
  · exact number_hits n hrest.upTo (drop_of_eq htext)

/-- Over the character that a string, an array or an object begins with. -/
theorem In.valueOpens {t : Token} {pre post : List Token} {closing : String} {set : CharSet}
    (hk : k.holdsValues = true) (H : In k s) (hvalues : values = pre ++ t :: post)
    (ht : t.rule = k'.rule) (hclosing : k'.closing? = some (closing, set)) (hw : Blank w)
    (hc : (t.pattern, c) ∈ [("\"", '"'), ("\\[", '['), ("\\\x7b", '\x7b')])
    (hpre : Avoid (pre.map (·.set)) [c]) (h : At g code before s (w ++ c :: rest)) :
    ∃ s' front, In k' s' ∧ s'.pop = s ∧ Edge front ∧ At g code front s' rest := by
  have hall : ∀ e ∈ [("\"", '"'), ("\\[", '['), ("\\\x7b", '\x7b')],
      e ∈ singles ∧ e.2 ∈ valueStarts ∧ e.2 ≠ '\n' ∧ Regex.isWordChar e.2 = false := by decide
  obtain ⟨hsingle, hstart, hline, hword⟩ := hall _ hc
  obtain ⟨more, htokens⟩ := Kind.tokens_eq hk
  rw [hvalues, List.append_assoc, List.cons_append] at htokens
  have hflat : '\n' ∉ w ++ [c] := by simp [hw.flat, Ne.symm hline]
  have hopen := H.opens L (y := [c]) h htokens ht hclosing
    (avoid_blanks (Kind.isLoose_of_holdsValues hk) hw.within) hflat rfl hpre
    (Kind.avoid_ending hk hstart) fun text htext => single_hits hsingle htext
  rw [← List.append_assoc] at hopen
  exact ⟨_, _, In.enter hclosing, rfl, .concat hword, hopen⟩

theorem string_at (items : List Item) (hk : k.holdsValues = true) (H : In k s) (hw : Blank w)
    (h : At g code before s (w ++ (quotedChars items ++ rest))) :
    ∃ front, At g code front s rest := by
  have hvalues : values = [constantToken, numberToken] ++ stringToken :: values.drop 3 := rfl
  have hrule : stringToken.rule = Kind.string.rule := rfl
  rw [quotedChars, List.cons_append, List.append_assoc] at h
  obtain ⟨s', front, H', rfl, _, h⟩ :=
    H.valueOpens L hk hvalues hrule rfl hw (by decide) (by decide) h
  exact H'.items L rfl items (w := []) (fun _ h => nomatch h) h

/-! ## Brackets and braces -/

theorem array_opens (hk : k.holdsValues = true) (H : In k s) (hw : Blank w)
    (h : At g code before s (w ++ '[' :: rest)) :
    ∃ s' front, In .array s' ∧ s'.pop = s ∧ Edge front ∧ At g code front s' rest := by
  have hvalues : values =
      [constantToken, numberToken, stringToken] ++ arrayToken :: values.drop 4 := rfl
  have hrule : arrayToken.rule = Kind.array.rule := rfl
  exact H.valueOpens L hk hvalues hrule rfl hw (by decide) (by decide) h

theorem object_opens (hk : k.holdsValues = true) (H : In k s) (hw : Blank w)
    (h : At g code before s (w ++ '\x7b' :: rest)) :
    ∃ s' front, In .object s' ∧ s'.pop = s ∧ Edge front ∧ At g code front s' rest := by
  have hvalues : values =
      [constantToken, numberToken, stringToken, arrayToken] ++ objectToken :: values.drop 5 := rfl
  have hrule : objectToken.rule = Kind.object.rule := rfl
  exact H.valueOpens L hk hvalues hrule rfl hw (by decide) (by decide) h

/-- Over the bracket or the brace that an array or an object ends with. -/
theorem In.closesAt {e : Kind × String × Char}
    (he : e ∈ [(.array, "\\]", ']'), (.object, "\\\x7d", '\x7d')]) (H : In e.1 s) (hw : Blank w)
    (h : At g code before s (w ++ e.2.2 :: rest)) :
    At g code (before ++ (w ++ [e.2.2])) s.pop rest := by
  simp only [List.mem_cons, List.not_mem_nil, or_false] at he
  rcases he with rfl | rfl
  · exact H.closes L (y := [']']) h rfl (avoid_blanks rfl hw.within) (by simp [hw.flat]) rfl
      (.inr (by decide +kernel)) fun text htext => single_hits (by decide) htext
  · exact H.closes L (y := ['\x7d']) h rfl (avoid_blanks rfl hw.within) (by simp [hw.flat]) rfl
      (.inr (by decide +kernel)) fun text htext => single_hits (by decide) htext

/-- Over the comma between elements. -/
theorem separator_at (H : In .array s) (hw : Blank w) (h : At g code before s (w ++ ',' :: rest)) :
    At g code (before ++ (w ++ [','])) s rest := by
  have htokens : Kind.array.tokens = values ++ separatorToken :: [_] := rfl
  exact H.once L (y := [',']) h htokens (by simp) (avoid_blanks rfl hw.within) (by simp [hw.flat])
    rfl (by decide +kernel) (by decide) fun text htext => single_hits (by decide) htext

/-! ## Members -/

/-- Over the name of a member and the colon, with white space around them. -/
theorem member_opens {gap colon inner : Gap} {name : List Item} (H : In .object s)
    (h : At g code before s (chars gap ++ (quotedChars name ++ (chars colon ++ ':' ::
      (chars inner ++ rest))))) :
    ∃ s' front v, In .member s' ∧ s'.pop = s ∧ Blank v ∧ Edge (front ++ v) ∧
      At g code front s' (v ++ rest) := by
  obtain ⟨front, v, h, hv, _, _⟩ := H.gap L rfl gap h
  rw [quotedChars, List.cons_append, List.append_assoc] at h
  have hname : Kind.object.tokens = [] ++ nameToken :: Kind.object.tokens.tail := rfl
  have hnameRule : nameToken.rule = Kind.name.rule := rfl
  have h := H.opens L (y := ['"']) h hname hnameRule rfl (avoid_blanks rfl hv.within)
    (by simp [hv.flat]) rfl (by decide) (by decide) fun text htext => single_hits (by decide) htext
  obtain ⟨front, h⟩ := (In.enter rfl).items L rfl name (w := []) (fun _ h => nomatch h) h
  rw [State.pop_enter] at h
  obtain ⟨front, v, h, hv, _, _⟩ := H.gap L rfl colon h
  have hcolon : Kind.object.tokens = (nameToken :: comments) ++ memberToken :: [_] := rfl
  have hcolonRule : memberToken.rule = Kind.member.rule := rfl
  have h := H.opens L (y := [':']) h hcolon hcolonRule rfl (avoid_blanks rfl hv.within)
    (by simp [hv.flat]) rfl (by decide) (by decide) fun text htext => single_hits (by decide) htext
  have hmember : In .member (s.enter Kind.member.rule closePattern Kind.member.candidates) :=
    In.enter rfl
  have hedge : Edge (front ++ (v ++ [':'])) := by
    rw [← List.append_assoc]
    exact .concat (by decide)
  obtain ⟨front, v, h, hv, hfront, _⟩ := hmember.gap L rfl inner h
  exact ⟨_, front, v, hmember, rfl, hv, hfront hedge, h⟩

/-- Over the comma behind a member. -/
theorem member_comma (H : In .member s) (hw : Blank w) (h : At g code before s (w ++ ',' :: rest)) :
    At g code (before ++ (w ++ [','])) s.pop rest :=
  H.closes L (y := [',']) h rfl (avoid_blanks rfl hw.within) (by simp [hw.flat]) rfl
    (.inr (by decide +kernel)) fun _ htext => comma_hits (drop_of_eq htext)

/-- A brace at once behind the last member ends it, and stays. -/
theorem member_brace (H : In .member s) (h : At g code before s ('\x7d' :: rest)) :
    At g code before s.pop ('\x7d' :: rest) := by
  have hbrace : (Text.upTo '\n' ('\x7d' :: rest)).head? = some '\x7d' := rfl
  have hat := H.closes L (w := []) (y := []) h rfl (fun _ h => nomatch h) List.not_mem_nil hbrace
    (.inl rfl) fun _ htext => brace_hits (drop_of_eq htext)
  rwa [List.append_nil, List.append_nil] at hat

/-- A brace behind white space is taken for what is not expected there. -/
theorem stray_spoils (H : In .member s) (hw : Blank w) (hne : w ≠ [])
    (h : At g code before s (w ++ '\x7d' :: rest)) {tokens : List (List RawToken)}
    (htokens : linesTokens .standard g g.start true (Text.splitAt '\n' code) = .ok tokens) :
    ¬ TokensNamed isValidName tokens := by
  have hstray : Pattern.Compiles strayToken.pattern (.one (otherThan ',')) :=
    Pattern.compiles_of_compilesTo (by decide +kernel)
  have hcompile : json.compileRule strayToken.rule = .ok (.single strayToken.rule) :=
    compileRule_token strayToken (by simp)
  have htext : Text.upTo '\n' (w ++ '\x7d' :: rest) = (w ++ ['\x7d']) ++ Text.upTo '\n' rest := by
    rw [Text.upTo_append hw.flat, List.append_assoc]
    rfl
  have hmember : Kind.member.tokens = values ++ strayToken :: [] := rfl
  have hchoose : s.Chooses .standard before ((w ++ ['\x7d']) ++ Text.upTo '\n' rest)
      (TakesCandidate strayToken.rule (before ++ w).length
        (before.length + (w ++ ['\x7d']).length)) :=
    H.candidate hmember (avoid_blanks rfl hw.within) rfl (by decide +kernel) (.inr hne)
      fun _ htext => hstray.hits_one (by decide) (drop_of_eq htext)
  rw [← htext] at hchoose
  refine h.spoils L.steady L.start (L.grammar ▸ hcompile) rfl stray_illegal hchoose ?_ ?_ ?_ htokens
  · simp
  · simp
  · have hpos := List.length_pos_iff.mpr (Text.upTo_ne_nil '\n' rest)
    rw [htext]
    simp only [List.length_append, List.length_singleton]
    omega

/-! ## Texts -/

omit L in
/-- White space may stand in front of what may follow a value. -/
theorem Ahead.gap (gap : Gap) (h : Ahead stops rest) : Ahead stops (chars gap ++ rest) := by
  cases gap with
  | nil => exact h
  | cons c gap => exact .cons (List.mem_append_left _ c.property)

mutual

/-- The way through a value leads back to the stack in front of it, unless some object in it is not
closed flush. -/
theorem value_leads : ∀ (value : Value) {k : Kind} {s : State} {before w rest : List Char},
    k.holdsValues = true → In k s → Blank w → Edge (before ++ w) → Ahead stops rest →
    At g code before s (w ++ (value.chars ++ rest)) → Leads g code s rest value.isFlush
  | .constant c, _, _, _, _, _, hk, H, hw, hedge, hrest, h =>
    .on _ (constant_at L c hk H hw hedge hrest h)
  | .number n, _, _, _, _, _, hk, H, hw, _, hrest, h => .on _ (number_at L n hk H hw hrest h)
  | .string items, _, _, _, _, _, hk, H, hw, _, _, h => by
    obtain ⟨front, h⟩ := string_at L items hk H hw h
    exact .on front h
  | .emptyArray gap, _, s, _, _, rest, hk, H, hw, _, _, h => by
    rw [Value.chars, List.cons_append, List.append_assoc] at h
    obtain ⟨s', front, H', rfl, _, h⟩ := array_opens L hk H hw h
    obtain ⟨front, v, h, hv, _, _⟩ := H'.gap L rfl gap h
    exact .on _ (In.closesAt L (e := (.array, "\\]", ']')) (by simp) H' hv h)
  | .array elements, _, s, _, _, rest, hk, H, hw, _, _, h => by
    rw [Value.chars, List.cons_append, List.append_assoc] at h
    obtain ⟨s', front, H', rfl, hedge, h⟩ := array_opens L hk H hw h
    exact elements_leads elements H' hedge h
  | .emptyObject gap, _, s, _, _, rest, hk, H, hw, _, _, h => by
    rw [Value.chars, List.cons_append, List.append_assoc] at h
    obtain ⟨s', front, H', rfl, _, h⟩ := object_opens L hk H hw h
    obtain ⟨front, v, h, hv, _, _⟩ := H'.gap L rfl gap h
    exact .on _ (In.closesAt L (e := (.object, "\\\x7d", '\x7d')) (by simp) H' hv h)
  | .object members, _, s, _, _, rest, hk, H, hw, _, _, h => by
    rw [Value.chars, List.cons_append, List.append_assoc] at h
    obtain ⟨s', front, H', rfl, _, h⟩ := object_opens L hk H hw h
    exact members_leads members H' h

theorem elements_leads : ∀ (elements : Elements) {s : State} {before rest : List Char},
    In .array s → Edge before → At g code before s (elements.chars ++ (']' :: rest)) →
    Leads g code s.pop rest elements.isFlush
  | .last gap value behind, s, before, rest, H, hedge, h => by
    simp only [Elements.chars, List.append_assoc] at h
    obtain ⟨front, v, h, hv, hfront, _⟩ := H.gap L rfl gap h
    have hrest : Ahead stops (chars behind ++ ']' :: rest) := .gap behind (.cons (by decide))
    have hvalue := value_leads value rfl H hv (hfront hedge) hrest h
    rw [Elements.isFlush, ← Bool.and_true value.isFlush]
    apply hvalue.bind
    intro front h
    obtain ⟨front, v, h, hv, _, _⟩ := H.gap L rfl behind h
    exact .on _ (In.closesAt L (e := (.array, "\\]", ']')) (by simp) H hv h)
  | .more gap value behind elements, s, before, rest, H, hedge, h => by
    simp only [Elements.chars, List.append_assoc, List.cons_append] at h
    obtain ⟨front, v, h, hv, hfront, _⟩ := H.gap L rfl gap h
    have hrest : Ahead stops (chars behind ++ ',' :: (elements.chars ++ ']' :: rest)) :=
      .gap behind (.cons (by decide))
    have hvalue := value_leads value rfl H hv (hfront hedge) hrest h
    apply hvalue.bind
    intro front h
    obtain ⟨front, v, h, hv, _, _⟩ := H.gap L rfl behind h
    have hnext := separator_at L H hv h
    rw [← List.append_assoc] at hnext
    exact elements_leads elements H (.concat (by decide)) hnext

theorem members_leads : ∀ (members : Members) {s : State} {before rest : List Char},
    In .object s → At g code before s (members.chars ++ ('\x7d' :: rest)) →
    Leads g code s.pop rest members.isFlush
  | .last gap name colon inner value behind, s, before, rest, H, h => by
    simp only [Members.chars, List.append_assoc, List.cons_append] at h
    obtain ⟨s', front, v, H', hpop, hv, hedge, h⟩ := member_opens L H h
    have hrest : Ahead stops (chars behind ++ '\x7d' :: rest) := .gap behind (.cons (by decide))
    have hvalue := value_leads value rfl H' hv hedge hrest h
    apply hvalue.bind
    intro front h
    obtain ⟨front, v, h, hv, _, hflush⟩ := H'.gap L rfl behind h
    rw [← hflush]
    cases v with
    | nil =>
      have hclose := member_brace L H' h
      rw [hpop] at hclose
      exact .on _ (In.closesAt L (e := (.object, "\\\x7d", '\x7d')) (by simp) H .nil hclose)
    | cons c v => exact .off fun tokens => stray_spoils L H' hv (List.cons_ne_nil c v) h
  | .more gap name colon inner value behind members, s, before, rest, H, h => by
    simp only [Members.chars, List.append_assoc, List.cons_append] at h
    obtain ⟨s', front, v, H', hpop, hv, hedge, h⟩ := member_opens L H h
    have hrest : Ahead stops (chars behind ++ ',' :: (members.chars ++ '\x7d' :: rest)) :=
      .gap behind (.cons (by decide))
    have hvalue := value_leads value rfl H' hv hedge hrest h
    apply hvalue.bind
    intro front h
    obtain ⟨front, v, h, hv, _, _⟩ := H'.gap L rfl behind h
    have hnext := member_comma L H' hv h
    rw [hpop] at hnext
    exact members_leads members H hnext

end

/-- Without an invalid scope on the way, the end of a text finds the stack at its bottom. -/
theorem ends_at_start {gap : Gap} (h : At g code before g.start (chars gap)) :
    ∃ tokens, linesTokens .standard g g.start true (Text.splitAt '\n' code) = .ok tokens ∧
      TokensNamed isValidName tokens ∧
      linesState .standard g g.start true (Text.splitAt '\n' code) = .ok g.start := by
  rw [← List.append_nil (chars gap)] at h
  obtain ⟨front, v, h, hv, _, _⟩ := L.root.gap L rfl gap h
  rw [List.append_nil] at h
  have hturns := h.finishes L.steady L.start hv.flat (L.root.none (hv.avoid_newline rfl))
  obtain ⟨tokens, htokens, hnamed⟩ := hturns.tokens rfl
  rw [List.append_nil] at htokens
  exact ⟨tokens, htokens, hnamed, hturns.state_eq⟩

/-- The way through a whole text. -/
theorem document_leads (d : Document) :
    Leads g d.chars g.start (chars d.behind) d.value.isFlush := by
  have hturns : Turns .standard g isValidName (Text.splitAt '\n' d.chars) g.start true
      (Text.splitAt '\n' d.chars) := .start
  have hat : At g d.chars [] g.start
      (chars d.before ++ (d.value.chars ++ chars d.behind)) :=
    hturns.comes L.start.blocks L.named
  obtain ⟨front, v, h, hv, hfront, _⟩ := L.root.gap L rfl d.before hat
  have hrest : Ahead stops (chars d.behind ++ []) := by
    refine .gap d.behind fun c hc => ?_
    cases hc
  rw [List.append_nil] at hrest
  exact value_leads L d.value rfl L.root hv (hfront .nil) hrest h

/-- Every text has tokens. They are without invalid scopes exactly if it is closed flush, and then
the stack is back at its bottom. -/
theorem document_tokens (d : Document) :
    ∃ tokens last, rawTokens .standard g d.text = .ok tokens ∧
      linesState .standard g g.start true (sourceLines d.text) = .ok last ∧
      (d.value.isFlush = true → TokensNamed isValidName tokens ∧ last = g.start) ∧
      (d.value.isFlush = false → ¬ TokensNamed isValidName tokens) := by
  have hlines : sourceLines d.text = Text.splitAt '\n' d.chars := by
    rw [sourceLines, Document.text, String.toList_ofList]
  rw [rawTokens, hlines]
  have hleads := document_leads L d
  generalize d.value.isFlush = flush at hleads ⊢
  cases hleads with
  | on front h =>
    obtain ⟨tokens, htokens, hnamed, hlast⟩ := ends_at_start L h
    exact ⟨tokens, _, htokens, hlast, fun _ => ⟨hnamed, rfl⟩, fun h => nomatch h⟩
  | off h =>
    obtain ⟨tokens, htokens⟩ :=
      linesTokens_total true (Text.splitAt '\n' d.chars) L.steady L.start
    obtain ⟨last, hlast⟩ := linesState_total true (Text.splitAt '\n' d.chars) L.steady L.start
    exact ⟨tokens, last, htokens, hlast, fun h => (nomatch h), fun _ => h tokens htokens⟩

omit L in
theorem exists_invalid {tokens : List (List RawToken)} (h : ¬ TokensNamed isValidName tokens) :
    ∃ line ∈ tokens, ∃ t ∈ line, ∃ name ∈ t.scopes, isValidName name = false := by
  simpa [TokensNamed, Named] using h

end

/-- **When a JSON text gets no invalid scope.** Every valid text, whatever white space and line ends
stand in it, has tokens, with any engine that reads the patterns of the grammar as they are read
here. If each object with members is closed flush, none of them has an invalid scope, and behind the
last line nothing is open but the grammar itself. Else one of them has. -/
theorem json_texts (engine : Regex.Engine)
    (hE : ∀ p, json.Admits p → Regex.Engine.standard.Agrees engine p) (d : Document) :
    ∃ g, CompiledGrammar.ofGrammar json = .ok g ∧
    ∃ tokens last, rawTokens engine g d.text = .ok tokens ∧
      linesState engine g g.start true (sourceLines d.text) = .ok last ∧
      (d.value.isFlush = true →
        (∀ line ∈ tokens, ∀ t ∈ line, ∀ name ∈ t.scopes, isValidName name = true) ∧
          last = g.start) ∧
      (d.value.isFlush = false →
        ∃ line ∈ tokens, ∃ t ∈ line, ∃ name ∈ t.scopes, isValidName name = false) := by
  obtain ⟨g, hg, _⟩ := (Bundle.json_steady Regex.Engine.standard_sound).ofGrammar_total
  obtain ⟨tokens, last, htokens, hlast, hflush, hstray⟩ := document_tokens (loaded hg) d
  have hhands : ∀ p, g.Hands .standard captureDepth p → Regex.Engine.standard.Agrees engine p := by
    obtain ⟨hgrammar, _⟩ := CompiledGrammar.ofGrammar_ok hg
    exact fun p hp => hE p (hgrammar ▸ hp.admitted hg)
  rw [rawTokens, ← linesTokens_congr hhands .start] at htokens
  rw [← linesState_congr hhands .start] at hlast
  exact ⟨g, hg, tokens, last, htokens, hlast, hflush, fun h => exists_invalid (hstray h)⟩

/-- An object with a line end in front of its value, and none in front of its brace. -/
def broken : Document where
  before := []
  value := .object (.last [] [.plain ⟨'a', by decide⟩] [] [newline]
    (.number ⟨false, .digits ⟨'1', by decide⟩ [], none, none⟩) [])
  behind := [newline]

theorem json_texts_broken : ∃ g tokens, CompiledGrammar.ofGrammar json = .ok g ∧
    rawTokens .standard g "\x7b\"a\":\n1\x7d\n" = .ok tokens ∧
    (∀ line ∈ tokens, ∀ t ∈ line, ∀ name ∈ t.scopes, isValidName name = true) ∧
    linesState .standard g g.start true (sourceLines "\x7b\"a\":\n1\x7d\n") = .ok g.start := by
  have htext : broken.text = "\x7b\"a\":\n1\x7d\n" := by decide
  obtain ⟨g, hg, tokens, last, htokens, hlast, hflush, _⟩ :=
    json_texts .standard (fun _ _ => .refl _ _) broken
  obtain ⟨hnames, rfl⟩ := hflush (by decide)
  rw [htext] at htokens hlast
  exact ⟨g, tokens, hg, htokens, hnames, hlast⟩

/-- An object with a space in front of its brace. -/
def spaced : Document where
  before := []
  value := .object (.last [] [.plain ⟨'a', by decide⟩] [] [⟨' ', by decide⟩]
    (.number ⟨false, .digits ⟨'1', by decide⟩ [], none, none⟩) [⟨' ', by decide⟩])
  behind := []

/-- Its brace is taken for what should not be there. -/
theorem json_texts_spaced : ∃ g tokens, CompiledGrammar.ofGrammar json = .ok g ∧
    rawTokens .standard g "\x7b\"a\": 1 \x7d" = .ok tokens ∧
    ∃ line ∈ tokens, ∃ t ∈ line, ∃ name ∈ t.scopes, isValidName name = false := by
  have htext : spaced.text = "\x7b\"a\": 1 \x7d" := by decide
  obtain ⟨g, hg, _⟩ := (Bundle.json_steady Regex.Engine.standard_sound).ofGrammar_total
  obtain ⟨tokens, _, htokens, _, _, hstray⟩ := document_tokens (loaded hg) spaced
  rw [htext] at htokens
  exact ⟨g, tokens, hg, htokens, exists_invalid (hstray (by decide))⟩

end Rubric.JsonText
