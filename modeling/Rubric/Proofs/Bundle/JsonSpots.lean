import Mathlib.Data.Bool.AllAny
import Rubric.Proofs.Bundle.JsonRules

/-!
# Through a JSON text

Where the JSON grammar goes from a spot of a valid text: over a token that matches once (`In.once`),
over one that opens a rule (`In.opens`), over the end of a rule (`In.closes`), through white space
and over the ends of lines (`In.gap`), and through the characters of a string (`In.items`).
-/

namespace Rubric.JsonText

open Rubric.Bundle (json)
open Pattern (Avoid Hits)
open Regex (CharSet)

/-- The name is none for what should not be there. -/
def isValidName (name : Json) : Bool :=
  match name with
  | .str s => !("invalid.".toList.isPrefixOf s.toList)
  | _ => true

theorem isNamed_kind (k : Kind) : k.rule.isNamed isValidName = true := by
  cases k <;> decide +kernel

theorem isNamed_token : ∀ t ∈ [constantToken, numberToken, separatorToken, escapeToken],
    t.rule.isNamed isValidName = true := by
  decide +kernel

theorem stray_illegal : areNamed isValidName strayToken.rule.scopes = false := by
  decide +kernel

variable {g : CompiledGrammar} {k k' : Kind} {s : State}
  {code before front w y x rest ahead : List Char} {c : Char}

/-- The text comes by a spot, without invalid scopes so far. -/
abbrev At (g : CompiledGrammar) (code before : List Char) (s : State) (rest : List Char) : Prop :=
  Comes .standard g isValidName code before s rest

theorem drop_of_eq {text : Array Char} (h : text.toList = front ++ rest) :
    text.toList.drop front.length = rest := by
  rw [h, List.drop_left]

theorem single_hits {p : String} {text : Array Char} (h : (p, c) ∈ singles)
    (htext : text.toList = front ++ c :: rest) : Hits p text front.length 1 :=
  (compiles_single _ h).hits_one (CharSet.contains_char c) (drop_of_eq htext)

/-- The grammar, made ready. -/
structure Loaded (g : CompiledGrammar) : Prop where
  grammar : g.grammar = json
  steady : g.grammar.Steady .standard
  start : g.start.Steady .standard g.grammar
  root : In .root g.start
  named : g.start.Named isValidName

theorem loaded (hg : CompiledGrammar.ofGrammar json = .ok g) : Loaded g := by
  obtain ⟨hgrammar, inner, hinner, hroot⟩ := CompiledGrammar.ofGrammar_ok hg
  have hcompiled : g.root = Kind.root.compiled := by
    obtain ⟨root, hcompile, hg⟩ := bind_eq_ok.mp hg
    cases compile_root.symm.trans hcompile
    cases pure_eq_ok.mp hg
    rfl
  refine ⟨hgrammar, hgrammar ▸ Bundle.json_steady Regex.Engine.standard_sound,
    hgrammar ▸ CompiledGrammar.start_steady hg, ⟨hcompiled, rfl⟩, fun e he => ?_⟩
  cases List.mem_singleton.mp he
  intro name hname
  rw [CompiledGrammar.start, hroot] at hname
  cases List.mem_singleton.mp hname
  decide +kernel

variable (L : Loaded g)
include L

/-- Over a token that matches once. -/
theorem In.once {t : Token} {pre post : List Token} (H : In k s)
    (h : At g code before s (w ++ (y ++ rest))) (htokens : k.tokens = pre ++ t :: post)
    (ht : t ∈ [constantToken, numberToken, separatorToken, escapeToken]) (hw : Avoid k.sets w)
    (hflat : '\n' ∉ w ++ y) (hy : (y ++ Text.upTo '\n' rest).head? = some c)
    (hpre : Avoid (pre.map (·.set)) [c]) (hending : Avoid (k.closing?.map (·.2)).toList [c])
    (hhit : ∀ text : Array Char, text.toList = (before ++ w) ++ (y ++ Text.upTo '\n' rest) →
      Hits t.pattern text (before ++ w).length y.length) :
    At g code (before ++ (w ++ y)) s rest := by
  have hcompile : json.compileRule t.rule = .ok (.single t.rule) := by
    apply compileRule_token t
    simp only [List.mem_cons, List.not_mem_nil, or_false] at ht ⊢
    tauto
  rw [← List.append_assoc] at h
  exact h.once L.steady L.start hflat (L.grammar ▸ hcompile) (isNamed_token t ht)
    (H.candidate htokens hw hy hpre (.inl hending) hhit)

/-- Over a token that opens a rule. -/
theorem In.opens {t : Token} {pre post : List Token} {closing : String} {set : CharSet}
    (H : In k s) (h : At g code before s (w ++ (y ++ rest))) (htokens : k.tokens = pre ++ t :: post)
    (ht : t.rule = k'.rule) (hclosing : k'.closing? = some (closing, set)) (hw : Avoid k.sets w)
    (hflat : '\n' ∉ w ++ y) (hy : (y ++ Text.upTo '\n' rest).head? = some c)
    (hpre : Avoid (pre.map (·.set)) [c]) (hending : Avoid (k.closing?.map (·.2)).toList [c])
    (hhit : ∀ text : Array Char, text.toList = (before ++ w) ++ (y ++ Text.upTo '\n' rest) →
      Hits t.pattern text (before ++ w).length y.length) :
    At g code (before ++ (w ++ y)) (s.enter k'.rule closing k'.candidates) rest := by
  have hplain : Pattern.refers closing.toList = false := by
    cases k' <;> cases hclosing <;> decide
  rw [← List.append_assoc] at h
  refine h.opens L.steady L.start hflat (L.grammar ▸ compileRule_kind hclosing) hplain
    (isNamed_kind k') (ht ▸ H.candidate htokens hw hy hpre (.inl hending) hhit)

/-- Over the end of the rule. -/
theorem In.closes {closing : String} {set : CharSet} (H : In k s)
    (h : At g code before s (w ++ (y ++ rest))) (hclosing : k.closing? = some (closing, set))
    (hw : Avoid k.sets w) (hflat : '\n' ∉ w ++ y) (hy : (y ++ Text.upTo '\n' rest).head? = some c)
    (hfree : w = [] ∨ Avoid (k.tokens.map (·.set)) [c])
    (hhit : ∀ text : Array Char, text.toList = (before ++ w) ++ (y ++ Text.upTo '\n' rest) →
      Hits closing text (before ++ w).length y.length) :
    At g code (before ++ (w ++ y)) s.pop rest := by
  have hset : Avoid [set] w := by
    rw [Kind.sets, hclosing] at hw
    exact fun d hd z hz => hw d hd z (List.mem_append_left _ hz)
  have htokens : w = [] ∨ Avoid (k.tokens.map (·.set)) (w ++ [c]) := by
    apply hfree.imp_right
    intro hc d hd z hz
    rcases List.mem_append.mp hd with hd | hd
    · exact hw d hd z (List.mem_append_right _ hz)
    · exact hc d hd z hz
  rw [← List.append_assoc] at h
  exact h.closes L.steady L.start hflat (isNamed_kind k) (H.closing hclosing hset hy htokens hhit)

/-! ## White space -/

/-- White space on one line. -/
structure Blank (w : List Char) : Prop where
  within : w ⊆ blanks
  flat : '\n' ∉ w

omit L in
theorem Blank.nil : Blank [] :=
  ⟨List.nil_subset _, List.not_mem_nil⟩

omit L in
theorem Blank.concat (hw : Blank w) {c : OneOf blanks} (hc : c.val ≠ '\n') :
    Blank (w ++ [c.val]) := by
  refine ⟨fun d hd => ?_, fun hn => ?_⟩
  · rcases List.mem_append.mp hd with hd | hd
    · exact hw.within hd
    · exact List.mem_singleton.mp hd ▸ c.property
  · rcases List.mem_append.mp hn with hn | hn
    · exact hw.flat hn
    · exact hc (List.mem_singleton.mp hn).symm

omit L in
/-- White space is passed over. -/
theorem avoid_blanks (hk : k.isLoose = true) (hw : w ⊆ blanks) : Avoid k.sets w := by
  have hall : Avoid k.sets blanks := by
    cases k with
    | name | string => cases hk
    | root | array | object | member => decide +kernel
  exact fun c hc => hall c (hw hc)

/-- A word does not end there. -/
def Edge (before : List Char) : Prop :=
  ∀ c, before.getLast? = some c → Regex.isWordChar c = false

omit L in
theorem Edge.nil : Edge [] := by
  intro c hc
  cases hc

omit L in
theorem Edge.concat {c : Char} (hc : Regex.isWordChar c = false) : Edge (before ++ [c]) := by
  intro d hd
  rw [List.getLast?_concat] at hd
  cases hd
  exact hc

omit L in
theorem Edge.blank (h : Edge before) (hw : Blank w) : Edge (before ++ w) := by
  have hall : ∀ c ∈ blanks, Regex.isWordChar c = false :=
    List.all_iff_forall_prop.mp (by decide)
  intro c hc
  rw [List.getLast?_append] at hc
  cases hlast : w.getLast? with
  | none =>
    rw [hlast] at hc
    exact h c hc
  | some d =>
    rw [hlast] at hc
    cases hc
    exact hall _ (hw.within (List.mem_of_getLast? hlast))

omit L in
/-- No word goes on behind an edge. -/
theorem parted_of_edge {text : Array Char} (h : Edge front) (htext : text.toList = front ++ rest) :
    Parted text front.length := by
  intro origin
  cases hlast : front.getLast? with
  | none =>
    rw [List.getLast?_eq_none_iff.mp hlast]
    rfl
  | some c =>
    have hget : text[front.length - 1]? = some c := by
      rw [← Array.getElem?_toList, htext, List.getElem?_append_left, ← List.getLast?_eq_getElem?,
        hlast]
      have hne : front ≠ [] := fun hnil => by simp [hnil] at hlast
      exact Nat.sub_lt (List.length_pos_iff.mpr hne) Nat.one_pos
    rw [Regex.Subject.wordBefore, hget, Option.any_some, h c hlast, Bool.and_false]

omit L in
theorem Ahead.upTo (h : Ahead stops rest) : Ahead stops (Text.upTo '\n' rest) := by
  intro c hc
  rcases Text.head?_upTo hc with rfl | hc
  · decide
  · exact h c hc

omit L in
theorem Blank.avoid_newline (hk : k.isLoose = true) (hw : Blank w) :
    Avoid k.sets (w ++ ['\n']) := by
  apply avoid_blanks hk
  intro c hc
  rcases List.mem_append.mp hc with hc | hc
  · exact hw.within hc
  · exact List.mem_singleton.mp hc ▸ (by decide)

/-- Over the end of a line. -/
theorem In.crosses (hk : k.isLoose = true) (H : In k s) (hw : Blank w)
    (h : At g code before s (w ++ '\n' :: rest)) : At g code [] s rest :=
  Comes.crosses L.steady L.start h hw.flat h.named (H.none (hw.avoid_newline hk))

/-- No white space stands on the line in front of what comes after the gap, if this much stood in
front of the gap. -/
def flushBehind (w : List Char) (gap : Gap) : Bool :=
  match gap.getLast? with
  | none => w.isEmpty
  | some c => c.val == '\n'

omit L in
theorem flushBehind_cons {v : List Char} {c : OneOf blanks} {gap : Gap}
    (hv : c.val = '\n' ∧ v = [] ∨ c.val ≠ '\n' ∧ v ≠ []) :
    flushBehind v gap = flushBehind w (c :: gap) := by
  simp only [flushBehind, List.getLast?_cons]
  cases gap.getLast? with
  | some d => rfl
  | none =>
    rcases hv with ⟨hc, rfl⟩ | ⟨hc, hv⟩
    · exact (beq_iff_eq.mpr hc).symm
    · exact (List.isEmpty_eq_false_iff.mpr hv).trans (beq_false_of_ne hc).symm

theorem In.gapBehind (hk : k.isLoose = true) (H : In k s) (gap : Gap) (hw : Blank w)
    (h : At g code before s (w ++ (chars gap ++ rest))) :
    ∃ front v, At g code front s (v ++ rest) ∧ Blank v ∧ (Edge before → Edge front) ∧
      v.isEmpty = flushBehind w gap := by
  induction gap generalizing before w with
  | nil => exact ⟨before, w, h, hw, id, rfl⟩
  | cons c gap ih =>
    by_cases hc : c.val = '\n'
    · have hcross : At g code before s (w ++ '\n' :: (chars gap ++ rest)) := by
        rw [← hc]
        exact h
      obtain ⟨front, v, hat, hv, hfront, hflush⟩ := ih (w := []) .nil (H.crosses L hk hw hcross)
      exact ⟨front, v, hat, hv, fun _ => hfront .nil,
        hflush.trans (flushBehind_cons (.inl ⟨hc, rfl⟩))⟩
    · have hnext : At g code before s ((w ++ [c.val]) ++ (chars gap ++ rest)) := by
        rw [List.append_assoc]
        exact h
      obtain ⟨front, v, hat, hv, hfront, hflush⟩ := ih (hw.concat hc) hnext
      exact ⟨front, v, hat, hv, hfront, hflush.trans (flushBehind_cons (.inr ⟨hc, by simp⟩))⟩

/-- Through white space, over the ends of lines. What stands of it on the last line is left, which
is nothing exactly if the gap is flush. -/
theorem In.gap (hk : k.isLoose = true) (H : In k s) (gap : Gap)
    (h : At g code before s (chars gap ++ rest)) :
    ∃ front v, At g code front s (v ++ rest) ∧ Blank v ∧ (Edge before → Edge (front ++ v)) ∧
      v.isEmpty = Gap.isFlush gap := by
  obtain ⟨front, v, hat, hv, hfront, hflush⟩ := H.gapBehind L hk gap (w := []) .nil h
  refine ⟨front, v, hat, hv, fun hedge => (hfront hedge).blank hv, hflush.trans ?_⟩
  rw [flushBehind, Gap.isFlush]
  cases gap.getLast? <;> rfl

/-! ## Strings -/

/-- Characters that stand for themselves. -/
def AllPlain (w : List Char) : Prop :=
  ∀ c ∈ w, c ≠ '"' ∧ c ≠ '\\' ∧ c ≠ '\n'

omit L in
theorem AllPlain.avoid (hk : k.isLoose = false) (hw : AllPlain w) : Avoid k.sets w := by
  intro c hc set hset
  obtain ⟨hquote, hslash, _⟩ := hw c hc
  have hsets : set = .char '"' ∨ set = .char '\\' := by
    cases k with
    | root | array | object | member => cases hk
    | name | string =>
      simp only [Kind.sets, Kind.closing?, Kind.tokens, escapeToken] at hset
      simpa using hset
  rcases hsets with rfl | rfl
  · exact CharSet.contains_char_of_ne hquote
  · exact CharSet.contains_char_of_ne hslash

/-- Over an escaped character. -/
theorem In.escape (hk : k.isLoose = false) (H : In k s) {item : Item} (hitem : item.Escaped)
    (hslash : item.chars.head? = some '\\') (hw : Avoid k.sets w) (hflat : '\n' ∉ w)
    (h : At g code before s (w ++ (item.chars ++ rest))) :
    At g code (before ++ (w ++ item.chars)) s rest := by
  have hy : (item.chars ++ Text.upTo '\n' rest).head? = some '\\' := by
    rw [List.head?_append, hslash]
    rfl
  have hline : '\n' ∉ w ++ item.chars := by simp [hflat, item.printable.flat]
  have hnil : Avoid [] ['\\'] := fun _ _ _ h => nomatch h
  have hhit (text : Array Char)
      (htext : text.toList = (before ++ w) ++ (item.chars ++ Text.upTo '\n' rest)) :
      Hits escapePattern text (before ++ w).length item.chars.length :=
    escape_hits hitem (drop_of_eq htext)
  have htokens : ∃ post, k.tokens = [] ++ escapeToken :: post := by
    cases k with
    | root | array | object | member => cases hk
    | name | string => exact ⟨_, rfl⟩
  have hending : Avoid (k.closing?.map (·.2)).toList ['\\'] := by
    cases k with
    | root | array | object | member => cases hk
    | name | string => decide
  obtain ⟨post, htokens⟩ := htokens
  exact H.once L h htokens (by simp) hw hline hy hnil hending hhit

/-- Through the characters of a string, and over the quotation mark behind them. -/
theorem In.items (hk : k.isLoose = false) (H : In k s) (items : List Item) (hw : AllPlain w)
    (h : At g code before s (w ++ (itemsChars items ++ '"' :: rest))) :
    ∃ front, At g code front s.pop rest := by
  have hflat (v : List Char) (hv : AllPlain v) : '\n' ∉ v := fun hn => (hv _ hn).2.2 rfl
  have hclosing : k.closing? = some ("\"", .char '"') := by
    cases k with
    | root | array | object | member => cases hk
    | name | string => rfl
  have hquote : Avoid (k.tokens.map (·.set)) ['"'] := by
    cases k with
    | root | array | object | member => cases hk
    | name | string => decide
  induction items generalizing before w with
  | nil =>
    exact ⟨_, H.closes L (y := ['"']) h hclosing (hw.avoid hk) (by simp [hflat w hw]) rfl
      (.inr hquote) fun text htext => single_hits (by decide) htext⟩
  | cons item items ih =>
    rw [itemsChars, List.flatMap_cons, List.append_assoc] at h
    have hescape (hitem : item.Escaped) (hslash : (item.chars).head? = some '\\') :
        ∃ front, At g code front s.pop rest := by
      have hnext := H.escape L hk hitem hslash (hw.avoid hk) (hflat w hw) h
      exact ih (w := []) (fun _ h => nomatch h) hnext
    cases item with
    | plain c =>
      have hplain : AllPlain (w ++ [c.val]) := by
        intro d hd
        rcases List.mem_append.mp hd with hd | hd
        · exact hw d hd
        · cases List.mem_singleton.mp hd
          refine ⟨c.property.2.1, c.property.2.2, fun hc => ?_⟩
          exact absurd (hc ▸ c.property.1) (by decide)
      have hnext : At g code before s ((w ++ [c.val]) ++ (itemsChars items ++ '"' :: rest)) := by
        rw [List.append_assoc]
        exact h
      exact ih hplain hnext
    | escape c => exact hescape .escape rfl
    | code a b c d => exact hescape .code rfl

end Rubric.JsonText
