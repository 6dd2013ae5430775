import Rubric.Language
import Rubric.Proofs.Grammar.Checked
import Rubric.Proofs.Text.Case

/-!
# The bundled grammars are steady

Every line of every document can be highlighted with them, whatever sound engine does the matching.
The patterns are checked one by one. A string of Python ends with the quotation marks that it began
with, of which there are four kinds (`quotedText`).
-/

namespace Rubric.Bundle

open Regex (Engine Expression Match Node Progress Subject)

variable {engine : Engine}

/-! ## Strings of Python -/

/-- What a string in three quotation marks, and one in a single one, begins with. -/
def triplePattern : String :=
  "(?i)(?<!\\w)([rbuf]\x7b0,2\x7d)(\"\"\"|''')"

def quotePattern : String :=
  "(?i)(?<!\\w)([rbuf]\x7b0,2\x7d)([\"'])"

/-- Two groups behind an assertion, of which the second matches `quotes`. -/
def quotedNode (quotes : Node) : Node :=
  .enclosed (.seq (.lookBehind true ⟨1, some 1⟩ (.one (.property .word)))
    (.seq (.group 1 (.loop 0 (some 2) false [] (.one (.anyCase (.union (.union (.union
      (.single 114) (.single 98)) (.single 117)) (.single 102)))))) (.group 2 quotes)))

def tripleQuotes : Node :=
  .alt (.folded [[34], [34], [34]]) (.folded [[39], [39], [39]])

def oneQuote : Node :=
  .one (.anyCase (.union (.single 34) (.single 39)))

/-- The quotation marks that a string can stand in. -/
def quotations : List (List Char) :=
  [['"', '"', '"'], ['\'', '\'', '\''], ['"'], ['\'']]

/-- The patterns that strings begin with, and the quotation marks that they read. -/
def quotedPatterns : List (String × Node) :=
  [(triplePattern, tripleQuotes), (quotePattern, oneQuote)]

theorem compile_quoted : ∀ e ∈ quotedPatterns, ∃ r, Expression.compile e.1.toList = .ok r ∧
    r.root = quotedNode e.2 ∧ r.groups = 2 := by
  have hall : ∀ e ∈ quotedPatterns, (Expression.compile e.1.toList).toOption.map
      (fun r => (r.root, r.groups)) = some (quotedNode e.2, 2) := by
    decide +kernel
  intro e he
  have h := hall e he
  cases hc : Expression.compile e.1.toList with
  | ok r =>
    rw [hc] at h
    exact ⟨r, rfl, congrArg Prod.fst (Option.some.inj h), congrArg Prod.snd (Option.some.inj h)⟩
  | error e =>
    rw [hc] at h
    cases h

/-- The letters of a text without case, as they stand in the subject. -/
theorem foldedEnd?_eq {s : Subject} {limit position stop : Nat} (letters : List Nat)
    (hl : ∀ n ∈ letters, 0 < n ∧ n < 65)
    (h : s.foldedEnd? limit position (letters.map ([·])) = some stop) :
    (s.text.toList.drop position).take (stop - position) = letters.map Char.ofNat := by
  induction letters generalizing position with
  | nil =>
    cases h
    simp
  | cons n rest ih =>
    obtain ⟨mid, hpart, hrest⟩ := Option.bind_eq_some_iff.mp h
    have hn := hl n (List.mem_cons_self ..)
    have hle := (Subject.foldedEnd?_le hrest).1
    have hfirst : mid = position + 1 ∧ s.text[position]? = some (Char.ofNat n) := by
      unfold Subject.partEnd? at hpart
      split at hpart
      · next c hc =>
        simp only [List.length_singleton, ne_eq, not_true_eq_false, decide_false, Bool.false_and,
          Bool.false_eq_true, if_false, Subject.lettersEnd?, hc] at hpart
        split at hpart
        · next hsame =>
          cases hpart
          rw [← Text.eq_of_sameLetter hn.1 hn.2 hsame]
          unfold Subject.char? at hc
          split at hc
          · exact ⟨rfl, hc⟩
          · cases hc
        · cases hpart
      · cases hpart
    obtain ⟨rfl, hget⟩ := hfirst
    have hdrop : s.text.toList.drop position =
        Char.ofNat n :: s.text.toList.drop (position + 1) := by
      obtain ⟨hlt, heq⟩ := Array.getElem?_eq_some_iff.mp hget
      rw [List.drop_eq_getElem_cons (by simpa using hlt)]
      simpa using heq
    rw [hdrop, show stop - position = stop - (position + 1) + 1 by omega, List.take_succ_cons,
      ih (fun m hm => hl m (List.mem_cons_of_mem _ hm)) hrest]
    rfl

/-- The text of the second group is one that its body leads through. -/
theorem quotedText_eq {r : Expression} {quotes : Node} {text : Array Char} {origin position : Nat}
    {m : Match} (hplain : r.isPlain = true) (hr : r.root = quotedNode quotes) (hg : r.groups = 2)
    (H : r.Matches text origin position m) :
    ∃ a b, quotes.Leads ⟨text, origin, []⟩ a b ∧ Pattern.groupText text m 2 =
      (text.toList.drop a.position).take (b.position - a.position) := by
  obtain ⟨q, hq, rfl⟩ := H
  have hlength := (hq.lays (Expression.number_of_isPlain hplain) Nat.one_pos).length_eq
  rw [hr] at hq
  obtain ⟨_, _, a, _, b, hquotes, rfl⟩ := hq
  refine ⟨_, b, hquotes, ?_⟩
  simp only [Progress.length_withSpan, List.length_replicate, hg] at hlength
  have hspan (x y : Nat) : Pattern.groupSpan?
      ⟨x, y, (b.withSpan 2 (some (a.position, b.position))).groups⟩ ((2 : Nat) : Int) =
        some (some (a.position, b.position)) := by
    simp [Pattern.groupSpan?, Progress.withSpan, hlength]
  rw [Pattern.groupText, hspan]
  simp [Pattern.slice, Array.toList_extract]

theorem tripleQuotes_leads {s : Subject} {a b : Progress} (h : tripleQuotes.Leads s a b) :
    (s.text.toList.drop a.position).take (b.position - a.position) ∈ quotations := by
  rcases h with ⟨_, _, stop, h, rfl⟩ | ⟨_, _, stop, h, rfl⟩
  · have := foldedEnd?_eq [34, 34, 34] (by decide) h
    simp only
    rw [this]
    decide
  · have := foldedEnd?_eq [39, 39, 39] (by decide) h
    simp only
    rw [this]
    decide

theorem oneQuote_contains {c : Char}
    (h : (Regex.CharSet.anyCase (.union (.single 34) (.single 39))).contains c = true) :
    c = '"' ∨ c = '\'' := by
  have hcode {d : Char} (h : (Regex.CharSet.union (.single 34) (.single 39)).contains d = true) :
      d.toNat = 34 ∨ d.toNat = 39 := by
    simp only [Regex.CharSet.contains, Regex.CharSet.single, Bool.or_eq_true, Bool.and_eq_true,
      decide_eq_true_eq] at h
    omega
  rcases Bool.or_eq_true_iff.mp h with h | h
  · rcases hcode h with h | h
    · exact .inl (by rw [← Char.ofNat_toNat c, h])
    · exact .inr (by rw [← Char.ofNat_toNat c, h])
  · obtain ⟨d, hd, h⟩ := List.any_eq_true.mp h
    have := Text.toNat_of_mem_caseVariants hd
    have := hcode h
    omega

theorem oneQuote_leads {s : Subject} {a b : Progress} (h : oneQuote.Leads s a b) :
    (s.text.toList.drop a.position).take (b.position - a.position) ∈ quotations := by
  obtain ⟨c, hc, hset, rfl⟩ := h
  obtain ⟨hlt, heq⟩ := Array.getElem?_eq_some_iff.mp hc
  have hdrop : (s.text.toList.drop a.position).take 1 = [c] := by
    rw [List.drop_eq_getElem_cons (by simpa using hlt), List.take_succ_cons, List.take_zero]
    simpa using heq
  simp only [Nat.add_sub_cancel_left, hdrop]
  rcases oneQuote_contains hset with rfl | rfl
  · decide
  · decide

/-- A string begins with one of the quotations. -/
theorem quotedText {strict : Bool} {a : Pattern.Anchoring} {pattern : String} {text : Array Char}
    {position : Nat} {m : Match} (hE : engine.Sound)
    (hp : pattern = triplePattern ∨ pattern = quotePattern)
    (h : Pattern.isPlain strict pattern.toList = true)
    (H : Pattern.Finds engine a (.str pattern) text position m) :
    Pattern.groupText text m 2 ∈ quotations := by
  rcases hp with rfl | rfl
  · obtain ⟨r, hr, hroot, hgroups⟩ := compile_quoted _ (List.mem_cons_self ..)
    obtain ⟨hplain, p, _, hm⟩ := H.matches hE h hr
    obtain ⟨a, b, hl, htext⟩ := quotedText_eq hplain hroot hgroups hm
    rw [htext]
    exact tripleQuotes_leads hl
  · obtain ⟨r, hr, hroot, hgroups⟩ :=
      compile_quoted _ (List.mem_cons_of_mem _ (List.mem_cons_self ..))
    obtain ⟨hplain, p, _, hm⟩ := H.matches hE h hr
    obtain ⟨a, b, hl, htext⟩ := quotedText_eq hplain hroot hgroups hm
    rw [htext]
    exact oneQuote_leads hl

/-- What ends a string in three quotation marks, and one in a single one. -/
def tripleClosing : String :=
  "(\\2)"

def quoteClosing : String :=
  "(\\2)|((?<!\\\\)\\n)"

/-- The rule is one for strings. -/
def isQuoted (rule : Rule) : Bool :=
  match rule.opening, rule.closing with
  | some (.str opening), some (.str closing) =>
    (opening == triplePattern || opening == quotePattern) &&
      (closing == tripleClosing || closing == quoteClosing)
  | _, _ => false

/-- Whatever quotation a string began with, both endings are plain patterns then. -/
theorem quoted_closing (hE : engine.Sound) {closing : String} {text : Array Char} {m : Match}
    (hc : closing = tripleClosing ∨ closing = quoteClosing)
    (h : Pattern.groupText text m 2 ∈ quotations) :
    ∃ ending, Pattern.expandWith text m closing.toList = .ok ending ∧
      Pattern.Fits engine false (.str (String.ofList ending)) := by
  have htriple : ∀ quotation ∈ quotations,
      Pattern.isPlain false ("(".toList ++ Pattern.escaped quotation ++ ")".toList) = true := by
    decide +kernel
  have hquote : ∀ quotation ∈ quotations, Pattern.isPlain false
      ("(".toList ++ Pattern.escaped quotation ++ ")|((?<!\\\\)\\n)".toList) = true := by
    decide +kernel
  rcases hc with rfl | rfl
  · refine ⟨"(".toList ++ Pattern.escaped (Pattern.groupText text m 2) ++ ")".toList, rfl, ?_⟩
    exact Pattern.fits_of_isPlain hE (by rw [String.toList_ofList]; exact htriple _ h)
  · refine ⟨"(".toList ++ Pattern.escaped (Pattern.groupText text m 2) ++
      ")|((?<!\\\\)\\n)".toList, rfl, ?_⟩
    exact Pattern.fits_of_isPlain hE (by rw [String.toList_ofList]; exact hquote _ h)

theorem quoted_ends {rule : Rule} {pattern : Json} (hE : engine.Sound)
    (hb : rule.BeginsWith pattern) (hq : isQuoted rule = true) : rule.Ends engine pattern := by
  have hplain : Pattern.isPlain true triplePattern.toList = true ∧
      Pattern.isPlain true quotePattern.toList = true := by
    decide +kernel
  intro hsingle
  obtain ⟨_, hs | ⟨_, hopening⟩⟩ := hb
  · rw [hs] at hsingle
    cases hsingle
  · unfold isQuoted at hq
    split at hq
    · next opening closing ho hclosing =>
      simp only [Bool.and_eq_true, Bool.or_eq_true, beq_iff_eq] at hq
      obtain ⟨hp, hc⟩ := hq
      cases ho.symm.trans hopening
      refine ⟨closing, hclosing, fun a text position m hfinds => quoted_closing hE hc ?_⟩
      exact quotedText hE hp (by rcases hp with rfl | rfl; exacts [hplain.1, hplain.2]) hfinds
    · cases hq

/-! ## All of them -/

/-- The rule is checked to be steady, but for the quotation marks that end a string. -/
def isChecked (grammar : Grammar) (rule : Rule) : Bool :=
  rule.checks grammar && (rule.endsPlainly || isQuoted rule)

theorem forall_mem_of_pieces {α : Type} {P : α → Prop} {l : List α} (n : Nat)
    (hfront : ∀ a ∈ l.take n, P a) (hrest : ∀ a ∈ l.drop n, P a) : ∀ a ∈ l, P a := by
  rw [← List.take_append_drop n l]
  exact List.forall_mem_append.mpr ⟨hfront, hrest⟩

-- In pieces, as all that is computed for one proof is kept until it is done.
theorem python_checked : ∀ rule ∈ python.rules, isChecked python rule = true :=
  forall_mem_of_pieces 10 (by decide +kernel) <| forall_mem_of_pieces 10 (by decide +kernel) <|
    forall_mem_of_pieces 10 (by decide +kernel) (by decide +kernel)

theorem checks : ∀ grammar ∈ Language.bundledGrammars.map (·.2),
    (grammar.expand grammar.patterns).toBool = true ∧ ∀ rule ∈ grammar.rules,
      rule.checks grammar = true ∧ (rule.endsPlainly = true ∨ isQuoted rule = true) := by
  have hall : ∀ grammar ∈ Language.bundledGrammars.map (·.2),
      (grammar.expand grammar.patterns).toBool = true ∧
        ∀ rule ∈ grammar.rules, isChecked grammar rule = true := by
    simp only [Language.bundledGrammars, List.map_cons, List.map_nil, List.forall_mem_cons]
    exact ⟨by decide +kernel, by decide +kernel, by decide +kernel,
      ⟨by decide +kernel, python_checked⟩, nofun⟩
  simpa only [isChecked, Bool.and_eq_true, Bool.or_eq_true] using hall

theorem steady {grammar : Grammar} (hE : engine.Sound)
    (h : grammar ∈ Language.bundledGrammars.map (·.2)) : grammar.Steady engine := by
  obtain ⟨hpatterns, hrules⟩ := checks grammar h
  refine Grammar.steady_of_checks hE hpatterns (fun rule hr => (hrules rule hr).1)
    fun rule hr pattern hb => ?_
  rcases (hrules rule hr).2 with hplain | hquoted
  · exact Rule.ends_of_endsPlainly hE hb hplain
  · exact quoted_ends hE hb hquoted

theorem json_steady (hE : engine.Sound) : json.Steady engine :=
  steady hE (by simp [Language.bundledGrammars])

end Rubric.Bundle
