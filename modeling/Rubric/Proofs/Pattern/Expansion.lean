import Rubric.Pattern.Search
import Rubric.Proofs.Pattern.Anchors
import Rubric.Proofs.Pattern.Engines
import Rubric.Proofs.Pattern.Pieces
import Rubric.Proofs.Regex.Literal
import Rubric.Proofs.Regex.Templates

/-!
# What an expanded pattern matches

The text that replaces a reference is escaped, but not put in a group, so a quantifier behind it
takes its last character alone: the expanded pattern is the same as one with the text in a group, or
with its last character in a group of its own where a quantifier follows (`references_regrouped`).
The group of a text matches the text (`matchAt_enclosed`). Anchors are masked in the expanded
pattern, which masks them in the pattern around the texts and nothing in these (`anchored_bare`,
`anchored_grouped`).
-/

namespace Rubric.Pattern

open Regex (Template Engine Slot)

/-- A quantifier stands in front. -/
def isQuantified (s : List Char) : Bool :=
  s.head?.any Regex.quantifierSigns.contains

/-- A text as one word, or as two if its last character is to stand alone. Nothing is left of an
empty text. -/
def words (quantified : Bool) (s : List Char) : Template :=
  ((if quantified then [s.dropLast, s.drop (s.length - 1)] else [s]).filter (!·.isEmpty)).map .text

/-- The pieces with the texts of the references in their places. -/
def template (text : List Char → List Char) : List Piece → Template
  | [] => []
  | .reference digits :: rest =>
    words (isQuantified (template text rest).bare) (text digits) ++ template text rest
  | piece :: rest => piece.chars.map .char ++ template text rest

/-- A text in a group of its own. Nothing is left of an empty text. -/
def enclosed (s : List Char) : List Char :=
  if s.isEmpty then [] else ['(', '?', ':'] ++ escaped s ++ [')']

variable {text : List Char → List Char} {ps : List Piece} {s : List Char} {quantified : Bool}

theorem escaped_append (s t : List Char) : escaped (s ++ t) = escaped s ++ escaped t :=
  List.flatMap_append

theorem bare_append (t u : Template) : Template.bare (t ++ u) = t.bare ++ u.bare :=
  List.flatMap_append

theorem grouped_append (t u : Template) : Template.grouped (t ++ u) = t.grouped ++ u.grouped :=
  List.flatMap_append

theorem opens_append (t u : Template) : Template.opens (t ++ u) = t.opens + u.opens :=
  List.count_append

theorem bare_words : (words quantified s).bare = escaped s := by
  have hfilter (l : List (List Char)) :
      Template.bare ((l.filter (!·.isEmpty)).map .text) = escaped l.flatten := by
    induction l with
    | nil => rfl
    | cons s l ih =>
      rw [List.flatten_cons, escaped_append, ← ih]
      cases s <;> rfl
  rw [words, hfilter]
  cases quantified with
  | false => simp
  | true => simp [List.dropLast_eq_take]

theorem bare_template :
    (template text ps).bare = ps.flatMap (Piece.replaced fun digits => escaped (text digits)) := by
  induction ps with
  | nil => rfl
  | cons piece ps ih =>
    rw [List.flatMap_cons, ← ih]
    cases piece with
    | reference digits =>
      rw [template, bare_append, bare_words]
      rfl
    | plain | pair | lone => rfl

theorem opens_chars (cs : List Char) : Template.opens (cs.map .char) = cs.count '(' := by
  induction cs with
  | nil => rfl
  | cons c cs ih =>
    simp only [Template.opens, List.map_cons, List.count_cons] at ih ⊢
    rw [ih]
    simp

theorem opens_words : (words quantified s).opens = 0 :=
  List.count_eq_zero.mpr (by simp [words])

/-- Every parenthesis of the template stands in the pattern. -/
theorem opens_template : (template text ps).opens ≤ (ps.flatMap Piece.chars).count '(' := by
  induction ps with
  | nil => exact Nat.le_refl 0
  | cons piece ps ih =>
    rw [List.flatMap_cons, List.count_append]
    cases piece with
    | reference digits =>
      have hopens : (template text (.reference digits :: ps)).opens = (template text ps).opens := by
        rw [template, opens_append, opens_words, Nat.zero_add]
      rw [hopens]
      exact Nat.le_add_left_of_le ih
    | plain | pair | lone =>
      rw [template, opens_append, opens_chars]
      · exact Nat.add_le_add_left ih _
      · nofun

/-- A text whose last character would stand alone is one word if it has no other. -/
theorem grouped_words (h : quantified = true → s.length = 1) :
    (words quantified s).grouped = enclosed s := by
  cases quantified with
  | false => cases s <;> simp [words, enclosed, Template.grouped, Slot.grouped]
  | true =>
    obtain ⟨c, rfl⟩ := List.length_eq_one_iff.mp (h rfl)
    simp [words, enclosed, Template.grouped, Slot.grouped]

theorem grouped_template (h : ∀ digits rest, .reference digits :: rest <:+ ps →
    isQuantified (rest.flatMap (Piece.replaced fun ds => escaped (text ds))) = true →
      (text digits).length = 1) :
    (template text ps).grouped = ps.flatMap (Piece.replaced fun ds => enclosed (text ds)) := by
  induction ps with
  | nil => rfl
  | cons piece ps ih =>
    have hrest := ih fun digits rest hsuffix => h digits rest (hsuffix.trans (List.suffix_cons ..))
    rw [List.flatMap_cons, ← hrest]
    cases piece with
    | reference digits =>
      rw [template, grouped_append, bare_template, grouped_words (h digits ps List.suffix_rfl)]
      rfl
    | plain | pair | lone => rfl

/-! ## Masked anchors -/

section
variable {letters : List Char} {form : Slot → List Char}

/-- The piece with the letter of an escape masked. -/
def Piece.masked (letters : List Char) : Piece → Piece
  | pair c => pair (if letters.contains c then Pattern.masked else c)
  | piece => piece

theorem isQuantified_masked :
    isQuantified (template text (ps.map (Piece.masked letters))).bare =
      isQuantified (template text ps).bare := by
  induction ps with
  | nil => rfl
  | cons piece ps ih =>
    cases piece with
    | reference digits =>
      simp only [List.map_cons, Piece.masked, template, bare_append, bare_words]
      cases escaped (text digits) with
      | nil => exact ih
      | cons c s => rfl
    | plain | pair | lone => rfl

theorem pieces_maskEach (hletters : ∀ c ∈ letters, Text.isAsciiDigit c = false) (s : List Char) :
    pieces (maskEach letters s) = (pieces s).map (Piece.masked letters) := by
  fun_induction pieces s with
  | case1 => rw [maskEach, pieces, List.map_nil]
  | case2 =>
    rw [maskEach_lone, pieces_lone]
    rfl
  | case3 d rest hd ih =>
    have hdigit : d ∉ letters := fun h => by simp [hletters d h] at hd
    have hall : ∀ c ∈ rest.takeWhile Text.isAsciiDigit, Text.isAsciiDigit c = true :=
      List.all_eq_true.mp List.all_takeWhile
    have hrest : maskEach letters rest = rest.takeWhile Text.isAsciiDigit ++
        maskEach letters (rest.dropWhile Text.isAsciiDigit) := by
      rw [← maskEach_append, List.takeWhile_append_dropWhile]
      rintro c hc rfl
      cases hall _ hc
    rw [maskEach_pair, if_neg (by simpa using hdigit), hrest, ← List.cons_append, pieces_reference,
      ih]
    · rfl
    · exact List.cons_ne_nil _ _
    · exact List.forall_mem_cons.mpr ⟨hd, hall⟩
    · intro c hc
      rw [head?_maskEach] at hc
      have hstop := List.head?_dropWhile_not Text.isAsciiDigit rest
      rwa [hc] at hstop
  | case4 d rest hd ih =>
    rw [maskEach_pair, pieces_pair, ih]
    · rfl
    · split
      · rfl
      · simpa using hd
  | case5 c rest hc ih =>
    rw [maskEach_plain hc, pieces_plain hc, ih]
    rfl

/-- The masked letters of a pattern stay masked as its references are replaced. -/
theorem maskEach_template (hletters : ∀ c ∈ letters, Text.isAsciiDigit c = false)
    (hchar : ∀ c, form (.char c) = [c])
    (htext : ∀ s rest, maskEach letters (form (.text s) ++ rest) =
      form (.text s) ++ maskEach letters rest)
    (s : List Char) :
    maskEach letters ((template text (pieces s)).flatMap form) =
      (template text (pieces (maskEach letters s))).flatMap form := by
  have hwords (quantified : Bool) (s rest : List Char) :
      maskEach letters ((words quantified s).flatMap form ++ rest) =
        (words quantified s).flatMap form ++ maskEach letters rest := by
    rw [words]
    induction (if quantified then [s.dropLast, s.drop (s.length - 1)] else [s]).filter
      (!·.isEmpty) with
    | nil => rfl
    | cons s l ih => simp [htext, ih]
  rw [pieces_maskEach hletters]
  fun_induction pieces s with
  | case1 => rfl
  | case2 => simp [template, Piece.chars, hchar, Piece.masked, maskEach_lone]
  | case3 d rest hd ih =>
    simp only [List.map_cons, Piece.masked, template, List.flatMap_append, hwords, ih,
      isQuantified_masked]
  | case4 d rest hd ih => simp [template, Piece.chars, hchar, Piece.masked, maskEach_pair, ih]
  | case5 c rest hc ih => simp [template, Piece.chars, hchar, Piece.masked, maskEach_plain hc, ih]

theorem anchored_bare (a : Anchoring) (s : List Char) :
    anchored a (template text (pieces s)).bare = (template text (pieces (anchored a s))).bare := by
  simp only [anchored, mask_eq_maskEach]
  exact maskEach_template (fun c hc => (mem_barred hc).1) (fun _ => rfl)
    (fun _ _ => maskEach_escaped fun c hc => (mem_barred hc).2) s

theorem anchored_grouped (a : Anchoring) (s : List Char) :
    anchored a (template text (pieces s)).grouped =
      (template text (pieces (anchored a s))).grouped := by
  simp only [anchored, mask_eq_maskEach]
  refine maskEach_template (fun c hc => (mem_barred hc).1) (fun _ => rfl) (fun s rest => ?_) s
  simp [Slot.grouped, maskEach_plain, maskEach_escaped fun c hc => (mem_barred hc).2]

end

/-- The group of a text matches where the text stands, and nowhere else. -/
theorem matchAt_enclosed (s : List Char) :
    ∃ matcher, Engine.standard.compile (enclosed s) = .ok matcher ∧
      ∀ line position, matcher.matchAt line position =
        if s <+: line.toList.drop position then some ⟨position, position + s.length, []⟩
        else none := by
  have hcompile : Engine.standard.compile (enclosed s) = Engine.standard.compile (escaped s) := by
    cases s with
    | nil => rfl
    | cons c s =>
      have hlaid : Template.Laid [.text (c :: s)] :=
        .text (List.cons_ne_nil c s) (.inr (by rintro _ ⟨⟩)) .nil
      have hgrouped : Template.grouped [.text (c :: s)] = enclosed (c :: s) := List.append_nil _
      have hbare : Template.bare [.text (c :: s)] = escaped (c :: s) := List.append_nil _
      have hopens : Template.opens [.text (c :: s)] = 0 := rfl
      rw [← hgrouped, ← hbare]
      exact hlaid.compile_eq (by rw [hopens]; decide)
  rw [hcompile]
  exact Regex.matchAt_escaped s

/-- What an expression finds at a place, its matcher finds there. -/
theorem matchAt_of_attempt (pattern : List Char) (line : Array Char) (position : Nat)
    (found : Option Regex.Match)
    (h : (Regex.Expression.compile pattern).toOption.map (·.attempt line position position) =
      some found) :
    ∃ matcher, Engine.standard.compile pattern = .ok matcher ∧
      matcher.matchAt line position = found := by
  cases hr : Regex.Expression.compile pattern with
  | error e =>
    rw [hr] at h
    cases h
  | ok r =>
    rw [hr] at h
    exact ⟨r.matcher, by simp [Engine.standard, hr, Except.map], Option.some.inj h⟩

/-- The engine reads the pattern as it is read here, its references replaced by the texts as they
are or by texts in groups, and each text in a group by itself. -/
structure ReadsExpanded (engine : Engine) (text : Array Char) (m : Regex.Match)
    (pattern : List Char) : Prop where
  bare : Engine.standard.Agrees engine
    (.str (String.ofList (template (captured text m) (pieces pattern)).bare))
  grouped : Engine.standard.Agrees engine
    (.str (String.ofList (template (captured text m) (pieces pattern)).grouped))
  single : ∀ digits, Engine.standard.Agrees engine
    (.str (String.ofList (enclosed (captured text m digits))))

/-- Made ready for a line, by any engine that reads these patterns as they are read here, the
expanded pattern is the same as the pattern with each text in a group, but for the texts that a
quantifier follows, whose last characters are in groups of their own. If each of those has one
character, it is the same as the pattern with a group for each reference, and the group matches the
text. -/
theorem references_regrouped (engine : Engine) (text : Array Char) (m : Regex.Match) (a : Anchoring)
    (pattern : List Char)
    (hdigits : ∀ ds, .reference ds ∈ pieces pattern → ds.length ≤ Json.digitLimit)
    (hlaid : (template (captured text m) (pieces (anchored a pattern))).Laid)
    (hdepth : 2 * pattern.count '(' + 4 ≤ Regex.depthLimit)
    (hE : ReadsExpanded engine text m pattern) :
    ∃ expanded, expandWith text m pattern = .ok expanded ∧
      prepare engine a (.str (String.ofList expanded)) = prepare engine a
        (.str (String.ofList (template (captured text m) (pieces pattern)).grouped)) ∧
      ((∀ digits rest, .reference digits :: rest <:+ pieces pattern →
          isQuantified (rest.flatMap (Piece.replaced fun ds => escaped (captured text m ds))) =
            true → (captured text m digits).length = 1) →
        prepare engine a (.str (String.ofList expanded)) = prepare engine a
          (.str (String.ofList ((pieces pattern).flatMap
            (Piece.replaced fun ds => enclosed (captured text m ds)))))) ∧
      ∀ digits, ∃ matcher, engine.compile (enclosed (captured text m digits)) = .ok matcher ∧
        ∀ line position, matcher.matchAt line position =
          if captured text m digits <+: line.toList.drop position then
            some ⟨position, position + (captured text m digits).length, []⟩
          else none := by
  have hopens : (template (captured text m) (pieces (anchored a pattern))).opens ≤ _ :=
    opens_template
  rw [flatMap_chars_pieces, count_anchored] at hopens
  have hcompile := hlaid.compile_eq (by omega)
  rw [← anchored_bare, ← anchored_grouped] at hcompile
  have hprepare : prepare engine a
      (.str (String.ofList (template (captured text m) (pieces pattern)).bare)) =
        prepare engine a
          (.str (String.ofList (template (captured text m) (pieces pattern)).grouped)) := by
    rw [prepare_congr hE.bare, prepare_congr hE.grouped]
    simp only [prepare, barred, ok_bind, ready, String.toList_ofList, hcompile]
  rw [bare_template] at hprepare
  refine ⟨_, expandWith_eq_ok hdigits, hprepare, fun h => ?_, fun digits => ?_⟩
  · rw [hprepare, grouped_template h]
  · rw [(hE.single digits).compile_eq]
    exact matchAt_enclosed _

/-- Two letters stand once between other parts and once in a group, a single one is repeated, and an
anchor is masked. -/
theorem references_regrouped_letters :
    ∃ m : Regex.Match, m = ⟨0, 3, [some (0, 2), some (2, 3)]⟩ ∧
      expandWith #['a', 'b', 'c'] m "\\A.=\\1\\b|(?:\\1)+\\2*".toList =
        .ok "\\A.=ab\\b|(?:ab)+c*".toList ∧
      prepare .standard ⟨false, true⟩ (.str "\\A.=ab\\b|(?:ab)+c*") =
        prepare .standard ⟨false, true⟩ (.str "\\A.=(?:ab)\\b|(?:(?:ab))+(?:c)*") ∧
      ∃ matcher, Engine.standard.compile "(?:ab)".toList = .ok matcher ∧
        matcher.matchAt #['b', 'a', 'b'] 1 = some ⟨1, 3, []⟩ := by
  let m : Regex.Match := ⟨0, 3, [some (0, 2), some (2, 3)]⟩
  let pattern := "\\A.=\\1\\b|(?:\\1)+\\2*".toList
  have hpieces : pieces pattern =
      [.pair 'A', .plain '.', .plain '=', .reference ['1'], .pair 'b', .plain '|', .plain '(',
        .plain '?', .plain ':', .reference ['1'], .plain ')', .plain '+', .reference ['2'],
        .plain '*'] := by
    simp [pattern, pieces, Text.isAsciiDigit]
  have hdigits : ∀ ds, .reference ds ∈ pieces pattern → ds.length ≤ Json.digitLimit := by
    intro ds h
    rw [hpieces] at h
    have hds : ds = ['1'] ∨ ds = ['2'] := by simpa [or_assoc] using h
    obtain rfl | rfl := hds <;> decide
  have htemplate :
      template (captured #['a', 'b', 'c'] m) (pieces (anchored ⟨false, true⟩ pattern)) =
      [.char '\\', .char masked, .char '.', .char '=', .text ['a', 'b'], .char '\\', .char 'b',
        .char '|', .char '(', .char '?', .char ':', .text ['a', 'b'], .char ')', .char '+',
        .text ['c'], .char '*'] := by
    rw [anchored, mask_eq_maskEach, pieces_maskEach fun c hc => (mem_barred hc).1, hpieces]
    decide
  have hlaid :
      (template (captured #['a', 'b', 'c'] m) (pieces (anchored ⟨false, true⟩ pattern))).Laid := by
    rw [htemplate]
    refine .part (Regex.isPart_pair (c := masked) (by decide) (by decide)) ?_
    refine .part (Regex.isPart_sign (c := '.') (by decide)) ?_
    refine .part (Regex.isPart_plain (c := '=') (by decide) (by decide)) ?_
    refine .text (by decide) (.inr ?_) ?_
    · rintro c ⟨⟩
      decide
    refine .part (Regex.isPart_pair (c := 'b') (by decide) (by decide)) (.alternative ?_)
    refine .opening (Regex.isOpening_sign [':'] (by decide)) ?_
    refine .text (by decide) (.inr ?_) (.close ?_)
    · rintro c ⟨⟩
      decide
    refine .quantifier (Regex.isQuantifier_sign (c := '+') (by decide)) (by decide) (by decide) ?_
    refine .text (by decide) (.inl rfl) ?_
    exact .quantifier (Regex.isQuantifier_sign (c := '*') (by decide)) (by decide) (by decide) .nil
  obtain ⟨expanded, hexpanded, -, hgroups, hmatches⟩ :=
    references_regrouped .standard #['a', 'b', 'c'] m ⟨false, true⟩ pattern hdigits hlaid
      (by decide) ⟨.refl _ _, .refl _ _, fun _ => .refl _ _⟩
  have hexpand : expandWith #['a', 'b', 'c'] m pattern = .ok "\\A.=ab\\b|(?:ab)+c*".toList := by
    rw [expandWith_eq_ok hdigits, hpieces]
    rfl
  have henclosed : (pieces pattern).flatMap
      (Piece.replaced fun ds => enclosed (captured #['a', 'b', 'c'] m ds)) =
        "\\A.=(?:ab)\\b|(?:(?:ab))+(?:c)*".toList := by
    rw [hpieces]
    decide
  cases hexpand.symm.trans hexpanded
  rw [henclosed, String.ofList_toList, String.ofList_toList] at hgroups
  obtain ⟨matcher, hmatcher, hmatch⟩ := hmatches ['1']
  refine ⟨m, rfl, hexpand, hgroups fun digits rest hrest hquantified => ?_, matcher, hmatcher,
    (hmatch _ _).trans (if_pos (by decide))⟩
  simp only [hpieces, List.suffix_cons_iff, List.suffix_nil, List.cons.injEq, Piece.reference.injEq,
    reduceCtorEq, false_and, or_false, false_or] at hrest
  -- No quantifier stands behind the text of two letters.
  obtain ⟨rfl, rfl⟩ | ⟨rfl, rfl⟩ | ⟨rfl, -⟩ := hrest
  · cases hquantified
  · cases hquantified
  · rfl

/-- The sign behind the reference repeats the last letter of its text alone: the expanded pattern
does not match where the text stands twice. -/
theorem repeated_reference :
    ∃ opening expanded grouped m,
      Engine.standard.compile "<(ab)>".toList = .ok opening ∧
        opening.matchAt "<ab>abab;".toList.toArray 0 = some m ∧
        expandWith "<ab>abab;".toList.toArray m "\\1+;".toList = .ok "ab+;".toList ∧
        Engine.standard.compile "ab+;".toList = .ok expanded ∧
        Engine.standard.compile "(?:ab)+;".toList = .ok grouped ∧
        expanded.matchAt "<ab>abab;".toList.toArray 4 = none ∧
        grouped.matchAt "<ab>abab;".toList.toArray 4 = some ⟨4, 9, []⟩ := by
  let line := "<ab>abab;".toList.toArray
  obtain ⟨opening, hopening, hbegins⟩ := matchAt_of_attempt "<(ab)>".toList line 0
    (some ⟨0, 4, [some (1, 3)]⟩) (by decide +kernel)
  obtain ⟨expanded, hexpanded, hfails⟩ := matchAt_of_attempt "ab+;".toList line 4 none
    (by decide +kernel)
  obtain ⟨grouped, hgrouped, hmatches⟩ := matchAt_of_attempt "(?:ab)+;".toList line 4
    (some ⟨4, 9, []⟩) (by decide +kernel)
  exact ⟨opening, expanded, grouped, _, hopening, hbegins, rfl, hexpanded, hgrouped, hfails,
    hmatches⟩

end Rubric.Pattern
