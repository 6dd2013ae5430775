import Rubric.Proofs.Text.Lines
import Rubric.Proofs.Text.Words
import Rubric.Theme.Selector

/-!
# How selectors are spelled

A selector is spelled by its parts with blanks between them, and a part by its segments with dots
between them (`Spells`). Those are the texts that can be read, and what is read of a text is what it
spells (`ofText_eq_ok_iff`). Each selector has a text of its own, with one space between the parts
(`ofText_text`).
-/

namespace Rubric.Selector

/-- The characters of a part: its segments with dots between them. -/
def partChars (part : Segments) : List Char :=
  ['.'].intercalate (part.map String.toList)

/-- The text of a selector: its parts with spaces between them. -/
def text (selector : Selector) : String :=
  String.ofList ([' '].intercalate (selector.map partChars))

/-- The segments can be a part of a selector. -/
structure IsPart (part : Segments) : Prop where
  ne_nil : part ≠ []
  segment_ne : ∀ segment ∈ part, segment ≠ ""
  chars : ∀ segment ∈ part, ∀ c ∈ segment.toList, Text.isWord c = true ∨ c ∈ ['+', '#', '$', '-']
  head : (partChars part).head? ≠ some '-'

/-- The text consists of the parts of the selector, with blanks between them. -/
structure Spells (selector : Selector) (s : List Char) : Prop where
  ne_nil : selector ≠ []
  parts : ∀ part ∈ selector, IsPart part
  separated : Text.Separated (selector.map partChars) s

/-! ## Parts -/

theorem isSegmentChar_iff {c : Char} :
    isSegmentChar c = true ↔ Text.isWord c = true ∨ c ∈ ['+', '#', '$', '-'] := by
  simp [isSegmentChar, or_assoc]

theorem isSegment_iff {s : List Char} :
    isSegment s = true ↔ s ≠ [] ∧ ∀ c ∈ s, Text.isWord c = true ∨ c ∈ ['+', '#', '$', '-'] := by
  simp only [isSegment, Bool.and_eq_true, Bool.not_eq_true', List.isEmpty_eq_false_iff,
    List.all_eq_true, isSegmentChar_iff]

theorem not_isWord_dot : Text.isWord '.' = false := by
  decide +kernel

theorem dot_not_mem {segment : List Char}
    (h : ∀ c ∈ segment, Text.isWord c = true ∨ c ∈ ['+', '#', '$', '-']) : '.' ∉ segment := by
  intro hmem
  rcases h '.' hmem with hword | hsign
  · rw [not_isWord_dot] at hword
    cases hword
  · exact absurd hsign (by decide)

theorem IsPart.splitAt_partChars {part : Segments} (h : IsPart part) :
    Text.splitAt '.' (partChars part) = part.map String.toList := by
  refine Text.splitAt_intercalate (by simpa using h.ne_nil) fun piece hpiece => ?_
  obtain ⟨segment, hmem, rfl⟩ := List.mem_map.mp hpiece
  exact dot_not_mem (h.chars segment hmem)

/-- A part is read as what it spells. -/
theorem segments?_eq_some {word : List Char} {part : Segments} :
    segments? (String.ofList word) = some part ↔ IsPart part ∧ partChars part = word := by
  unfold segments?
  simp only [String.toList_ofList]
  constructor
  · intro h
    split at h
    · next hread =>
      cases h
      rw [Bool.and_eq_true, bne_iff_ne, List.all_eq_true] at hread
      have hchars : partChars ((Text.splitAt '.' word).map String.ofList) = word := by
        simp only [partChars, List.map_map, Function.comp_def, String.toList_ofList, List.map_id']
        exact Text.intercalate_splitAt '.' word
      refine ⟨⟨?_, ?_, ?_, by rw [hchars]; exact hread.1⟩, hchars⟩
      · exact fun hnil => Text.splitFrom_ne_nil '.' [] word (List.map_eq_nil_iff.mp hnil)
      · refine List.forall_mem_map.mpr fun piece hpiece hempty => ?_
        exact (isSegment_iff.mp (hread.2 piece hpiece)).1
          (by simpa using congrArg String.toList hempty)
      · refine List.forall_mem_map.mpr fun piece hpiece => ?_
        rw [String.toList_ofList]
        exact (isSegment_iff.mp (hread.2 piece hpiece)).2
    · cases h
  · rintro ⟨hpart, rfl⟩
    rw [hpart.splitAt_partChars, if_pos]
    · simp
    · rw [Bool.and_eq_true, bne_iff_ne, List.all_eq_true]
      refine ⟨hpart.head, List.forall_mem_map.mpr fun segment hsegment => ?_⟩
      exact isSegment_iff.mpr ⟨by simpa using hpart.segment_ne segment hsegment,
        hpart.chars segment hsegment⟩

theorem mapM_segments?_eq_some {words : List (List Char)} {selector : Selector} :
    (words.map String.ofList).mapM segments? = some selector ↔
      (∀ part ∈ selector, IsPart part) ∧ selector.map partChars = words := by
  induction words generalizing selector with
  | nil =>
    simp only [List.map_nil, List.mapM_nil, Option.pure_def, Option.some.injEq, List.map_eq_nil_iff]
    refine ⟨fun h => ?_, fun h => h.2.symm⟩
    subst h
    exact ⟨nofun, rfl⟩
  | cons word rest ih =>
    simp only [List.map_cons, List.mapM_cons, Option.bind_eq_bind, Option.bind_eq_some_iff,
      Option.pure_def, Option.some.injEq, segments?_eq_some, ih]
    constructor
    · rintro ⟨part, ⟨hpart, rfl⟩, parts, ⟨hparts, rfl⟩, rfl⟩
      exact ⟨List.forall_mem_cons.mpr ⟨hpart, hparts⟩, rfl⟩
    · rintro ⟨hparts, hwords⟩
      obtain ⟨part, parts, rfl, rfl, rfl⟩ := List.map_eq_cons_iff.mp hwords
      obtain ⟨hpart, hparts⟩ := List.forall_mem_cons.mp hparts
      exact ⟨part, ⟨hpart, rfl⟩, parts, ⟨hparts, rfl⟩, rfl⟩

/-! ## Selectors -/

variable {s : String} {selector : Selector}

theorem ofText_of_wordsFrom {word : List Char} {rest : List (List Char)}
    (h : Text.wordsFrom [] s.toList = word :: rest) :
    ofText s = match ((word :: rest).map String.ofList).mapM segments? with
      | some selector => .ok selector
      | none => .error (.unsupported s) := by
  rewrite [ofText, Text.words, h, List.map_cons]
  rfl

/-- A selector is read of the texts that spell it, and of no others. -/
theorem ofText_eq_ok_iff : ofText s = .ok selector ↔ selector.Spells s.toList := by
  cases hwords : Text.wordsFrom [] s.toList with
  | nil =>
    have hblank : ofText s = .error (.blank s) := by
      rw [ofText, Text.words, hwords, List.map_nil]
    rw [hblank]
    refine iff_of_false (fun h => nomatch h) fun h => h.ne_nil ?_
    exact List.map_eq_nil_iff.mp (h.separated.wordsFrom_eq.symm.trans hwords)
  | cons word rest =>
    rw [ofText_of_wordsFrom hwords]
    constructor
    · intro h
      split at h
      · next hread =>
        cases h
        obtain ⟨hparts, hchars⟩ := mapM_segments?_eq_some.mp hread
        rw [← hwords] at hchars
        refine ⟨?_, hparts, Text.wordsFrom_eq_iff.mp hchars.symm⟩
        rintro rfl
        exact List.cons_ne_nil word rest (hwords.symm.trans hchars.symm)
      · cases h
    · intro h
      rw [mapM_segments?_eq_some.mpr ⟨h.parts, h.separated.wordsFrom_eq.symm.trans hwords⟩]

theorem Spells.text {s : List Char} (h : selector.Spells s) :
    selector.Spells selector.text.toList := by
  refine ⟨h.ne_nil, h.parts, ?_⟩
  rw [Selector.text, String.toList_ofList]
  exact Text.separated_intercalate (by decide) h.separated.forall_mem

/-- A selector is read of its own text. -/
theorem ofText_text (h : ofText s = .ok selector) : ofText selector.text = .ok selector :=
  ofText_eq_ok_iff.mpr (ofText_eq_ok_iff.mp h).text

end Rubric.Selector
