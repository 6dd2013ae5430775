import Mathlib.Data.List.Basic
import Rubric.Text.Blank

/-!
# Words

The words of a text are what stands in it between blanks, and blanks are all that stands between
them (`Separated`). A text has one such list of words, the one that is read (`wordsFrom_eq_iff`).
-/

namespace Rubric.Text

/-- The text consists of the words, in their order, with blanks between them, and blanks or nothing
in front of the first and behind the last. -/
inductive Separated : List (List Char) → List Char → Prop
  | blank {gap : List Char} : (∀ c ∈ gap, isBlank c = true) → Separated [] gap
  | word {gap word rest : List Char} {words : List (List Char)} :
    (∀ c ∈ gap, isBlank c = true) → word ≠ [] → (∀ c ∈ word, isBlank c = false) →
      (∀ c, rest.head? = some c → isBlank c = true) → Separated words rest →
        Separated (word :: words) (gap ++ word ++ rest)

variable {words : List (List Char)} {gap word rest s : List Char} {c : Char}

theorem Separated.cons_blank (h : Separated words s) (hc : isBlank c = true) :
    Separated words (c :: s) := by
  cases h with
  | blank hgap => exact .blank (List.forall_mem_cons.mpr ⟨hc, hgap⟩)
  | word hgap hne hword hrest h =>
    exact .word (List.forall_mem_cons.mpr ⟨hc, hgap⟩) hne hword hrest h

theorem Separated.forall_mem (h : Separated words s) :
    ∀ word ∈ words, word ≠ [] ∧ ∀ c ∈ word, isBlank c = false := by
  induction h with
  | blank => exact fun _ h => nomatch h
  | word _ hne hword _ _ ih => exact List.forall_mem_cons.mpr ⟨⟨hne, hword⟩, ih⟩

theorem Separated.word_self (hne : word ≠ []) (hword : ∀ c ∈ word, isBlank c = false)
    (hrest : ∀ c, rest.head? = some c → isBlank c = true) (h : Separated words rest) :
    Separated (word :: words) (word ++ rest) :=
  @Separated.word [] word rest words (fun _ h => nomatch h) hne hword hrest h

theorem Separated.nil : Separated [] [] :=
  .blank fun _ h => nomatch h

/-- Words in a row, with one blank between two of them. -/
theorem separated_intercalate (hc : isBlank c = true)
    (H : ∀ word ∈ words, word ≠ [] ∧ ∀ c ∈ word, isBlank c = false) :
    Separated words ([c].intercalate words) := by
  induction words with
  | nil => exact .nil
  | cons word rest ih =>
    obtain ⟨⟨hne, hword⟩, hrest⟩ := List.forall_mem_cons.mp H
    cases rest with
    | nil =>
      have hself : Separated [word] (word ++ []) := .word_self hne hword nofun .nil
      rw [List.append_nil] at hself
      rwa [List.intercalate_singleton]
    | cons next rest =>
      rw [List.intercalate_cons_cons, List.append_assoc, List.singleton_append]
      refine .word_self hne hword (fun d hd => ?_) ((ih hrest).cons_blank hc)
      cases hd
      exact hc

/-! ## The words that are read -/

theorem wordsFrom_blank (hgap : ∀ c ∈ gap, isBlank c = true) (rest : List Char) :
    wordsFrom [] (gap ++ rest) = wordsFrom [] rest := by
  induction gap with
  | nil => rfl
  | cons c gap ih =>
    obtain ⟨hc, hgap⟩ := List.forall_mem_cons.mp hgap
    rw [List.cons_append, wordsFrom, if_pos hc]
    exact ih hgap

theorem wordsFrom_word (hword : ∀ c ∈ word, isBlank c = false) (front rest : List Char) :
    wordsFrom front (word ++ rest) = wordsFrom (word.reverse ++ front) rest := by
  induction word generalizing front with
  | nil => rfl
  | cons c word ih =>
    obtain ⟨hc, hword⟩ := List.forall_mem_cons.mp hword
    rw [List.cons_append, wordsFrom, if_neg (by rw [hc]; exact Bool.false_ne_true), ih hword,
      List.reverse_cons, List.append_assoc, List.singleton_append]

/-- A word ends at a blank, or with the text. -/
theorem wordsFrom_end (hne : word ≠ []) (hrest : ∀ c, rest.head? = some c → isBlank c = true) :
    wordsFrom word rest = word.reverse :: wordsFrom [] rest := by
  have hempty : word.isEmpty = false := by simpa using hne
  cases rest with
  | nil => simp [wordsFrom, hempty]
  | cons c rest => simp [wordsFrom, hempty, hrest c rfl]

theorem Separated.wordsFrom_eq (h : Separated words s) : wordsFrom [] s = words := by
  induction h with
  | @blank gap hgap =>
    rw [← List.append_nil gap, wordsFrom_blank hgap]
    rfl
  | word hgap hne hword hrest _ ih =>
    rw [List.append_assoc, wordsFrom_blank hgap, wordsFrom_word hword, List.append_nil,
      wordsFrom_end (by simpa using hne) hrest, List.reverse_reverse, ih]

/-- What is read of a text behind the letters of a word, if a blank or nothing stands there. -/
theorem separated_wordsFrom_end (hne : word ≠ []) (hword : ∀ c ∈ word, isBlank c = false)
    (hrest : ∀ c, rest.head? = some c → isBlank c = true) (h : Separated (wordsFrom [] rest) rest) :
    Separated (wordsFrom word rest) (word.reverse ++ rest) := by
  rw [wordsFrom_end hne hrest]
  exact .word_self (by simpa using hne) (fun c hc => hword c (List.mem_reverse.mp hc)) hrest h

/-- What is read of a text behind the letters of a word. -/
theorem separated_wordsFrom (hword : ∀ c ∈ word, isBlank c = false) (s : List Char) :
    Separated (wordsFrom word s) (word.reverse ++ s) := by
  induction s generalizing word with
  | nil =>
    cases word with
    | nil => exact .nil
    | cons d word => exact separated_wordsFrom_end (List.cons_ne_nil d word) hword nofun .nil
  | cons c rest ih =>
    cases hc : isBlank c with
    | true =>
      have hrest : Separated (wordsFrom [] (c :: rest)) (c :: rest) := by
        rw [wordsFrom, if_pos hc]
        have hbehind : Separated (wordsFrom [] rest) rest := ih nofun
        exact hbehind.cons_blank hc
      cases word with
      | nil => exact hrest
      | cons d word =>
        exact separated_wordsFrom_end (List.cons_ne_nil d word) hword
          (fun _ h => by cases h; exact hc) hrest
    | false =>
      have hnext := ih (List.forall_mem_cons.mpr ⟨hc, hword⟩)
      rw [List.reverse_cons, List.append_assoc, List.singleton_append] at hnext
      rwa [wordsFrom, if_neg (by rw [hc]; exact Bool.false_ne_true)]

/-- The words that are read are those that the text consists of. -/
theorem wordsFrom_eq_iff : wordsFrom [] s = words ↔ Separated words s :=
  have hread : Separated (wordsFrom [] s) s :=
    @separated_wordsFrom [] (fun _ h => nomatch h) s
  ⟨fun h => h ▸ hread, Separated.wordsFrom_eq⟩

end Rubric.Text
