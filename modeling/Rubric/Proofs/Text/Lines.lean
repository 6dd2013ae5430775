import Mathlib.Data.List.Basic
import Rubric.Markup.Html
import Rubric.Text.Split

/-!
# Lines

The lines of a text, each with a newline behind it, are the text with a newline behind it. The line
that is read somewhere in a text goes on to the next newline (`append_upTo`). Two texts with a
newline between them have the lines of both (`splitFrom_append_cons`). What stands in front of the
newlines at the end of a text is found again (`trimNewlines_append`).
-/

namespace Rubric

namespace Text

theorem flatMap_splitFrom (sep : Char) (piece s : List Char) :
    (splitFrom sep piece s).flatMap (· ++ [sep]) = piece.reverse ++ s ++ [sep] := by
  induction s generalizing piece with
  | nil => simp [splitFrom]
  | cons c rest ih =>
    unfold splitFrom
    split
    · next h =>
      subst h
      simp [ih]
    · simp [ih]

/-- The pieces joined by the separator, with one more behind the last. -/
theorem flatMap_splitAt (sep : Char) (s : List Char) :
    (splitAt sep s).flatMap (· ++ [sep]) = s ++ [sep] :=
  flatMap_splitFrom sep [] s

theorem not_mem_of_mem_splitFrom {sep : Char} {piece s l : List Char} (hp : sep ∉ piece)
    (h : l ∈ splitFrom sep piece s) : sep ∉ l := by
  induction s generalizing piece with
  | nil =>
    cases List.mem_singleton.mp h
    simpa using hp
  | cons c rest ih =>
    unfold splitFrom at h
    split at h
    · rcases List.mem_cons.mp h with rfl | h
      · simpa using hp
      · exact ih List.not_mem_nil h
    · next hc =>
      refine ih ?_ h
      simp only [List.mem_cons, not_or]
      exact ⟨fun h => hc h.symm, hp⟩

/-- The text up to the first separator, or to its end with a separator behind it. -/
def upTo (sep : Char) : List Char → List Char
  | [] => [sep]
  | c :: rest => if c = sep then [sep] else c :: upTo sep rest

theorem upTo_append {sep : Char} {x : List Char} (hx : sep ∉ x) (rest : List Char) :
    upTo sep (x ++ rest) = x ++ upTo sep rest := by
  induction x with
  | nil => rfl
  | cons c x ih =>
    simp only [List.mem_cons, not_or] at hx
    rw [List.cons_append, upTo, if_neg (Ne.symm hx.1), ih hx.2, List.cons_append]

theorem upTo_cons_self (sep : Char) (rest : List Char) : upTo sep (sep :: rest) = [sep] :=
  if_pos rfl

theorem upTo_ne_nil (sep : Char) (rest : List Char) : upTo sep rest ≠ [] := by
  cases rest with
  | nil => exact List.cons_ne_nil _ _
  | cons c rest =>
    rw [upTo]
    split <;> exact List.cons_ne_nil _ _

theorem head?_upTo {sep c : Char} {rest : List Char} (h : (upTo sep rest).head? = some c) :
    c = sep ∨ rest.head? = some c := by
  cases rest with
  | nil => exact .inl (Option.some.inj h).symm
  | cons d rest =>
    rw [upTo] at h
    split at h
    · exact .inl (Option.some.inj h).symm
    · exact .inr h

/-- The first piece is what was read of it and the text up to the separator. -/
theorem append_upTo {sep : Char} {piece rest first : List Char} {more : List (List Char)}
    (h : splitFrom sep piece rest = first :: more) :
    first ++ [sep] = piece.reverse ++ upTo sep rest := by
  induction rest generalizing piece with
  | nil =>
    cases h
    rfl
  | cons c rest ih =>
    rw [splitFrom] at h
    rw [upTo]
    split at h
    · cases h
      rw [if_pos ‹_›]
    · rw [if_neg ‹_›, ih h, List.reverse_cons, List.append_assoc, List.singleton_append]

theorem splitFrom_append {sep : Char} {x : List Char} (hx : sep ∉ x) (piece rest : List Char) :
    splitFrom sep piece (x ++ rest) = splitFrom sep (x.reverse ++ piece) rest := by
  induction x generalizing piece with
  | nil => rfl
  | cons c x ih =>
    simp only [List.mem_cons, not_or] at hx
    rw [List.cons_append, splitFrom, if_neg (Ne.symm hx.1), ih hx.2, List.reverse_cons,
      List.append_assoc, List.singleton_append]

/-- The pieces of two texts with a separator between them are those of the one and of the other. -/
theorem splitFrom_append_cons (sep : Char) (piece front more : List Char) :
    splitFrom sep piece (front ++ sep :: more) = splitFrom sep piece front ++ splitAt sep more := by
  induction front generalizing piece with
  | nil => simp [splitFrom, splitAt]
  | cons c front ih =>
    rw [List.cons_append, splitFrom, splitFrom]
    split
    · rw [ih, List.cons_append]
    · exact ih _

/-- There is one piece more than there are separators. -/
theorem length_splitFrom (sep : Char) (piece s : List Char) :
    (splitFrom sep piece s).length = s.count sep + 1 := by
  induction s generalizing piece with
  | nil => rfl
  | cons c rest ih =>
    rw [splitFrom]
    split
    · next h => rw [h, List.length_cons, ih, List.count_cons_self]
    · next h => rw [ih, List.count_cons_of_ne h]

theorem not_mem_of_mem_splitAt {sep : Char} {s l : List Char} (h : l ∈ splitAt sep s) : sep ∉ l :=
  not_mem_of_mem_splitFrom List.not_mem_nil h

theorem intercalate_splitFrom (sep : Char) (piece s : List Char) :
    [sep].intercalate (splitFrom sep piece s) = piece.reverse ++ s := by
  induction s generalizing piece with
  | nil => rw [splitFrom, List.intercalate_singleton, List.append_nil]
  | cons c rest ih =>
    rw [splitFrom]
    split
    · next h =>
      obtain ⟨first, more, hsplit⟩ := List.exists_cons_of_ne_nil (splitFrom_ne_nil sep [] rest)
      rw [hsplit, List.intercalate_cons_cons, ← hsplit, ih, h, List.append_assoc]
      rfl
    · rw [ih, List.reverse_cons, List.append_assoc, List.singleton_append]

/-- The pieces, joined by the separator, are the text. -/
theorem intercalate_splitAt (sep : Char) (s : List Char) : [sep].intercalate (splitAt sep s) = s :=
  intercalate_splitFrom sep [] s

/-- Pieces that are joined by a separator are found again. -/
theorem splitAt_intercalate {sep : Char} {pieces : List (List Char)} (hne : pieces ≠ [])
    (h : ∀ piece ∈ pieces, sep ∉ piece) : splitAt sep ([sep].intercalate pieces) = pieces := by
  induction pieces with
  | nil => exact absurd rfl hne
  | cons piece rest ih =>
    obtain ⟨hpiece, hrest⟩ := List.forall_mem_cons.mp h
    have hself : splitFrom sep [] piece = [piece] := by
      have hread := splitFrom_append hpiece [] []
      rwa [List.append_nil, List.append_nil, splitFrom, List.reverse_reverse] at hread
    cases rest with
    | nil => rw [List.intercalate_singleton, splitAt, hself]
    | cons next rest =>
      rw [List.intercalate_cons_cons, List.append_assoc, List.singleton_append, splitAt,
        splitFrom_append_cons, hself, ih (List.cons_ne_nil next rest) hrest]
      rfl

end Text

namespace Markup.Html

theorem trimNewlines_of_getLast? {s : List Char} (h : s.getLast? ≠ some '\n') :
    trimNewlines s = s := by
  cases hr : s.reverse with
  | nil => simp [trimNewlines, List.reverse_eq_nil_iff.mp hr]
  | cons c rest =>
    have hs : s = rest.reverse ++ [c] := by
      rw [← List.reverse_reverse s, hr, List.reverse_cons]
    have hc : c ≠ '\n' := fun hc => h (by simp [hs, hc])
    rw [trimNewlines, hr, List.dropWhile_cons_of_neg (by simpa using hc), ← hr,
      List.reverse_reverse]

theorem trimNewlines_concat (s : List Char) : trimNewlines (s ++ ['\n']) = trimNewlines s := by
  simp [trimNewlines]

end Markup.Html

end Rubric
