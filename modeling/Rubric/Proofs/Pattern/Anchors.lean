import Rubric.Pattern.Anchors
import Rubric.Pattern.Backreference

/-!
# Patterns with masked anchors

Only the letters behind backslashes are masked, so a pattern can be masked piece by piece
(`maskEach_pair`, `maskEach_plain`), and a text that stands in it escaped stays as it is
(`maskEach_escaped`).
-/

namespace Rubric.Pattern

variable {letters s rest : List Char} {c d : Char} {a : Anchoring}

theorem maskEach_pair : maskEach letters ('\\' :: d :: rest) =
    '\\' :: (if letters.contains d then masked else d) :: maskEach letters rest := rfl

theorem maskEach_lone : maskEach letters ['\\'] = ['\\'] := rfl

theorem maskEach_plain (hc : c ≠ '\\') :
    maskEach letters (c :: rest) = c :: maskEach letters rest := by
  rw [maskEach]
  rintro _ _ rfl
  exact absurd rfl hc

theorem maskEach_append (hs : ∀ c ∈ s, c ≠ '\\') :
    maskEach letters (s ++ rest) = s ++ maskEach letters rest := by
  induction s with
  | nil => rfl
  | cons c s ih =>
    rw [List.forall_mem_cons] at hs
    rw [List.cons_append, maskEach_plain hs.1, ih hs.2, List.cons_append]

theorem head?_maskEach : (maskEach letters s).head? = s.head? := by
  fun_cases maskEach letters s <;> rfl

theorem length_maskEach : (maskEach letters s).length = s.length := by
  fun_induction maskEach letters s with
  | case1 c rest ih => simp [ih]
  | case2 c rest hc ih => simp [ih]
  | case3 => rfl

theorem hasPair_of_cons {a b : Char} (h : hasPair a b (c :: rest) = false) :
    hasPair a b rest = false := by
  cases rest with
  | nil => rfl
  | cons d rest => exact (Bool.or_eq_false_iff.mp h).2

/-- Whether the text is looked through or left alone, the same letters are masked. -/
theorem mask_eq_maskEach : mask letters s = maskEach letters s := by
  have hself (h : ∀ c ∈ letters, hasPair '\\' c s = false) : maskEach letters s = s := by
    fun_induction maskEach letters s with
    | case1 c rest ih =>
      have hc : c ∉ letters := fun hc => by simpa using (Bool.or_eq_false_iff.mp (h c hc)).1
      rw [ih fun d hd => hasPair_of_cons (hasPair_of_cons (h d hd))]
      simp [hc]
    | case2 c rest hplain ih => rw [ih fun d hd => hasPair_of_cons (h d hd)]
    | case3 => rfl
  rw [mask]
  split
  · rfl
  · next h => exact (hself (by simpa using h)).symm

/-- A text that stands in a pattern escaped holds no escapes but its own. -/
theorem maskEach_escaped (hletters : ∀ c ∈ letters, c ∉ special) :
    maskEach letters (escaped s ++ rest) = escaped s ++ maskEach letters rest := by
  induction s with
  | nil => rfl
  | cons c s ih =>
    have hcons : escaped (c :: s) = (if special.contains c then ['\\', c] else [c]) ++ escaped s :=
      rfl
    rw [hcons]
    split
    · next hc =>
      have hletter : c ∉ letters := fun h => hletters c h (by simpa using hc)
      simp [maskEach_pair, hletter, ih]
    · next hc =>
      have hne : c ≠ '\\' := by
        rintro rfl
        exact hc rfl
      simp [maskEach_plain hne, ih]

/-- The letters of the anchors are neither digits nor escaped. -/
theorem mem_barred (hc : c ∈ a.barred) : Text.isAsciiDigit c = false ∧ c ∉ special := by
  obtain ⟨firstLine, here⟩ := a
  have hc : c = 'A' ∨ c = 'G' := by
    cases firstLine <;> cases here <;> simp_all [Anchoring.barred]
  obtain rfl | rfl := hc <;> decide

theorem count_anchored (a : Anchoring) (s : List Char) :
    (anchored a s).count '(' = s.count '(' := by
  rw [anchored, mask_eq_maskEach]
  fun_induction maskEach a.barred s with
  | case1 c rest ih =>
    split
    · next hc =>
      have hne : c ≠ '(' := by
        rintro rfl
        exact (mem_barred (by simpa using hc)).2 (by decide)
      simp [ih, hne, masked]
    · simp [List.count_cons, ih]
  | case2 c rest hplain ih => simp [List.count_cons, ih]
  | case3 => rfl

end Rubric.Pattern
