import Rubric.Pattern.Backreference
import Rubric.Proofs.Outcome

/-! # Patterns without references -/

namespace Rubric.Pattern

theorem expandFrom_eq_self {group : Nat → List Char} {s : List Char} :
    (refersFrom 0 s = false → expandFrom group .plain s = .ok s) ∧
      ∀ n, 0 < n → refersFrom n s = false →
        expandFrom group (.slashes n) s = .ok (List.replicate n '\\' ++ s) := by
  induction s with
  | nil => exact ⟨fun _ => rfl, fun n _ _ => by simp [expandFrom]⟩
  | cons c rest ih =>
    obtain ⟨hplain, hslashes⟩ := ih
    by_cases hc : c = '\\'
    · subst hc
      refine ⟨fun h => ?_, fun n _ h => ?_⟩
      · rw [refersFrom, if_pos rfl] at h
        rw [expandFrom, if_pos rfl, hslashes 1 Nat.one_pos h]
        rfl
      · rw [refersFrom, if_pos rfl] at h
        rw [expandFrom, if_pos rfl, hslashes (n + 1) (Nat.succ_pos n) h, List.replicate_succ',
          List.append_assoc, List.singleton_append]
    · refine ⟨fun h => ?_, fun n _ h => ?_⟩
      · rw [refersFrom, if_neg hc, Bool.or_eq_false_iff] at h
        rw [expandFrom, if_neg hc, hplain h.2]
        rfl
      · rw [refersFrom, if_neg hc, Bool.or_eq_false_iff] at h
        rw [expandFrom, if_neg hc, if_neg (by rw [h.1]; exact Bool.false_ne_true), hplain h.2]
        rfl

/-- A pattern without references stays as it is. -/
theorem expand_eq_self {group : Nat → List Char} {pattern : List Char}
    (h : refers pattern = false) : expand group pattern = .ok pattern :=
  expandFrom_eq_self.1 h

end Rubric.Pattern
