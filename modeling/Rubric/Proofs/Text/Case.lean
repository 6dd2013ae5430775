import Rubric.Text.Folding

/-! # Characters without case

No character in front of the capital letters differs from another one in case alone. -/

namespace Rubric.Text

theorem toNat_ofNat {n : Nat} (h : n.isValidChar) : (Char.ofNat n).toNat = n := by
  unfold Char.ofNat
  rw [dif_pos h]
  rfl

theorem toNat_ofNat_ge {n k : Nat} (h : k ≤ n) :
    (Char.ofNat n).toNat = 0 ∨ k ≤ (Char.ofNat n).toNat := by
  by_cases hv : n.isValidChar
  · exact .inr (by rwa [toNat_ofNat hv])
  · left
    unfold Char.ofNat
    rw [dif_neg hv]
    rfl

theorem toNat_of_mem_caseVariants {c d : Char} (h : d ∈ caseVariants c) :
    d.toNat = 0 ∨ 65 ≤ d.toNat := by
  unfold caseVariants at h
  split at h
  · unfold asciiCaseVariants at h
    split at h
    · rcases List.mem_cons.mp h with rfl | h
      · split <;> exact .inr (by decide)
      · cases List.mem_singleton.mp h
        exact .inr (by decide)
    · split at h
      · rcases List.mem_cons.mp h with rfl | h
        · split <;> exact .inr (by decide)
        · cases List.mem_singleton.mp h
          exact .inr (by decide)
      · split at h
        · next hupper =>
          cases List.mem_singleton.mp h
          have hA : 65 ≤ c.toNat := (Bool.and_eq_true_iff.mp hupper).1 |> of_decide_eq_true
          exact toNat_ofNat_ge (by omega)
        · split at h
          · next hlower =>
            cases List.mem_singleton.mp h
            have ha : 97 ≤ c.toNat := (Bool.and_eq_true_iff.mp hlower).1 |> of_decide_eq_true
            exact toNat_ofNat_ge (by omega)
          · cases h
  · split at h
    · next family hfamily =>
      obtain ⟨n, hn, rfl⟩ := List.mem_map.mp h
      have hall : ∀ family ∈ caseFamilies, ∀ n ∈ family, 65 ≤ n := by decide
      exact toNat_ofNat_ge (hall family (List.mem_of_find?_eq_some hfamily) n
        (List.mem_filter.mp hn).1)
    · obtain ⟨n, hn, rfl⟩ := List.mem_map.mp h
      obtain ⟨pair, hpair, hn⟩ := List.exists_of_findSome?_eq_some (Option.mem_toList.mp hn)
      have hall : ∀ pair ∈ casePairs, 65 ≤ pair.1 := by decide +kernel
      have hfirst := hall pair hpair
      obtain ⟨first, last, step, offset⟩ := pair
      simp only [pairedCase?, Bool.and_eq_true, decide_eq_true_eq] at hn hfirst
      split at hn
      · cases hn
        exact toNat_ofNat_ge (by omega)
      · split at hn
        · cases hn
          exact toNat_ofNat_ge (by omega)
        · cases hn

/-- A quotation mark is alike to itself only. -/
theorem eq_of_sameLetter {c : Char} {n : Nat} (h0 : 0 < n) (h : n < 65)
    (hs : sameLetter c.toNat n = true) : c = Char.ofNat n := by
  rcases Bool.or_eq_true_iff.mp hs with heq | hmem
  · rw [← beq_iff_eq.mp heq, Char.ofNat_toNat]
  · have hd := toNat_of_mem_caseVariants (List.contains_iff_mem.mp hmem)
    rw [toNat_ofNat (Or.inl (by omega))] at hd
    omega

end Rubric.Text
