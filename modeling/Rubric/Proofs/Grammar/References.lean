import Mathlib.Data.List.Perm.Subperm
import Rubric.Grammar.Expand
import Rubric.Proofs.Outcome

/-!
# References to references

References are followed up to a depth that is as good as any other (`Grammar.reference_eq_refer`):
a reference that needs more than that many steps would pass some reference twice, and so never come
to an end. What a reference stands for is then what the rules behind it stand for
(`Grammar.reference_eq`).
-/

namespace Rubric

/-- The outcome is the other one, unless it was cut off as too deep. -/
def Approximates (r s : Outcome α) : Prop :=
  r = .error .nesting ∨ r = s

namespace Approximates
variable {r s t : Outcome α} {f h : α → Outcome β}

theorem refl (r : Outcome α) : Approximates r r :=
  .inr rfl

theorem trans (hrs : Approximates r s) (hst : Approximates s t) : Approximates r t := by
  rcases hrs with hr | rfl
  · exact .inl hr
  · exact hst

theorem eq (hrs : Approximates r s) (hr : r ≠ .error .nesting) : r = s :=
  hrs.resolve_left hr

theorem antisymm (hrs : Approximates r s) (hsr : Approximates s r) : r = s := by
  rcases hrs with hr | h
  · rcases hsr with hs | h
    · rw [hr, hs]
    · exact h.symm
  · exact h

theorem bind (hrs : Approximates r s) (hfh : ∀ a, Approximates (f a) (h a)) :
    Approximates (r >>= f) (s >>= h) := by
  rcases hrs with rfl | rfl
  · exact .inl rfl
  · cases r with
    | error e => exact .inr rfl
    | ok a => exact hfh a

end Approximates

section
variable {refer refer' : Json → Outcome Candidates}

mutual

theorem Rule.candidates_approximates
    (hrefer : ∀ target, Approximates (refer target) (refer' target)) :
    ∀ rule : Rule, Approximates (rule.candidates refer) (rule.candidates refer')
  | ⟨scopes, single, opening, closing, continuing, contentScopes, captures, openingCaptures,
      closingCaptures, continuingCaptures, reference, children⟩ => by
    unfold Rule.candidates
    split
    · exact hrefer _
    · exact rulesCandidates_approximates hrefer children
    · exact .refl _
    · exact .refl _

theorem rulesCandidates_approximates
    (hrefer : ∀ target, Approximates (refer target) (refer' target)) :
    ∀ rules : List Rule, Approximates (rulesCandidates refer rules) (rulesCandidates refer' rules)
  | [] => .refl _
  | rule :: rest =>
    (Rule.candidates_approximates hrefer rule).bind fun _ =>
      (rulesCandidates_approximates hrefer rest).bind fun _ => .refl _

end

theorem Grammar.expandWith_approximates
    (hrefer : ∀ target, Approximates (refer target) (refer' target)) (rules : List Rule) :
    Approximates (expandWith refer rules) (expandWith refer' rules) := by
  unfold expandWith
  split
  · exact rulesCandidates_approximates hrefer rules
  · exact .refl _

end

namespace Grammar
variable {g : Grammar} {target other : Json} {depth deeper m n : Nat}

theorem refer_succ (depth : Nat) (target : Json) :
    Approximates (g.refer depth target) (g.refer (depth + 1) target) := by
  induction depth generalizing target with
  | zero => exact .inl rfl
  | succ depth ih => exact (Approximates.refl _).bind fun rules => expandWith_approximates ih rules

theorem refer_le (h : depth ≤ deeper) (target : Json) :
    Approximates (g.refer depth target) (g.refer deeper target) := by
  induction h with
  | refl => exact .refl _
  | step _ ih => exact ih.trans (refer_succ _ target)

/-! ## The depth of a reference -/

/-- The reference comes to an end just below a depth. -/
def Ranked (g : Grammar) (depth : Nat) (target : Json) : Prop :=
  g.refer depth target = .error .nesting ∧ g.refer (depth + 1) target ≠ .error .nesting

/-- The references that rules stand behind. -/
def known (g : Grammar) : List Json :=
  .str "$self" :: .str "$base" :: g.repository.map fun entry => .str ("#" ++ entry.1)

theorem mem_known_of_referred {rules : List Rule} (h : g.referred target = .ok rules)
    (hrules : rules ≠ []) : target ∈ g.known := by
  unfold referred at h
  split at h
  · next name =>
    split at h
    · next hself =>
      simp only [Bool.or_eq_true, beq_iff_eq] at hself
      rcases hself with rfl | rfl <;> simp [known]
    · split at h
      · next rest hname =>
        split at h
        · next rule hrule =>
          obtain ⟨entry, hentry, _⟩ := Option.map_eq_some_iff.mp hrule
          have hkey : entry.1 = String.ofList rest := by simpa using List.find?_some hentry
          have heq : name = "#" ++ entry.1 := by
            rw [← String.toList_inj, hname]
            simp [hkey]
          rw [heq]
          exact List.mem_cons_of_mem _ (List.mem_cons_of_mem _
            (List.mem_map.mpr ⟨entry, List.mem_of_find?_eq_some hentry, rfl⟩))
        · cases h
          exact absurd rfl hrules
      · cases h
        exact absurd rfl hrules
  · cases h

theorem Ranked.le (hm : g.Ranked m target) (hn : g.Ranked n target) : m ≤ n := by
  by_contra hlt
  have hle : n + 1 ≤ m := by omega
  exact hn.2 ((refer_le hle target).eq hn.2 ▸ hm.1)

/-- A reference that comes to an end no sooner leads through one that does one step earlier. -/
theorem Ranked.below (h : g.Ranked (n + 1) target) :
    target ∈ g.known ∧ ∃ other, g.Ranked n other := by
  obtain ⟨hdeep, hend⟩ := h
  cases hrules : g.referred target with
  | error e =>
    rw [refer, hrules] at hdeep hend
    exact absurd hdeep hend
  | ok rules =>
    have hrefer : ∀ depth, g.refer (depth + 1) target = expandWith (g.refer depth) rules := by
      intro depth
      rw [refer, hrules, ok_bind]
    rw [hrefer] at hdeep hend
    refine ⟨mem_known_of_referred hrules ?_, ?_⟩
    · rintro rfl
      cases hdeep
    · by_contra hnone
      -- with nothing of that rank, one more step changes nothing
      have hsame : g.refer n = g.refer (n + 1) := by
        funext other
        by_cases hother : g.refer n other = .error .nesting
        · rw [hother]
          by_contra hne
          exact hnone ⟨other, hother, fun h => hne h.symm⟩
        · exact (refer_succ n other).eq hother
      exact hend (hsame ▸ hdeep)

/-- The references on the way down, one of each rank. -/
theorem Ranked.chain (h : g.Ranked n target) :
    ∃ targets : List Json, targets.length = n ∧ targets.Nodup ∧ targets ⊆ g.known ∧
      ∀ other ∈ targets, ∃ m ≤ n, g.Ranked m other := by
  induction n generalizing target with
  | zero => exact ⟨[], rfl, .nil, List.nil_subset _, by simp⟩
  | succ n ih =>
    obtain ⟨hknown, other, hother⟩ := h.below
    obtain ⟨targets, hlength, hnodup, hsubset, hranks⟩ := ih hother
    refine ⟨target :: targets, by rw [List.length_cons, hlength], ?_,
      List.cons_subset.mpr ⟨hknown, hsubset⟩, fun u hu => ?_⟩
    · refine List.nodup_cons.mpr ⟨fun hmem => ?_, hnodup⟩
      obtain ⟨m, hm, hrank⟩ := hranks target hmem
      have := h.le hrank
      omega
    · rcases List.mem_cons.mp hu with rfl | hu
      · exact ⟨n + 1, Nat.le_refl _, h⟩
      · obtain ⟨m, hm, hrank⟩ := hranks u hu
        exact ⟨m, by omega, hrank⟩

theorem Ranked.lt_referenceDepth (h : g.Ranked n target) : n < g.referenceDepth := by
  obtain ⟨targets, hlength, hnodup, hsubset, _⟩ := h.chain
  have hle := (List.subperm_of_subset hnodup hsubset).length_le
  simp only [hlength, known, List.length_cons, List.length_map] at hle
  unfold referenceDepth
  omega

/-- A reference that comes to an end does so within the depth that is allowed. -/
theorem reference_ne_nesting (h : g.refer depth target ≠ .error .nesting) :
    g.reference target ≠ .error .nesting := by
  rcases Nat.le_total depth g.referenceDepth with hle | hle
  · rw [reference, ← (refer_le hle target).eq h]
    exact h
  · induction hle with
    | refl => exact h
    | step hle ih =>
      exact ih fun hdeep => Nat.not_lt.mpr hle (Ranked.lt_referenceDepth ⟨hdeep, h⟩)

/-- Any depth leads to the same, or is too small. -/
theorem refer_approximates_reference (depth : Nat) (target : Json) :
    Approximates (g.refer depth target) (g.reference target) := by
  by_cases h : g.refer depth target = .error .nesting
  · exact .inl h
  · rcases Nat.le_total depth g.referenceDepth with hle | hle
    · exact refer_le hle target
    · exact .inr ((refer_le hle target).eq (reference_ne_nesting h)).symm

/-- A reference stands for what the rules behind it stand for. -/
theorem reference_eq (g : Grammar) (target : Json) :
    g.reference target = g.referred target >>= g.expand :=
  (refer_succ g.referenceDepth target).antisymm (refer_approximates_reference _ target)

end Grammar

end Rubric
