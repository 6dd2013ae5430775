import Rubric.Proofs.Grammar.Compiling
import Rubric.Proofs.Grammar.Loading

/-!
# All rules of a grammar

The check of a grammar goes through all of its rules, those of captures and those in a repository
that nothing refers to included (`Grammar.Holds`). A rule of the grammar has candidates that are
rules of the grammar, each with a pattern that is checked (`Grammar.expand_held`).
-/

namespace Rubric

/-- The rules directly in a rule: those for its content and those of its captures. -/
def Rule.parts (rule : Rule) : List Rule :=
  rule.children ++ (rule.captures ++ rule.openingCaptures ++ rule.closingCaptures ++
    rule.continuingCaptures).map (·.2)

/-- The rule stands somewhere in the grammar. -/
inductive Grammar.Holds (g : Grammar) : Rule → Prop
  | pattern {rule : Rule} : rule ∈ g.patterns → Holds g rule
  | entry {entry : String × Rule} : entry ∈ g.repository → Holds g entry.2
  | part {rule inner : Rule} : Holds g rule → inner ∈ rule.parts → Holds g inner

/-- The candidate is a rule of the grammar, with the pattern that it begins with. -/
def Candidate.Held (g : Grammar) (c : Candidate) : Prop :=
  g.Holds c.2 ∧ c.2.BeginsWith c.1

/-! ## What is checked -/

theorem capturesChecked_eq (captures : List (Int × Rule)) :
    capturesChecked captures = rulesChecked (captures.map (·.2)) := by
  induction captures with
  | nil => rfl
  | cons capture rest ih => simp [capturesChecked, rulesChecked, ih]

theorem checked_subset_rulesChecked {rule : Rule} {rules : List Rule} (h : rule ∈ rules) :
    rule.checked ⊆ rulesChecked rules := by
  induction rules with
  | nil => cases h
  | cons first rest ih =>
    rcases List.mem_cons.mp h with rfl | h
    · exact List.subset_append_left _ _
    · exact List.Subset.trans (ih h) (List.subset_append_right _ _)

theorem Rule.checked_part_subset {rule inner : Rule} (h : inner ∈ rule.parts) :
    inner.checked ⊆ rule.checked := by
  have hmem {captures : List (Int × Rule)} (h : inner ∈ captures.map (·.2)) :
      inner.checked ⊆ capturesChecked captures :=
    capturesChecked_eq captures ▸ checked_subset_rulesChecked h
  rw [rule.checked_eq, captureChecked]
  simp only [parts, List.map_append, List.mem_append] at h
  intro p hp
  simp only [List.mem_append]
  rcases h with h | ((h | h) | h) | h
  · exact .inr (checked_subset_rulesChecked h hp)
  all_goals simp [hmem h hp]

namespace Grammar
variable {g : Grammar} {rule : Rule} {p : Json}

theorem Holds.checked_subset (h : g.Holds rule) : rule.checked ⊆ g.checked := by
  induction h with
  | pattern h =>
    exact List.Subset.trans (checked_subset_rulesChecked h) (List.subset_append_left _ _)
  | entry h =>
    exact List.Subset.trans (checked_subset_rulesChecked (List.mem_map_of_mem h))
      (List.subset_append_right _ _)
  | part _ h ih => exact List.Subset.trans (Rule.checked_part_subset h) ih

theorem Holds.ownChecked_subset (h : g.Holds rule) : rule.ownChecked ⊆ g.checked := by
  intro p hp
  refine h.checked_subset ?_
  rw [rule.checked_eq]
  exact List.mem_append_left _ (List.mem_append_left _ hp)

end Grammar

/-- The check goes through what a rule of the grammar begins with. -/
theorem Candidate.Held.mem_checked {g : Grammar} {c : Candidate} (h : c.Held g) :
    .ok c.1 ∈ g.checked := by
  refine h.1.ownChecked_subset (List.mem_append_left _ (List.mem_map_of_mem ?_))
  rcases h.2.2 with hs | ⟨_, ho⟩
  · simp [hs]
  · simp [ho]

/-! ## Candidates -/

section
variable {g : Grammar}

mutual

theorem Rule.holds_within : ∀ rule : Rule, g.Holds rule → ∀ inner ∈ rule.within, g.Holds inner
  | ⟨scopes, single, opening, closing, continuing, contentScopes, captures, openingCaptures,
      closingCaptures, continuingCaptures, reference, children⟩, hrule, inner, h => by
    rw [Rule.within_eq] at h
    rcases List.mem_cons.mp h with rfl | h
    · exact hrule
    · exact holds_rulesWithin children (fun _ hr => hrule.part (List.mem_append_left _ hr)) inner h

theorem holds_rulesWithin : ∀ rules : List Rule, (∀ rule ∈ rules, g.Holds rule) →
    ∀ inner ∈ rulesWithin rules, g.Holds inner
  | [], _, _, h => nomatch h
  | rule :: rest, hrules, inner, h => by
    rcases List.mem_append.mp h with h | h
    · exact Rule.holds_within rule (hrules _ (List.mem_cons_self ..)) inner h
    · exact holds_rulesWithin rest (fun r hr => hrules r (List.mem_cons_of_mem _ hr)) inner h

end

end

namespace Grammar
variable {g : Grammar} {rules : List Rule} {rule : Rule} {cs : Candidates}
  {compiled : CompiledRule}

theorem holds_rules (h : rule ∈ g.rules) : g.Holds rule := by
  rcases List.mem_append.mp h with h | h
  · exact holds_rulesWithin _ (fun _ hr => .pattern hr) rule h
  · refine holds_rulesWithin _ (fun r hr => ?_) rule h
    obtain ⟨entry, hentry, rfl⟩ := List.mem_map.mp hr
    exact .entry hentry

/-- The candidates that rules of the grammar stand for are rules of the grammar. -/
theorem expand_held (hrules : ∀ rule ∈ rules, g.Holds rule) (h : g.expand rules = .ok cs) :
    ∀ c ∈ cs.pairs, Candidate.Held g c := by
  unfold expand expandWith at h
  split at h
  · exact rulesCandidates_of (fun _ _ h c hc => ⟨holds_rules (refer_of h c hc).1,
      (refer_of h c hc).2⟩) rules cs (fun c hc => ⟨holds_rulesWithin rules hrules _ hc.1, hc.2⟩) h
  · cases h

/-- So those inside of a rule that was made ready are. -/
theorem compileRule_held (hrule : g.Holds rule) (h : g.compileRule rule = .ok compiled) :
    ∀ c ∈ compiled.inner, Candidate.Held g c := by
  rcases inner_of_compileRule h with hnone | ⟨cs, hcs, hinner⟩
  · rw [hnone]
    exact fun _ hc => nomatch hc
  · rw [hinner]
    exact expand_held (fun _ hr => hrule.part (List.mem_append_left _ hr)) hcs

end Grammar

end Rubric
