import Rubric.Grammar.Compiled
import Rubric.Proofs.Outcome

/-!
# The rules of a grammar

Whatever references a list of rules holds, its candidates are rules of the grammar, each with the
pattern that it begins with (`Grammar.expand_of`). So what holds of the rules of a grammar, which
are finitely many, holds of all that can stand on a stack.
-/

namespace Rubric

mutual

/-- The rule itself and the rules for its content, at any depth. -/
def Rule.within : Rule → List Rule
  | ⟨scopes, single, opening, closing, continuing, contentScopes, captures, openingCaptures,
      closingCaptures, continuingCaptures, reference, children⟩ =>
    ⟨scopes, single, opening, closing, continuing, contentScopes, captures, openingCaptures,
      closingCaptures, continuingCaptures, reference, children⟩ :: rulesWithin children

def rulesWithin : List Rule → List Rule
  | [] => []
  | rule :: rest => rule.within ++ rulesWithin rest

end

/-- All rules of the grammar apart from those of captures. -/
def Grammar.rules (g : Grammar) : List Rule :=
  rulesWithin g.patterns ++ rulesWithin (g.repository.map (·.2))

/-- The rule begins with the pattern. -/
def Rule.BeginsWith (rule : Rule) (pattern : Json) : Prop :=
  rule.reference = none ∧
    (rule.single = some pattern ∨ rule.single = none ∧ rule.opening = some pattern)

/-- The candidate is one of the rules, with the pattern that it begins with. -/
def Candidate.Of (rules : List Rule) (c : Candidate) : Prop :=
  c.2 ∈ rules ∧ c.2.BeginsWith c.1

theorem Rule.within_eq (rule : Rule) : rule.within = rule :: rulesWithin rule.children := by
  cases rule
  rfl

theorem Rule.mem_within (rule : Rule) : rule ∈ rule.within := by
  rw [within_eq]
  exact List.mem_cons_self

theorem within_subset_rulesWithin {rule : Rule} {rules : List Rule} (h : rule ∈ rules) :
    rule.within ⊆ rulesWithin rules := by
  induction rules with
  | nil => cases h
  | cons first rest ih =>
    rcases List.mem_cons.mp h with rfl | h
    · exact List.subset_append_left _ _
    · exact List.Subset.trans (ih h) (List.subset_append_right _ _)

mutual

/-- The rules in a rule of a list are rules in the list. -/
theorem Rule.rulesWithin_children_subset {inner : Rule} : ∀ rule : Rule, inner ∈ rule.within →
    rulesWithin inner.children ⊆ rule.within
  | ⟨scopes, single, opening, closing, continuing, contentScopes, captures, openingCaptures,
      closingCaptures, continuingCaptures, reference, children⟩, h => by
    rw [Rule.within_eq] at h ⊢
    rcases List.mem_cons.mp h with rfl | h
    · exact List.subset_cons_self _ _
    · exact List.Subset.trans (rulesWithin_children_subset children h) (List.subset_cons_self _ _)

theorem rulesWithin_children_subset {inner : Rule} : ∀ rules : List Rule,
    inner ∈ rulesWithin rules → rulesWithin inner.children ⊆ rulesWithin rules
  | [], h => nomatch h
  | rule :: rest, h => by
    rcases List.mem_append.mp h with h | h
    · exact List.Subset.trans (Rule.rulesWithin_children_subset rule h)
        (List.subset_append_left _ _)
    · exact List.Subset.trans (rulesWithin_children_subset rest h) (List.subset_append_right _ _)

end

section
variable {refer : Json → Outcome Candidates} {P : Candidate → Prop}

mutual

/-- What is true of the candidates behind references is true of all, if it is of the rules
themselves. -/
theorem Rule.candidates_of (hrefer : ∀ target cs, refer target = .ok cs → ∀ c ∈ cs.pairs, P c) :
    ∀ (rule : Rule) (cs : Candidates), (∀ c, Candidate.Of rule.within c → P c) →
      rule.candidates refer = .ok cs → ∀ c ∈ cs.pairs, P c
  | ⟨scopes, single, opening, closing, continuing, contentScopes, captures, openingCaptures,
      closingCaptures, continuingCaptures, reference, children⟩, cs, hP, h => by
    unfold Rule.candidates at h
    split at h
    · exact hrefer _ _ h
    · refine rulesCandidates_of hrefer children cs (fun c hc => hP c ⟨?_, hc.2⟩) h
      rw [Rule.within_eq]
      exact List.mem_cons_of_mem _ hc.1
    all_goals
      cases h
      intro c hc
      cases List.mem_singleton.mp hc
      exact hP _ ⟨Rule.mem_within _, rfl, by simp⟩

theorem rulesCandidates_of (hrefer : ∀ target cs, refer target = .ok cs → ∀ c ∈ cs.pairs, P c) :
    ∀ (rules : List Rule) (cs : Candidates), (∀ c, Candidate.Of (rulesWithin rules) c → P c) →
      rulesCandidates refer rules = .ok cs → ∀ c ∈ cs.pairs, P c
  | [], cs, _, h => by
    cases h
    intro c hc
    cases hc
  | rule :: rest, cs, hP, h => by
    obtain ⟨first, hfirst, h⟩ := bind_eq_ok.mp h
    obtain ⟨others, hothers, h⟩ := bind_eq_ok.mp h
    cases pure_eq_ok.mp h
    intro c hc
    rw [Candidates.pairs_append, List.mem_append] at hc
    rcases hc with hc | hc
    · exact Rule.candidates_of hrefer rule first
        (fun c hc => hP c ⟨List.mem_append_left _ hc.1, hc.2⟩) hfirst c hc
    · exact rulesCandidates_of hrefer rest others
        (fun c hc => hP c ⟨List.mem_append_right _ hc.1, hc.2⟩) hothers c hc

end

end

namespace Grammar
variable {g : Grammar}

theorem referred_subset {target : Json} {rules : List Rule} (h : g.referred target = .ok rules) :
    rulesWithin rules ⊆ g.rules := by
  unfold referred at h
  split at h
  · split at h
    · cases h
      exact List.subset_append_left _ _
    · split at h
      · split at h
        · next name _ _ rest _ rule hrule =>
          cases h
          obtain ⟨entry, hentry, rfl⟩ := Option.map_eq_some_iff.mp hrule
          have hmem : entry.2 ∈ g.repository.map (·.2) :=
            List.mem_map_of_mem (List.mem_of_find?_eq_some hentry)
          rw [rulesWithin, rulesWithin, List.append_nil]
          exact List.Subset.trans (within_subset_rulesWithin hmem) (List.subset_append_right _ _)
        · cases h
          exact List.nil_subset _
      · cases h
        exact List.nil_subset _
  · cases h

theorem refer_of {depth : Nat} {target : Json} {cs : Candidates}
    (h : g.refer depth target = .ok cs) : ∀ c ∈ cs.pairs, Candidate.Of g.rules c := by
  induction depth generalizing target cs with
  | zero => cases h
  | succ depth ih =>
    obtain ⟨rules, hrules, h⟩ := bind_eq_ok.mp h
    unfold expandWith at h
    split at h
    · exact rulesCandidates_of (fun _ _ h => ih h) rules cs
        (fun c hc => ⟨referred_subset hrules hc.1, hc.2⟩) h
    · cases h

/-- The candidates of rules of the grammar are rules of the grammar. -/
theorem expand_of {rules : List Rule} {cs : Candidates} (hrules : rulesWithin rules ⊆ g.rules)
    (h : g.expand rules = .ok cs) : ∀ c ∈ cs.pairs, Candidate.Of g.rules c := by
  unfold expand expandWith at h
  split at h
  · exact rulesCandidates_of (fun _ _ h => refer_of h) rules cs
      (fun c hc => ⟨hrules hc.1, hc.2⟩) h
  · cases h

theorem rulesWithin_children_subset_rules {rule : Rule} (h : rule ∈ g.rules) :
    rulesWithin rule.children ⊆ g.rules := by
  rcases List.mem_append.mp h with h | h
  · exact List.Subset.trans (rulesWithin_children_subset _ h) (List.subset_append_left _ _)
  · exact List.Subset.trans (rulesWithin_children_subset _ h) (List.subset_append_right _ _)

theorem expand_patterns_of {cs : Candidates} (h : g.expand g.patterns = .ok cs) :
    ∀ c ∈ cs.pairs, Candidate.Of g.rules c :=
  expand_of (List.subset_append_left _ _) h

theorem expand_children_of {rule : Rule} {cs : Candidates} (hr : rule ∈ g.rules)
    (h : g.expand rule.children = .ok cs) : ∀ c ∈ cs.pairs, Candidate.Of g.rules c :=
  expand_of (rulesWithin_children_subset_rules hr) h

end Grammar

end Rubric
