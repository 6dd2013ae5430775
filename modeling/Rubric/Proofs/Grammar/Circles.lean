import Mathlib.Data.Set.Finite.Basic
import Mathlib.Logic.Relation
import Rubric.Proofs.Grammar.References

/-!
# References that go round in a circle

Rules lead to the references that they hold, and these to the references that the rules behind them
hold (`Grammar.Leads`). What rules stand for can be written out if and only if all these references
are texts, the rules behind them can be looked up, and none of the references leads back to itself
(`Grammar.expand_ok_iff`).
-/

namespace Rubric

mutual

/-- The references that a rule stands for, those in its children included if it is a group. -/
def Rule.references : Rule → List Json
  | ⟨_, single, opening, _, _, _, _, _, _, _, reference, children⟩ =>
    match reference, single, opening with
    | some target, _, _ => [target]
    | none, none, none => rulesReferences children
    | none, some _, _ | none, none, some _ => []

def rulesReferences : List Rule → List Json
  | [] => []
  | rule :: rest => rule.references ++ rulesReferences rest

end

namespace Grammar

/-- The rules behind the reference hold the other one. -/
def Leads (g : Grammar) (target other : Json) : Prop :=
  ∃ rules, g.referred target = .ok rules ∧ other ∈ rulesReferences rules

/-- The rules lead to the reference, directly or through other ones. -/
def Meets (g : Grammar) (rules : List Rule) (target : Json) : Prop :=
  ∃ first ∈ rulesReferences rules, Relation.ReflTransGen g.Leads first target

/-- What the rules stand for can be written out. -/
structure Unfolds (g : Grammar) (rules : List Rule) : Prop where
  keys : rulesAreKeys rules = true
  /-- each reference is a text, and the rules behind it can be looked up -/
  refers : ∀ target, g.Meets rules target →
    ∃ inner, g.referred target = .ok inner ∧ rulesAreKeys inner = true
  /-- no reference leads back to itself -/
  straight : ∀ target, g.Meets rules target → ¬ Relation.TransGen g.Leads target target

end Grammar

/-! ## What references stand for -/

section
variable {refer : Json → Outcome Candidates}

mutual

theorem Rule.candidates_ok_iff : ∀ rule : Rule, (∃ cs, rule.candidates refer = .ok cs) ↔
    ∀ target ∈ rule.references, ∃ cs, refer target = .ok cs
  | ⟨scopes, single, opening, closing, continuing, contentScopes, captures, openingCaptures,
      closingCaptures, continuingCaptures, reference, children⟩ => by
    unfold Rule.candidates Rule.references
    split
    · simp
    · exact rulesCandidates_ok_iff children
    · simp
    · simp

theorem rulesCandidates_ok_iff : ∀ rules : List Rule,
    (∃ cs, rulesCandidates refer rules = .ok cs) ↔
      ∀ target ∈ rulesReferences rules, ∃ cs, refer target = .ok cs
  | [] => by simp [rulesCandidates, rulesReferences]
  | rule :: rest => by
    rw [rulesReferences, List.forall_mem_append, ← Rule.candidates_ok_iff rule,
      ← rulesCandidates_ok_iff rest]
    constructor
    · rintro ⟨cs, h⟩
      obtain ⟨first, hfirst, h⟩ := bind_eq_ok.mp h
      obtain ⟨others, hothers, _⟩ := bind_eq_ok.mp h
      exact ⟨⟨first, hfirst⟩, others, hothers⟩
    · rintro ⟨⟨first, hfirst⟩, others, hothers⟩
      exact ⟨first ++ others, bind_eq_ok.mpr ⟨first, hfirst, bind_eq_ok.mpr ⟨others, hothers, rfl⟩⟩⟩

end

theorem Grammar.expandWith_ok_iff {rules : List Rule} :
    (∃ cs, expandWith refer rules = .ok cs) ↔
      rulesAreKeys rules = true ∧
        ∀ target ∈ rulesReferences rules, ∃ cs, refer target = .ok cs := by
  rw [← rulesCandidates_ok_iff, expandWith]
  split <;> simp_all

end

namespace Grammar
variable {g : Grammar} {rules : List Rule} {target other : Json}

/-- A reference stands for something if the rules behind it do. -/
theorem refer_ok_iff {depth : Nat} :
    (∃ cs, g.refer (depth + 1) target = .ok cs) ↔
      (∃ inner, g.referred target = .ok inner ∧ rulesAreKeys inner = true) ∧
        ∀ other, g.Leads target other → ∃ cs, g.refer depth other = .ok cs := by
  rw [refer]
  cases hreferred : g.referred target with
  | error e => simp [Leads, hreferred, bind, Except.bind]
  | ok inner => simp [Leads, hreferred, ok_bind, expandWith_ok_iff]

theorem reference_ok_iff :
    (∃ cs, g.reference target = .ok cs) ↔
      (∃ inner, g.referred target = .ok inner ∧ rulesAreKeys inner = true) ∧
        ∀ other, g.Leads target other → ∃ cs, g.reference other = .ok cs := by
  rw [reference_eq]
  cases hreferred : g.referred target with
  | error e => simp [Leads, hreferred, bind, Except.bind]
  | ok inner => simp [Leads, hreferred, ok_bind, expand, expandWith_ok_iff]

/-- What a reference that stands for something leads to stands for something, at no greater depth.
-/
theorem refer_ok_of_leads {depth : Nat} (h : ∃ cs, g.refer depth target = .ok cs)
    (hleads : Relation.ReflTransGen g.Leads target other) :
    ∃ cs, g.refer depth other = .ok cs := by
  induction hleads with
  | refl => exact h
  | tail _ hleads ih =>
    cases depth with
    | zero =>
      obtain ⟨_, ih⟩ := ih
      cases ih
    | succ depth =>
      obtain ⟨cs, hcs⟩ := (refer_ok_iff.mp ih).2 _ hleads
      exact ⟨cs, ((refer_succ depth _).eq (by simp [hcs])).symm.trans hcs⟩

/-- A reference in a circle stands for nothing: each round would end one step earlier. -/
theorem not_circle_of_refer {depth : Nat} (h : ∃ cs, g.refer depth target = .ok cs) :
    ¬ Relation.TransGen g.Leads target target := by
  intro hcircle
  obtain ⟨other, hleads, hback⟩ := Relation.TransGen.head'_iff.mp hcircle
  induction depth with
  | zero =>
    obtain ⟨_, h⟩ := h
    cases h
  | succ depth ih => exact ih (refer_ok_of_leads ((refer_ok_iff.mp h).2 other hleads) hback)

theorem Meets.leads (h : g.Meets rules target) (hleads : g.Leads target other) :
    g.Meets rules other := by
  obtain ⟨first, hfirst, hchain⟩ := h
  exact ⟨first, hfirst, hchain.tail hleads⟩

/-- References that rules stand behind are known, so only finitely many lead to others. -/
theorem mem_known_of_leads (h : g.Leads target other) : target ∈ g.known := by
  obtain ⟨rules, hreferred, hmem⟩ := h
  refine mem_known_of_referred hreferred ?_
  rintro rfl
  cases hmem

/-- Without circles the references that are met can be gone through, each behind those that it leads
to. -/
theorem Unfolds.reference_ok (H : g.Unfolds rules) (h : g.Meets rules target) :
    ∃ cs, g.reference target = .ok cs := by
  let Known := { t : Json // t ∈ g.known ∧ g.Meets rules t }
  let above (x y : Known) : Prop := Relation.TransGen g.Leads y.1 x.1
  have hfinite : Finite Known :=
    ((List.finite_toSet g.known).subset fun _ h => h.1).to_subtype
  have htrans : IsTrans Known above := ⟨fun _ _ _ hxy hyz => hyz.trans hxy⟩
  have hirrefl : Std.Irrefl above := ⟨fun x => H.straight x.1 x.2.2⟩
  have hwf : WellFounded above := Finite.wellFounded_of_trans_of_irrefl above
  have hknown : ∀ x : Known, ∃ cs, g.reference x.1 = .ok cs := by
    intro x
    induction x using hwf.induction with
    | _ x ih =>
      refine reference_ok_iff.mpr ⟨H.refers x.1 x.2.2, fun other hleads => ?_⟩
      have hmeets := x.2.2.leads hleads
      by_cases hmem : other ∈ g.known
      · exact ih ⟨other, hmem, hmeets⟩ (.single hleads)
      · exact reference_ok_iff.mpr
          ⟨H.refers other hmeets, fun _ h => absurd (mem_known_of_leads h) hmem⟩
  by_cases hmem : target ∈ g.known
  · exact hknown ⟨target, hmem, h⟩
  · exact reference_ok_iff.mpr ⟨H.refers target h, fun _ h => absurd (mem_known_of_leads h) hmem⟩

/-- **When rules can be written out.** What rules stand for can be written out if and only if the
references that they lead to are texts, the rules behind these can be looked up, and no reference
leads back to itself. -/
theorem expand_ok_iff : (∃ cs, g.expand rules = .ok cs) ↔ g.Unfolds rules := by
  rw [expand, expandWith_ok_iff]
  constructor
  · rintro ⟨hkeys, hrefers⟩
    have hmeets : ∀ target, g.Meets rules target → ∃ cs, g.reference target = .ok cs :=
      fun target ⟨first, hfirst, hchain⟩ => refer_ok_of_leads (hrefers first hfirst) hchain
    exact ⟨hkeys, fun target h => (reference_ok_iff.mp (hmeets target h)).1,
      fun target h => not_circle_of_refer (hmeets target h)⟩
  · intro H
    exact ⟨H.keys, fun target hmem => H.reference_ok ⟨target, hmem, .refl⟩⟩

end Grammar

end Rubric
