import Rubric.Proofs.Line.Steady
import Rubric.Proofs.Pattern.Backreference

/-!
# Grammars that can be checked to be steady

Whether a grammar is steady is decided rule by rule, but for rules whose end refers to what they
began with.
-/

namespace Rubric

instance (captures : List (Int × Rule)) : Decidable (BareCaptures captures) :=
  inferInstanceAs (Decidable (_ ∧ _))

namespace Rule

/-- The pattern that the rule begins with. -/
def beginning? (rule : Rule) : Option Json :=
  match rule.reference, rule.single with
  | some _, _ => none
  | none, some pattern => some pattern
  | none, none => rule.opening

/-- All but the end of the rule is as it should be, if it begins with a pattern. -/
def checks (g : Grammar) (rule : Rule) : Bool :=
  match rule.beginning? with
  | none => true
  | some (.str pattern) =>
    Pattern.isPlain true pattern.toList && (g.compileRule rule).toBool &&
      rule.continuing.isNone && decide (BareCaptures rule.captures) &&
      decide (BareCaptures rule.openingCaptures) && decide (BareCaptures rule.closingCaptures)
  | some _ => false

/-- The rule matches once, or its end is a plain pattern without references. -/
def endsPlainly (rule : Rule) : Bool :=
  rule.beginning?.isNone || rule.single.isSome ||
    match rule.closing with
    | some (.str closing) =>
      !Pattern.refers closing.toList && Pattern.isPlain false closing.toList
    | _ => false

variable {engine : Regex.Engine} {g : Grammar} {rule : Rule} {pattern : Json}

theorem BeginsWith.beginning?_eq (h : rule.BeginsWith pattern) :
    rule.beginning? = some pattern := by
  obtain ⟨href, hsingle | ⟨hsingle, hopening⟩⟩ := h
  · simp [beginning?, href, hsingle]
  · simp [beginning?, href, hsingle, hopening]

theorem ends_of_endsPlainly (hE : engine.Sound) (hb : rule.BeginsWith pattern)
    (h : rule.endsPlainly = true) : rule.Ends engine pattern := by
  intro hsingle
  simp only [endsPlainly, hb.beginning?_eq, hsingle, Option.isNone_some, Option.isSome_none,
    Bool.false_or] at h
  split at h
  · next closing hclosing =>
    obtain ⟨hrefers, hplain⟩ := Bool.and_eq_true_iff.mp h
    refine ⟨closing, hclosing, fun _ text _ m _ => ⟨closing.toList, ?_, ?_⟩⟩
    · exact Pattern.expand_eq_self (by simpa using hrefers)
    · rw [String.ofList_toList]
      exact Pattern.fits_of_isPlain hE hplain
  · cases h

theorem steady_of_checks (hE : engine.Sound) (hb : rule.BeginsWith pattern)
    (h : rule.checks g = true) (hends : rule.Ends engine pattern) :
    rule.Steady engine g pattern := by
  rw [checks, hb.beginning?_eq] at h
  cases pattern with
  | str pattern =>
    simp only [Bool.and_eq_true, decide_eq_true_eq, Option.isNone_iff_eq_none] at h
    obtain ⟨⟨⟨⟨⟨hplain, hcomp⟩, hcontinuing⟩, hcaptures⟩, hopening⟩, hclosing⟩ := h
    refine ⟨Pattern.fits_of_isPlain hE hplain, ?_, hcontinuing, hcaptures, hopening, hclosing,
      hends⟩
    cases hc : g.compileRule rule with
    | ok compiled => exact ⟨compiled, rfl⟩
    | error e =>
      rw [hc] at hcomp
      cases hcomp
  | _ => cases h

end Rule

/-- A grammar whose rules are checked is steady, for every sound engine. -/
theorem Grammar.steady_of_checks {engine : Regex.Engine} {g : Grammar} (hE : engine.Sound)
    (hp : (g.expand g.patterns).toBool = true)
    (h : ∀ rule ∈ g.rules, rule.checks g = true)
    (hends : ∀ rule ∈ g.rules, ∀ pattern, rule.BeginsWith pattern → rule.Ends engine pattern) :
    g.Steady engine where
  patterns := by
    cases hc : g.expand g.patterns with
    | ok cs => exact ⟨cs, rfl⟩
    | error e =>
      rw [hc] at hp
      cases hp
  rules rule hmem pattern hb :=
    Rule.steady_of_checks hE hb (h rule hmem) (hends rule hmem pattern hb)

end Rubric
