import Rubric.Grammar.Check
import Rubric.Proofs.Grammar.Checked

/-!
# Grammars that pass the check before their first use

The check goes through all patterns of a grammar. Where captures have none, these are the patterns
of its rules (`Grammar.exists_of_mem_checked`), and a sound engine takes those of a rule that is
checked to be steady. So such a grammar passes the check with every sound engine.
-/

namespace Rubric

namespace Rule

/-- The patterns of the rule itself that are checked. -/
def ownChecked (rule : Rule) : List (Except Misuse Json) :=
  (rule.single.toList ++ rule.opening.toList).map .ok ++
    (withoutReferences rule.closing ++ withoutReferences rule.continuing)

/-- The patterns of the captures of the rule that are checked. -/
def captureChecked (rule : Rule) : List (Except Misuse Json) :=
  capturesChecked rule.captures ++ capturesChecked rule.openingCaptures ++
    capturesChecked rule.closingCaptures ++ capturesChecked rule.continuingCaptures

/-- The rule has the patterns that one of its kind uses, and its captures have none. -/
def isTidy (rule : Rule) : Bool :=
  rule.captureChecked.isEmpty && rule.continuing.isNone &&
    match rule.beginning?, rule.single with
    | none, _ => rule.ownChecked.isEmpty
    | some _, some _ => rule.opening.isNone && rule.closing.isNone
    | some _, none => true

/-- The end of the rule refers to what the rule began with. -/
def endsReferring (rule : Rule) : Bool :=
  match rule.closing with
  | some (.str closing) => Pattern.refers closing.toList
  | _ => false

theorem checked_eq (rule : Rule) :
    rule.checked = rule.ownChecked ++ rule.captureChecked ++ rulesChecked rule.children := by
  cases rule
  rfl

end Rule

/-! ## The patterns of a grammar -/

mutual

theorem Rule.exists_of_mem_checked {p : Except Misuse Json} : ∀ rule : Rule,
    (∀ r ∈ rule.within, r.captureChecked = []) → p ∈ rule.checked →
      ∃ r ∈ rule.within, p ∈ r.ownChecked
  | ⟨scopes, single, opening, closing, continuing, contentScopes, captures, openingCaptures,
      closingCaptures, continuingCaptures, reference, children⟩, hquiet, h => by
    have hself := hquiet _ (Rule.mem_within _)
    rw [Rule.checked_eq, hself, List.append_nil] at h
    rcases List.mem_append.mp h with h | h
    · exact ⟨_, Rule.mem_within _, h⟩
    · rw [Rule.within_eq] at hquiet ⊢
      obtain ⟨r, hr, hp⟩ := exists_of_mem_rulesChecked children
        (fun r hr => hquiet r (List.mem_cons_of_mem _ hr)) h
      exact ⟨r, List.mem_cons_of_mem _ hr, hp⟩

theorem exists_of_mem_rulesChecked {p : Except Misuse Json} : ∀ rules : List Rule,
    (∀ r ∈ rulesWithin rules, r.captureChecked = []) → p ∈ rulesChecked rules →
      ∃ r ∈ rulesWithin rules, p ∈ r.ownChecked
  | [], _, h => nomatch h
  | rule :: rest, hquiet, h => by
    rcases List.mem_append.mp h with h | h
    · obtain ⟨r, hr, hp⟩ := Rule.exists_of_mem_checked rule
        (fun r hr => hquiet r (List.mem_append_left _ hr)) h
      exact ⟨r, List.mem_append_left _ hr, hp⟩
    · obtain ⟨r, hr, hp⟩ := exists_of_mem_rulesChecked rest
        (fun r hr => hquiet r (List.mem_append_right _ hr)) h
      exact ⟨r, List.mem_append_right _ hr, hp⟩

end

theorem Grammar.exists_of_mem_checked {g : Grammar} {p : Except Misuse Json}
    (hquiet : ∀ r ∈ g.rules, r.captureChecked = []) (h : p ∈ g.checked) :
    ∃ r ∈ g.rules, p ∈ r.ownChecked := by
  rcases List.mem_append.mp h with h | h
  · obtain ⟨r, hr, hp⟩ := exists_of_mem_rulesChecked _
      (fun r hr => hquiet r (List.mem_append_left _ hr)) h
    exact ⟨r, List.mem_append_left _ hr, hp⟩
  · obtain ⟨r, hr, hp⟩ := exists_of_mem_rulesChecked _
      (fun r hr => hquiet r (List.mem_append_right _ hr)) h
    exact ⟨r, List.mem_append_right _ hr, hp⟩

/-! ## What a sound engine takes -/

section
variable {engine : Regex.Engine} {g : Grammar}

/-- The pattern is one that the engine takes. -/
def Regex.Engine.Takes (engine : Regex.Engine) (p : Except Misuse Json) : Prop :=
  ∃ (s : String) (matcher : Regex.Matcher), p = .ok (.str s) ∧ engine.compile s.toList = .ok matcher

theorem Regex.Engine.Sound.takes {strict : Bool} {s : String} (hE : engine.Sound)
    (h : Pattern.isPlain strict s.toList = true) : engine.Takes (.ok (.str s)) := by
  simp only [Pattern.isPlain, Bool.and_eq_true] at h
  obtain ⟨_, hplain⟩ := h
  split at hplain
  · next r hr =>
    obtain ⟨matcher, hcompile, _⟩ := hE s.toList r hr (Bool.and_eq_true_iff.mp hplain).1
    exact ⟨s, matcher, rfl, hcompile⟩
  · cases hplain

theorem Grammar.checkPattern_of_takes {p : Except Misuse Json} (scope : String)
    (h : engine.Takes p) : checkPattern engine scope p = .ok () := by
  obtain ⟨s, matcher, rfl, hcompile⟩ := h
  unfold checkPattern
  simp only [Except.mapError, ok_bind, hcompile]
  rfl

namespace Rule
variable {rule : Rule} {p : Except Misuse Json}

theorem takes_beginning {pattern : Json} (hE : engine.Sound) (h : rule.checks g = true)
    (hb : rule.beginning? = some pattern) : engine.Takes (.ok pattern) := by
  rw [checks, hb] at h
  cases pattern with
  | str s =>
    simp only [Bool.and_eq_true] at h
    exact hE.takes h.1.1.1.1.1
  | _ => cases h

theorem takes_closing (hE : engine.Sound) (hb : rule.beginning? ≠ none) (hs : rule.single = none)
    (hends : rule.endsPlainly = true ∨ rule.endsReferring = true)
    (hp : p ∈ withoutReferences rule.closing) : engine.Takes p := by
  have hb : rule.beginning?.isNone = false := by
    rwa [← Bool.not_eq_true, Option.isNone_iff_eq_none]
  simp only [endsPlainly, hb, hs, Option.isSome_none, Bool.false_or, endsReferring] at hends
  cases hc : rule.closing with
  | none => rw [hc] at hp; cases hp
  | some closing =>
    rw [hc] at hp hends
    cases closing with
    | str s =>
      simp only [withoutReferences] at hp
      split at hp
      · cases hp
      · next hrefers =>
        simp only [hrefers, Bool.false_eq_true, or_false, Bool.and_eq_true] at hends
        cases List.mem_singleton.mp hp
        exact hE.takes hends.2
    | _ => simp at hends

/-- A sound engine takes the patterns of a rule that is checked. -/
theorem takes_of_mem_ownChecked (hE : engine.Sound) (h : rule.checks g = true)
    (hends : rule.endsPlainly = true ∨ rule.endsReferring = true) (htidy : rule.isTidy = true)
    (hp : p ∈ rule.ownChecked) : engine.Takes p := by
  simp only [isTidy, Bool.and_eq_true] at htidy
  obtain ⟨⟨_, hcontinuing⟩, htidy⟩ := htidy
  have hcontinuing := Option.isNone_iff_eq_none.mp hcontinuing
  cases hb : rule.beginning? with
  | none =>
    rw [hb] at htidy
    rw [List.isEmpty_iff.mp htidy] at hp
    cases hp
  | some pattern =>
    have htakes := takes_beginning hE h hb
    have href : rule.reference = none := by
      cases hr : rule.reference with
      | none => rfl
      | some target => simp [beginning?, hr] at hb
    cases hs : rule.single with
    | some single =>
      simp only [hb, hs, Bool.and_eq_true, Option.isNone_iff_eq_none] at htidy
      simp only [ownChecked, hs, htidy.1, htidy.2, hcontinuing] at hp
      simp only [beginning?, href, hs, Option.some.injEq] at hb
      cases List.mem_singleton.mp hp
      rw [hb]
      exact htakes
    | none =>
      simp only [beginning?, href, hs] at hb
      simp only [ownChecked, hs, hb, hcontinuing, withoutReferences, List.append_nil] at hp
      rcases List.mem_append.mp hp with hp | hp
      · cases List.mem_singleton.mp hp
        exact htakes
      · exact takes_closing hE (by simp [beginning?, href, hs, hb]) hs hends hp

end Rule

/-- A grammar whose rules are checked passes the check of its patterns. -/
theorem Grammar.check_of_checks (hE : engine.Sound) (h : ∀ rule ∈ g.rules, rule.checks g = true)
    (hends : ∀ rule ∈ g.rules, rule.endsPlainly = true ∨ rule.endsReferring = true)
    (htidy : ∀ rule ∈ g.rules, rule.isTidy = true) (scope : String) :
    g.check engine scope = .ok () := by
  have hquiet : ∀ r ∈ g.rules, r.captureChecked = [] := fun r hr => by
    have := htidy r hr
    simp only [Rule.isTidy, Bool.and_eq_true] at this
    exact List.isEmpty_iff.mp this.1.1
  have hall : ∀ p ∈ g.checked, checkPattern engine scope p = .ok () := fun p hp => by
    obtain ⟨r, hr, hp⟩ := exists_of_mem_checked hquiet hp
    exact checkPattern_of_takes scope
      (Rule.takes_of_mem_ownChecked hE (h r hr) (hends r hr) (htidy r hr) hp)
  unfold check
  generalize g.checked = patterns at hall
  induction patterns with
  | nil => rfl
  | cons p rest ih =>
    rw [List.forM, hall p (List.mem_cons_self ..), ok_bind]
    exact ih fun q hq => hall q (List.mem_cons_of_mem _ hq)

end

end Rubric
