import Rubric.Proofs.Regex.Layout

/-!
# Matches keep inside of the text

The engine of this library takes patterns of which `Node.Leads` says nothing, with calls, with
references to groups and with groups in look-behinds. Wherever those lead, they do not lead out of
the text: no match and no group of one ends behind it (`Engine.standard_keepsInside`).
-/

namespace Rubric.Regex

/-- Neither the position nor a group lies behind the first `size` characters. -/
structure Progress.Inside (size : Nat) (p : Progress) : Prop where
  position_le : p.position ≤ size
  groups_le : ∀ span, some span ∈ p.groups → span.2 ≤ size

/-- The match lies in the first `size` characters, and so do its groups. -/
structure Match.Inside (size : Nat) (m : Match) : Prop where
  le_stop : m.start ≤ m.stop
  stop_le : m.stop ≤ size
  groups_le : ∀ span, some span ∈ m.groups → span.2 ≤ size

/-- What the matcher finds in a text lies inside of it. -/
def Matcher.KeepsInside (matcher : Matcher) : Prop :=
  ∀ text origin position m, position ≤ text.size →
    matcher.attempt text origin position = some m → m.Inside text.size

/-- Whatever pattern the engine takes, its matches keep inside of the text. -/
def Engine.KeepsInside (engine : Engine) : Prop :=
  ∀ pattern matcher, engine.compile pattern = .ok matcher → matcher.KeepsInside

/-- What the matcher finds ends in the text, and not in front of the position that it was tried at.
Where it begins is left open. -/
def Matcher.Forward (matcher : Matcher) : Prop :=
  ∀ text origin position m, position ≤ text.size →
    matcher.attempt text origin position = some m → position ≤ m.stop ∧ m.stop ≤ text.size

/-- Whatever pattern the engine takes, its matches lead forward. -/
def Engine.Forward (engine : Engine) : Prop :=
  ∀ pattern matcher, engine.compile pattern = .ok matcher → matcher.Forward

namespace Progress.Inside
variable {size : Nat} {p q : Progress}

theorem moved {stop : Nat} (H : p.Inside size) (h : stop ≤ size) :
    Progress.Inside size { p with position := stop } :=
  ⟨h, H.groups_le⟩

theorem withSpan {index : Nat} {span : Option Span} (H : p.Inside size)
    (h : ∀ t, span = some t → t.2 ≤ size) : (p.withSpan index span).Inside size := by
  refine ⟨H.position_le, fun t ht => ?_⟩
  rcases List.mem_or_eq_of_mem_set ht with ht | ht
  · exact H.groups_le t ht
  · exact h t ht.symm

end Progress.Inside

/-- A step that starts inside of the text is followed inside of it. -/
abbrev Step.Stays (size : Nat) (step : Step) : Prop :=
  step.Follows fun p q => p.Inside size → q.Inside size

section
variable {size : Nat} {step : Step}

theorem Repeats.inside {n : Nat} {p q : Progress}
    (h : Repeats (fun p q => p.Inside size → q.Inside size) n p q) (hp : p.Inside size) :
    q.Inside size := by
  induction h with
  | none => exact hp
  | more h _ ih => exact ih (h hp)

theorem Step.Stays.captured (H : step.Stays size) (index : Nat) :
    (Step.captured index step).Stays size := by
  refine Step.Follows.captured index H fun p q hq hp => ?_
  have hin := hq (hp.withSpan fun t ht => nomatch ht)
  exact hin.withSpan fun t ht => by cases ht; exact hin.position_le

theorem Extent.behind_inside {extent : Extent} {step : (limit : Nat) → Step} {limit : Nat}
    {p q : Progress} (H : ∀ limit ≤ size, (step limit).Stays size) (hl : limit ≤ size)
    (hp : p.Inside size) (h : extent.behind step limit p = some q) : q.Inside size := by
  have hback (back : Nat) : Progress.Inside size { p with position := p.position - back } :=
    hp.moved (Nat.le_trans (Nat.sub_le _ _) hp.position_le)
  unfold Extent.behind at h
  split at h
  · split at h
    · cases h
    · exact (H limit hl).ends h (hback _)
  · obtain ⟨back, hq, _⟩ := Step.Follows.lookBack (H _ hp.position_le) h
    exact hq (hback back)

end

/-! ## The text of a group, repeated -/

namespace Subject
variable {s : Subject} {ignoreCase : Bool} {limit position : Nat}

theorem repetitionEnd?_le {stop left bytes e : Nat}
    (h : s.repetitionEnd? ignoreCase limit stop left bytes position = some e) :
    e = position ∨ e ≤ limit := by
  induction left generalizing bytes position with
  | zero =>
    cases h
    exact .inl rfl
  | succ left ih =>
    unfold repetitionEnd? at h
    split at h
    · next hb =>
      have hlt := lt_of_char? hb
      split at h
      · rcases ih h with rfl | h
        · exact .inr hlt
        · exact .inr h
      · cases h
    · cases h

theorem backrefEnd?_le {spans : List (Option Span)} {e : Nat}
    (h : s.backrefEnd? ignoreCase limit position spans = some e) : e = position ∨ e ≤ limit := by
  induction spans with
  | nil => cases h
  | cons span spans ih =>
    cases span with
    | none => exact ih h
    | some span =>
      simp only [backrefEnd?] at h
      split at h
      · cases h
      · split at h
        · next hstop =>
          cases h
          exact repetitionEnd?_le hstop
        · exact ih h

end Subject

/-! ## Expressions -/

/-- An expression does not lead out of the text, if calls do not. -/
theorem Node.run_stays {s : Subject} {call : Nat → (limit : Nat) → Step} {node : Node}
    (hcall : ∀ index, ∀ limit ≤ s.text.size, (call index limit).Stays s.text.size) {limit : Nat}
    (hl : limit ≤ s.text.size) : (node.run s call limit).Stays s.text.size := by
  induction node generalizing limit with
  | empty => exact .empty fun p => id
  | one set =>
    refine .one fun p c hc _ hp => hp.moved ?_
    have hlt := Subject.lt_of_char? hc
    omega
  | folded parts =>
    refine .folded fun p stop hstop hp => hp.moved ?_
    have hle := (Subject.foldedEnd?_le hstop).2.1
    have hpos := hp.position_le
    omega
  | lineBreak =>
    refine .lineBreak fun p stop hstop hp => hp.moved ?_
    have hle := Subject.lineBreakEnd?_le hstop
    omega
  | anchor a => exact .anchor fun p _ => id
  | keep => exact .keep fun p hp => ⟨hp.position_le, hp.groups_le⟩
  | seq a b iha ihb => exact .seq (iha hl) (ihb hl) fun p q q' hq hq' hp => hq' (hq hp)
  | alt a b iha ihb => exact .alt (iha hl) (ihb hl)
  | group index body ih =>
    exact .group (fun _ => hcall index limit hl) (Step.Stays.captured (ih hl) index)
  | enclosed body ih => exact ih hl
  | atomic body ih => exact .atomic (ih hl)
  | lookAhead negative body ih =>
    cases negative with
    | true => exact .notAhead fun p => id
    | false => exact .ahead fun p q hq hp => ((ih hl).ends hq hp).moved hp.position_le
  | lookBehind negative extent body ih =>
    cases negative with
    | true => exact .notBehind fun p => id
    | false => exact .behind fun p q hq hp => Extent.behind_inside (fun _ => ih) hl hp hq
  | loop min max lazy watched body ih =>
    exact .loop (ih hl) fun n p q hq _ _ => hq.inside
  | backref groups ignoreCase =>
    refine .backref fun p stop hstop hp => hp.moved ?_
    have hle := Subject.backrefEnd?_le hstop
    have hpos := hp.position_le
    omega
  | call index => exact hcall index limit hl

/-- Calls do not lead out of the text, however deep they are nested. -/
theorem Expression.enter_stays (r : Expression) (s : Subject) (depth index : Nat) {limit : Nat}
    (hl : limit ≤ s.text.size) : (r.enter s depth index limit).Stays s.text.size := by
  induction depth generalizing index limit with
  | zero => exact fun p k r h => nomatch h
  | succ depth ih =>
    have hbody : ((r.bodies.getD index .empty).run s (r.enter s depth) limit).Stays s.text.size :=
      Node.run_stays (fun index limit hl => ih index hl) hl
    intro p k q h
    unfold enter at h
    simp only at h
    split at h
    · exact hbody _ _ _ h
    · exact hbody.captured index _ _ _ h

/-- The engine of this library makes expressions ready. -/
theorem Engine.matcher_of_standard {pattern : List Char} {matcher : Matcher}
    (h : Engine.standard.compile pattern = .ok matcher) :
    ∃ r : Expression, matcher = r.matcher := by
  have hcompile : (Expression.compile pattern).map Expression.matcher = .ok matcher := h
  cases hr : Expression.compile pattern with
  | error e =>
    rw [hr] at hcompile
    cases hcompile
  | ok r =>
    rw [hr] at hcompile
    cases hcompile
    exact ⟨r, rfl⟩

theorem Engine.standard_keepsInside : Engine.standard.KeepsInside := by
  intro pattern matcher hcompile text origin position m hpos h
  obtain ⟨r, rfl⟩ := Engine.matcher_of_standard hcompile
  have hstart : Progress.Inside text.size ⟨position, position, List.replicate r.groups none⟩ := by
    refine ⟨hpos, fun span hspan => ?_⟩
    cases (List.mem_replicate.mp hspan).2
  have hcall (index limit : Nat) (hl : limit ≤ text.size) :=
    r.enter_stays ⟨text, origin, r.called⟩ callDepth index hl
  have hstays :
      (if r.called.contains 0 then r.enter ⟨text, origin, r.called⟩ callDepth 0 text.size
        else r.root.run ⟨text, origin, r.called⟩ (r.enter ⟨text, origin, r.called⟩ callDepth)
          text.size).Stays text.size := by
    split
    · exact hcall 0 text.size (Nat.le_refl _)
    · exact Node.run_stays hcall (Nat.le_refl _)
  simp only [Expression.matcher, Expression.attempt] at h
  split at h
  · next q hq =>
    split at h
    · cases h
    · have hin := hstays.ends hq hstart
      cases h
      exact ⟨Nat.min_le_right _ _, hin.position_le, hin.groups_le⟩
  · cases h

theorem Engine.standard_forward : Engine.standard.Forward := by
  intro pattern matcher hcompile text origin position m hpos h
  refine ⟨?_, (Engine.standard_keepsInside _ _ hcompile _ _ _ _ hpos h).stop_le⟩
  obtain ⟨r, rfl⟩ := Engine.matcher_of_standard hcompile
  simp only [Expression.matcher, Expression.attempt] at h
  split at h
  · split at h
    · cases h
    · next hlt =>
      cases h
      exact Nat.not_lt.mp hlt
  · cases h

end Rubric.Regex
