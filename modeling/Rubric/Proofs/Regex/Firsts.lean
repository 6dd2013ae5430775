import Rubric.Proofs.Regex.Leads

/-!
# First characters

An expression that has to consume something, or to see it ahead, leads on only in front of certain
characters (`Node.Leads.firsts`). In front of another one its engine finds no match.
-/

namespace Rubric.Regex

/-- The characters in front of which the expression may lead on, and whether it may also lead on
without a look at them, and then stays where it is. There is no answer for expressions that compare
texts. -/
def Node.firsts : Node → Option (CharSet × Bool)
  | empty | anchor _ | keep | lookAhead true _ | lookBehind true _ _ => some (.empty, true)
  | one set => some (set, false)
  | folded _ | lineBreak | backref _ _ | call _ | lookBehind false _ _ => none
  | seq a b =>
    match a.firsts with
    | some (set, true) => b.firsts.map fun (more, free) => (set.join more, free)
    | found => found
  | alt a b =>
    match a.firsts, b.firsts with
    | some (set, free), some (more, free') => some (set.join more, free || free')
    | _, _ => none
  | group _ body | enclosed body | atomic body | lookAhead false body => body.firsts
  | loop min _ _ _ body => body.firsts.map fun (set, free) => (set, free || min == 0)

/-- One of the characters stands at the position. -/
def Subject.shows (s : Subject) (position : Nat) (set : CharSet) : Prop :=
  ∃ c, s.text[position]? = some c ∧ set.contains c = true

theorem CharSet.contains_join (a b : CharSet) (c : Char) :
    (a.join b).contains c = (a.contains c || b.contains c) := by
  cases a <;> cases b <;> simp [join, contains]

theorem Subject.shows.join {s : Subject} {position : Nat} {set : CharSet} (more : CharSet)
    (h : s.shows position set) : s.shows position (set.join more) := by
  obtain ⟨c, hc, hset⟩ := h
  exact ⟨c, hc, by rw [CharSet.contains_join, hset, Bool.true_or]⟩

theorem Subject.shows.join_right {s : Subject} {position : Nat} {more : CharSet} (set : CharSet)
    (h : s.shows position more) : s.shows position (set.join more) := by
  obtain ⟨c, hc, hset⟩ := h
  exact ⟨c, hc, by rw [CharSet.contains_join, hset, Bool.or_true]⟩

/-- From a place the expression may only lead on in front of these characters, or else stay. -/
def Begins (s : Subject) (set : CharSet) (free : Bool) (p q : Progress) : Prop :=
  s.shows p.position set ∨ free = true ∧ q.position = p.position

theorem Repeats.begins {s : Subject} {R : Progress → Progress → Prop} {set : CharSet} {free : Bool}
    {n : Nat} {p q : Progress} (hR : ∀ p q, R p q → Begins s set free p q) (H : Repeats R n p q) :
    Begins s set (free || n == 0) p q := by
  induction H with
  | none => exact .inr ⟨by simp, rfl⟩
  | @more p q r n hpq _ ih =>
    rcases hR _ _ hpq with h | ⟨hfree, hq⟩
    · exact .inl h
    · rcases ih with h | ⟨_, hr⟩
      · exact .inl (by rwa [hq] at h)
      · exact .inr ⟨by simp [hfree], hr.trans hq⟩

theorem Node.Leads.firsts {s : Subject} {node : Node} {set : CharSet} {free : Bool}
    {p q : Progress} (h : node.firsts = some (set, free)) (H : node.Leads s p q) :
    Begins s set free p q := by
  induction node generalizing set free p q with
  | empty =>
    cases h
    exact .inr ⟨rfl, congrArg Progress.position H⟩
  | anchor a =>
    cases h
    exact .inr ⟨rfl, congrArg Progress.position H.2⟩
  | keep =>
    cases h
    have hq : q = { p with start := p.position } := H
    exact .inr ⟨rfl, by rw [hq]⟩
  | one set' =>
    cases h
    obtain ⟨c, hc, hset, _⟩ := H
    exact .inl ⟨c, hc, hset⟩
  | folded _ | lineBreak | backref _ _ | call _ => cases h
  | seq a b iha ihb =>
    obtain ⟨r, hr, hq⟩ := H
    unfold Node.firsts at h
    split at h
    · next seta hseta =>
      obtain ⟨⟨more, free'⟩, hb, heq⟩ := Option.map_eq_some_iff.mp h
      cases heq
      rcases iha hseta hr with h | ⟨_, hpos⟩
      · exact .inl (h.join more)
      · rcases ihb hb hq with h | ⟨hfree, hpos'⟩
        · exact .inl (Subject.shows.join_right seta (by rwa [hpos] at h))
        · exact .inr ⟨hfree, hpos'.trans hpos⟩
    · next hne =>
      rcases iha h hr with hshows | ⟨hfree, _⟩
      · exact .inl hshows
      · rw [hfree] at h
        exact absurd h (hne set)
  | alt a b iha ihb =>
    unfold Node.firsts at h
    split at h
    · next seta freea setb freeb hseta hsetb =>
      cases h
      rcases H with H | H
      · rcases iha hseta H with h | ⟨hfree, hpos⟩
        · exact .inl (h.join setb)
        · exact .inr ⟨by simp [hfree], hpos⟩
      · rcases ihb hsetb H with h | ⟨hfree, hpos⟩
        · exact .inl (h.join_right seta)
        · exact .inr ⟨by simp [hfree], hpos⟩
    · cases h
  | group index body ih =>
    obtain ⟨r, hr, rfl⟩ := H
    have hbegins := ih h hr
    exact hbegins
  | enclosed body ih | atomic body ih => exact ih h H
  | lookAhead negative body ih =>
    cases negative with
    | true =>
      cases h
      exact .inr ⟨rfl, congrArg Progress.position H⟩
    | false =>
      obtain ⟨r, hr, rfl⟩ := H
      rcases ih h hr with h | ⟨hfree, _⟩
      · exact .inl h
      · exact .inr ⟨hfree, rfl⟩
  | lookBehind negative extent body ih =>
    cases negative with
    | true =>
      cases h
      exact .inr ⟨rfl, congrArg Progress.position H⟩
    | false => cases h
  | loop min max lazy watched body ih =>
    obtain ⟨n, hn, hmin, _⟩ := H
    obtain ⟨⟨set', free'⟩, hbody, heq⟩ := Option.map_eq_some_iff.mp h
    cases heq
    rcases hn.begins fun p q => ih hbody with h | ⟨hfree, hpos⟩
    · exact .inl h
    · refine .inr ⟨?_, hpos⟩
      simp only [Bool.or_eq_true, beq_iff_eq] at hfree ⊢
      exact hfree.imp_right fun hn => Nat.eq_zero_of_not_pos fun hpos => hmin (Nat.ne_of_gt hpos) hn

/-- A match of an expression that needs a character begins with one that it may begin with. -/
theorem Expression.Matches.firsts {r : Expression} {set : CharSet} {text : Array Char}
    {origin position : Nat} {m : Match} (h : r.root.firsts = some (set, false))
    (H : r.Matches text origin position m) :
    ∃ c, text[position]? = some c ∧ set.contains c = true := by
  obtain ⟨q, hq, _⟩ := H
  rcases hq.firsts h with h | ⟨hfree, _⟩
  · exact h
  · cases hfree

end Rubric.Regex
