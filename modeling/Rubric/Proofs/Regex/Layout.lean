import Rubric.Proofs.Regex.Leads

/-!
# Where the groups of a match lie

An expression of the plain syntax leads forward, up to the end of the text at most, and its groups
lie in between: one that opens later lies behind an earlier one or in it (`Lays`, `Leads.lays`). If
`Node.advances` says so, it leads at least one character further.
-/

namespace Rubric.Regex

namespace Progress

theorem span?_withSpan_ne {p : Progress} {i j : Nat} {span : Option Span} (hi : 0 < i) (hj : 0 < j)
    (h : j ≠ i) : (p.withSpan i span).span? j = p.span? j := by
  have hne : i - 1 ≠ j - 1 := by omega
  simp only [span?, withSpan, List.getElem?_set_ne hne]

theorem span?_withSpan_self {p : Progress} {i : Nat} {span : Option Span} {t : Span}
    (h : (p.withSpan i span).span? i = some t) : span = some t := by
  simp only [span?, withSpan, List.getElem?_set_self', Option.join_eq_some_iff] at h
  cases hp : p.groups[i - 1]? with
  | none => simp [hp] at h
  | some old => simpa [hp] using h

@[simp] theorem position_withSpan (p : Progress) (i : Nat) (span : Option Span) :
    (p.withSpan i span).position = p.position := rfl

@[simp] theorem start_withSpan (p : Progress) (i : Nat) (span : Option Span) :
    (p.withSpan i span).start = p.start := rfl

@[simp] theorem length_withSpan (p : Progress) (i : Nat) (span : Option Span) :
    (p.withSpan i span).groups.length = p.groups.length := by
  simp [withSpan]

end Progress

/-- The second span lies behind the first or in it. -/
def Span.Follows (t u : Span) : Prop :=
  t.2 ≤ u.1 ∨ (t.1 ≤ u.1 ∧ u.2 ≤ t.2)

/-- None of the groups from `next` up to `last` has a span. -/
def Progress.Free (p : Progress) (next last : Nat) : Prop :=
  ∀ i, next ≤ i → i < last → p.span? i = none

/-- From `p` to `q`, the groups from `next` up to `last` at most get spans. -/
structure Lays (s : Subject) (next last : Nat) (p q : Progress) : Prop where
  position_le : p.position ≤ q.position
  start_eq : q.start = p.start
  le_size : p.position ≤ s.text.size → q.position ≤ s.text.size
  length_eq : q.groups.length = p.groups.length
  other : ∀ i, 0 < i → (i < next ∨ last ≤ i) → q.span? i = p.span? i
  inside : p.Free next last → ∀ i t, next ≤ i → i < last → q.span? i = some t →
    p.position ≤ t.1 ∧ t.1 ≤ t.2 ∧ t.2 ≤ q.position
  nested : p.Free next last → ∀ i j t u, next ≤ i → i < j → j < last → q.span? i = some t →
    q.span? j = some u → t.Follows u

namespace Lays
variable {s : Subject} {next mid last : Nat} {p q r : Progress}

/-- A part without groups, which leads forward. -/
theorem forward {stop : Nat} (h : p.position ≤ stop)
    (hs : p.position ≤ s.text.size → stop ≤ s.text.size) :
    Lays s next next p { p with position := stop } where
  position_le := h
  start_eq := rfl
  le_size := hs
  length_eq := rfl
  other _ _ _ := rfl
  inside _ i t h1 h2 := by omega
  nested _ i j t u h1 h2 h3 := by omega

theorem refl (s : Subject) (next : Nat) (p : Progress) : Lays s next next p p :=
  forward (Nat.le_refl _) id

theorem trans (h1 : Lays s next mid p r) (h2 : Lays s mid last r q) (hpos : 0 < next)
    (hnm : next ≤ mid) (hml : mid ≤ last) : Lays s next last p q := by
  have hold (i : Nat) (hi : next ≤ i) (him : i < mid) : q.span? i = r.span? i :=
    h2.other i (by omega) (.inl him)
  have hfree1 (h : p.Free next last) : p.Free next mid := fun i h1 h2 => h i h1 (by omega)
  have hfree2 (h : p.Free next last) : r.Free mid last := fun i hi hl => by
    rw [h1.other i (by omega) (.inr hi)]
    exact h i (by omega) hl
  refine ⟨Nat.le_trans h1.position_le h2.position_le, h2.start_eq.trans h1.start_eq,
    fun h => h2.le_size (h1.le_size h), h2.length_eq.trans h1.length_eq, fun i hi hout => ?_,
    fun hf i t hi hl ht => ?_, fun hf i j t u hi hij hl ht hu => ?_⟩
  · rw [h2.other i hi (by omega), h1.other i hi (by omega)]
  · have hp := h1.position_le
    have hr := h2.position_le
    by_cases him : i < mid
    · rw [hold i hi him] at ht
      have := h1.inside (hfree1 hf) i t hi him ht
      omega
    · have := h2.inside (hfree2 hf) i t (by omega) hl ht
      omega
  · by_cases hjm : j < mid
    · rw [hold j (by omega) hjm] at hu
      rw [hold i hi (by omega)] at ht
      exact h1.nested (hfree1 hf) i j t u hi hij hjm ht hu
    · by_cases him : i < mid
      · rw [hold i hi him] at ht
        have hin := h1.inside (hfree1 hf) i t hi him ht
        have hju := h2.inside (hfree2 hf) j u (by omega) hl hu
        exact .inl (by omega)
      · exact h2.nested (hfree2 hf) i j t u (by omega) hij hl ht hu

/-- Groups that get no spans may be counted as well. -/
theorem widen {next' last' : Nat} (h : Lays s next last p q) (hpos : 0 < next')
    (hn : next' ≤ next) (hl : last ≤ last') : Lays s next' last' p q := by
  have hout (hf : p.Free next' last') (i : Nat) (t : Span) (hi : next' ≤ i) (hil : i < last')
      (ht : q.span? i = some t) : next ≤ i ∧ i < last := by
    apply Classical.not_not.mp
    intro hc
    rw [h.other i (by omega) (by omega), hf i hi hil] at ht
    cases ht
  have hfree (hf : p.Free next' last') : p.Free next last :=
    fun i hi hil => hf i (by omega) (by omega)
  refine ⟨h.position_le, h.start_eq, h.le_size, h.length_eq, fun i hi ho => h.other i hi (by omega),
    fun hf i t hi hil ht => ?_, fun hf i j t u hi hij hjl ht hu => ?_⟩
  · have := hout hf i t hi hil ht
    exact h.inside (hfree hf) i t this.1 this.2 ht
  · have hi' := hout hf i t hi (by omega) ht
    have hj' := hout hf j u (by omega) hjl hu
    exact h.nested (hfree hf) i j t u hi'.1 hij hj'.2 ht hu

/-- A group gets its span around those of the groups in it. -/
theorem captured (h : Lays s (next + 1) last (p.withSpan next none) r) (hpos : 0 < next)
    (hl : next < last) :
    Lays s next last p (r.withSpan next (some (p.position, r.position))) := by
  have hfree (hf : p.Free next last) : (p.withSpan next none).Free (next + 1) last :=
    fun i hi hil => by
      rw [Progress.span?_withSpan_ne hpos (by omega) (by omega)]
      exact hf i (by omega) hil
  have hpos' := h.position_le
  simp only [Progress.position_withSpan] at hpos'
  refine ⟨hpos', h.start_eq, h.le_size, ?_, fun i hi ho => ?_, fun hf i t hi hil ht => ?_,
    fun hf i j t u hi hij hjl ht hu => ?_⟩
  · rw [Progress.length_withSpan, h.length_eq, Progress.length_withSpan]
  · rw [Progress.span?_withSpan_ne hpos hi (by omega), h.other i hi (by omega),
      Progress.span?_withSpan_ne hpos hi (by omega)]
  · by_cases hin : i = next
    · subst hin
      cases Progress.span?_withSpan_self ht
      exact ⟨Nat.le_refl _, hpos', Nat.le_refl _⟩
    · rw [Progress.span?_withSpan_ne hpos (by omega) hin] at ht
      exact h.inside (hfree hf) i t (by omega) hil ht
  · rw [Progress.span?_withSpan_ne hpos (by omega) (by omega)] at hu
    by_cases hin : i = next
    · subst hin
      cases Progress.span?_withSpan_self ht
      have := h.inside (hfree hf) j u (by omega) hjl hu
      exact .inr ⟨this.1, this.2.2⟩
    · rw [Progress.span?_withSpan_ne hpos (by omega) hin] at ht
      exact h.nested (hfree hf) i j t u (by omega) hij hjl ht hu

/-- An assertion leaves the position and the groups as they were. -/
theorem asserted (h : Lays s next next p r) :
    Lays s next next p { r with position := p.position } where
  position_le := Nat.le_refl _
  start_eq := h.start_eq
  le_size := id
  length_eq := h.length_eq
  other := h.other
  inside _ i t h1 h2 := by omega
  nested _ i j t u h1 h2 h3 := by omega

theorem repeats {R : Progress → Progress → Prop} (hR : ∀ p q, R p q → Lays s next next p q)
    (hpos : 0 < next) {n : Nat} (h : Repeats R n p q) : Lays s next next p q := by
  induction h with
  | none => exact refl s next _
  | more h _ ih => exact (hR _ _ h).trans ih hpos (Nat.le_refl _) (Nat.le_refl _)

end Lays

/-! ## The ends of texts -/

namespace Subject
variable {s : Subject} {limit position stop : Nat}

theorem lt_of_char? {c : Char} (h : s.char? limit position = some c) : position < limit := by
  unfold char? at h
  split at h
  · assumption
  · cases h

theorem lettersEnd?_le {letters : List Nat} (h : s.lettersEnd? limit position letters = some stop) :
    position + letters.length = stop ∧ (letters = [] ∨ stop ≤ limit) := by
  induction letters generalizing position with
  | nil => cases h; exact ⟨rfl, .inl rfl⟩
  | cons letter letters ih =>
    unfold lettersEnd? at h
    split at h
    · next c hc =>
      split at h
      · have hlt := lt_of_char? hc
        obtain ⟨heq, hle⟩ := ih h
        rw [List.length_cons]
        refine ⟨by omega, .inr ?_⟩
        rcases hle with rfl | hle
        · simp only [List.length_nil] at heq; omega
        · exact hle
      · cases h
    · cases h

theorem partEnd?_le {part : List Nat} (h : s.partEnd? limit position part = some stop) :
    position ≤ stop ∧ stop ≤ limit ∧ (part ≠ [] → position < stop) := by
  unfold partEnd? at h
  split at h
  · next c hc =>
    have hlt := lt_of_char? hc
    split at h
    · cases h
      exact ⟨Nat.le_succ _, hlt, fun _ => Nat.lt_succ_self _⟩
    · obtain ⟨heq, hle⟩ := lettersEnd?_le h
      refine ⟨by omega, ?_, fun hp => ?_⟩
      · rcases hle with rfl | hle
        · simp only [List.length_nil] at heq; omega
        · exact hle
      · have := List.length_pos_iff.mpr hp
        omega
  · cases h

theorem foldedEnd?_le {parts : List (List Nat)}
    (h : s.foldedEnd? limit position parts = some stop) :
    position ≤ stop ∧ (stop = position ∨ stop ≤ limit) ∧
      ((∃ part ∈ parts, part ≠ []) → position < stop) := by
  induction parts generalizing position with
  | nil =>
    cases h
    exact ⟨Nat.le_refl _, .inl rfl, fun ⟨_, h, _⟩ => nomatch h⟩
  | cons part parts ih =>
    obtain ⟨mid, hpart, h⟩ := Option.bind_eq_some_iff.mp h
    obtain ⟨h1, h2, h3⟩ := partEnd?_le hpart
    obtain ⟨h4, h5, h6⟩ := ih h
    refine ⟨by omega, .inr (by omega), fun ⟨x, hx, hne⟩ => ?_⟩
    rcases List.mem_cons.mp hx with rfl | hx
    · have := h3 hne
      omega
    · have := h6 ⟨x, hx, hne⟩
      omega

theorem lineBreakEnd?_le (h : s.lineBreakEnd? limit position = some stop) :
    position < stop ∧ stop ≤ limit := by
  unfold lineBreakEnd? at h
  split at h
  · next hc =>
    have := lt_of_char? hc
    split at h
    · next hn =>
      have := lt_of_char? (beq_iff_eq.mp hn)
      cases h
      omega
    · cases h
      omega
  · next hc =>
    have := lt_of_char? hc
    split at h
    · cases h
      omega
    · cases h
  · cases h

end Subject

/-! ## Expressions of the plain syntax -/

namespace Node

theorem number_le {node : Node} {next last : Nat} (h : node.number next = some last) :
    next ≤ last := by
  induction node generalizing next last with
  | empty | one _ | folded _ | lineBreak | anchor _ =>
    cases h
    exact Nat.le_refl _
  | keep | backref _ _ | call _ => cases h
  | seq a b iha ihb | alt a b iha ihb =>
    obtain ⟨mid, ha, hb⟩ := Option.bind_eq_some_iff.mp h
    exact Nat.le_trans (iha ha) (ihb hb)
  | group index body ih => exact Nat.le_trans (Nat.le_succ _) (ih (number_group.mp h).2)
  | enclosed body ih | atomic body ih => exact ih h
  | lookAhead negative body => exact Nat.le_of_eq (number_lookAhead.mp h).2
  | lookBehind negative extent body =>
    cases negative with
    | false => cases h
    | true => exact Nat.le_of_eq (number_notBehind.mp h).2
  | loop min max lazy watched body ih => exact ih (number_loop.mp h).1

theorem Leads.lays {s : Subject} {node : Node} {next last : Nat} {p q : Progress}
    (H : node.Leads s p q) (hn : node.number next = some last) (hpos : 0 < next) :
    Lays s next last p q := by
  induction node generalizing next last p q with
  | empty =>
    cases hn
    cases H
    exact .refl s next p
  | one set =>
    cases hn
    obtain ⟨c, hc, _, rfl⟩ := H
    have hlt := (Array.getElem?_eq_some_iff.mp hc).1
    exact .forward (Nat.le_succ _) fun _ => hlt
  | folded parts =>
    cases hn
    obtain ⟨limit, hl, stop, hstop, rfl⟩ := H
    have := Subject.foldedEnd?_le hstop
    exact .forward this.1 fun _ => by omega
  | lineBreak =>
    cases hn
    obtain ⟨limit, hl, stop, hstop, rfl⟩ := H
    have := Subject.lineBreakEnd?_le hstop
    exact .forward (by omega) fun _ => by omega
  | anchor a =>
    cases hn
    obtain ⟨_, rfl⟩ := H
    exact .refl s next q
  | keep | backref _ _ | call _ => cases hn
  | seq a b iha ihb =>
    obtain ⟨mid, ha, hb⟩ := Option.bind_eq_some_iff.mp hn
    obtain ⟨r, hr, hq⟩ := H
    have hnm := number_le ha
    exact (iha hr ha hpos).trans (ihb hq hb (by omega)) hpos hnm (number_le hb)
  | alt a b iha ihb =>
    obtain ⟨mid, ha, hb⟩ := Option.bind_eq_some_iff.mp hn
    have hnm := number_le ha
    rcases H with H | H
    · exact (iha H ha hpos).widen hpos (Nat.le_refl _) (number_le hb)
    · exact (ihb H hb (by omega)).widen hpos hnm (Nat.le_refl _)
  | group index body ih =>
    obtain ⟨rfl, hbody⟩ := number_group.mp hn
    obtain ⟨r, hr, rfl⟩ := H
    exact (ih hr hbody (Nat.succ_pos _)).captured hpos (number_le hbody)
  | enclosed body ih | atomic body ih => exact ih H hn hpos
  | lookAhead negative body ih =>
    obtain ⟨hbody, rfl⟩ := number_lookAhead.mp hn
    cases negative with
    | true =>
      cases H
      exact .refl s _ p
    | false =>
      obtain ⟨r, hr, rfl⟩ := H
      exact (ih hr hbody hpos).asserted
  | lookBehind negative extent body =>
    cases negative with
    | false => cases hn
    | true =>
      obtain ⟨_, rfl⟩ := number_notBehind.mp hn
      cases H
      exact .refl s _ p
  | loop min max lazy watched body ih =>
    obtain ⟨hbody, hor⟩ := number_loop.mp hn
    obtain ⟨n, hrep, _, hmax⟩ := H
    rcases hor with rfl | ⟨hmin, rfl⟩
    · exact .repeats (fun p q h => ih h hbody hpos) hpos hrep
    · have hone := hmax 1 rfl hmin
      cases hrep with
      | none => exact (Lays.refl s next p).widen hpos (Nat.le_refl _) (number_le hbody)
      | more h hrest =>
        cases hrest with
        | none => exact ih h hbody hpos
        | more _ _ => omega

/-- Every match consumes a character. -/
def advances : Node → Bool
  | one _ | lineBreak => true
  | folded parts => parts.any (!·.isEmpty)
  | seq a b => a.advances || b.advances
  | alt a b => a.advances && b.advances
  | group _ body | enclosed body | atomic body => body.advances
  | loop min _ _ _ body => min != 0 && body.advances
  | empty | anchor _ | keep | lookAhead _ _ | lookBehind _ _ _ | backref _ _ | Node.call _ => false

theorem Leads.lt {s : Subject} {node : Node} {next last : Nat} {p q : Progress}
    (H : node.Leads s p q) (hn : node.number next = some last) (hpos : 0 < next)
    (hc : node.advances = true) : p.position < q.position := by
  induction node generalizing next last p q with
  | empty | keep | backref _ _ | call _ | anchor _ | lookAhead _ _ | lookBehind _ _ _ => cases hc
  | one set =>
    obtain ⟨_, _, _, rfl⟩ := H
    exact Nat.lt_succ_self _
  | folded parts =>
    obtain ⟨limit, _, stop, hstop, rfl⟩ := H
    obtain ⟨part, hpart, hne⟩ := List.any_eq_true.mp hc
    exact (Subject.foldedEnd?_le hstop).2.2 ⟨part, hpart, by simpa using hne⟩
  | lineBreak =>
    obtain ⟨limit, _, stop, hstop, rfl⟩ := H
    exact (Subject.lineBreakEnd?_le hstop).1
  | seq a b iha ihb =>
    obtain ⟨mid, ha, hb⟩ := Option.bind_eq_some_iff.mp hn
    obtain ⟨r, hr, hq⟩ := H
    have hmid : 0 < mid := Nat.lt_of_lt_of_le hpos (number_le ha)
    have h1 := (Leads.lays hr ha hpos).position_le
    have h2 := (Leads.lays hq hb hmid).position_le
    rcases Bool.or_eq_true_iff.mp hc with hc | hc
    · have := iha hr ha hpos hc
      omega
    · have := ihb hq hb hmid hc
      omega
  | alt a b iha ihb =>
    obtain ⟨mid, ha, hb⟩ := Option.bind_eq_some_iff.mp hn
    obtain ⟨hca, hcb⟩ := Bool.and_eq_true_iff.mp hc
    rcases H with H | H
    · exact iha H ha hpos hca
    · exact ihb H hb (Nat.lt_of_lt_of_le hpos (number_le ha)) hcb
  | group index body ih =>
    obtain ⟨r, hr, rfl⟩ := H
    have hlt := ih hr (number_group.mp hn).2 (Nat.succ_pos _) hc
    exact hlt
  | enclosed body ih | atomic body ih => exact ih H hn hpos hc
  | loop min max lazy watched body ih =>
    obtain ⟨hmin, hc⟩ := Bool.and_eq_true_iff.mp hc
    have hbody := (number_loop.mp hn).1
    obtain ⟨n, hrep, hle, _⟩ := H
    have hmono : ∀ {n p q}, Repeats (body.Leads s) n p q → p.position ≤ q.position := by
      intro n p q h
      induction h with
      | none => exact Nat.le_refl _
      | more h _ ih => exact Nat.le_trans (Leads.lays h hbody hpos).position_le ih
    cases hrep with
    | none => exact absurd rfl (hle (by simpa using hmin))
    | more h hrest => exact Nat.lt_of_lt_of_le (ih h hbody hpos hc) (hmono hrest)

end Node

/-! ## Matches -/

namespace Match

/-- The span of a group, 0 for the whole match. -/
def span? (m : Match) (index : Nat) : Option Span :=
  ((some (m.start, m.stop) :: m.groups)[index]?).join

/-- The match begins at the position and ends in the text, and its groups lie in it, later ones
behind earlier ones or in them. -/
structure Laid (size position : Nat) (m : Match) : Prop where
  start_eq : m.start = position
  le_stop : position ≤ m.stop
  stop_le : m.stop ≤ size
  inside : ∀ i t, m.span? i = some t → m.start ≤ t.1 ∧ t.2 ≤ m.stop
  nested : ∀ i j t u, i < j → m.span? i = some t → m.span? j = some u → t.Follows u

theorem span?_zero (m : Match) : m.span? 0 = some (m.start, m.stop) := rfl

end Match

namespace Expression
variable {r : Expression} {text : Array Char} {origin position : Nat} {m : Match}

theorem number_of_isPlain (h : r.isPlain = true) : r.root.number 1 = some (r.groups + 1) :=
  beq_iff_eq.mp (Bool.and_eq_true_iff.mp h).2

theorem Matches.laid (H : r.Matches text origin position m) (h : r.isPlain = true)
    (hpos : position ≤ text.size) : m.Laid text.size position := by
  obtain ⟨q, hq, rfl⟩ := H
  have hl := hq.lays (number_of_isPlain h) Nat.one_pos
  have hle : position ≤ q.position := hl.position_le
  have hstart : q.start = position := hl.start_eq
  have hlength : q.groups.length = r.groups := by
    rw [hl.length_eq, List.length_replicate]
  have hfree : Progress.Free ⟨position, position, List.replicate r.groups none⟩ 1 (r.groups + 1) :=
    fun i hi hlt => by
      have : i - 1 < r.groups := by omega
      simp [Progress.span?, this]
  have hspan (i : Nat) (t : Span) (hi : 0 < i)
      (ht : Match.span? ⟨min q.start q.position, q.position, q.groups⟩ i = some t) :
      q.span? i = some t ∧ i < r.groups + 1 := by
    obtain ⟨i, rfl⟩ := Nat.exists_eq_succ_of_ne_zero (Nat.ne_of_gt hi)
    simp only [Match.span?, List.getElem?_cons_succ] at ht
    refine ⟨ht, ?_⟩
    obtain ⟨hlt, _⟩ := List.getElem?_eq_some_iff.mp (Option.join_eq_some_iff.mp ht)
    omega
  have hmin : min q.start q.position = position := by omega
  refine ⟨hmin, hle, hl.le_size hpos, fun i t ht => ?_, fun i j t u hij ht hu => ?_⟩
  · cases i with
    | zero =>
      rw [Match.span?_zero] at ht
      cases ht
      exact ⟨Nat.le_refl _, Nat.le_refl _⟩
    | succ i =>
      obtain ⟨ht, hlt⟩ := hspan (i + 1) t (Nat.succ_pos i) ht
      have := hl.inside hfree (i + 1) t (Nat.succ_pos i) hlt ht
      simp only [hmin]
      exact ⟨this.1, this.2.2⟩
  · obtain ⟨hu, hlt⟩ := hspan j u (by omega) hu
    have hin := hl.inside hfree j u (by omega) hlt hu
    cases i with
    | zero =>
      rw [Match.span?_zero] at ht
      cases ht
      simp only [hmin]
      exact .inr ⟨hin.1, hin.2.2⟩
    | succ i =>
      obtain ⟨ht, _⟩ := hspan (i + 1) t (Nat.succ_pos i) ht
      exact hl.nested hfree (i + 1) j t u (Nat.succ_pos i) hij hlt ht hu

theorem Matches.lt_stop (H : r.Matches text origin position m) (h : r.isPlain = true)
    (ha : r.root.advances = true) : position < m.stop := by
  obtain ⟨q, hq, rfl⟩ := H
  exact hq.lt (number_of_isPlain h) Nat.one_pos ha

end Expression

end Rubric.Regex
