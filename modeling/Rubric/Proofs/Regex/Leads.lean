import Rubric.Regex.Search

/-!
# What a match says about the text

`Node.Leads` says to which places an expression leads from a place in a text, in whatever order they
are tried. An engine is `Sound` if it takes the patterns of the plain syntax, those without calls,
and finds a match only where the expression leads to one. The engine of this library is sound
(`Engine.standard_sound`); what the library does with a sound engine needs no more than that.
-/

namespace Rubric.Regex

/-- So many steps of a relation, one after another. -/
inductive Repeats (R : Progress → Progress → Prop) : Nat → Progress → Progress → Prop
  | none : Repeats R 0 p p
  | more : R p q → Repeats R n q r → Repeats R (n + 1) p r

/-- The expression leads from one place to another. A call leads nowhere. -/
def Node.Leads (s : Subject) : Node → Progress → Progress → Prop
  | empty, p, q => q = p
  | one set, p, q =>
    ∃ c, s.text[p.position]? = some c ∧ set.contains c ∧ q = { p with position := p.position + 1 }
  | folded parts, p, q =>
    ∃ limit ≤ s.text.size, ∃ stop, s.foldedEnd? limit p.position parts = some stop ∧
      q = { p with position := stop }
  | lineBreak, p, q =>
    ∃ limit ≤ s.text.size, ∃ stop, s.lineBreakEnd? limit p.position = some stop ∧
      q = { p with position := stop }
  | anchor a, p, q => s.holds p.position a ∧ q = p
  | keep, p, q => q = { p with start := p.position }
  | seq a b, p, q => ∃ r, a.Leads s p r ∧ b.Leads s r q
  | alt a b, p, q => a.Leads s p q ∨ b.Leads s p q
  | group index body, p, q =>
    ∃ r, body.Leads s (p.withSpan index none) r ∧
      q = r.withSpan index (some (p.position, r.position))
  | enclosed body, p, q | atomic body, p, q => body.Leads s p q
  | lookAhead negative body, p, q =>
    if negative then q = p else ∃ r, body.Leads s p r ∧ q = { r with position := p.position }
  | lookBehind negative _ body, p, q =>
    if negative then q = p else ∃ back, body.Leads s { p with position := p.position - back } q
  | loop min max _ _ body, p, q =>
    ∃ n, Repeats (body.Leads s) n p q ∧ (min ≠ 0 → n ≠ 0) ∧ ∀ m, max = some m → min ≤ m → n ≤ m
  | backref groups ignoreCase, p, q =>
    ∃ limit ≤ s.text.size, ∃ stop,
      s.backrefEnd? ignoreCase limit p.position (groups.reverse.map p.span?) = some stop ∧
        q = { p with position := stop }
  | Node.call _, _, _ => False

/-- The number of the group behind the expression, if its groups are numbered from `next` on in the
order in which they open. Each group captures at most once, and none in an assertion. -/
def Node.number : Node → (next : Nat) → Option Nat
  | empty, next | one _, next | folded _, next | lineBreak, next | anchor _, next => some next
  | seq a b, next | alt a b, next => (a.number next).bind b.number
  | group index body, next => if index = next then body.number (next + 1) else none
  | enclosed body, next | atomic body, next => body.number next
  | lookAhead _ body, next | lookBehind true _ body, next =>
    if body.number next = some next then some next else none
  | loop min max _ _ body, next =>
    match body.number next with
    | some last => if last = next ∨ min ≤ 1 ∧ max = some 1 then some last else none
    | none => none
  | keep, _ | lookBehind false _ _, _ | backref _ _, _ | Node.call _, _ => none

namespace Node
variable {body : Node} {next last : Nat}

theorem number_group {index : Nat} : (Node.group index body).number next = some last ↔
    index = next ∧ body.number (next + 1) = some last :=
  Option.ite_none_right_eq_some

/-- Groups do not stand in assertions. -/
theorem number_lookAhead {negative : Bool} : (lookAhead negative body).number next = some last ↔
    body.number next = some next ∧ next = last :=
  Option.ite_none_right_eq_some.trans (and_congr_right fun _ => Option.some_inj)

theorem number_notBehind {extent : Extent} :
    (lookBehind true extent body).number next = some last ↔
      body.number next = some next ∧ next = last :=
  Option.ite_none_right_eq_some.trans (and_congr_right fun _ => Option.some_inj)

/-- Groups stand in loops that run once at most. -/
theorem number_loop {min : Nat} {max : Option Nat} {lazy : Bool} {watched : List Nat} :
    (loop min max lazy watched body).number next = some last ↔
      body.number next = some last ∧ (last = next ∨ min ≤ 1 ∧ max = some 1) := by
  change (match body.number next with
    | some last' => if last' = next ∨ min ≤ 1 ∧ max = some 1 then some last' else none
    | none => none) = some last ↔ _
  cases body.number next with
  | none => simp
  | some last' =>
    simp only [Option.ite_none_right_eq_some, Option.some_inj]
    constructor
    · rintro ⟨h, rfl⟩
      exact ⟨rfl, h⟩
    · rintro ⟨rfl, h⟩
      exact ⟨h, rfl⟩

end Node

namespace Expression

/-- The expression calls nothing, and its groups are numbered in their order. -/
def isPlain (r : Expression) : Bool :=
  r.called.isEmpty && r.root.number 1 == some (r.groups + 1)

/-- The expression leads from a position to the end of the match. -/
def Matches (r : Expression) (text : Array Char) (origin position : Nat) (m : Match) : Prop :=
  ∃ q, r.root.Leads ⟨text, origin, []⟩ ⟨position, position, List.replicate r.groups none⟩ q ∧
    m = ⟨min q.start q.position, q.position, q.groups⟩

end Expression

/-- The engine takes every pattern of the plain syntax, and finds what the expression leads to. -/
def Engine.Sound (engine : Engine) : Prop :=
  ∀ pattern r, Expression.compile pattern = .ok r → r.isPlain = true →
    ∃ matcher, engine.compile pattern = .ok matcher ∧
      ∀ text origin position m, matcher.attempt text origin position = some m →
        r.Matches text origin position m

/-! ## Backtracking finds what an expression leads to -/

theorem orElse_eq_some {a : Option Progress} {b : Unit → Option Progress} {r : Progress}
    (h : orElse a b = some r) : a = some r ∨ b () = some r := by
  cases a with
  | none => exact .inr h
  | some p => exact .inl h

section
variable {s : Subject} {call : Nat → (limit : Nat) → Step} {limit : Nat} {p : Progress} {k : Onward}

theorem Node.run_one {set : CharSet} : (one set).run s call limit p k =
    match s.char? limit p.position with
    | some c => if set.contains c then k { p with position := p.position + 1 } else none
    | none => none := rfl

theorem Node.run_anchor {a : Anchor} : (Node.anchor a).run s call limit p k =
    if s.holds p.position a then k p else none := rfl

theorem Node.run_alt {a b : Node} : (alt a b).run s call limit p k =
    orElse (a.run s call limit p k) fun _ => b.run s call limit p k := rfl

theorem iterateUpTo_eager {step : Step} {watched : List Nat} {more : Nat} :
    iterateUpTo step false watched (more + 1) p k =
      orElse (step p fun q =>
        if isIdle watched p q then k q else iterateUpTo step false watched more q k)
        fun _ => k p := rfl

theorem iterateUpTo_lazy {step : Step} {watched : List Nat} {more : Nat} :
    iterateUpTo step true watched (more + 1) p k =
      orElse (k p) fun _ => step p fun q =>
        if isIdle watched p q then k q else iterateUpTo step true watched more q k := rfl

end

/-- A step goes only where the relation leads. -/
def Step.Follows (step : Step) (R : Progress → Progress → Prop) : Prop :=
  ∀ p k r, step p k = some r → ∃ q, R p q ∧ k q = some r

section
variable {step : Step} {R : Progress → Progress → Prop} {lazy : Bool} {watched : List Nat}

theorem iterateUpTo_follows (H : step.Follows R) {more : Nat} {p : Progress} {k : Onward}
    {r : Progress} (h : iterateUpTo step lazy watched more p k = some r) :
    ∃ n ≤ more, ∃ q, Repeats R n p q ∧ k q = some r := by
  induction more generalizing p with
  | zero => exact ⟨0, Nat.le_refl _, p, .none, h⟩
  | succ more ih =>
    have hagain : k p = some r ∨ step p (fun q =>
        if isIdle watched p q then k q else iterateUpTo step lazy watched more q k) = some r := by
      cases lazy with
      | true => exact orElse_eq_some (iterateUpTo_lazy ▸ h)
      | false => exact (orElse_eq_some (iterateUpTo_eager ▸ h)).symm
    rcases hagain with h | h
    · exact ⟨0, Nat.zero_le _, p, .none, h⟩
    · obtain ⟨q, hq, h⟩ := H _ _ _ h
      split at h
      · exact ⟨1, Nat.succ_pos _, q, .more hq .none, h⟩
      · obtain ⟨n, hn, q', hq', h⟩ := ih h
        exact ⟨n + 1, Nat.succ_le_succ hn, q', .more hq hq', h⟩

theorem iterate_follows (H : step.Follows R) {min more : Nat} {p : Progress} {k : Onward}
    {r : Progress} (h : iterate step lazy watched min more p k = some r) :
    ∃ n ≤ min + more, (min ≠ 0 → n ≠ 0) ∧ ∃ q, Repeats R n p q ∧ k q = some r := by
  induction min generalizing p with
  | zero =>
    obtain ⟨n, hn, q, hq, h⟩ := iterateUpTo_follows H h
    exact ⟨n, by omega, fun h => absurd rfl h, q, hq, h⟩
  | succ min ih =>
    obtain ⟨q, hq, h⟩ := H _ _ _ h
    split at h
    · exact ⟨1, by omega, fun _ => Nat.one_ne_zero, q, .more hq .none, h⟩
    · obtain ⟨n, hn, _, q', hq', h⟩ := ih h
      exact ⟨n + 1, by omega, fun _ => Nat.succ_ne_zero n, q', .more hq hq', h⟩

end

namespace Step.Follows
variable {step : Step} {R A B : Progress → Progress → Prop}

theorem mono (H : step.Follows A) (h : ∀ p q, A p q → R p q) : step.Follows R := by
  intro p k r hr
  obtain ⟨q, hq, hr⟩ := H _ _ _ hr
  exact ⟨q, h p q hq, hr⟩

/-- Where the step ends, if nothing is to be matched behind it. -/
theorem ends (H : step.Follows R) {p q : Progress} (h : step p some = some q) : R p q := by
  obtain ⟨q', hq', heq⟩ := H _ _ _ h
  cases heq
  exact hq'

theorem captured (index : Nat) (H : step.Follows A)
    (h : ∀ p q, A (p.withSpan index none) q →
      R p (q.withSpan index (some (p.position, q.position)))) :
    (step.captured index).Follows R := by
  intro p k r hr
  obtain ⟨q, hq, hr⟩ := H _ _ _ hr
  exact ⟨_, h p q hq, hr⟩

/-- A step that looks back begins somewhere in front of the position, and ends there. -/
theorem lookBack (H : step.Follows R) {p q : Progress} {distance tries : Nat}
    (h : lookBack step p distance tries = some q) :
    ∃ back, R { p with position := p.position - back } q ∧ q.position = p.position := by
  induction tries generalizing distance with
  | zero => cases h
  | succ tries ih =>
    rcases orElse_eq_some h with h | h
    · obtain ⟨q', hq', h⟩ := H _ _ _ h
      split at h
      · next hpos =>
        cases h
        exact ⟨distance, hq', hpos⟩
      · cases h
    · exact ih h

/-! ### The nodes, one by one -/

-- Most nodes look for one thing, and what is to be matched behind them is tried for it alone.
section
variable {p r : Progress} {k : Onward} {x : Option Progress} {f : Progress → Progress}

theorem of_end {stop? : Option Nat} (hr : (match stop? with
      | some stop => k { p with position := stop }
      | none => none) = some r)
    (h : ∀ stop, stop? = some stop → R p { p with position := stop }) :
    ∃ q, R p q ∧ k q = some r := by
  cases stop? with
  | none => cases hr
  | some stop => exact ⟨_, h stop rfl, hr⟩

theorem of_found (hr : (match x with
      | some q => k (f q)
      | none => none) = some r)
    (h : ∀ q, x = some q → R p (f q)) : ∃ q, R p q ∧ k q = some r := by
  cases x with
  | none => cases hr
  | some q => exact ⟨f q, h q rfl, hr⟩

theorem of_missed (hr : (match x with
      | some _ => none
      | none => k p) = some r) (h : R p p) : ∃ q, R p q ∧ k q = some r := by
  cases x with
  | none => exact ⟨p, h, hr⟩
  | some q => cases hr

end

variable {s : Subject} {call : Nat → (limit : Nat) → Step} {limit : Nat} {a b body : Node}

theorem empty (h : ∀ p, R p p) : (Node.empty.run s call limit).Follows R :=
  fun p _ _ hr => ⟨p, h p, hr⟩

theorem one {set : CharSet} (h : ∀ p c, s.char? limit p.position = some c →
    set.contains c = true → R p { p with position := p.position + 1 }) :
    ((Node.one set).run s call limit).Follows R := by
  intro p k r hr
  rw [Node.run_one] at hr
  cases hc : s.char? limit p.position with
  | none =>
    rw [hc] at hr
    cases hr
  | some c =>
    rw [hc] at hr
    obtain ⟨hset, hr⟩ := Option.ite_none_right_eq_some.mp hr
    exact ⟨_, h p c hc hset, hr⟩

theorem folded {parts : List (List Nat)}
    (h : ∀ p stop, s.foldedEnd? limit p.position parts = some stop →
      R p { p with position := stop }) : ((Node.folded parts).run s call limit).Follows R :=
  fun p _ _ hr => of_end hr (h p)

theorem lineBreak (h : ∀ p stop, s.lineBreakEnd? limit p.position = some stop →
    R p { p with position := stop }) : (Node.lineBreak.run s call limit).Follows R :=
  fun p _ _ hr => of_end hr (h p)

theorem anchor {a : Anchor} (h : ∀ p, s.holds p.position a = true → R p p) :
    ((Node.anchor a).run s call limit).Follows R := by
  intro p k r hr
  obtain ⟨ha, hr⟩ := Option.ite_none_right_eq_some.mp (Node.run_anchor ▸ hr)
  exact ⟨p, h p ha, hr⟩

theorem keep (h : ∀ p, R p { p with start := p.position }) :
    (Node.keep.run s call limit).Follows R :=
  fun p _ _ hr => ⟨_, h p, hr⟩

theorem seq (ha : (a.run s call limit).Follows A) (hb : (b.run s call limit).Follows B)
    (h : ∀ p q q', A p q → B q q' → R p q') : ((Node.seq a b).run s call limit).Follows R := by
  intro p k r hr
  obtain ⟨q, hq, hr⟩ := ha _ _ _ hr
  obtain ⟨q', hq', hr⟩ := hb _ _ _ hr
  exact ⟨q', h p q q' hq hq', hr⟩

theorem alt (ha : (a.run s call limit).Follows R) (hb : (b.run s call limit).Follows R) :
    ((Node.alt a b).run s call limit).Follows R := by
  intro p k r hr
  rcases orElse_eq_some hr with hr | hr
  · exact ha _ _ _ hr
  · exact hb _ _ _ hr

theorem group {index : Nat}
    (hcall : s.called.contains index = true → (call index limit).Follows R)
    (h : (Step.captured index (body.run s call limit)).Follows R) :
    ((Node.group index body).run s call limit).Follows R := by
  intro p k r hr
  have hr : (if s.called.contains index then call index limit p k
      else Step.captured index (body.run s call limit) p k) = some r := hr
  split at hr
  · next hindex => exact hcall hindex _ _ _ hr
  · exact h _ _ _ hr

/-- A group that nothing calls. -/
theorem group_uncalled {index : Nat} (hs : s.called = []) (H : (body.run s call limit).Follows A)
    (h : ∀ p q, A (p.withSpan index none) q →
      R p (q.withSpan index (some (p.position, q.position)))) :
    ((Node.group index body).run s call limit).Follows R :=
  group (by simp [hs]) (H.captured index h)

theorem atomic (H : (body.run s call limit).Follows R) :
    ((Node.atomic body).run s call limit).Follows R :=
  fun _ _ _ hr => of_found (f := id) hr fun _ hq => H.ends hq

theorem ahead (h : ∀ p q, body.run s call limit p some = some q →
    R p { q with position := p.position }) :
    ((Node.lookAhead false body).run s call limit).Follows R :=
  fun p _ _ hr => of_found hr (h p)

theorem notAhead (h : ∀ p, R p p) : ((Node.lookAhead true body).run s call limit).Follows R :=
  fun p _ _ hr => of_missed hr (h p)

theorem behind {extent : Extent} (h : ∀ p q, extent.behind (body.run s call) limit p = some q →
    R p q) : ((Node.lookBehind false extent body).run s call limit).Follows R :=
  fun p _ _ hr => of_found (f := id) hr (h p)

theorem notBehind {extent : Extent} (h : ∀ p, R p p) :
    ((Node.lookBehind true extent body).run s call limit).Follows R :=
  fun p _ _ hr => of_missed hr (h p)

theorem loop {min : Nat} {max : Option Nat} {lazy : Bool} {watched : List Nat}
    (H : (body.run s call limit).Follows A)
    (h : ∀ n p q, Repeats A n p q → (min ≠ 0 → n ≠ 0) →
      (∀ m, max = some m → n ≤ min + (m - min)) → R p q) :
    ((Node.loop min max lazy watched body).run s call limit).Follows R := by
  intro p k r hr
  obtain ⟨n, hle, hmin, q, hq, hr⟩ := iterate_follows H hr
  refine ⟨q, h n p q hq hmin ?_, hr⟩
  rintro m rfl
  exact hle

theorem backref {groups : List Nat} {ignoreCase : Bool}
    (h : ∀ p stop,
      s.backrefEnd? ignoreCase limit p.position (groups.reverse.map p.span?) = some stop →
        R p { p with position := stop }) :
    ((Node.backref groups ignoreCase).run s call limit).Follows R :=
  fun p _ _ hr => of_end hr (h p)

end Step.Follows

/-- What stands behind a node of the plain syntax is tried only where the node leads to. -/
theorem Node.run_follows {s : Subject} {call : Nat → (limit : Nat) → Step} {node : Node}
    {next last : Nat} (hs : s.called = []) (hn : node.number next = some last) {limit : Nat}
    (hl : limit ≤ s.text.size) : (node.run s call limit).Follows (node.Leads s) := by
  induction node generalizing next last limit with
  | empty => exact .empty fun p => rfl
  | one set =>
    refine .one fun p c hc hset => ⟨c, ?_, hset, rfl⟩
    unfold Subject.char? at hc
    split at hc
    · exact hc
    · cases hc
  | folded parts => exact .folded fun p stop hstop => ⟨limit, hl, stop, hstop, rfl⟩
  | lineBreak => exact .lineBreak fun p stop hstop => ⟨limit, hl, stop, hstop, rfl⟩
  | anchor a => exact .anchor fun p ha => ⟨ha, rfl⟩
  | keep | backref _ _ | call _ => cases hn
  | seq a b iha ihb =>
    obtain ⟨mid, ha, hb⟩ := Option.bind_eq_some_iff.mp hn
    exact .seq (iha ha hl) (ihb hb hl) fun p q q' hq hq' => ⟨q, hq, hq'⟩
  | alt a b iha ihb =>
    obtain ⟨mid, ha, hb⟩ := Option.bind_eq_some_iff.mp hn
    exact .alt ((iha ha hl).mono fun _ _ => .inl) ((ihb hb hl).mono fun _ _ => .inr)
  | group index body ih =>
    exact .group_uncalled hs (ih (number_group.mp hn).2 hl) fun p q hq => ⟨q, hq, rfl⟩
  | enclosed body ih => exact ih hn hl
  | atomic body ih => exact .atomic (ih hn hl)
  | lookAhead negative body ih =>
    cases negative with
    | true => exact .notAhead fun p => rfl
    | false =>
      have hbody := (number_lookAhead.mp hn).1
      exact .ahead fun p q hq => ⟨q, (ih hbody hl).ends hq, rfl⟩
  | lookBehind negative extent body ih =>
    cases negative with
    | true => exact .notBehind fun p => rfl
    | false => cases hn
  | loop min max lazy watched body ih =>
    have hbody := (number_loop.mp hn).1
    refine .loop (ih hbody hl) fun n p q hq hmin hmax => ⟨n, hq, hmin, fun m hm hle => ?_⟩
    have hn := hmax m hm
    omega

theorem Engine.standard_sound : Engine.standard.Sound := by
  intro pattern r hr hplain
  obtain ⟨hcalled, hnumber⟩ := Bool.and_eq_true_iff.mp hplain
  have hcalled : r.called = [] := List.isEmpty_iff.mp hcalled
  refine ⟨r.matcher, by simp [standard, hr, Except.map], fun text origin position m h => ?_⟩
  simp only [Expression.matcher, Expression.attempt, hcalled, List.contains_nil,
    Bool.false_eq_true, if_false] at h
  split at h
  · next q hq =>
    split at h
    · cases h
    · have hleads := Step.Follows.ends
        (Node.run_follows rfl (beq_iff_eq.mp hnumber) (Nat.le_refl _)) hq
      cases h
      exact ⟨q, hleads, rfl⟩
  · cases h

end Rubric.Regex
