import Rubric.Proofs.Regex.Words

/-!
# Patterns with texts in them

A template is a pattern with texts in it, which stand in the pattern escaped, either bare
(`Template.bare`) or each in a group of its own (`Template.grouped`). If the texts stand where parts
of the pattern can stand, and no quantifier stands behind a text of more than one character
(`Template.Laid`), both patterns are read to nodes that differ in the grouping of sequences alone.
-/

namespace Rubric.Regex

/-- A piece of a template. -/
inductive Slot where
  /-- a character of the pattern -/
  | char (c : Char)
  /-- a text to be matched as it is -/
  | text (s : List Char)
deriving DecidableEq, Repr

abbrev Template := List Slot

namespace Slot

def bare : Slot → List Char
  | char c => [c]
  | text s => Pattern.escaped s

def grouped : Slot → List Char
  | char c => [c]
  | text s => ['(', '?', ':'] ++ Pattern.escaped s ++ [')']

end Slot

namespace Template

/-- The pattern with its texts escaped. -/
def bare (t : Template) : List Char :=
  t.flatMap Slot.bare

/-- The pattern with its texts escaped, each in a group. -/
def grouped (t : Template) : List Char :=
  t.flatMap Slot.grouped

end Template

/-- The texts of the template stand where parts of a pattern can stand, and none of more than one
character has a quantifier behind it. -/
inductive Template.Laid : Template → Prop
  | nil : Laid []
  | part {cs : List Char} {t : Template} : IsPart cs → Laid t → Laid (cs.map .char ++ t)
  | quantifier {cs : List Char} {t : Template} : IsQuantifier cs → t.bare.head? ≠ some '?' →
    t.bare.head? ≠ some '+' → Laid t → Laid (cs.map .char ++ t)
  | opening {cs : List Char} {t : Template} : IsOpening cs → Laid t →
    Laid (.char '(' :: (cs.map .char ++ t))
  | capture {t : Template} : t.bare.head? ≠ some '?' → t.bare.head? ≠ some '*' → Laid t →
    Laid (.char '(' :: t)
  | alternative {t : Template} : Laid t → Laid (.char '|' :: t)
  | close {t : Template} : Laid t → Laid (.char ')' :: t)
  | text {s : List Char} {t : Template} : s ≠ [] →
    (s.length = 1 ∨ ∀ c, t.bare.head? = some c → c ∉ quantifierSigns) → Laid t →
    Laid (.text s :: t)

/-! ## Templates -/

namespace Template
variable {cs s : List Char} {c : Char} {t u : Template}

@[simp] theorem bare_nil : bare [] = [] := rfl

@[simp] theorem grouped_nil : grouped [] = [] := rfl

@[simp] theorem bare_char : bare (.char c :: t) = c :: bare t := rfl

@[simp] theorem grouped_char : grouped (.char c :: t) = c :: grouped t := rfl

theorem bare_text : bare (.text s :: t) = Pattern.escaped s ++ bare t := rfl

theorem grouped_text :
    grouped (.text s :: t) = ['(', '?', ':'] ++ Pattern.escaped s ++ [')'] ++ grouped t := rfl

@[simp] theorem bare_chars : bare (cs.map .char ++ t) = cs ++ bare t := by
  induction cs with
  | nil => rfl
  | cons c cs ih => exact congrArg _ ih

@[simp] theorem grouped_chars : grouped (cs.map .char ++ t) = cs ++ grouped t := by
  induction cs with
  | nil => rfl
  | cons c cs ih => exact congrArg _ ih

theorem length_bare_le (h : u <:+ t) : u.bare.length ≤ t.bare.length := by
  obtain ⟨v, rfl⟩ := h
  simp [bare]

theorem length_grouped_le (h : u <:+ t) : u.grouped.length ≤ t.grouped.length := by
  obtain ⟨v, rfl⟩ := h
  simp [grouped]

/-- How many parentheses the pattern opens at most. -/
def opens (t : Template) : Nat :=
  t.count (.char '(')

theorem opens_le (h : u <:+ t) : u.opens ≤ t.opens :=
  h.sublist.count_le _

/-- A sign of the pattern that texts cannot begin with stands in front of both or of none. -/
theorem Laid.head_bare (h : t.Laid) (hc : c ≠ '(') (hhead : t.grouped.head? = some c) :
    t.bare.head? = some c := by
  cases h with
  | nil => exact hhead
  | @part cs _ h | @quantifier cs _ h =>
    cases cs with
    | nil => cases h
    | cons => simpa using hhead
  | opening | capture => simpa using hhead
  | alternative | close => simpa using hhead
  | text =>
    rw [grouped_text] at hhead
    exact absurd (Option.some.inj hhead).symm hc

theorem Laid.unquantified (h : t.Laid) (hbare : Unquantified t.bare) : Unquantified t.grouped :=
  fun c hc hsign => hbare c (h.head_bare (by rintro rfl; revert hsign; decide) hc) hsign

theorem Laid.uncommented (h : t.Laid) : Uncommented t.grouped ∧ Uncommented t.bare := by
  cases h with
  | nil => exact ⟨nofun, nofun⟩
  | part h | quantifier h =>
    rw [grouped_chars, bare_chars]
    exact ⟨h.uncommented _, h.uncommented _⟩
  | opening h =>
    rw [grouped_char, bare_char, grouped_chars, bare_chars]
    exact ⟨h.uncommented _, h.uncommented _⟩
  | capture hopt _ h =>
    rw [grouped_char, bare_char]
    exact ⟨uncommented_capture fun hhead => hopt (h.head_bare (by decide) hhead),
      uncommented_capture hopt⟩
  | alternative | close =>
    exact ⟨uncommented_of_head (by simp), uncommented_of_head (by simp)⟩
  | text hs =>
    refine ⟨?_, uncommented_of_head (head_escaped_ne hs (by decide) (by decide))⟩
    rintro rest hrest
    rw [grouped_text] at hrest
    cases hrest

theorem Laid.ne_nil (h : t.Laid) (hne : t ≠ []) : t.grouped ≠ [] ∧ t.bare ≠ [] := by
  cases h with
  | nil => exact absurd rfl hne
  | @part cs _ h | @quantifier cs _ h =>
    cases cs with
    | nil => cases h
    | cons => exact ⟨by simp, by simp⟩
  | opening | capture | alternative | close => exact ⟨by simp, by simp⟩
  | text hs =>
    obtain ⟨c, rest, hrest, -⟩ := head_escaped hs
    exact ⟨by simp [grouped_text], by simp [bare_text, hrest]⟩

theorem Laid.mark_cases (h : t.Laid) (hc : c = '|' ∨ c = ')') :
    (∃ u : Template, t = .char c :: u ∧ u.Laid) ∨
      (t.grouped.head? ≠ some c ∧ t.bare.head? ≠ some c) := by
  have hspecial : c ∈ Pattern.special ∧ c ≠ '\\' ∧ c ≠ '(' ∧ c ∉ quantifierSigns := by
    obtain rfl | rfl := hc <;> decide
  cases h with
  | nil => exact .inr (by simp)
  | part h =>
    rw [grouped_chars, bare_chars]
    have hmark : c ∈ ['(', ')', '|'] := by obtain rfl | rfl := hc <;> decide
    exact .inr ⟨h.head_ne hmark _, h.head_ne hmark _⟩
  | quantifier h =>
    rw [grouped_chars, bare_chars]
    exact .inr ⟨h.head_ne hspecial.2.2.2 _, h.head_ne hspecial.2.2.2 _⟩
  | opening | capture => exact .inr (by simpa using hspecial.2.2.1.symm)
  | alternative h =>
    obtain rfl | rfl := hc
    · exact .inl ⟨_, rfl, h⟩
    · exact .inr (by simp)
  | close h =>
    obtain rfl | rfl := hc
    · exact .inr (by simp)
    · exact .inl ⟨_, rfl, h⟩
  | text hs =>
    refine .inr ⟨?_, head_escaped_ne hs hspecial.1 hspecial.2.1⟩
    rw [grouped_text]
    simpa using hspecial.2.2.1.symm

end Template

/-! ## Reading templates -/

open Node (Regrouped)

/-- What was read of the one pattern is in the relation to what was read of the other one, and in
both the rest of the template is left, with nothing else that differs. -/
structure Follows {α β : Type} (R : α → β → Prop) (t : Template) (p : α × Reading)
    (q : β × Reading) :
    Prop where
  rel : R p.1 q.1
  rest : ∃ (u : Template) (r : Reading), u <:+ t ∧ u.Laid ∧ p.2 = r.over u.grouped ∧
    q.2 = r.over u.bare

section
variable {o : Options} {fuel fuel' depth : Nat} {first : Bool} {r : Reading} {t u : Template}
  {node node' : Node}

theorem Follows.mono {α β : Type} {R : α → β → Prop} {p : α × Reading} {q : β × Reading}
    (h : Follows R u p q) (hu : u <:+ t) : Follows R t p q := by
  obtain ⟨v, r, hv, hrest⟩ := h.rest
  exact ⟨h.rel, v, r, hv.trans hu, hrest⟩

theorem Follows.self {α β : Type} {R : α → β → Prop} {a : α} {b : β} (ht : t.Laid) (h : R a b) :
    Follows R t (a, r.over t.grouped) (b, r.over t.bare) :=
  ⟨h, t, r, List.suffix_rfl, ht, rfl, rfl⟩

theorem quantified_follows_none (ho : o.extended = false) (ht : t.Laid) (h : node.Regrouped node')
    (hsign : Unquantified t.bare) :
    Coupled (Follows Regrouped t) ((quantified o fuel depth node).run (r.over t.grouped))
      ((quantified o fuel' depth node').run (r.over t.bare)) := by
  rw [run_quantified_none ho ht.uncommented.1 (ht.unquantified hsign),
    run_quantified_none ho ht.uncommented.2 hsign]
  exact .ok (.self ht h)

theorem quantified_follows (ho : o.extended = false) (ht : t.Laid) (h : node.Regrouped node')
    (hfuel : t.grouped.length < fuel) (hfuel' : t.bare.length < fuel') :
    Coupled (Follows Regrouped t) ((quantified o fuel depth node).run (r.over t.grouped))
      ((quantified o fuel' depth node').run (r.over t.bare)) := by
  induction ht generalizing fuel fuel' depth node node' with
  | @quantifier cs t hcs hopt hplus ht ih =>
    have hlaid := Template.Laid.quantifier hcs hopt hplus ht
    obtain ⟨fuel, rfl⟩ := Nat.exists_eq_succ_of_ne_zero (Nat.ne_zero_of_lt hfuel)
    obtain ⟨fuel', rfl⟩ := Nat.exists_eq_succ_of_ne_zero (Nat.ne_zero_of_lt hfuel')
    rw [run_quantified ho hlaid.uncommented.1, run_quantified ho hlaid.uncommented.2]
    cases cs with
    | nil => cases hcs
    | cons c cs =>
      obtain ⟨_, result, hresult⟩ := hcs
      rw [Template.grouped_chars, Template.bare_chars,
        hresult _ (fun h => hopt (ht.head_bare (by decide) h))
          (fun h => hplus (ht.head_bare (by decide) h)), hresult _ hopt hplus]
      cases result with
      | error e => exact .error
      | ok q =>
        simp only [Except.map, ok_bind, h.unrepeatable_eq]
        refine .ite .error (.ite .error ?_)
        simp only [Template.grouped_chars, Template.bare_chars, List.length_append,
          List.length_cons]
          at hfuel hfuel'
        refine (ih (h.apply q) (by omega) (by omega)).mono fun p q hpq => ?_
        exact hpq.mono (List.suffix_append _ _)
  | nil => exact quantified_follows_none ho .nil h nofun
  | part hcs ht =>
    refine quantified_follows_none ho (.part hcs ht) h ?_
    rw [Template.bare_chars]
    exact hcs.unquantified _
  | opening hcs ht =>
    exact quantified_follows_none ho (.opening hcs ht) h (by rintro _ ⟨⟩; decide)
  | capture hopt hstar ht =>
    exact quantified_follows_none ho (.capture hopt hstar ht) h (by rintro _ ⟨⟩; decide)
  | alternative ht =>
    exact quantified_follows_none ho (.alternative ht) h (by rintro _ ⟨⟩; decide)
  | close ht => exact quantified_follows_none ho (.close ht) h (by rintro _ ⟨⟩; decide)
  | text hs hsign ht =>
    exact quantified_follows_none ho (.text hs hsign ht) h (unquantified_escaped hs)

/-- The parts of an alternative are read alike. -/
def BranchFollows (t : Template) : Prop :=
  ∀ (o : Options) (fuel fuel' depth : Nat) (first : Bool) (r : Reading), o.extended = false →
    2 * t.grouped.length < fuel → 2 * t.bare.length < fuel' → depth + 2 * t.opens + 2 ≤ depthLimit →
      Coupled (Follows (Option.Rel Regrouped) t)
        ((branch fuel depth o first).run (r.over t.grouped))
        ((branch fuel' depth o first).run (r.over t.bare))

theorem branchFollows_of_succ
    (h : ∀ (o : Options) (fuel fuel' depth : Nat) (first : Bool) (r : Reading), o.extended = false →
      2 * t.grouped.length ≤ fuel → 2 * t.bare.length ≤ fuel' →
        depth + 2 * t.opens + 2 ≤ depthLimit → Coupled (Follows (Option.Rel Regrouped) t)
          ((branch (fuel + 1) depth o first).run (r.over t.grouped))
          ((branch (fuel' + 1) depth o first).run (r.over t.bare))) : BranchFollows t := by
  intro o fuel fuel' depth first r ho hfuel hfuel' hdepth
  obtain ⟨fuel, rfl⟩ := Nat.exists_eq_succ_of_ne_zero (Nat.ne_zero_of_lt hfuel)
  obtain ⟨fuel', rfl⟩ := Nat.exists_eq_succ_of_ne_zero (Nat.ne_zero_of_lt hfuel')
  exact h o fuel fuel' depth first r ho (by omega) (by omega) hdepth

/-- They are read alike behind each place of the template. -/
def SuffixesFollow (t : Template) : Prop :=
  ∀ u : Template, u <:+ t → u.Laid → BranchFollows u

theorem SuffixesFollow.suffix {u : Template} (H : SuffixesFollow t) (hu : u <:+ t) :
    SuffixesFollow u :=
  fun v hv => H v (hv.trans hu)

theorem next_follows (H : SuffixesFollow t) (ho : o.extended = false)
    (ht : t.Laid) (h : node.Regrouped node') (hfuel : 2 * t.grouped.length + 1 < fuel)
    (hfuel' : 2 * t.bare.length + 1 < fuel') (hdepth : depth + 2 * t.opens + 2 ≤ depthLimit) :
    Coupled (Follows (Option.Rel Regrouped) t)
      ((next fuel depth o first node).run (r.over t.grouped))
      ((next fuel' depth o first node').run (r.over t.bare)) := by
  obtain ⟨fuel, rfl⟩ := Nat.exists_eq_succ_of_ne_zero (Nat.ne_zero_of_lt hfuel)
  obtain ⟨fuel', rfl⟩ := Nat.exists_eq_succ_of_ne_zero (Nat.ne_zero_of_lt hfuel')
  rw [run_next, run_next]
  refine (quantified_follows ho ht h (by omega) (by omega)).bind ?_
  rintro ⟨node, s⟩ ⟨node', s'⟩ ⟨hnode, u, r, hu, hlaid, rfl, rfl⟩
  have hlength := Template.length_grouped_le hu
  have hlength' := Template.length_bare_le hu
  have hopens := Template.opens_le hu
  refine (H u hu hlaid o fuel fuel' depth false r ho (by omega) (by omega) (by omega)).bind ?_
  rintro ⟨more, s⟩ ⟨more', s'⟩ hmore
  refine .ok (Follows.mono ⟨?_, hmore.rest⟩ hu)
  cases hmore.rel with
  | none => exact .some hnode
  | some h =>
    refine .some ?_
    cases first with
    | true => exact hnode.before h
    | false => exact hnode.followedBy h

theorem alternatives_follows {o : Options} {fuel fuel' depth : Nat} {r : Reading} {t : Template}
    (H : SuffixesFollow t) (ho : o.extended = false) (ht : t.Laid)
    (hfuel : 2 * t.grouped.length + 1 < fuel) (hfuel' : 2 * t.bare.length + 1 < fuel')
    (hdepth : depth + 2 * t.opens + 4 ≤ depthLimit) :
    Coupled (Follows Regrouped t) ((alternatives fuel depth o).run (r.over t.grouped))
      ((alternatives fuel' depth o).run (r.over t.bare)) := by
  obtain ⟨fuel, rfl⟩ := Nat.exists_eq_succ_of_ne_zero (Nat.ne_zero_of_lt hfuel)
  obtain ⟨fuel', rfl⟩ := Nat.exists_eq_succ_of_ne_zero (Nat.ne_zero_of_lt hfuel')
  rw [run_alternatives (by omega), run_alternatives (by omega)]
  refine (H t List.suffix_rfl ht o fuel fuel' (depth + 2) true r ho (by omega) (by omega)
    (by omega)).bind ?_
  rintro ⟨found, s⟩ ⟨found', s'⟩ ⟨hfound, u, r, hu, hlaid, rfl, rfl⟩
  have hlength := Template.length_grouped_le hu
  have hlength' := Template.length_bare_le hu
  have hopens := Template.opens_le hu
  have hnode : (found.getD .empty).Regrouped (found'.getD .empty) := by
    cases hfound with
    | none => exact .refl _
    | some h => exact h
  obtain ⟨v, rfl, hv⟩ | ⟨hbar, hbar'⟩ := hlaid.mark_cases (.inl rfl)
  · have hvt : v <:+ t := (List.suffix_cons _ _).trans hu
    have hvlength : v.grouped.length < t.grouped.length := hlength
    have hvlength' : v.bare.length < t.bare.length := hlength'
    have hvopens := Template.opens_le hvt
    refine (alternatives_follows (H.suffix hvt) ho hv (by omega) (by omega)
      (by omega)).bind ?_
    rintro ⟨others, s⟩ ⟨others', s'⟩ hothers
    exact .ok (Follows.mono ⟨.alt hnode hothers.rel, hothers.rest⟩ hvt)
  · dsimp only [Reading.rest_over]
    split
    · next hs => exact absurd (congrArg List.head? hs) hbar
    · split
      · next hs => exact absurd (congrArg List.head? hs) hbar'
      · exact .ok (Follows.mono (.self hlaid hnode) hu)
termination_by t.length
decreasing_by
  have := hu.length_le
  simp only [List.length_cons] at this
  omega

theorem closeGroup_follows (ht : t.Laid) :
    Coupled (Follows (fun _ _ => True) t) (closeGroup.run (r.over t.grouped))
      (closeGroup.run (r.over t.bare)) := by
  obtain ⟨u, rfl, hu⟩ | ⟨hclose, hclose'⟩ := ht.mark_cases (.inr rfl)
  · exact .ok (Follows.mono (.self hu trivial) (List.suffix_cons _ _))
  · rw [run_closeGroup_ne hclose, run_closeGroup_ne hclose']
    exact .error

/-- A group and what follows it. -/
theorem group_follows (wrap : Node → Node)
    (hwrap : ∀ {a a' : Node}, a.Regrouped a' → (wrap a).Regrouped (wrap a'))
    (H : SuffixesFollow t) {inner : Options}
    (ho : o.extended = false) (hinner : inner.extended = false) (ht : t.Laid)
    (hfuel : 2 * t.grouped.length + 1 < fuel) (hfuel' : 2 * t.bare.length + 1 < fuel')
    (hdepth : depth + 2 * t.opens + 4 ≤ depthLimit) :
    Coupled (Follows (Option.Rel Regrouped) t)
      ((alternatives fuel depth inner).run (r.over t.grouped) >>= fun p =>
        closeGroup.run p.2 >>= fun q => (next fuel depth o first (wrap p.1)).run q.2)
      ((alternatives fuel' depth inner).run (r.over t.bare) >>= fun p =>
        closeGroup.run p.2 >>= fun q => (next fuel' depth o first (wrap p.1)).run q.2) := by
  refine (alternatives_follows H hinner ht hfuel hfuel' hdepth).bind ?_
  rintro ⟨body, s⟩ ⟨body', s'⟩ ⟨hbody, u, r, hu, hlaid, rfl, rfl⟩
  refine (closeGroup_follows hlaid).bind ?_
  rintro ⟨_, s⟩ ⟨_, s'⟩ ⟨_, v, r, hv, hvlaid, rfl, rfl⟩
  have hvt : v <:+ t := hv.trans hu
  have hlength := Template.length_grouped_le hvt
  have hlength' := Template.length_bare_le hvt
  have hopens := Template.opens_le hvt
  refine (next_follows (H.suffix hvt) ho hvlaid (hwrap hbody) (by omega) (by omega)
    (by omega)).mono fun p q hpq => hpq.mono hvt

/-! ### The kinds of parts -/

section
variable {cs s : List Char} {c : Char}

theorem part_follows (hcs : IsPart cs) (hu : u.Laid) (H : SuffixesFollow u) :
    BranchFollows (cs.map .char ++ u) := by
  refine branchFollows_of_succ fun o fuel fuel' depth first r ho hfuel hfuel' hdepth => ?_
  cases cs with
  | nil => cases hcs
  | cons c cs =>
    obtain ⟨hc, _, hread⟩ := hcs
    obtain ⟨result, hresult⟩ := hread o depth r
    have hsuffix : u <:+ (c :: cs).map Slot.char ++ u := List.suffix_append _ _
    have hopens := Template.opens_le hsuffix
    simp only [Template.grouped_chars, Template.bare_chars, List.length_append, List.length_cons,
      List.cons_append] at hfuel hfuel' hresult ⊢
    rw [run_branch_part ho hc, run_branch_part ho hc, hresult, hresult]
    cases result with
    | error e => exact .error
    | ok p =>
      refine (next_follows H ho hu (.refl _) (by omega) (by omega) (by omega)).mono ?_
      exact fun p q hpq => hpq.mono hsuffix

/-- A quantifier in front of all parts is refused. -/
theorem quantifier_follows (hcs : IsQuantifier cs) (hopt : u.bare.head? ≠ some '?')
    (hplus : u.bare.head? ≠ some '+') (hu : u.Laid) : BranchFollows (cs.map .char ++ u) := by
  refine branchFollows_of_succ fun o fuel fuel' depth first r ho hfuel hfuel' hdepth => ?_
  cases cs with
  | nil => cases hcs
  | cons c cs =>
    have hne : ∀ d ∈ quantifierSigns, d ∉ ['(', ')', '|'] := by simp [quantifierSigns]
    obtain ⟨hsign, result, hresult⟩ := hcs
    have hgrouped := hresult u.grouped (fun h => hopt (hu.head_bare (by decide) h))
      fun h => hplus (hu.head_bare (by decide) h)
    have hbare := hresult u.bare hopt hplus
    rw [List.cons_append] at hgrouped hbare
    rw [Template.grouped_chars, Template.bare_chars, List.cons_append, List.cons_append,
      run_branch_part ho (hne c hsign), run_branch_part ho (hne c hsign),
      run_part_quantifier hsign, run_part_quantifier hsign, hgrouped, hbare]
    cases result <;> exact .error

theorem opening_follows (hcs : IsOpening cs) (hu : u.Laid) (H : SuffixesFollow u) :
    BranchFollows (.char '(' :: (cs.map .char ++ u)) := by
  refine branchFollows_of_succ fun o fuel fuel' depth first r ho hfuel hfuel' hdepth => ?_
  obtain ⟨result, hinner, hresult⟩ := hcs.reads o ho
  have hsuffix : u <:+ .char '(' :: (cs.map Slot.char ++ u) :=
    (List.suffix_append _ _).trans (List.suffix_cons _ _)
  have hopens : Template.opens (.char '(' :: (cs.map Slot.char ++ u)) =
      Template.opens (cs.map Slot.char ++ u) + 1 := List.count_cons_self
  have hopens' := Template.opens_le (List.suffix_append (cs.map Slot.char) u)
  simp only [Template.grouped_char, Template.bare_char, Template.grouped_chars, Template.bare_chars,
    List.length_cons, List.length_append] at hfuel hfuel' ⊢
  rw [run_branch_group ho (hcs.uncommented _).behind,
    run_branch_group ho (hcs.uncommented _).behind, hresult, hresult]
  refine Coupled.mono (R := Follows (Option.Rel Regrouped) u) ?_ fun p q hpq => hpq.mono hsuffix
  cases result with
  | error e => exact .error
  | ok op =>
    have hinner := hinner op rfl
    cases op with
    | optionsOnward inner =>
      refine (alternatives_follows H hinner hu (by omega) (by omega) (by omega)).bind ?_
      rintro p q hpq
      exact .ok ⟨.some (.enclosed hpq.rel), hpq.rest⟩
    | options inner =>
      exact group_follows .enclosed .enclosed H ho hinner hu (by omega) (by omega) (by omega)
    | plain inner wrap =>
      have hwrap {a a' : Node} (h : a.Regrouped a') : (wrap a).Regrouped (wrap a') := by
        obtain rfl | rfl | ⟨_, rfl⟩ | ⟨_, _, rfl⟩ := opening_plain (hresult [])
        · exact h
        · exact h.atomic
        · exact h.lookAhead
        · exact h.lookBehind
      exact group_follows wrap hwrap H ho hinner hu (by omega) (by omega) (by omega)
    | capture name =>
      simp only [Except.map, ok_bind, run_openGroup_bind]
      exact group_follows (.group _) .group H ho ho hu (by omega) (by omega) (by omega)

theorem capture_follows (hopt : u.bare.head? ≠ some '?') (hstar : u.bare.head? ≠ some '*')
    (hu : u.Laid) (H : SuffixesFollow u) : BranchFollows (.char '(' :: u) := by
  refine branchFollows_of_succ fun o fuel fuel' depth first r ho hfuel hfuel' hdepth => ?_
  have hsuffix : u <:+ .char '(' :: u := List.suffix_cons _ _
  have hopens : Template.opens (.char '(' :: u) = u.opens + 1 := List.count_cons_self
  have hopt' : u.grouped.head? ≠ some '?' := fun h => hopt (hu.head_bare (by decide) h)
  have hstar' : u.grouped.head? ≠ some '*' := fun h => hstar (hu.head_bare (by decide) h)
  simp only [Template.grouped_char, Template.bare_char, List.length_cons] at hfuel hfuel' ⊢
  rw [run_branch_group ho (uncommented_capture hopt').behind,
    run_branch_group ho (uncommented_capture hopt).behind]
  refine Coupled.mono (R := Follows (Option.Rel Regrouped) u) ?_ fun p q hpq => hpq.mono hsuffix
  by_cases hne : u = []
  · subst hne
    exact .error
  · rw [opening_capture (hu.ne_nil hne).1 hopt' hstar',
      opening_capture (hu.ne_nil hne).2 hopt hstar]
    simp only [ok_bind, run_openGroup_bind]
    exact group_follows (.group _) .group H ho ho hu (by omega) (by omega) (by omega)

/-- A sign that ends an alternative is left to be read. -/
theorem mark_follows (hc : c = '|' ∨ c = ')') (ht : Template.Laid (.char c :: u)) :
    BranchFollows (.char c :: u) := by
  refine branchFollows_of_succ fun o fuel fuel' depth first r ho hfuel hfuel' hdepth => ?_
  rw [Template.grouped_char, Template.bare_char, run_branch_mark ho hc, run_branch_mark ho hc]
  exact .ok (.self ht .none)

/-- The one reader finds a group with the characters of the text, the other one the characters, and
goes on behind the last one as the first one does behind the group. -/
theorem text_follows (hs : s ≠ [])
    (hsign : s.length = 1 ∨ ∀ c, u.bare.head? = some c → c ∉ quantifierSigns) (hu : u.Laid)
    (H : SuffixesFollow u) : BranchFollows (.text s :: u) := by
  refine branchFollows_of_succ fun o fuel fuel' depth first r ho hfuel hfuel' hdepth => ?_
  have hsuffix : u <:+ .text s :: u := List.suffix_cons _ _
  have hopens := Template.opens_le hsuffix
  have hescaped : s.length ≤ (Pattern.escaped s).length := length_le_escaped s
  rw [Template.grouped_text, Template.bare_text] at *
  simp only [List.length_append, List.length_cons, List.length_nil] at hfuel hfuel'
  rw [run_branch_word ho hs (by omega) (by omega)]
  refine Coupled.mono (R := Follows (Option.Rel Regrouped) u) ?_ fun p q hpq => hpq.mono hsuffix
  obtain hone | hsign := hsign
  · obtain ⟨c, rfl⟩ := List.length_eq_one_iff.mp hone
    rw [run_branch_letter ho]
    exact next_follows H ho hu (.refl _) (by omega) (by omega) (by omega)
  · obtain ⟨fuel, rfl⟩ := Nat.exists_eq_succ_of_ne_zero (n := fuel) (by omega)
    obtain ⟨rest, hrest⟩ := Nat.exists_eq_add_of_le' (m := 2 * s.length) (n := fuel' + 1) (by omega)
    rw [run_next, run_quantified_none ho hu.uncommented.1 (hu.unquantified hsign), ok_bind,
      hrest, run_branch_escaped ho hs hu.uncommented.2 hsign]
    refine (H u List.suffix_rfl hu o fuel rest depth false r ho (by omega) (by omega)
      (by omega)).bind ?_
    rintro ⟨more, p⟩ ⟨more', p'⟩ ⟨hmore, hstate⟩
    refine .ok ⟨.some ?_, hstate⟩
    cases hmore with
    | none => exact .refl _
    | some h =>
      cases first with
      | true => exact h.word_before hs
      | false =>
        change ((o.word s).followedBy _).Regrouped _
        rw [Options.word_followedBy hs]
        exact h.onward

end

theorem branch_follows (t : Template) (ht : t.Laid) : BranchFollows t := by
  have hshort {u : Template} (hu : u.length < t.length) : SuffixesFollow u := fun v hv hlaid =>
    have := hv.length_le
    branch_follows v hlaid
  cases ht with
  | nil =>
    refine branchFollows_of_succ fun o fuel fuel' depth first r ho hfuel hfuel' hdepth => ?_
    rw [Template.grouped_nil, Template.bare_nil, run_branch_nil, run_branch_nil]
    exact .ok (.self .nil .none)
  | @part cs u hcs hu =>
    refine part_follows hcs hu (hshort ?_)
    have := List.length_pos_iff.mpr hcs.ne_nil
    simp only [List.length_append, List.length_map]
    omega
  | quantifier hcs hopt hplus hu => exact quantifier_follows hcs hopt hplus hu
  | @opening cs u hcs hu =>
    refine opening_follows hcs hu (hshort ?_)
    simp only [List.length_append, List.length_cons]
    omega
  | capture hopt hstar hu => exact capture_follows hopt hstar hu (hshort (Nat.lt_succ_self _))
  | alternative hu => exact mark_follows (.inl rfl) (.alternative hu)
  | close hu => exact mark_follows (.inr rfl) (.close hu)
  | text hs hsign hu => exact text_follows hs hsign hu (hshort (Nat.lt_succ_self _))
termination_by t.length
decreasing_by
  omega

/-- Whether its texts stand in groups or bare, a template denotes one matcher, or is refused for one
reason. -/
theorem Template.Laid.compile_eq (ht : t.Laid) (hdepth : 2 * t.opens + 4 ≤ depthLimit) :
    Engine.standard.compile t.grouped = Engine.standard.compile t.bare := by
  have hread : Coupled (Follows Regrouped t)
      ((alternatives (4 * t.grouped.length + 4) 0 {}).run (Reading.over { rest := [] } t.grouped))
      ((alternatives (4 * t.bare.length + 4) 0 {}).run (Reading.over { rest := [] } t.bare)) :=
    alternatives_follows (fun u _ hu => branch_follows u hu) rfl ht (by omega) (by omega) (by omega)
  have hcompile : Coupled (fun e e' => Expression.matcher e = Expression.matcher e')
      (Expression.compile t.grouped) (Expression.compile t.bare) := by
    refine hread.bind ?_
    rintro ⟨node, s⟩ ⟨node', s'⟩ ⟨hnode, u, r, -, hu, rfl, rfl⟩
    by_cases hne : u = []
    · subst hne
      exact Reading.finish_coupled hnode
    · obtain ⟨c, rest, hrest⟩ := List.exists_cons_of_ne_nil (hu.ne_nil hne).1
      obtain ⟨c', rest', hrest'⟩ := List.exists_cons_of_ne_nil (hu.ne_nil hne).2
      rw [hrest, hrest']
      exact .error
  exact hcompile.map_eq

end

end Rubric.Regex
