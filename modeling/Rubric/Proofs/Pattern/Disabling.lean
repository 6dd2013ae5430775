import Rubric.Proofs.Pattern.Anchors
import Rubric.Proofs.Regex.Heads
import Rubric.Proofs.Regex.Parts
import Rubric.Proofs.Regex.Yields

/-!
# Reading patterns with masked anchors

A masked escape is read as the character that masks its letter. If each escape that is masked is a
part of the pattern by itself (`Anchoring.Laid`), the masked pattern is read to the same expression
as the pattern, with that character in the place of the anchors that may not match
(`compile_anchored`).
-/

namespace Rubric.Pattern

open Regex

/-- The anchor may not match. -/
def Anchoring.disables (a : Anchoring) : Anchor → Bool
  | .textStart => !a.firstLine
  | .searchStart => !a.here
  | _ => false

/-- The character that masks letters, as a part of a pattern. -/
def mark : Node :=
  .one (.single masked.toNat)

/-- Masking leaves the characters alone, whatever follows them. -/
def Stays (letters cs : List Char) : Prop :=
  ∀ rest, maskEach letters (cs ++ rest) = cs ++ maskEach letters rest

/-- Letters mean what case they have in the group. -/
def KeepsCase (cs : List Char) : Prop :=
  ∀ (o : Options) (op : Opening) (rest : List Char), o.ignoreCase = false →
    opening o cs = .ok (op, rest) → (op.inner o).ignoreCase = false

/-- The escapes that are masked are parts of the pattern by themselves. -/
inductive Anchoring.Laid (a : Anchoring) : List Char → Prop
  | nil : Laid a []
  | anchor {c : Char} {s : List Char} : c ∈ a.barred → Laid a s → Laid a ('\\' :: c :: s)
  | part {cs s : List Char} : IsPart cs → Stays a.barred cs → Laid a s → Laid a (cs ++ s)
  | quantifier {cs s : List Char} : IsQuantifier cs → Stays a.barred cs → s.head? ≠ some '?' →
    s.head? ≠ some '+' → Laid a s → Laid a (cs ++ s)
  | opening {cs s : List Char} : IsOpening cs → KeepsCase cs → Stays a.barred cs → Laid a s →
    Laid a ('(' :: (cs ++ s))
  | capture {s : List Char} : s.head? ≠ some '?' → s.head? ≠ some '*' → Laid a s →
    Laid a ('(' :: s)
  | alternative {s : List Char} : Laid a s → Laid a ('|' :: s)
  | close {s : List Char} : Laid a s → Laid a (')' :: s)

variable {a : Anchoring} {letters s rest cs : List Char} {c : Char} {n m : Node} {o : Options}
  {fuel depth : Nat} {first : Bool} {r : Reading}

/-! ## Masking -/

theorem maskEach_eq_cons (hc : c ≠ '\\') (h : c :: rest = maskEach letters s) :
    ∃ s', s = c :: s' ∧ rest = maskEach letters s' := by
  cases s with
  | nil => cases h
  | cons d s =>
    have hd : c = d := by
      have hhead : (maskEach letters (d :: s)).head? = some d := head?_maskEach
      rw [← h] at hhead
      exact Option.some.inj hhead
    subst hd
    rw [maskEach_plain hc] at h
    exact ⟨s, rfl, (List.cons.inj h).2⟩

theorem Uncommented.maskEach (h : Uncommented s) : Uncommented (maskEach letters s) := by
  intro rest heq
  obtain ⟨s, rfl, hopt⟩ := maskEach_eq_cons (by decide) heq.symm
  obtain ⟨s, rfl, hsign⟩ := maskEach_eq_cons (by decide) hopt
  obtain ⟨s, rfl, -⟩ := maskEach_eq_cons (by decide) hsign
  exact h s rfl

theorem Unquantified.maskEach (h : Unquantified s) : Unquantified (maskEach letters s) :=
  fun c hc => h c (head?_maskEach ▸ hc)

theorem exists_anchor (hc : c ∈ a.barred) :
    ∃ b, anchorEscape? c = some b ∧ a.disables b = true := by
  obtain ⟨firstLine, here⟩ := a
  have hc : c = 'A' ∧ firstLine = false ∨ c = 'G' ∧ here = false := by
    cases firstLine <;> cases here <;> simp_all [Anchoring.barred]
  obtain ⟨rfl, rfl⟩ | ⟨rfl, rfl⟩ := hc
  · exact ⟨.textStart, rfl, rfl⟩
  · exact ⟨.searchStart, rfl, rfl⟩

theorem disables_eq_false {b : Anchor} (hc : c ∉ a.barred) (hb : anchorEscape? c = some b) :
    a.disables b = false := by
  have hletter (d : Char) (h : c = d) : d ∉ a.barred := h ▸ hc
  unfold anchorEscape? at hb
  split_ifs at hb with hA _ _ hG <;> cases hb <;> try rfl
  · simpa [Anchoring.disables, Anchoring.barred] using hletter _ hA
  · simpa [Anchoring.disables, Anchoring.barred] using hletter _ hG

/-- A letter in front of which a backslash stays is not masked. -/
theorem Stays.not_mem (h : Stays letters ('\\' :: c :: cs)) (hmasked : masked ∉ letters) :
    c ∉ letters := by
  intro hc
  have hself := h []
  rw [List.append_nil, maskEach_pair, if_pos (by simpa using hc)] at hself
  have hmask : masked = c := by
    simp only [List.cons_append, List.cons.injEq] at hself
    exact hself.2.1
  exact hmasked (hmask ▸ hc)

theorem stays_plain (hcs : ∀ c ∈ cs, c ≠ '\\') : Stays letters cs :=
  fun _ => maskEach_append hcs

theorem stays_pair (hc : c ∉ letters) : Stays letters ['\\', c] := by
  intro rest
  rw [List.cons_append, List.singleton_append, maskEach_pair, if_neg (by simpa using hc)]
  rfl

/-- The groups that only group, the atomic ones, and those that look ahead or behind. -/
theorem keepsCase_sign (hcs : cs ∈ [[':'], ['>'], ['='], ['!'], ['<', '='], ['<', '!']]) :
    KeepsCase ('?' :: cs) := by
  simp only [List.mem_cons, List.not_mem_nil, or_false] at hcs
  obtain rfl | rfl | rfl | rfl | rfl | rfl := hcs <;>
    · rintro o op rest ho ⟨⟩
      exact ho

theorem masked_not_mem_barred : masked ∉ a.barred := by
  intro h
  obtain ⟨b, hb, -⟩ := exists_anchor h
  cases hb

/-! ## What is read -/

section
variable {x y : Node}

theorem numbered_before (hx : x.allParts.all Node.isNumbered = true)
    (hy : y.allParts.all Node.isNumbered = true) :
    (x.before y).allParts.all Node.isNumbered = true := by
  unfold Node.before
  split
  · rfl
  · simp only [Node.allParts_seq, List.all_cons, List.all_append, Bool.and_eq_true] at hy ⊢
    exact ⟨rfl, rfl, hy.2.2⟩
  · simp only [Node.allParts_seq, List.all_cons, List.all_append, Bool.and_eq_true]
    exact ⟨rfl, hx, hy⟩

theorem numbered_followedBy (hx : x.allParts.all Node.isNumbered = true)
    (hy : y.allParts.all Node.isNumbered = true) :
    (x.followedBy y).allParts.all Node.isNumbered = true := by
  induction x with
  | seq first rest _ ih =>
    simp only [Node.allParts_seq, List.all_cons, List.all_append, Bool.and_eq_true] at hx
    exact numbered_before hx.2.1 (ih hx.2.2)
  | _ => exact numbered_before hx hy

theorem numbered_apply (q : Quantifier) (hx : x.allParts.all Node.isNumbered = true) :
    (q.apply x).allParts.all Node.isNumbered = true := by
  unfold Quantifier.apply
  split
  · exact hx
  split
  · exact hx
  cases x with
  | loop =>
    dsimp only
    split <;> exact hx
  | _ => exact hx

end

/-- The node with the mark in the place of the anchors that may not match. The groups of both are
numbered from 1. -/
structure Marked (a : Anchoring) (n m : Node) : Prop where
  eq : m = n.barring a.disables mark
  numbered : n.allParts.all Node.isNumbered = true

namespace Marked
variable {x y : Node}

theorem refl (hn : n.holds a.disables = false) (hnumber : n.allParts.all Node.isNumbered = true) :
    Marked a n n :=
  ⟨(Node.barring_eq_self hn).symm, hnumber⟩

theorem before (h : Marked a n m) (h' : Marked a x y) : Marked a (n.before x) (m.before y) := by
  refine ⟨?_, numbered_before h.numbered h'.numbered⟩
  rw [h.eq, h'.eq]
  exact (Node.barring_before _ _).symm

theorem followedBy (h : Marked a n m) (h' : Marked a x y) :
    Marked a (n.followedBy x) (m.followedBy y) := by
  refine ⟨?_, numbered_followedBy h.numbered h'.numbered⟩
  rw [h.eq, h'.eq]
  exact (Node.barring_followedBy _ _).symm

theorem apply (q : Quantifier) (h : Marked a n m) : Marked a (q.apply n) (q.apply m) := by
  refine ⟨?_, numbered_apply q h.numbered⟩
  rw [h.eq]
  exact (Node.barring_apply _ _).symm

theorem alt (h : Marked a n m) (h' : Marked a x y) : Marked a (.alt n x) (.alt m y) := by
  refine ⟨by rw [h.eq, h'.eq]; rfl, ?_⟩
  simp only [Node.allParts_alt, List.all_cons, List.all_append, h.numbered, h'.numbered]
  rfl

theorem enclosed (h : Marked a n m) : Marked a (.enclosed n) (.enclosed m) :=
  ⟨by rw [h.eq]; rfl, h.numbered⟩

theorem group {index : Nat} (hindex : index ≠ 0) (h : Marked a n m) :
    Marked a (.group index n) (.group index m) := by
  refine ⟨by rw [h.eq]; rfl, ?_⟩
  simpa [Node.isNumbered, hindex] using h.numbered

/-- A group of any kind that does not capture. -/
theorem wrap {inner : Options} {wrap : Node → Node}
    (hopen : opening o s = .ok (.plain inner wrap, rest)) (h : Marked a n m) :
    Marked a (wrap n) (wrap m) := by
  obtain ⟨rfl, hnumber⟩ := h
  obtain rfl | rfl | ⟨_, rfl⟩ | ⟨_, _, rfl⟩ := opening_plain hopen <;> exact ⟨rfl, hnumber⟩

end Marked

/-- A part without masked escapes holds none of the anchors. -/
theorem marked_of_part (ho : o.ignoreCase = false) (hstays : Stays a.barred (c :: cs))
    {result : Except Error (Node × Reading)} (h : ∀ rest,
      (part o depth c (cs ++ rest)).run (r.over (c :: cs ++ rest)) =
        result.map fun p => (p.1, p.2.over rest)) :
    ∀ p, result = .ok p → Marked a p.1 p.1 := by
  rintro ⟨n, r'⟩ rfl
  have hself (hleaf : n.isLeaf = true) (hanchor : ∀ b, n = .anchor b → a.disables b = false) :
      Marked a n n := by
    refine .refl ?_ ?_
    · rw [Node.holds, Node.allParts_leaf hleaf]
      cases n with
      | anchor b => simpa [Node.isOneOf] using hanchor b rfl
      | _ => rfl
    · rw [Node.allParts_leaf hleaf]
      cases n with
      | group => cases hleaf
      | _ => rfl
  rcases yields_part ho depth _ _ (h []) with hplain | hstart | hend | ⟨b, d, s, hb, rfl, hs, hd⟩
  · refine hself ?_ ?_
    · cases n <;> first | rfl | cases hplain
    · rintro b rfl
      cases hplain
  · obtain rfl : n = .anchor .lineStart := hstart
    exact hself rfl (by rintro _ ⟨⟩; rfl)
  · obtain rfl : n = .anchor .lineEnd := hend
    exact hself rfl (by rintro _ ⟨⟩; rfl)
  · obtain rfl : n = .anchor b := hb
    rw [List.append_nil] at hs
    subst hs
    refine hself rfl ?_
    rintro _ ⟨⟩
    exact disables_eq_false (hstays.not_mem masked_not_mem_barred) hd

/-! ## Reading -/

/-- Letters and blanks stand for themselves. -/
structure Verbatim (o : Options) : Prop where
  ignoreCase : o.ignoreCase = false
  extended : o.extended = false

/-- What was read of the pattern is in the relation to what was read of the masked pattern, and the
rest is left of both. -/
structure Passes {α β : Type} (a : Anchoring) (R : α → β → Prop) (p : α × Reading)
    (q : β × Reading) : Prop where
  rel : R p.1 q.1
  rest : ∃ (s : List Char) (r : Reading), a.Laid s ∧ p.2 = r.over s ∧
    q.2 = r.over (maskEach a.barred s)

namespace Anchoring.Laid

theorem uncommented (h : a.Laid s) : Uncommented s := by
  cases h with
  | nil => exact nofun
  | anchor | alternative | close => exact uncommented_of_head (by simp)
  | part h | quantifier h | opening h => exact h.uncommented _
  | capture hopt => exact uncommented_capture hopt

/-- Behind a sign that ends an alternative, the pattern goes on. -/
theorem of_mark (h : a.Laid (c :: s)) (hc : c = '|' ∨ c = ')') : a.Laid s := by
  have hne : c ≠ '\\' ∧ c ≠ '(' ∧ c ∈ ['(', ')', '|'] ∧ c ∉ quantifierSigns := by
    obtain rfl | rfl := hc <;> decide
  generalize heq : c :: s = t at h
  have hhead : t.head? = some c := heq ▸ rfl
  cases h with
  | nil => cases heq
  | anchor => exact absurd (List.cons.inj heq).1 hne.1
  | part h => exact absurd hhead (h.head_ne hne.2.2.1 _)
  | quantifier h => exact absurd hhead (h.head_ne hne.2.2.2 _)
  | opening | capture => exact absurd (List.cons.inj heq).1 hne.2.1
  | alternative h | close h =>
    cases heq
    exact h

end Anchoring.Laid

theorem Passes.self {α β : Type} {R : α → β → Prop} {x : α} {y : β} (hs : a.Laid s) (h : R x y) :
    Passes a R (x, r.over s) (y, r.over (maskEach a.barred s)) :=
  ⟨h, s, r, hs, rfl, rfl⟩

theorem quantified_carries_none (ho : o.extended = false) (hs : a.Laid s) (h : Marked a n m)
    (hsign : Unquantified s) :
    Carries (Passes a (Marked a)) ((quantified o fuel depth n).run (r.over s))
      ((quantified o fuel depth m).run (r.over (maskEach a.barred s))) := by
  rw [run_quantified_none ho hs.uncommented hsign,
    run_quantified_none ho (Uncommented.maskEach hs.uncommented) (Unquantified.maskEach hsign)]
  exact .ok (.self hs h)

theorem quantified_carries (ho : o.extended = false) (hs : a.Laid s) (h : Marked a n m) :
    Carries (Passes a (Marked a)) ((quantified o fuel depth n).run (r.over s))
      ((quantified o fuel depth m).run (r.over (maskEach a.barred s))) := by
  induction hs generalizing fuel depth n m with
  | @quantifier cs s hcs hstays hopt hplus hs ih =>
    have hlaid := Anchoring.Laid.quantifier hcs hstays hopt hplus hs
    cases fuel with
    | zero => exact .ok (.self hlaid h)
    | succ fuel =>
      rw [run_quantified ho hlaid.uncommented,
        run_quantified ho (Uncommented.maskEach hlaid.uncommented), hstays]
      cases cs with
      | nil => cases hcs
      | cons c cs =>
        obtain ⟨_, result, hresult⟩ := hcs
        rw [hresult _ hopt hplus, hresult _ (by rwa [head?_maskEach]) (by rwa [head?_maskEach])]
        cases result with
        | error e => exact .error
        | ok q =>
          simp only [Except.map, ok_bind]
          cases hrep : n.unrepeatable with
          | true => exact .error
          | false =>
            have hrep' : m.unrepeatable = false :=
              Bool.eq_false_iff.mpr fun hm => by
                rw [h.eq] at hm
                exact Bool.false_ne_true (hrep.symm.trans (Node.unrepeatable_barring hm))
            rw [hrep']
            by_cases hdepth : depthLimit ≤ depth
            · simp only [if_pos hdepth]
              exact .error
            · simp only [if_neg hdepth]
              exact ih (h.apply q)
  | nil => exact quantified_carries_none ho .nil h nofun
  | anchor hc hs =>
    exact quantified_carries_none ho (.anchor hc hs) h (by rintro _ ⟨⟩; decide)
  | part hcs hstays hs =>
    exact quantified_carries_none ho (.part hcs hstays hs) h (hcs.unquantified _)
  | opening hcs hcase hstays hs =>
    exact quantified_carries_none ho (.opening hcs hcase hstays hs) h (by rintro _ ⟨⟩; decide)
  | capture hopt hstar hs =>
    exact quantified_carries_none ho (.capture hopt hstar hs) h (by rintro _ ⟨⟩; decide)
  | alternative hs => exact quantified_carries_none ho (.alternative hs) h (by rintro _ ⟨⟩; decide)
  | close hs => exact quantified_carries_none ho (.close hs) h (by rintro _ ⟨⟩; decide)

/-- With this fuel, the alternatives of a group, the parts of one, and what stands behind a part are
read alike. Masking keeps the length, so both readers spend their fuel alike. -/
structure ReadsAlike (a : Anchoring) (fuel : Nat) : Prop where
  alternatives : ∀ (o : Options) (depth : Nat) (r : Reading) (s : List Char), Verbatim o →
    a.Laid s → Carries (Passes a (Marked a)) ((alternatives fuel depth o).run (r.over s))
      ((alternatives fuel depth o).run (r.over (maskEach a.barred s)))
  branch : ∀ (o : Options) (depth : Nat) (first : Bool) (r : Reading) (s : List Char), Verbatim o →
    a.Laid s → Carries (Passes a (Option.Rel (Marked a)))
      ((branch fuel depth o first).run (r.over s))
      ((branch fuel depth o first).run (r.over (maskEach a.barred s)))
  next : ∀ (o : Options) (depth : Nat) (first : Bool) (r : Reading) (s : List Char) (n m : Node),
    Verbatim o → a.Laid s → Marked a n m → Carries (Passes a (Option.Rel (Marked a)))
      ((next fuel depth o first n).run (r.over s))
      ((next fuel depth o first m).run (r.over (maskEach a.barred s)))

namespace ReadsAlike

theorem zero : ReadsAlike a 0 where
  alternatives _ _ _ _ _ _ := .error
  branch _ _ _ _ _ _ _ := .error
  next _ _ _ _ _ _ _ _ _ _ := .error

variable (H : ReadsAlike a fuel)
include H

theorem alternatives_succ (ho : Verbatim o) (hs : a.Laid s) :
    Carries (Passes a (Marked a)) ((Regex.alternatives (fuel + 1) depth o).run (r.over s))
      ((Regex.alternatives (fuel + 1) depth o).run (r.over (maskEach a.barred s))) := by
  by_cases hdepth : depthLimit ≤ depth + 1
  · rw [Regex.alternatives, if_pos hdepth]
    exact .error
  rw [run_alternatives (Nat.not_le.mp hdepth), run_alternatives (Nat.not_le.mp hdepth)]
  refine (H.branch o _ true r s ho hs).bind ?_
  rintro ⟨found, _⟩ ⟨found', _⟩ ⟨hfound, s, r, hs, rfl, rfl⟩
  have hnode : Marked a (found.getD .empty) (found'.getD .empty) := by
    cases hfound with
    | none => exact .refl rfl rfl
    | some h => exact h
  by_cases hbar : s.head? = some '|'
  · obtain ⟨s, rfl⟩ := List.head?_eq_some_iff.mp hbar
    have hrest := hs.of_mark (.inl rfl)
    rw [maskEach_plain (by decide)]
    refine (H.alternatives o depth r s ho hrest).bind ?_
    rintro p q ⟨hothers, hleft⟩
    exact .ok ⟨hnode.alt hothers, hleft⟩
  · dsimp only [Reading.rest_over]
    split
    · exact absurd rfl hbar
    · split
      · next heq => exact absurd (head?_maskEach ▸ congrArg List.head? heq) hbar
      · exact .ok (.self hs hnode)

theorem next_succ (ho : Verbatim o) (hs : a.Laid s) (h : Marked a n m) :
    Carries (Passes a (Option.Rel (Marked a)))
      ((Regex.next (fuel + 1) depth o first n).run (r.over s))
      ((Regex.next (fuel + 1) depth o first m).run (r.over (maskEach a.barred s))) := by
  rw [run_next, run_next]
  refine (quantified_carries ho.extended hs h).bind ?_
  rintro ⟨n, _⟩ ⟨m, _⟩ ⟨hnode, s, r, hs, rfl, rfl⟩
  refine (H.branch o depth false r s ho hs).bind ?_
  rintro ⟨more, _⟩ ⟨more', _⟩ ⟨hmore, hrest⟩
  refine .ok ⟨?_, hrest⟩
  cases hmore with
  | none => exact .some hnode
  | some h =>
    refine .some ?_
    cases first with
    | true => exact hnode.before h
    | false => exact hnode.followedBy h

/-- A group and what follows it. -/
theorem group (wrap : Node → Node)
    (hwrap : ∀ {n m : Node}, Marked a n m → Marked a (wrap n) (wrap m)) {inner : Options}
    (ho : Verbatim o) (hinner : Verbatim inner) (hs : a.Laid s) :
    Carries (Passes a (Option.Rel (Marked a)))
      ((Regex.alternatives fuel depth inner).run (r.over s) >>= fun p =>
        closeGroup.run p.2 >>= fun q => (Regex.next fuel depth o first (wrap p.1)).run q.2)
      ((Regex.alternatives fuel depth inner).run (r.over (maskEach a.barred s)) >>= fun p =>
        closeGroup.run p.2 >>= fun q => (Regex.next fuel depth o first (wrap p.1)).run q.2) := by
  refine (H.alternatives inner depth r s hinner hs).bind ?_
  rintro ⟨body, _⟩ ⟨body', _⟩ ⟨hbody, s, r, hs, rfl, rfl⟩
  by_cases hclose : s.head? = some ')'
  · obtain ⟨s, rfl⟩ := List.head?_eq_some_iff.mp hclose
    rw [maskEach_plain (by decide), run_closeGroup_close, run_closeGroup_close, ok_bind, ok_bind]
    exact H.next o depth first r s _ _ ho (hs.of_mark (.inr rfl)) (hwrap hbody)
  · rw [run_closeGroup_ne hclose]
    exact .error

theorem branch_anchor (ho : Verbatim o) (hc : c ∈ a.barred) (hs : a.Laid s) :
    Carries (Passes a (Option.Rel (Marked a)))
      ((Regex.branch (fuel + 1) depth o first).run (r.over ('\\' :: c :: s)))
      ((Regex.branch (fuel + 1) depth o first).run
        (r.over (maskEach a.barred ('\\' :: c :: s)))) := by
  obtain ⟨b, hb, hdisables⟩ := exists_anchor hc
  have hread : (part o depth '\\' (c :: s)).run (r.over ('\\' :: c :: s)) =
      .ok (.anchor b, r.over s) := by
    change (Regex.escaped o c s).run _ = _
    rw [Regex.escaped.eq_def, hb]
    rfl
  have hmasked (s : List Char) : (part o depth '\\' (masked :: s)).run
      (r.over ('\\' :: masked :: s)) = .ok (mark, r.over s) := by
    have hletter : o.letter masked = mark := by
      rw [Options.letter, ho.ignoreCase]
      rfl
    have hliteral : (part o depth '\\' (masked :: s)).run (r.over ('\\' :: masked :: s)) =
        (o.literal masked.toNat).run (r.over s) := rfl
    rw [hliteral, run_literal, hletter]
  have hmark : Marked a (.anchor b) mark := ⟨(if_pos hdisables).symm, rfl⟩
  rw [maskEach_pair, if_pos (by simpa using hc), run_branch_part ho.extended (by decide),
    run_branch_part ho.extended (by decide), hread, hmasked, ok_bind, ok_bind]
  exact H.next o depth first r s _ _ ho hs hmark

theorem branch_part (ho : Verbatim o) (hcs : IsPart cs) (hstays : Stays a.barred cs)
    (hs : a.Laid s) : Carries (Passes a (Option.Rel (Marked a)))
      ((Regex.branch (fuel + 1) depth o first).run (r.over (cs ++ s)))
      ((Regex.branch (fuel + 1) depth o first).run (r.over (maskEach a.barred (cs ++ s)))) := by
  rw [hstays]
  cases cs with
  | nil => cases hcs
  | cons c cs =>
    obtain ⟨hc, _, hread⟩ := hcs
    obtain ⟨result, hresult⟩ := hread o depth r
    have hmarked := marked_of_part ho.ignoreCase hstays hresult
    rw [List.cons_append, List.cons_append, run_branch_part ho.extended hc,
      run_branch_part ho.extended hc]
    rw [← List.cons_append, ← List.cons_append, hresult, hresult]
    cases result with
    | error e => exact .error
    | ok p => exact H.next o depth first p.2 s _ _ ho hs (hmarked p rfl)

theorem branch_opening (ho : Verbatim o) (hcs : IsOpening cs) (hcase : KeepsCase cs)
    (hstays : Stays a.barred cs) (hs : a.Laid s) : Carries (Passes a (Option.Rel (Marked a)))
      ((Regex.branch (fuel + 1) depth o first).run (r.over ('(' :: (cs ++ s))))
      ((Regex.branch (fuel + 1) depth o first).run
        (r.over (maskEach a.barred ('(' :: (cs ++ s))))) := by
  obtain ⟨result, hinner, hresult⟩ := hcs.reads o ho.extended
  rw [maskEach_plain (by decide), hstays, run_branch_group ho.extended (hcs.uncommented _).behind,
    run_branch_group ho.extended (hcs.uncommented _).behind, hresult, hresult]
  cases result with
  | error e => exact .error
  | ok op =>
    have hopen := hresult []
    rw [List.append_nil] at hopen
    have hverbatim : Verbatim (op.inner o) := ⟨hcase o op [] ho.ignoreCase hopen, hinner op rfl⟩
    cases op with
    | optionsOnward inner =>
      refine (H.alternatives inner depth r s hverbatim hs).bind ?_
      rintro p q ⟨hbody, hrest⟩
      exact .ok ⟨.some hbody.enclosed, hrest⟩
    | options inner => exact H.group .enclosed .enclosed ho hverbatim hs
    | plain inner wrap => exact H.group wrap (.wrap hopen) ho hverbatim hs
    | capture name =>
      simp only [Except.map, ok_bind, run_openGroup_bind]
      exact H.group (.group _) (.group (Nat.succ_ne_zero _)) ho ho hs

theorem branch_capture (ho : Verbatim o) (hopt : s.head? ≠ some '?') (hstar : s.head? ≠ some '*')
    (hs : a.Laid s) : Carries (Passes a (Option.Rel (Marked a)))
      ((Regex.branch (fuel + 1) depth o first).run (r.over ('(' :: s)))
      ((Regex.branch (fuel + 1) depth o first).run (r.over (maskEach a.barred ('(' :: s)))) := by
  have hhead : (maskEach a.barred s).head? = s.head? := head?_maskEach
  rw [maskEach_plain (by decide), run_branch_group ho.extended (uncommented_capture hopt).behind,
    run_branch_group ho.extended (uncommented_capture (hhead ▸ hopt)).behind]
  by_cases hne : s = []
  · subst hne
    exact .error
  · have hne' : maskEach a.barred s ≠ [] := by
      intro h
      rw [h] at hhead
      exact hne (List.head?_eq_none_iff.mp hhead.symm)
    rw [opening_capture hne hopt hstar, opening_capture hne' (hhead ▸ hopt) (hhead ▸ hstar)]
    simp only [ok_bind, run_openGroup_bind]
    exact H.group (.group _) (.group (Nat.succ_ne_zero _)) ho ho hs

theorem branch_succ (ho : Verbatim o) (hs : a.Laid s) : Carries (Passes a (Option.Rel (Marked a)))
    ((Regex.branch (fuel + 1) depth o first).run (r.over s))
    ((Regex.branch (fuel + 1) depth o first).run (r.over (maskEach a.barred s))) := by
  cases hs with
  | nil =>
    have hnil : maskEach a.barred [] = [] := rfl
    rw [hnil, run_branch_nil]
    exact .ok (.self .nil .none)
  | anchor hc hs => exact H.branch_anchor ho hc hs
  | part hcs hstays hs => exact H.branch_part ho hcs hstays hs
  | @quantifier cs s hcs hstays hopt hplus hs =>
    cases cs with
    | nil => cases hcs
    | cons c cs =>
      have hne : ∀ d ∈ quantifierSigns, d ∉ ['(', ')', '|'] := by simp [quantifierSigns]
      obtain ⟨hsign, result, hresult⟩ := hcs
      rw [List.cons_append, run_branch_part ho.extended (hne c hsign), run_part_quantifier hsign,
        ← List.cons_append, hresult _ hopt hplus]
      cases result <;> exact .error
  | opening hcs hcase hstays hs => exact H.branch_opening ho hcs hcase hstays hs
  | capture hopt hstar hs => exact H.branch_capture ho hopt hstar hs
  | alternative hs =>
    rw [maskEach_plain (by decide), run_branch_mark ho.extended (.inl rfl),
      run_branch_mark ho.extended (.inl rfl), ← maskEach_plain (by decide)]
    exact .ok (.self (.alternative hs) .none)
  | close hs =>
    rw [maskEach_plain (by decide), run_branch_mark ho.extended (.inr rfl),
      run_branch_mark ho.extended (.inr rfl), ← maskEach_plain (by decide)]
    exact .ok (.self (.close hs) .none)

end ReadsAlike

theorem readsAlike (a : Anchoring) (fuel : Nat) : ReadsAlike a fuel := by
  induction fuel with
  | zero => exact .zero
  | succ fuel H =>
    exact {
      alternatives := fun _ _ _ _ ho hs => H.alternatives_succ ho hs
      branch := fun _ _ _ _ _ ho hs => H.branch_succ ho hs
      next := fun _ _ _ _ _ _ _ ho hs h => H.next_succ ho hs h }

/-- A pattern whose masked escapes are parts by themselves is read to the expression with the mark
in the place of the anchors that may not match, if these stand apart. -/
theorem compile_anchored {pattern : List Char} {e : Expression} (hs : a.Laid pattern)
    (he : Expression.compile pattern = .ok e) (hapart : e.isApart a.disables = true) :
    Expression.compile (anchored a pattern) = .ok (e.barring a.disables mark) ∧ e.called = [] := by
  obtain ⟨⟨n, r⟩, hn, he⟩ := bind_eq_ok.mp he
  obtain ⟨⟨m, r'⟩, hm, ⟨rfl, hnumber⟩, s, r, hs, rfl, rfl⟩ :=
    (readsAlike a _).alternatives {} 0 { rest := pattern } pattern ⟨rfl, rfl⟩ hs _ hn
  rw [anchored, mask_eq_maskEach, Expression.compile, length_maskEach]
  have hread : (alternatives (4 * pattern.length + 4) 0 {}).run
      { rest := maskEach a.barred pattern } = _ := hm
  rw [hread, ok_bind]
  cases s with
  | nil => exact Reading.finish_barring he hnumber hapart
  | cons => cases he

end Rubric.Pattern
