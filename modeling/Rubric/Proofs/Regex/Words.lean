import Rubric.Pattern.Backreference
import Rubric.Proofs.Regex.Parts
import Rubric.Proofs.Regex.Regrouped

/-!
# Texts in patterns

An escaped text is read to its characters, one behind the other: bare, they are read in front of
what follows them (`run_branch_escaped`), and in a group, as a word of their own
(`run_branch_word`). As the beginning of a sequence, the word differs from its characters in the
grouping alone (`Node.Regrouped.word_before`).
-/

namespace Rubric.Regex

variable {o : Options} {fuel depth : Nat} {first : Bool} {r : Reading} {c : Char}
  {s rest : List Char}
  {node : Node}

/-! ## Reading texts -/

theorem run_part_special (hc : c ∈ Pattern.special) :
    (part o depth '\\' (c :: s)).run (r.over ('\\' :: c :: s)) = .ok (o.letter c, r.over s) := by
  have hliteral : (part o depth '\\' (c :: s)).run (r.over ('\\' :: c :: s)) =
      (o.literal c.toNat).run (r.over s) := by
    simp only [Pattern.special, List.mem_cons, List.not_mem_nil, or_false] at hc
    rcases hc with rfl | rfl | rfl | rfl | rfl | rfl | rfl | rfl | rfl | rfl | rfl | rfl | rfl |
      rfl |
      rfl | rfl | rfl | rfl | rfl | rfl | rfl | rfl | rfl | rfl <;> rfl
  exact hliteral.trans run_literal

/-- An escaped character is read as the character itself. -/
theorem run_branch_letter (ho : o.extended = false) :
    (branch (fuel + 1) depth o first).run (r.over (Pattern.escaped [c] ++ s)) =
      (next fuel depth o first (o.letter c)).run (r.over s) := by
  by_cases hc : c ∈ Pattern.special
  · have hescaped : Pattern.escaped [c] = ['\\', c] := by simp [Pattern.escaped, hc]
    rw [hescaped, List.cons_append, List.singleton_append, run_branch_part ho (by decide),
      run_part_special hc, ok_bind]
  · have hescaped : Pattern.escaped [c] = [c] := by simp [Pattern.escaped, hc]
    have hnot (list : List Char) (hsub : ∀ d ∈ list, d ∈ Pattern.special) : c ∉ list :=
      fun h => hc (hsub c h)
    rw [hescaped, List.singleton_append, run_branch_part ho (hnot _ (by simp [Pattern.special])),
      run_part_plain (hnot _ (by simp [Pattern.special]))
        (hnot _ (by simp [Pattern.special, quantifierSigns])), ok_bind]

/-- The characters of a text, one behind the other. -/
def Options.word (o : Options) : List Char → Node
  | [] => .empty
  | [c] => o.letter c
  | c :: d :: s => (o.letter c).before (o.word (d :: s))

/-- The characters of a text in front of a node. -/
def Options.onward (o : Options) (s : List Char) (node : Node) : Node :=
  s.foldr (fun c node => (o.letter c).before node) node

theorem Options.letter_followedBy {node : Node} :
    (o.letter c).followedBy node = (o.letter c).before node := by
  unfold letter
  split
  · rfl
  · split <;> rfl

/-- An escaped text begins with a backslash or with a character that need not be escaped. -/
theorem head_escaped (hs : s ≠ []) :
    ∃ c rest, Pattern.escaped s = c :: rest ∧ (c = '\\' ∨ c ∉ Pattern.special) := by
  obtain ⟨c, s, rfl⟩ := List.exists_cons_of_ne_nil hs
  by_cases hc : c ∈ Pattern.special
  · exact ⟨'\\', c :: Pattern.escaped s, by simp [Pattern.escaped, hc], .inl rfl⟩
  · exact ⟨c, Pattern.escaped s, by simp [Pattern.escaped, hc], .inr hc⟩

theorem length_le_escaped (s : List Char) : s.length ≤ (Pattern.escaped s).length := by
  induction s with
  | nil => exact Nat.le_refl _
  | cons c s ih =>
    rw [Pattern.escaped, List.flatMap_cons, List.length_append, List.length_cons]
    have hone : 1 ≤ (if Pattern.special.contains c then ['\\', c] else [c]).length := by
      split <;> simp
    exact Nat.add_comm s.length 1 ▸ Nat.add_le_add hone ih

theorem head_escaped_ne {t : List Char} (hs : s ≠ []) (hc : c ∈ Pattern.special) (hne : c ≠ '\\') :
    (Pattern.escaped s ++ t).head? ≠ some c := by
  obtain ⟨d, rest, hrest, hd⟩ := head_escaped hs
  rw [hrest]
  rintro ⟨⟩
  exact hd.elim hne fun h => h hc

theorem unquantified_escaped {t : List Char} (hs : s ≠ []) :
    Unquantified (Pattern.escaped s ++ t) := by
  have hspecial : ∀ c ∈ quantifierSigns, c ∈ Pattern.special ∧ c ≠ '\\' := by
    simp [quantifierSigns, Pattern.special]
  intro c hc hsign
  exact head_escaped_ne hs (hspecial c hsign).1 (hspecial c hsign).2 hc

theorem run_branch_escaped {t : List Char} (ho : o.extended = false) (hs : s ≠ [])
    (hcomment : Uncommented t) (hsign : Unquantified t) :
    (branch (fuel + 2 * s.length) depth o first).run (r.over (Pattern.escaped s ++ t)) =
      (branch fuel depth o false).run (r.over t) >>= fun q =>
        .ok (some (match q.1 with
          | none => o.word s
          | some rest => o.onward s rest), q.2) := by
  induction s generalizing first with
  | nil => exact absurd rfl hs
  | cons c s ih =>
    have hcons : Pattern.escaped (c :: s) ++ t =
        Pattern.escaped [c] ++ (Pattern.escaped s ++ t) := by
      simp [Pattern.escaped]
    have hletter {u : List Char} {fuel : Nat} (hcomment : Uncommented u) (hsign : Unquantified u) :
        (branch (fuel + 2) depth o first).run (r.over (Pattern.escaped [c] ++ u)) =
          (branch fuel depth o false).run (r.over u) >>= fun q =>
            .ok (some (match q.1 with
              | none => o.letter c
              | some rest => (o.letter c).before rest), q.2) := by
      rw [run_branch_letter ho, run_next, run_quantified_none ho hcomment hsign, ok_bind]
      refine congrArg _ (funext fun q => ?_)
      obtain ⟨_ | rest, r'⟩ := q
      · rfl
      · simp only [Options.letter_followedBy, ite_self]
    rw [hcons]
    cases s with
    | nil => exact hletter hcomment hsign
    | cons d s =>
      have hne : d :: s ≠ [] := List.cons_ne_nil _ _
      have huncommented : Uncommented (Pattern.escaped (d :: s) ++ t) :=
        uncommented_of_head (head_escaped_ne hne (by decide) (by decide))
      rw [List.length_cons, Nat.mul_succ, ← Nat.add_assoc,
        hletter huncommented (unquantified_escaped hne), ih hne, bind_assoc]
      refine congrArg _ (funext fun q => ?_)
      obtain ⟨_ | rest, r'⟩ := q <;> rfl

/-- A group with a text is read to the word. -/
theorem run_branch_word {t : List Char} (ho : o.extended = false) (hs : s ≠ [])
    (hdepth : depth + 1 < depthLimit) (hfuel : 2 * s.length + 2 ≤ fuel) :
    (branch (fuel + 1) depth o first).run
        (r.over (['(', '?', ':'] ++ Pattern.escaped s ++ [')'] ++ t)) =
      (next fuel depth o first (o.word s)).run (r.over t) := by
  have hclose : Uncommented (')' :: t) ∧ Unquantified (')' :: t) :=
    ⟨uncommented_of_head (by simp), by rintro _ ⟨⟩; decide⟩
  have hword : (alternatives fuel depth o).run (r.over (Pattern.escaped s ++ ')' :: t)) =
      .ok (o.word s, r.over (')' :: t)) := by
    obtain ⟨fuel, rfl⟩ := Nat.exists_eq_add_of_le' hfuel
    rw [show fuel + (2 * s.length + 2) = fuel + 1 + 2 * s.length + 1 by omega,
      run_alternatives hdepth, run_branch_escaped ho hs hclose.1 hclose.2,
      run_branch_mark ho (.inr rfl)]
    rfl
  have happend : ['(', '?', ':'] ++ Pattern.escaped s ++ [')'] ++ t =
      '(' :: '?' :: ':' :: (Pattern.escaped s ++ ')' :: t) := by simp
  rw [happend, run_branch_group ho (by rintro rest ⟨⟩)]
  simp only [opening, ok_bind, hword, run_closeGroup_close]
  rfl

/-! ## Words in sequences -/

theorem Options.letter_cases (o : Options) :
    (∀ c, ∃ set, o.letter c = .one set) ∨ ∀ c, o.letter c = .folded [[c.toNat]] := by
  cases hcase : o.ignoreCase with
  | false => exact .inl fun c => ⟨.single c.toNat, by simp [letter, hcase]⟩
  | true =>
    cases hbehind : o.behind with
    | true => exact .inl fun c => ⟨_, by rw [letter, hcase, hbehind]; rfl⟩
    | false => exact .inr fun c => by rw [letter, hcase, hbehind]; rfl

theorem Node.folded_before_before (p q : List (List Nat)) (node : Node) :
    (folded (p ++ q)).before node = (folded p).before ((folded q).before node) := by
  cases node with
  | folded => simp only [before, List.append_assoc]
  | seq a b => cases a <;> simp only [before, List.append_assoc]
  | _ => rfl

theorem Options.isText_word (hone : ∀ c, ∃ set, o.letter c = .one set) (hs : s ≠ []) :
    (o.word s).isText = true := by
  induction s with
  | nil => exact absurd rfl hs
  | cons c s ih =>
    obtain ⟨set, hset⟩ := hone c
    cases s with
    | nil => rw [word, hset]; rfl
    | cons d s =>
      rw [word, hset, Node.before_of_isFolded rfl, Node.isText, ih (List.cons_ne_nil _ _)]
      rfl

theorem Options.exists_word_eq_folded (hfolded : ∀ c, o.letter c = .folded [[c.toNat]])
    (hs : s ≠ []) :
    ∃ parts, o.word s = .folded parts ∧
      ∀ node, o.onward s node = (Node.folded parts).before node := by
  induction s with
  | nil => exact absurd rfl hs
  | cons c s ih =>
    cases s with
    | nil => exact ⟨[[c.toNat]], hfolded c, fun node => by simp [onward, hfolded]⟩
    | cons d s =>
      obtain ⟨parts, hword, honward⟩ := ih (List.cons_ne_nil _ _)
      refine ⟨[c.toNat] :: parts, by rw [word, hword, hfolded]; rfl, fun node => ?_⟩
      have hparts := Node.folded_before_before [[c.toNat]] parts node
      rw [← honward, ← hfolded] at hparts
      exact hparts.symm

theorem Options.word_followedBy (hs : s ≠ []) : (o.word s).followedBy node = o.onward s node := by
  obtain hone | hfolded := o.letter_cases
  · induction s with
    | nil => exact absurd rfl hs
    | cons c s ih =>
      obtain ⟨set, hset⟩ := hone c
      cases s with
      | nil => exact letter_followedBy
      | cons d s =>
        rw [word, hset, Node.before_of_isFolded rfl, Node.followedBy, ih (List.cons_ne_nil _ _),
          ← hset]
        rfl
  · obtain ⟨parts, hword, honward⟩ := exists_word_eq_folded hfolded hs
    rw [hword, honward]
    rfl

theorem Node.Regrouped.onward {node node' : Node} (h : node.Regrouped node') :
    (o.onward s node).Regrouped (o.onward s node') := by
  induction s with
  | nil => exact h
  | cons c s ih => exact (Node.Regrouped.refl _).before ih

/-- A word that stands first in a sequence, and its characters that do. -/
theorem Node.Regrouped.word_before {node node' : Node} (h : node.Regrouped node') (hs : s ≠ []) :
    ((o.word s).before node).Regrouped (o.onward s node') := by
  obtain hone | hfolded := o.letter_cases
  · rw [Node.before_of_isFolded (Node.isFolded_of_isText (Options.isText_word hone hs))]
    induction s with
    | nil => exact absurd rfl hs
    | cons c s ih =>
      obtain ⟨set, hset⟩ := hone c
      have honward : o.onward (c :: s) node' = .seq (.one set) (o.onward s node') := by
        rw [← Node.before_of_isFolded rfl, ← hset]
        rfl
      rw [honward]
      cases s with
      | nil => rw [Options.word, hset]; exact .seq (.leaf rfl) h
      | cons d s =>
        rw [Options.word, hset, Node.before_of_isFolded rfl]
        have hne : d :: s ≠ [] := List.cons_ne_nil _ _
        exact .shift (Options.isText_word hone hne) (ih hne)
  · obtain ⟨parts, hword, honward⟩ := Options.exists_word_eq_folded hfolded hs
    rw [hword, honward]
    exact h.folded_before

end Rubric.Regex
