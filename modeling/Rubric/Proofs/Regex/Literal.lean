import Rubric.Proofs.Regex.Reads
import Rubric.Proofs.Regex.Words

/-!
# Patterns of a text

The pattern of an escaped text is read to its letters, one behind the other (`compile_escaped`), so
it matches where the text stands, the text itself, and nowhere else (`matchAt_escaped`).
-/

namespace Rubric.Regex

/-- The node of a text that is to be matched as it is. -/
abbrev literal (s : List Char) : Node :=
  ({} : Options).word s

variable {s : List Char} {c d : Char}

theorem literal_single : literal [c] = .one (.single c.toNat) := rfl

theorem literal_cons :
    literal (c :: d :: s) = .seq (.one (.single c.toNat)) (literal (d :: s)) := rfl

/-! ## Its parts -/

/-- A node that the letters of a text are made of. -/
def Node.IsLetters : Node → Prop
  | .empty | .one _ | .seq _ _ => True
  | _ => False

theorem parts_literal (enter : Node → Bool) (more : List Node) :
    ∃ l, (literal s).parts enter more = l ++ more ∧ ∀ n ∈ l, n.IsLetters := by
  induction s with
  | nil => exact ⟨[.empty], rfl, by simp [Node.IsLetters]⟩
  | cons c s ih =>
    cases s with
    | nil => exact ⟨[literal [c]], rfl, by simp [literal_single, Node.IsLetters]⟩
    | cons d s =>
      obtain ⟨l, hl, hletters⟩ := ih
      have hparts (a : Node) (set : CharSet) : (Node.seq (.one set) a).parts enter more =
          .seq (.one set) a :: if enter (.seq (.one set) a) then .one set :: a.parts enter more
            else more := rfl
      rw [literal_cons, hparts, hl]
      split
      · exact ⟨_ :: _ :: l, rfl, by simpa [Node.IsLetters] using hletters⟩
      · exact ⟨[_], rfl, by simp [Node.IsLetters]⟩

theorem transform_literal {f : Node → Node} (hf : ∀ n : Node, n.IsLetters → f n = n) :
    (literal s).transform f = literal s := by
  induction s with
  | nil => exact hf _ trivial
  | cons c s ih =>
    cases s with
    | nil => exact hf _ trivial
    | cons d s =>
      rw [literal_cons, Node.transform, ih]
      have hletter : (Node.one (.single c.toNat)).transform f = .one (.single c.toNat) :=
        hf _ trivial
      rw [hletter]
      exact hf _ trivial

theorem measured_literal {bodies : Bodies} {entered : List Nat} :
    (literal s).measured bodies entered = .ok (literal s) := by
  induction s with
  | nil => rfl
  | cons c s ih =>
    cases s with
    | nil => rfl
    | cons d s =>
      rw [literal_cons, Node.measured, ih]
      rfl

theorem bodies_literal : (literal s).bodies 0 = #[literal s] := by
  obtain ⟨l, hl, hletters⟩ := parts_literal (s := s) (fun _ => true) []
  have hfold (f : Bodies → Node → Bodies) (hf : ∀ b (n : Node), n.IsLetters → f b n = b)
      (b : Bodies) : l.foldl f b = b := by
    clear hl
    induction l with
    | nil => rfl
    | cons n l ih =>
      rw [List.forall_mem_cons] at hletters
      rw [List.foldl_cons, hf b n hletters.1, ih hletters.2]
  rw [Node.bodies, Node.allParts, hl, List.append_nil, hfold]
  · rfl
  · intro b n hn
    cases n <;> first | rfl | cases hn

theorem referred_literal : (literal s).referred = [] := by
  obtain ⟨l, hl, hletters⟩ := parts_literal (s := s) (fun _ => true) []
  rw [Node.referred, Node.allParts, hl, List.append_nil, List.flatMap_eq_nil_iff]
  intro n hn
  have := hletters n hn
  cases n <;> first | rfl | cases this

theorem called_literal : Bodies.called #[literal s] = [] := by
  have hnone (enter : Node → Bool) (f : Node → Option Nat)
      (hf : ∀ n : Node, n.IsLetters → f n = none) :
      ((literal s).parts enter []).filterMap f = [] := by
    obtain ⟨l, hl, hletters⟩ := parts_literal (s := s) enter []
    rw [hl, List.append_nil, List.filterMap_eq_nil_iff]
    exact fun n hn => hf n (hletters n hn)
  have hcalls : (literal s).calls = [] :=
    hnone _ _ fun n hn => by cases n <;> first | rfl | cases hn
  have hroot : Array.getD #[literal s] 0 .empty = literal s := rfl
  rw [Bodies.called]
  simp only [hroot, hcalls]
  cases (#[literal s].size + 1) * _ <;> rfl

/-- A text in a pattern of its own needs no finish. -/
theorem finish_literal : Reading.finish { rest := [] } (literal s) = .ok ⟨#[literal s], []⟩ := by
  have hsettled {group : Nat → Option Nat} {target : Nat → Nat} :
      (literal s).settled group target = literal s := by
    refine transform_literal fun n hn => ?_
    cases n <;> first | rfl | cases hn
  have hwatching : (literal s).watching #[literal s] = literal s := by
    rw [Node.watching, referred_literal]
    rfl
  simp [Reading.finish, hsettled, bodies_literal, called_literal, measured_literal, hwatching,
    referred_literal]

/-! ## Its matches -/

theorem run_literal_eq {subject : Subject} {call : Nat → (limit : Nat) → Step} {p : Progress}
    {k : Progress → Option Progress} :
    (literal s).run subject call subject.text.size p k =
      if s <+: subject.ahead p.position then k (p.on s.length) else none := by
  have hletter (c : Char) (p : Progress) (k : Progress → Option Progress) :
      (Node.one (.single c.toNat)).run subject call subject.text.size p k =
        if (subject.ahead p.position).head? = some c then k (p.on 1) else none := by
    cases h : subject.ahead p.position with
    | nil =>
      rw [Node.run_one, Subject.char?_eq_none h]
      rfl
    | cons d rest =>
      rw [Node.run_one, Subject.char?_of_ahead h]
      by_cases hd : d = c
      · subst hd
        exact (if_pos (CharSet.contains_char d)).trans (if_pos rfl).symm
      · have hcontains : (CharSet.single c.toNat).contains d = false :=
          CharSet.contains_char_of_ne hd
        simp [hcontains, hd]
  have hcons (c : Char) (s : List Char) (p : Progress) :
      c :: s <+: subject.ahead p.position ↔
        (subject.ahead p.position).head? = some c ∧ s <+: subject.ahead (p.on 1).position := by
    rw [Progress.on, Subject.ahead_add]
    cases subject.ahead p.position with
    | nil => simp
    | cons d rest => simp [List.cons_prefix_cons, eq_comm]
  induction s generalizing p k with
  | nil => exact (if_pos List.nil_prefix).symm
  | cons c s ih =>
    cases s with
    | nil =>
      rw [literal_single, hletter]
      simp [hcons]
    | cons d s =>
      have hseq : (literal (c :: d :: s)).run subject call subject.text.size p k =
          (Node.one (.single c.toNat)).run subject call subject.text.size p fun q =>
            (literal (d :: s)).run subject call subject.text.size q k := rfl
      rw [hseq, hletter, ih, Progress.on_on, List.length_cons, Nat.add_comm 1]
      simp only [hcons c (d :: s), ite_and]
      rfl

theorem compile_escaped : Expression.compile (Pattern.escaped s) = .ok ⟨#[literal s], []⟩ := by
  have hread : (alternatives (4 * (Pattern.escaped s).length + 4) 0 {}).run
      { rest := Pattern.escaped s } = .ok (literal s, { rest := [] }) := by
    by_cases hs : s = []
    · subst hs
      rfl
    · have hlength := length_le_escaped s
      obtain ⟨fuel, hfuel⟩ := Nat.exists_eq_add_of_le'
        (show 2 * s.length + 2 ≤ 4 * (Pattern.escaped s).length + 4 by omega)
      have hbranch : (branch (fuel + 1 + 2 * s.length) 2 {} true).run
          (Reading.over { rest := [] } (Pattern.escaped s ++ [])) =
            .ok (some (literal s), Reading.over { rest := [] } []) := by
        rw [run_branch_escaped rfl hs (by rintro _ ⟨⟩) (by rintro _ ⟨⟩), run_branch_nil]
        rfl
      rw [List.append_nil] at hbranch
      rw [hfuel, show fuel + (2 * s.length + 2) = fuel + 1 + 2 * s.length + 1 by omega,
        run_alternatives (by decide)]
      exact (congrArg (· >>= _) hbranch).trans rfl
  rw [Expression.compile, hread]
  exact finish_literal

/-- The pattern of an escaped text matches the text, and nothing else. -/
theorem matchAt_escaped (s : List Char) :
    ∃ matcher, Engine.standard.compile (Pattern.escaped s) = .ok matcher ∧
      ∀ line position, matcher.matchAt line position =
        if s <+: line.toList.drop position then some ⟨position, position + s.length, []⟩
        else none := by
  have hcompile : Engine.standard.compile (Pattern.escaped s) =
      .ok (Expression.matcher ⟨#[literal s], []⟩) := by
    simp only [Engine.standard, compile_escaped]
    rfl
  refine ⟨_, hcompile, fun line position => ?_⟩
  have hrun (call : Nat → (limit : Nat) → Step) (k : Progress → Option Progress) :
      (literal s).run ⟨line, position, []⟩ call line.size ⟨position, position, []⟩ k =
        if s <+: line.toList.drop position then k ⟨position + s.length, position, []⟩ else none :=
    run_literal_eq
  change Expression.attempt ⟨#[literal s], []⟩ line position position = _
  by_cases h : s <+: line.toList.drop position
  · rw [if_pos h, Expression.attempt_of_prefers (q := ⟨position + s.length, position, []⟩) rfl
      (Nat.le_add_right position s.length)
      fun call k r hk => (hrun call k).trans ((if_pos h).trans hk)]
    simp
  · rw [if_neg h]
    exact Expression.attempt_of_refuses rfl fun call k => (hrun call k).trans (if_neg h)

end Rubric.Regex
