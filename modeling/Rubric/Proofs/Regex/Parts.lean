import Rubric.Proofs.Outcome
import Rubric.Regex.Reader

/-!
# Parts of patterns

The reader takes a pattern part by part, and each of its steps has its equation here, for patterns
in which blanks are not left out. What it makes of the characters that are a part by themselves
(`IsPart`), a quantifier (`IsQuantifier`) or the beginning of a group (`IsOpening`) does not depend
on what stands behind them.
-/

namespace Rubric.Regex

/-- The state of the reader with other characters left. -/
def Reading.over (r : Reading) (rest : List Char) : Reading :=
  { r with rest }

/-- The signs that quantifiers begin with. -/
def quantifierSigns : List Char :=
  ['*', '+', '?', '\x7b']

/-- Characters that are a part of a pattern by themselves: the reader makes the same of them
whatever stands behind them, and reads no further. -/
def IsPart : List Char → Prop
  | [] => False
  | c :: cs => c ∉ ['(', ')', '|'] ∧ c ∉ quantifierSigns ∧
    ∀ o depth (r : Reading), ∃ result : Except Error (Node × Reading), ∀ rest,
      (part o depth c (cs ++ rest)).run (r.over (c :: cs ++ rest)) =
        result.map fun p => (p.1, p.2.over rest)

theorem IsPart.ne_nil {cs : List Char} (h : IsPart cs) : cs ≠ [] := by
  rintro rfl
  exact h

/-- Characters that are a quantifier, unless another sign stands behind them. -/
def IsQuantifier : List Char → Prop
  | [] => False
  | c :: cs => c ∈ quantifierSigns ∧ ∃ result : Except Error Quantifier, ∀ rest,
    rest.head? ≠ some '?' → rest.head? ≠ some '+' →
      quantifier? (c :: cs ++ rest) = result.map fun q => some (q, rest)

/-- The options for what a group holds. -/
def Opening.inner (o : Options) : Opening → Options
  | capture _ => o
  | plain inner _ | options inner | optionsOnward inner => inner

/-- Characters that begin a group behind its parenthesis. In the group, blanks are not left out. -/
structure IsOpening (cs : List Char) : Prop where
  head : ∃ c rest, cs = '?' :: c :: rest ∧ c ≠ '#'
  reads : ∀ o : Options, o.extended = false → ∃ result : Except Error Opening,
    (∀ op, result = .ok op → (op.inner o).extended = false) ∧
      ∀ rest, opening o (cs ++ rest) = result.map fun op => (op, rest)

section
variable {o : Options} {fuel depth : Nat} {first : Bool} {r : Reading} {c : Char}
  {s rest : List Char}
  {node : Node}

@[simp] theorem Reading.rest_over (r : Reading) (s : List Char) : (r.over s).rest = s := rfl

/-! ## Steps of the reader -/

theorem skipIgnored_eq (h : ∀ rest, s ≠ '(' :: '?' :: '#' :: rest) :
    skipIgnored false .nothing s = .ok s := by
  cases s with
  | nil => rfl
  | cons c s =>
    rw [skipIgnored.eq_def]
    simp only [Bool.false_and, Bool.false_eq_true, if_false]
    split
    · exact absurd rfl (h _)
    · rfl

theorem run_ahead_bind {α : Type} {f : List Char → Reads α} :
    (ahead >>= f).run (r.over s) = (f s).run (r.over s) := rfl

theorem run_goOn_bind {α : Type} {f : Unit → Reads α} :
    (goOn s >>= f).run r = (f ()).run (r.over s) := rfl

theorem run_lift_bind {α β : Type} {x : Except Error α} {f : α → Reads β} :
    ((liftM x : Reads α) >>= f).run r = x >>= fun a => (f a).run r := by
  cases x <;> rfl

theorem run_reading_bind {α β : Type} {f : List Char → Except Error (α × List Char)}
    {g : α → Reads β} :
    (reading f >>= g).run (r.over s) = f s >>= fun p => (g p.1).run (r.over p.2) := by
  cases h : f s with
  | error e =>
    have hread : (reading f).run (r.over s) = .error e := by
      rw [reading, run_ahead_bind, run_lift_bind, h]
      rfl
    rw [StateT.run_bind, hread]
    rfl
  | ok p =>
    have hread : (reading f).run (r.over s) = .ok (p.1, r.over p.2) := by
      rw [reading, run_ahead_bind, run_lift_bind, h]
      rfl
    rw [StateT.run_bind, hread]
    rfl

theorem run_quantified (ho : o.extended = false) (h : ∀ rest, s ≠ '(' :: '?' :: '#' :: rest) :
    (quantified o (fuel + 1) depth node).run (r.over s) = (do
      match ← quantifier? s with
      | some (q, rest) =>
        if node.unrepeatable then throw .unrepeatable
        if depthLimit ≤ depth then throw .tooDeep
        (quantified o fuel (depth + 1) (q.apply node)).run (r.over rest)
      | none => return (node, r.over s)) := by
  rw [quantified, run_ahead_bind, run_lift_bind, ho, skipIgnored_eq h]
  rw [ok_bind, run_goOn_bind, run_lift_bind]
  refine congrArg _ (funext fun found => ?_)
  rcases found with _ | ⟨q, rest⟩
  · rfl
  · dsimp only
    rw [run_goOn_bind]
    cases hrep : node.unrepeatable with
    | true => rfl
    | false =>
      by_cases hd : depthLimit ≤ depth
      · simp only [if_pos hd]
        rfl
      · simp only [if_neg hd]
        rfl

theorem run_branch_nil :
    (branch (fuel + 1) depth o first).run (r.over []) = .ok (none, r.over []) := by
  rw [branch, run_ahead_bind, run_lift_bind]
  rfl

theorem run_branch_mark (ho : o.extended = false) (hc : c = '|' ∨ c = ')') :
    (branch (fuel + 1) depth o first).run (r.over (c :: s)) = .ok (none, r.over (c :: s)) := by
  have hskip : skipIgnored false .nothing (c :: s) = .ok (c :: s) :=
    skipIgnored_eq (by rintro rest ⟨⟩; simp at hc)
  rw [branch, run_ahead_bind, run_lift_bind, ho, hskip, ok_bind, run_goOn_bind]
  obtain rfl | rfl := hc <;> rfl

theorem run_branch_part (ho : o.extended = false) (hc : c ∉ ['(', ')', '|']) :
    (branch (fuel + 1) depth o first).run (r.over (c :: s)) =
      (part o depth c s).run (r.over (c :: s)) >>= fun p =>
        (next fuel depth o first p.1).run p.2 := by
  simp only [List.mem_cons, List.not_mem_nil, or_false, not_or] at hc
  have hskip : skipIgnored false .nothing (c :: s) = .ok (c :: s) :=
    skipIgnored_eq (by rintro rest ⟨⟩; exact hc.1 rfl)
  rw [branch, run_ahead_bind, run_lift_bind, ho, hskip, ok_bind, run_goOn_bind]
  simp only [hc.1, hc.2.1, hc.2.2, decide_false, Bool.or_self, Bool.false_eq_true, if_false]
  rfl

/-- A group, by the way it begins. -/
theorem run_branch_group (ho : o.extended = false) (hs : ∀ rest, s ≠ '?' :: '#' :: rest) :
    (branch (fuel + 1) depth o first).run (r.over ('(' :: s)) = (do
      match ← opening o s with
      | (.optionsOnward inner, rest) =>
        let p ← (alternatives fuel depth inner).run (r.over rest)
        return (some (.enclosed p.1), p.2)
      | (.options inner, rest) =>
        let p ← (alternatives fuel depth inner).run (r.over rest)
        let q ← closeGroup.run p.2
        (next fuel depth o first (.enclosed p.1)).run q.2
      | (.plain inner wrap, rest) =>
        let p ← (alternatives fuel depth inner).run (r.over rest)
        let q ← closeGroup.run p.2
        (next fuel depth o first (wrap p.1)).run q.2
      | (.capture name, rest) =>
        let (index, r') ← (openGroup name).run (r.over rest)
        let p ← (alternatives fuel depth o).run r'
        let q ← closeGroup.run p.2
        (next fuel depth o first (.group index p.1)).run q.2) := by
  have hskip : skipIgnored false .nothing ('(' :: s) = .ok ('(' :: s) :=
    skipIgnored_eq (by rintro rest ⟨⟩; exact hs _ rfl)
  rw [branch, run_ahead_bind, run_lift_bind, ho, hskip, ok_bind, run_goOn_bind]
  refine (run_reading_bind (r := r) (s := '(' :: s)).trans (congrArg _ (funext fun p => ?_))
  obtain ⟨_ | _ | _ | _, rest⟩ := p <;> rfl

theorem run_next :
    (next (fuel + 1) depth o first node).run r =
      (quantified o fuel depth node).run r >>= fun p =>
        (branch fuel depth o false).run p.2 >>= fun q =>
          .ok (some (match q.1 with
            | none => p.1
            | some rest => if first then p.1.before rest else p.1.followedBy rest), q.2) := by
  rw [next, StateT.run_bind]
  refine congrArg _ (funext fun p => ?_)
  rw [StateT.run_bind]
  refine congrArg _ (funext fun q => ?_)
  obtain ⟨_ | _, r⟩ := q <;> rfl

theorem run_alternatives (hd : depth + 1 < depthLimit) :
    (alternatives (fuel + 1) depth o).run r =
      (branch fuel (depth + 2) o true).run r >>= fun p =>
        match p.2.rest with
        | '|' :: rest =>
          (alternatives fuel depth o).run (p.2.over rest) >>= fun q =>
            .ok (.alt (p.1.getD .empty) q.1, q.2)
        | _ => .ok (p.1.getD .empty, p.2) := by
  rw [alternatives, if_neg (Nat.not_le.mpr hd), StateT.run_bind]
  refine congrArg _ (funext fun p => ?_)
  obtain ⟨found, rest, _, _, _, _, _⟩ := p
  change StateT.run (match rest with
    | '|' :: rest => _
    | _ => _) _ = match rest with
    | '|' :: rest => _
    | _ => _
  split <;> rfl

theorem run_openGroup_bind {α : Type} {name : Option (List Char)}
    {f : Nat × Reading → Except Error α} :
    (openGroup name).run (r.over s) >>= f =
      f (r.groups + 1, Reading.over { r with
        groups := r.groups + 1
        names := match name with
          | some name => r.names ++ [(name, r.groups + 1)]
          | none => r.names } s) := rfl

theorem run_closeGroup_close : closeGroup.run (r.over (')' :: s)) = .ok ((), r.over s) := rfl

theorem run_closeGroup_ne (hs : s.head? ≠ some ')') :
    closeGroup.run (r.over s) = .error .unmatchedOpen := by
  rw [closeGroup, run_ahead_bind]
  split
  · exact absurd rfl hs
  · rfl

/-! ## Single characters -/

/-- A character that stands for itself. -/
def Options.letter (o : Options) (c : Char) : Node :=
  if !o.ignoreCase then .one (.single c.toNat)
  else if o.behind then
    .one (if (Text.spelling? c.toNat).isSome then .single c.toNat else .anyCase (.single c.toNat))
  else .folded [[c.toNat]]

theorem run_literal : (o.literal c.toNat).run r = .ok (o.letter c, r) := by
  have hc : ¬ lastEncodable < c.toNat := by
    have hvalid : c.toNat < 0xD800 ∨ 0xDFFF < c.toNat ∧ c.toNat < 0x110000 := c.valid
    simp only [lastEncodable]
    omega
  rw [Options.literal, if_neg hc, Options.letter]
  cases o.ignoreCase <;> cases o.behind <;> rfl

/-- A quantifier begins with its sign. -/
theorem quantifier?_eq_none (h : ∀ c, s.head? = some c → c ∉ quantifierSigns) :
    quantifier? s = .ok none := by
  unfold quantifier?
  split <;> first | rfl | exact absurd (by simp [quantifierSigns]) (h _ rfl)

/-- A character that need not be escaped is a part by itself. -/
theorem run_part_plain (hc : c ∉ ['\\', '[', '.', '^', '$']) (hq : c ∉ quantifierSigns) :
    (part o depth c s).run (r.over (c :: s)) = .ok (o.letter c, r.over s) := by
  simp only [List.mem_cons, List.not_mem_nil, or_false, not_or] at hc
  rw [part.eq_def, if_neg hc.1, if_neg hc.2.1, if_neg hc.2.2.1, if_neg hc.2.2.2.1,
    if_neg hc.2.2.2.2,
    run_lift_bind, quantifier?_eq_none (by rintro _ ⟨⟩; exact hq), ok_bind]
  exact run_goOn_bind.trans run_literal

theorem run_part_quantifier (hc : c ∈ quantifierSigns) :
    (part o depth c s).run r = quantifier? (c :: s) >>= fun
      | some _ => .error .nothingToRepeat
      | none => .ok (o.letter c, r.over s) := by
  have hne : ∀ d ∈ quantifierSigns, d ∉ ['\\', '[', '.', '^', '$'] := by simp [quantifierSigns]
  have hc := hne c hc
  simp only [List.mem_cons, List.not_mem_nil, or_false, not_or] at hc
  rw [part.eq_def, if_neg hc.1, if_neg hc.2.1, if_neg hc.2.2.1, if_neg hc.2.2.2.1,
    if_neg hc.2.2.2.2, run_lift_bind]
  refine congrArg _ (funext fun found => ?_)
  cases found with
  | none => exact run_goOn_bind.trans run_literal
  | some => rfl

/-! ## What stands in front -/

/-- No comment stands in front. -/
def Uncommented (s : List Char) : Prop :=
  ∀ rest, s ≠ '(' :: '?' :: '#' :: rest

/-- No quantifier stands in front. -/
def Unquantified (s : List Char) : Prop :=
  ∀ c, s.head? = some c → c ∉ quantifierSigns

theorem uncommented_of_head (h : s.head? ≠ some '(') : Uncommented s := by
  rintro rest rfl
  exact h rfl

theorem uncommented_capture (h : s.head? ≠ some '?') : Uncommented ('(' :: s) := by
  rintro rest ⟨⟩
  exact h rfl

theorem Uncommented.behind (h : Uncommented ('(' :: s)) (after : List Char) :
    s ≠ '?' :: '#' :: after := by
  rintro rfl
  exact h after rfl

section
variable {cs : List Char}

theorem IsPart.head_ne (h : IsPart cs) (hc : c ∈ ['(', ')', '|']) (s : List Char) :
    (cs ++ s).head? ≠ some c := by
  cases cs with
  | nil => cases h
  | cons d cs =>
    rintro ⟨⟩
    exact h.1 hc

theorem IsQuantifier.head_ne (h : IsQuantifier cs) (hc : c ∉ quantifierSigns) (s : List Char) :
    (cs ++ s).head? ≠ some c := by
  cases cs with
  | nil => cases h
  | cons d cs =>
    rintro ⟨⟩
    exact hc h.1

theorem IsPart.uncommented (h : IsPart cs) (s : List Char) : Uncommented (cs ++ s) :=
  uncommented_of_head (h.head_ne (by decide) s)

theorem IsQuantifier.uncommented (h : IsQuantifier cs) (s : List Char) : Uncommented (cs ++ s) :=
  uncommented_of_head (h.head_ne (by decide) s)

theorem IsOpening.uncommented (h : IsOpening cs) (s : List Char) :
    Uncommented ('(' :: (cs ++ s)) := by
  obtain ⟨c, rest, rfl, hc⟩ := h.head
  rintro after hafter
  simp at hafter
  exact hc hafter.1

theorem IsPart.unquantified (h : IsPart cs) (s : List Char) : Unquantified (cs ++ s) := by
  cases cs with
  | nil => cases h
  | cons d cs =>
    rintro _ ⟨⟩
    exact h.2.1

end

theorem run_quantified_none (ho : o.extended = false) (hcomment : Uncommented s)
    (hsign : Unquantified s) :
    (quantified o fuel depth node).run (r.over s) = .ok (node, r.over s) := by
  cases fuel with
  | zero => rfl
  | succ fuel =>
    rw [run_quantified ho hcomment, quantifier?_eq_none hsign]
    rfl

/-! ## How groups begin -/

/-- The groups that wrap what they hold. -/
theorem opening_plain {s rest : List Char} {inner : Options} {wrap : Node → Node}
    (h : opening o s = .ok (.plain inner wrap, rest)) :
    wrap = id ∨ wrap = .atomic ∨ (∃ negative, wrap = .lookAhead negative) ∨
      ∃ negative extent, wrap = .lookBehind negative extent := by
  unfold opening at h
  split at h
  · cases h
  · cases h
  · split at h
    · cases h
    · cases h; exact .inl rfl
    · cases h; exact .inr (.inr (.inl ⟨_, rfl⟩))
    · cases h; exact .inr (.inr (.inl ⟨_, rfl⟩))
    · cases h; exact .inr (.inl rfl)
    · cases h
    · cases h; exact .inr (.inr (.inr ⟨_, _, rfl⟩))
    · cases h; exact .inr (.inr (.inr ⟨_, _, rfl⟩))
    · obtain ⟨_, _, h⟩ := bind_eq_ok.mp h
      cases h
    · obtain ⟨_, _, h⟩ := bind_eq_ok.mp h
      cases h
    · cases h
    · obtain ⟨⟨_, onward, _⟩, _, h⟩ := bind_eq_ok.mp h
      cases onward <;> cases h
  · cases h

theorem opening_capture {s : List Char} (hs : s ≠ []) (hopt : s.head? ≠ some '?')
    (hstar : s.head? ≠ some '*') : opening o s = .ok (.capture none, s) := by
  unfold opening
  split
  · exact absurd rfl hs
  · exact absurd rfl hstar
  · exact absurd rfl hopt
  · rfl

end

/-! ## What stands by itself -/

section
variable {o : Options} {c : Char}

theorem run_literal_over {r : Reading} {n : Nat} {s : List Char} :
    (o.literal n).run (r.over s) = ((o.literal n).run r).map fun p => (p.1, p.2.over s) := by
  unfold Options.literal
  cases o.ignoreCase <;> cases o.behind <;> by_cases hn : lastEncodable < n <;>
    simp only [hn, if_true, if_false] <;> rfl

theorem isPart_plain (hc : c ∉ ['\\', '[', '.', '^', '$', '(', ')', '|'])
    (hsign : c ∉ quantifierSigns) : IsPart [c] := by
  simp only [List.mem_cons, List.not_mem_nil, or_false, not_or] at hc
  refine ⟨by simp [hc], hsign, fun o depth r => ⟨.ok (o.letter c, r), fun rest => ?_⟩⟩
  exact run_part_plain (by simp [hc]) hsign

/-- The dot and the anchors of a line. -/
theorem isPart_sign (hc : c ∈ ['.', '^', '$']) : IsPart [c] := by
  simp only [List.mem_cons, List.not_mem_nil, or_false] at hc
  refine ⟨by obtain rfl | rfl | rfl := hc <;> decide, by obtain rfl | rfl | rfl := hc <;> decide,
    fun o depth r => ?_⟩
  obtain rfl | rfl | rfl := hc <;> exact ⟨.ok (_, r), fun rest => rfl⟩

/-- The letters behind a backslash that more characters belong to. -/
def longEscapes : List Char :=
  ['k', 'g', 'p', 'P', 'x', 'u', 'o', 'c', 'C', 'M']

theorem codeEscape?_eq (hc : c ∉ longEscapes) (rest : List Char) :
    codeEscape? .outside c rest = .ok ((controlEscape? c).map fun n => (.point n, rest)) := by
  simp only [longEscapes, List.mem_cons, List.not_mem_nil, or_false, not_or] at hc
  unfold codeEscape?
  split <;> first | rfl | simp at hc

/-- A backslash with the character behind it, if no more characters belong to them. -/
theorem isPart_pair (hc : c ∉ longEscapes) (hdigit : ('0' ≤ c && c ≤ '9') = false) :
    IsPart ['\\', c] := by
  refine ⟨by decide, by decide, fun o depth r => ?_⟩
  have hescaped (rest : List Char) : (part o depth '\\' ([c] ++ rest)).run
      (r.over ('\\' :: [c] ++ rest)) = (escaped o c rest).run (r.over ('\\' :: c :: rest)) := rfl
  have hcode := codeEscape?_eq hc
  simp only [longEscapes, List.mem_cons, List.not_mem_nil, or_false, not_or] at hc
  simp only [hescaped]
  unfold escaped
  cases anchorEscape? c with
  | some a => exact ⟨.ok (.anchor a, r), fun rest => rfl⟩
  | none =>
    cases classEscape? c with
    | some set => exact ⟨.ok (.one set, r), fun rest => rfl⟩
    | none =>
      dsimp only
      by_cases hK : c = 'K'
      · simp only [if_pos hK]
        exact ⟨.ok (.keep, r), fun rest => rfl⟩
      by_cases hR : c = 'R'
      · simp only [if_neg hK, if_pos hR]
        exact ⟨.ok (.lineBreak, r), fun rest => rfl⟩
      by_cases hN : c = 'N'
      · simp only [if_neg hK, if_neg hR, if_pos hN]
        exact ⟨.ok (.one (.compl (.single 0x0A)), r), fun rest => rfl⟩
      by_cases hO : c = 'O'
      · simp only [if_neg hK, if_neg hR, if_neg hN, if_pos hO]
        exact ⟨.ok (.one (.compl .empty), r), fun rest => rfl⟩
      refine ⟨(o.literal ((controlEscape? c).getD c.toNat)).run r, fun rest => ?_⟩
      simp only [hK, hR, hN, hO, hc, hdigit, decide_false, Bool.or_self, Bool.false_eq_true,
        if_false,
        run_lift_bind, hcode, ok_bind]
      cases controlEscape? c with
      | none => exact run_literal_over (r := r) (n := c.toNat)
      | some n => exact run_literal_over (r := r) (n := n)

theorem withManner_eq {q : Quantifier} {rest : List Char} (hopt : rest.head? ≠ some '?')
    (hplus : rest.head? ≠ some '+') : withManner q rest = (q, rest) := by
  unfold withManner withLaziness
  split
  · exact absurd rfl hplus
  · split
    · exact absurd rfl hopt
    · rfl

theorem isQuantifier_sign (hc : c ∈ ['*', '+', '?']) : IsQuantifier [c] := by
  simp only [List.mem_cons, List.not_mem_nil, or_false] at hc
  refine ⟨by obtain rfl | rfl | rfl := hc <;> decide, ?_⟩
  obtain rfl | rfl | rfl := hc
  · exact ⟨.ok ⟨0, none, false, false⟩, fun rest hopt hplus =>
      congrArg (fun x => Except.ok (some x)) (withManner_eq hopt hplus)⟩
  · exact ⟨.ok ⟨1, none, false, false⟩, fun rest hopt hplus =>
      congrArg (fun x => Except.ok (some x)) (withManner_eq hopt hplus)⟩
  · exact ⟨.ok ⟨0, some 1, false, false⟩, fun rest hopt hplus =>
      congrArg (fun x => Except.ok (some x)) (withManner_eq hopt hplus)⟩

/-- The groups that only group, the atomic ones, and those that look ahead or behind. -/
theorem isOpening_sign (cs : List Char)
    (hcs : cs ∈ [[':'], ['>'], ['='], ['!'], ['<', '='], ['<', '!']]) : IsOpening ('?' :: cs) := by
  simp only [List.mem_cons, List.not_mem_nil, or_false] at hcs
  refine ⟨by obtain rfl | rfl | rfl | rfl | rfl | rfl := hcs <;> exact ⟨_, _, rfl, by decide⟩,
    fun o ho => ?_⟩
  obtain rfl | rfl | rfl | rfl | rfl | rfl := hcs <;>
    exact ⟨.ok (.plain _ _), by rintro _ ⟨⟩; exact ho, fun _ => rfl⟩

end

end Rubric.Regex
