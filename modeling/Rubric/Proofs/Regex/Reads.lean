import Rubric.Proofs.Regex.Leads

/-!
# What a match reads

A node reads a text, with another one behind it, if in front of both it prefers to go on behind the
first (`Node.Reads`), and it balks at a text if it leads nowhere in front of it (`Node.Balks`). For
expressions in which the next character decides how to go on, this determines the match
(`Expression.attempt_of_prefers`).
-/

namespace Rubric.Regex

/-- The text from a position on. -/
def Subject.ahead (s : Subject) (position : Nat) : List Char :=
  s.text.toList.drop position

/-- The place so many characters further on. -/
def Progress.on (p : Progress) (n : Nat) : Progress :=
  { p with position := p.position + n }

/-- Where what follows goes on from `q`, the step goes on there. -/
def Step.Prefers (step : Step) (p q : Progress) : Prop :=
  ∀ k r, k q = some r → step p k = some r

/-- The step leads nowhere. -/
def Step.Refuses (step : Step) (p : Progress) : Prop :=
  ∀ k, step p k = none

/-- In front of the two texts, the node prefers to read the first one. -/
def Node.Reads (node : Node) (text behind : List Char) : Prop :=
  ∀ (s : Subject) call p, s.ahead p.position = text ++ behind →
    Step.Prefers (node.run s call s.text.size) p (p.on text.length)

/-- In front of the text, the node leads nowhere. -/
def Node.Balks (node : Node) (ahead : List Char) : Prop :=
  ∀ (s : Subject) call p, s.ahead p.position = ahead →
    Step.Refuses (node.run s call s.text.size) p

section
variable {s : Subject} {p : Progress} {position n : Nat} {c : Char} {rest : List Char}

theorem Progress.on_on (m n : Nat) : (p.on m).on n = p.on (m + n) := by
  simp only [on, Nat.add_assoc]

theorem Subject.ahead_add : s.ahead (position + n) = (s.ahead position).drop n := by
  rw [ahead, ahead, List.drop_drop]

theorem Subject.ahead_on {text : List Char} (h : s.ahead p.position = text ++ rest) :
    s.ahead (p.on text.length).position = rest := by
  rw [Progress.on, Subject.ahead_add, h, List.drop_left]

theorem Subject.ahead_on_one (h : s.ahead p.position = c :: rest) :
    s.ahead (p.on 1).position = rest := by
  rw [Progress.on, Subject.ahead_add, h]
  rfl

theorem Subject.getElem?_of_ahead (h : s.ahead position = c :: rest) :
    s.text[position]? = some c := by
  have hget : s.text.toList[position]? = (s.ahead position)[0]? := by simp [ahead]
  rw [← Array.getElem?_toList, hget, h]
  rfl

theorem Subject.char?_of_ahead (h : s.ahead position = c :: rest) :
    s.char? s.text.size position = some c := by
  have hget := getElem?_of_ahead h
  obtain ⟨hlt, _⟩ := Array.getElem?_eq_some_iff.mp hget
  rw [char?, if_pos hlt, hget]

theorem Subject.char?_eq_none (h : s.ahead position = []) :
    s.char? s.text.size position = none := by
  have hle : s.text.size ≤ position := by simpa [ahead] using h
  rw [char?, if_neg (Nat.not_lt.mpr hle)]

end

/-! ## Single characters and sequences -/

section
variable {a b : Node} {set : CharSet} {c : Char} {x y rest : List Char}

theorem CharSet.contains_char (c : Char) : (CharSet.char c).contains c = true := by
  simp [CharSet.char, CharSet.single, CharSet.contains]

theorem CharSet.contains_char_of_ne {c d : Char} (h : c ≠ d) :
    (CharSet.char d).contains c = false := by
  rw [Bool.eq_false_iff]
  intro hc
  simp only [CharSet.char, CharSet.single, CharSet.contains, Bool.and_eq_true,
    decide_eq_true_eq] at hc
  exact h (Char.toNat_inj.mp (Nat.le_antisymm hc.2 hc.1))

theorem Node.Reads.one (h : set.contains c = true) : (Node.one set).Reads [c] rest := by
  intro s call p hp k r hk
  rw [Node.run_one, Subject.char?_of_ahead hp]
  exact (if_pos h).trans hk

theorem Node.Balks.one (h : ∀ c, rest.head? = some c → set.contains c = false) :
    (Node.one set).Balks rest := by
  intro s call p hp k
  cases rest with
  | nil => rw [Node.run_one, Subject.char?_eq_none hp]
  | cons c rest =>
    rw [Node.run_one, Subject.char?_of_ahead hp]
    exact if_neg (by simp [h c rfl])

theorem Node.Reads.seq (ha : a.Reads x (y ++ rest)) (hb : b.Reads y rest) :
    (Node.seq a b).Reads (x ++ y) rest := by
  intro s call p hp k r hk
  rw [List.append_assoc] at hp
  refine ha s call p hp _ r (hb s call _ (Subject.ahead_on hp) k r ?_)
  rw [Progress.on_on, ← List.length_append]
  exact hk

theorem Node.Balks.seq (ha : a.Balks rest) : (Node.seq a b).Balks rest :=
  fun s call p hp _ => ha s call p hp _

theorem Node.Reads.alt_left (ha : a.Reads x rest) : (Node.alt a b).Reads x rest := by
  intro s call p hp k r hk
  rw [Node.run_alt, ha s call p hp k r hk]
  rfl

theorem Node.Reads.alt_right (ha : a.Balks (x ++ rest)) (hb : b.Reads x rest) :
    (Node.alt a b).Reads x rest := by
  intro s call p hp k r hk
  rw [Node.run_alt, ha s call p hp k]
  exact hb s call p hp k r hk

/-! ## Repetitions -/

theorem prefers_iterateUpTo_none {step : Step} {more : Nat} {p : Progress} (h : step.Refuses p) :
    (iterateUpTo step false [] more).Prefers p p := by
  intro k r hk
  have hnone : ∀ k, step p k = none := h
  cases more with
  | zero => exact hk
  | succ more =>
    rw [iterateUpTo_eager, hnone]
    exact hk

theorem prefers_iterateUpTo_more {step : Step} {more : Nat} {p q r : Progress}
    (h : step.Prefers p q) (hpos : p.position < q.position)
    (hmore : (iterateUpTo step false [] more).Prefers q r) :
    (iterateUpTo step false [] (more + 1)).Prefers p r := by
  intro k x hk
  have hidle : isIdle [] p q = false := by simp [isIdle, Nat.ne_of_gt hpos]
  have hstep := h (fun q => if isIdle [] p q then k q else iterateUpTo step false [] more q k) x
    (by simp only [hidle, Bool.false_eq_true, if_false]; exact hmore k x hk)
  rw [iterateUpTo_eager, hstep]
  rfl

theorem prefers_iterateUpTo_idle {step : Step} {more : Nat} {p q : Progress}
    (h : step.Prefers p q) (hpos : q.position = p.position) :
    (iterateUpTo step false [] (more + 1)).Prefers p q := by
  intro k x hk
  have hidle : isIdle [] p q = true := by simp [isIdle, hpos]
  have hstep := h (fun q => if isIdle [] p q then k q else iterateUpTo step false [] more q k) x
    (by simp only [hidle, if_true]; exact hk)
  rw [iterateUpTo_eager, hstep]
  rfl

/-- What may stand once, and does. -/
theorem Node.Reads.optional (ha : a.Reads x rest) :
    (Node.loop 0 (some 1) false [] a).Reads x rest := by
  intro s call p hp
  have hstep := ha s call p hp
  show Step.Prefers (iterateUpTo (a.run s call s.text.size) false [] (0 + 1)) p _
  cases x with
  | nil => exact prefers_iterateUpTo_idle hstep rfl
  | cons c x =>
    apply prefers_iterateUpTo_more hstep (Nat.lt_add_of_pos_right (Nat.succ_pos _))
    exact fun k r hk => hk

/-- What may stand once, and does not. -/
theorem Node.Reads.missing (ha : a.Balks rest) :
    (Node.loop 0 (some 1) false [] a).Reads [] rest :=
  fun s call p hp => prefers_iterateUpTo_none (ha s call p hp)

theorem prefers_iterateUpTo_one {s : Subject} {call : Nat → (limit : Nat) → Step} {more : Nat}
    {p : Progress} (hx : ∀ c ∈ x, set.contains c = true)
    (hrest : ∀ c, rest.head? = some c → set.contains c = false) (hmore : x.length ≤ more)
    (hp : s.ahead p.position = x ++ rest) :
    (iterateUpTo ((Node.one set).run s call s.text.size) false [] more).Prefers p
      (p.on x.length) := by
  induction x generalizing p more with
  | nil => exact prefers_iterateUpTo_none (Node.Balks.one hrest s call p hp)
  | cons c x ih =>
    obtain ⟨more, rfl⟩ := Nat.exists_eq_succ_of_ne_zero (n := more) (by
      simp only [List.length_cons] at hmore
      omega)
    have hone : (Node.one set).Reads [c] (x ++ rest) := .one (hx c (List.mem_cons_self ..))
    have hnext : (iterateUpTo ((Node.one set).run s call s.text.size) false [] more).Prefers
        (p.on 1) ((p.on 1).on x.length) :=
      ih (fun d hd => hx d (List.mem_cons_of_mem _ hd)) (Nat.le_of_succ_le_succ hmore)
        (Subject.ahead_on_one hp)
    rw [Progress.on_on, Nat.add_comm] at hnext
    exact prefers_iterateUpTo_more (hone s call p hp) (Nat.lt_succ_self _) hnext

/-- As many characters of a set as there are. -/
theorem Node.Reads.many (hx : ∀ c ∈ x, set.contains c = true)
    (hrest : ∀ c, rest.head? = some c → set.contains c = false) :
    (Node.loop 0 none false [] (.one set)).Reads x rest := by
  intro s call p hp
  refine prefers_iterateUpTo_one hx hrest ?_ hp
  have hlen := congrArg List.length hp
  simp only [Subject.ahead, List.length_drop, Array.length_toList, List.length_append] at hlen
  simp only [List.length_nil]
  omega

/-- One character of a set, and as many more as there are. -/
theorem Node.Reads.many1 (hc : set.contains c = true) (hx : ∀ c ∈ x, set.contains c = true)
    (hrest : ∀ c, rest.head? = some c → set.contains c = false) :
    (Node.loop 1 none false [] (.one set)).Reads (c :: x) rest := by
  intro s call p hp k r hk
  have hone : (Node.one set).Reads [c] (x ++ rest) := .one hc
  have hidle : isIdle [] p (p.on 1) = false := by simp [isIdle, Progress.on]
  have hlen : x.length ≤ 1 * (s.text.size - p.position + 1) := by
    have hlen := congrArg List.length hp
    simp only [Subject.ahead, List.length_drop, Array.length_toList, List.length_append,
      List.length_cons] at hlen
    omega
  have hmore : (iterateUpTo ((Node.one set).run s call s.text.size) false []
      (1 * (s.text.size - p.position + 1))).Prefers (p.on 1) ((p.on 1).on x.length) :=
    prefers_iterateUpTo_one hx hrest hlen (Subject.ahead_on_one hp)
  rw [Progress.on_on, Nat.add_comm 1] at hmore
  refine hone s call p hp (fun q => if isIdle [] p q then k q else
    iterate ((Node.one set).run s call s.text.size) false [] 0
      (1 * (s.text.size - p.position + 1)) q k) r ?_
  simp only [List.length_singleton, hidle, Bool.false_eq_true, if_false]
  exact hmore k r hk

/-- So many characters of a set. -/
theorem Node.Reads.times (hx : ∀ c ∈ x, set.contains c = true) :
    (Node.loop x.length (some x.length) false [] (.one set)).Reads x rest := by
  have hiterate : ∀ (s : Subject) (call : Nat → (limit : Nat) → Step) (p : Progress),
      s.ahead p.position = x ++ rest →
      (iterate ((Node.one set).run s call s.text.size) false [] x.length 0).Prefers p
        (p.on x.length) := by
    induction x with
    | nil => exact fun _ _ _ _ k r hk => hk
    | cons c x ih =>
      intro s call p hp k r hk
      have hone : (Node.one set).Reads [c] (x ++ rest) := .one (hx c (List.mem_cons_self ..))
      have hidle : isIdle [] p (p.on 1) = false := by simp [isIdle, Progress.on]
      apply hone s call p hp _ r
      simp only [List.length_singleton, hidle, Bool.false_eq_true, if_false]
      refine ih (fun d hd => hx d (List.mem_cons_of_mem _ hd)) s call _
        (Subject.ahead_on_one hp) k r ?_
      rw [Progress.on_on, Nat.add_comm]
      exact hk
  intro s call p hp k r hk
  have h := hiterate s call p hp k r hk
  simpa only [Node.run, Nat.sub_self] using h

end

/-! ## Matches -/

/-- Where an expression prefers to go on is where its match ends. -/
theorem Expression.attempt_of_prefers {r : Expression} {text : Array Char} {origin position : Nat}
    {q : Progress} (hc : r.called = []) (hq : position ≤ q.position)
    (h : ∀ call, Step.Prefers (r.root.run ⟨text, origin, []⟩ call text.size)
      ⟨position, position, List.replicate r.groups none⟩ q) :
    r.attempt text origin position = some ⟨min q.start q.position, q.position, q.groups⟩ := by
  simp only [attempt, hc, List.contains_nil, Bool.false_eq_true, if_false]
  rw [h _ some q rfl]
  exact if_neg (Nat.not_lt.mpr hq)

/-- An expression that leads nowhere has no match. -/
theorem Expression.attempt_of_refuses {r : Expression} {text : Array Char} {origin position : Nat}
    (hc : r.called = []) (h : ∀ call, Step.Refuses (r.root.run ⟨text, origin, []⟩ call text.size)
      ⟨position, position, List.replicate r.groups none⟩) :
    r.attempt text origin position = none := by
  simp only [attempt, hc, List.contains_nil, Bool.false_eq_true, if_false]
  rw [h _ some]

end Rubric.Regex
