import Rubric.Proofs.Regex.Barring
import Rubric.Proofs.Regex.Firsts

/-!
# Where searches look

A search tries those positions only whose character the head of the expression allows. If all parts
of the expression are straight (`Node.isStraight`), it matches nowhere else, so a search finds the
leftmost match (`Expression.tryAt_matcher`).
-/

namespace Rubric.Regex

/-- How many characters the expression consumes, if that is one number whatever it matches. -/
def Node.width? : Node → Option Nat
  | empty | anchor _ | keep | lookAhead _ _ | lookBehind true _ _ => some 0
  | one _ => some 1
  | seq a b => a.width?.bind fun m => b.width?.map (m + ·)
  | alt a b => if a.width? = b.width? then a.width? else none
  | Node.group _ body | enclosed body | atomic body => body.width?
  | loop min max _ _ body => if max = some min then body.width?.map (min * ·) else none
  | _ => none

/-- The part calls nothing and compares nothing without regard to case; a look-behind that looks
back so many characters has a body with just as many, and a loop that ends at once has not begun. -/
def Node.isStraight : Node → Bool
  | lookBehind false extent body =>
    extent.most != some extent.least || body.width? == some extent.least
  | loop min max _ _ _ => max != some 0 || min == 0
  | folded _ | call _ => false
  | _ => true

/-- What follows went on from a place that the head allows. -/
structure Head.Agrees (head : Head) (s : Subject) (p q : Progress) : Prop where
  still : head = .still → q.position = p.position
  starts : ∀ set, head = .starts set → s.shows p.position set

namespace Head.Agrees
variable {a b : Head} {s : Subject} {p q : Progress} {set : CharSet}

theorem of_still (h : q.position = p.position) : Head.still.Agrees s p q where
  still _ := h
  starts _ hset := by cases hset

theorem of_starts (h : s.shows p.position set) : (Head.starts set).Agrees s p q where
  still hstill := by cases hstill
  starts _ hset := by
    cases hset
    exact h

theorem unknown : Head.unknown.Agrees s p q where
  still hstill := by cases hstill
  starts _ hset := by cases hset

theorem either_left (h : a.Agrees s p q) : (a.either b).Agrees s p q := by
  cases a with
  | still => cases b <;> first | exact h | exact .unknown
  | starts set =>
    cases b with
    | starts set' =>
      obtain ⟨c, hc, hset⟩ := h.starts _ rfl
      exact .of_starts ⟨c, hc, by simp [CharSet.contains, hset]⟩
    | _ => exact .unknown
  | unknown => exact .unknown

theorem either_right (h : b.Agrees s p q) : (a.either b).Agrees s p q := by
  cases a with
  | still => cases b <;> first | exact h | exact .unknown
  | starts set =>
    cases b with
    | starts set' =>
      obtain ⟨c, hc, hset⟩ := h.starts _ rfl
      exact .of_starts ⟨c, hc, by simp [CharSet.contains, hset]⟩
    | _ => exact .unknown
  | unknown => exact .unknown

end Head.Agrees

section
variable {s : Subject} {step : Step} {call : Nat → (limit : Nat) → Step} {n : Node}

theorem Repeats.still {R : Progress → Progress → Prop} {m : Nat} {p q : Progress}
    (hR : ∀ p q, R p q → q.position = p.position) (H : Repeats R m p q) :
    q.position = p.position := by
  induction H with
  | none => rfl
  | more h _ ih => exact ih.trans (hR _ _ h)

/-- An iteration that consumes nothing is the last one, and so would all others consume nothing. -/
theorem iterate_width {w : Nat} (H : step.Follows fun p q => q.position = p.position + w)
    (lazy : Bool) (watched : List Nat) (times : Nat) :
    (iterate step lazy watched times 0).Follows fun p q =>
      q.position = p.position + times * w := by
  induction times with
  | zero => exact fun p k r h => ⟨p, by omega, h⟩
  | succ times ih =>
    intro p k r h
    obtain ⟨q, hq, h⟩ := H _ _ _ h
    split at h
    · next hidle =>
      have hstay : q.position = p.position := by
        rw [isIdle, Bool.and_eq_true, beq_iff_eq] at hidle
        exact hidle.1
      obtain rfl : w = 0 := by omega
      exact ⟨q, hstay, h⟩
    · obtain ⟨q', hq', h⟩ := ih _ _ _ h
      have hpos : q'.position = p.position + (times + 1) * w := by
        rw [hq', hq, Nat.succ_mul]
        omega
      exact ⟨q', hpos, h⟩

theorem Node.run_width (hs : s.called = []) {w : Nat} (hw : n.width? = some w) (limit : Nat) :
    (n.run s call limit).Follows fun p q => q.position = p.position + w := by
  induction n generalizing w limit with
  | empty =>
    cases hw
    exact .empty fun p => rfl
  | anchor a =>
    cases hw
    exact .anchor fun p _ => rfl
  | keep =>
    cases hw
    exact .keep fun p => rfl
  | one set =>
    cases hw
    exact .one fun p c _ _ => rfl
  | seq a b iha ihb =>
    obtain ⟨wa, ha, h⟩ := Option.bind_eq_some_iff.mp hw
    obtain ⟨wb, hb, rfl⟩ := Option.map_eq_some_iff.mp h
    refine .seq (iha ha limit) (ihb hb limit) fun p q q' hq hq' => ?_
    rw [hq', hq, Nat.add_assoc]
  | alt a b iha ihb =>
    unfold width? at hw
    split at hw
    · next heq => exact .alt (iha hw limit) (ihb (heq ▸ hw) limit)
    · cases hw
  | group index body ih => exact .group_uncalled hs (ih hw limit) fun p q hq => hq
  | enclosed body ih => exact ih hw limit
  | atomic body ih => exact .atomic (ih hw limit)
  | lookAhead negative body =>
    cases hw
    cases negative with
    | true => exact .notAhead fun p => rfl
    | false => exact .ahead fun p q _ => rfl
  | lookBehind negative extent body =>
    cases negative with
    | true =>
      cases hw
      exact .notBehind fun p => rfl
    | false => cases hw
  | loop min max lazy watched body ih =>
    unfold width? at hw
    split at hw
    · next hmax =>
      subst hmax
      obtain ⟨w, hbody, rfl⟩ := Option.map_eq_some_iff.mp hw
      intro p k r h
      unfold run at h
      simp only [Nat.sub_self] at h
      exact iterate_width (ih hbody limit) lazy watched min _ _ _ h
    · cases hw
  | _ => cases hw

theorem Subject.shows_of_char? {limit position : Nat} {c : Char} {set : CharSet}
    (hc : s.char? limit position = some c) (hset : set.contains c = true) :
    s.shows position set := by
  unfold Subject.char? at hc
  split at hc
  · exact ⟨c, hc, hset⟩
  · cases hc

theorem Subject.shows_of_lineBreakEnd? {limit position stop : Nat}
    (h : s.lineBreakEnd? limit position = some stop) : s.shows position .lineEnds := by
  unfold Subject.lineBreakEnd? at h
  split at h
  · next hc => exact Subject.shows_of_char? hc (by decide)
  · next c _ hc =>
    split at h
    · next hset => exact Subject.shows_of_char? hc hset
    · cases h
  · cases h

/-- A match begins with a character that the head allows. -/
theorem Node.run_agrees (hs : s.called = []) (hn : n.allParts.all isStraight = true)
    (limit : Nat) : (n.run s call limit).Follows (n.head.Agrees s) := by
  induction n generalizing limit with
  | empty => exact .empty fun p => .of_still rfl
  | anchor a => exact .anchor fun p _ => .of_still rfl
  | keep => exact .keep fun p => .of_still rfl
  | one set => exact .one fun p c hc hset => .of_starts (Subject.shows_of_char? hc hset)
  | lineBreak =>
    exact .lineBreak fun p stop hstop => .of_starts (Subject.shows_of_lineBreakEnd? hstop)
  | backref => exact .backref fun p stop _ => .unknown
  | folded | call =>
    exact absurd (List.all_eq_true.mp hn _ (self_mem_allParts _)) Bool.false_ne_true
  | seq a b iha ihb =>
    simp only [allParts_seq, List.all_cons, List.all_append, Bool.and_eq_true] at hn
    refine .seq (iha hn.2.1 limit) (ihb hn.2.2 limit) fun p q q' hq hq' => ?_
    rw [head]
    split
    · next heq =>
      have hpos := hq.still heq
      exact ⟨fun h => (hq'.still h).trans hpos, fun set h => hpos ▸ hq'.starts set h⟩
    · next hne => exact ⟨fun h => absurd h hne, hq.starts⟩
  | alt a b iha ihb =>
    simp only [allParts_alt, List.all_cons, List.all_append, Bool.and_eq_true] at hn
    exact .alt ((iha hn.2.1 limit).mono fun _ _ h => h.either_left)
      ((ihb hn.2.2 limit).mono fun _ _ h => h.either_right)
  | group index body ih =>
    exact .group_uncalled hs (ih hn limit) fun p q hq => ⟨hq.still, hq.starts⟩
  | enclosed body ih => exact ih hn limit
  | atomic body ih => exact .atomic (ih hn limit)
  | lookAhead negative body =>
    cases negative with
    | true => exact .notAhead fun p => .of_still rfl
    | false => exact .ahead fun p q _ => .of_still rfl
  | lookBehind negative extent body ih =>
    cases negative with
    | true => exact .notBehind fun p => .of_still rfl
    | false =>
      simp only [allParts_lookBehind, List.all_cons, Bool.and_eq_true] at hn
      refine .behind fun p q hq => .of_still ?_
      unfold Extent.behind at hq
      split at hq
      · -- A body of one length may end anywhere, so its length has to be what is looked back.
        next hmost =>
        have hw : body.width? = some extent.least := by simpa [isStraight, hmost] using hn.1
        split at hq
        · cases hq
        · have hpos := (run_width hs hw limit).ends hq
          simp only at hpos
          omega
      · obtain ⟨_, _, hpos⟩ := (ih hn.2 p.position).lookBack hq
        exact hpos
  | loop min max lazy watched body ih =>
    simp only [allParts_loop, List.all_cons, Bool.and_eq_true] at hn
    refine .loop (ih hn.2 limit) fun n p q hq hmin hmax => ?_
    -- The head of the body is the head of a loop that has to run; one that may be left out tells
    -- nothing, unless its body stays in place.
    have hbody (heq : body.head = .still) : q.position = p.position :=
      hq.still fun _ _ h => h.still heq
    rw [head]
    split
    · next hzero =>
      obtain rfl : min = 0 := by simpa [isStraight, hzero] using hn.1
      obtain rfl : n = 0 := Nat.le_zero.mp (hmax 0 hzero)
      cases hq
      exact .of_still rfl
    · split
      · cases heq : body.head with
        | still => exact .of_still (hbody heq)
        | starts set => exact .unknown
        | unknown => exact .unknown
      · next hne =>
        refine ⟨hbody, fun set hset => ?_⟩
        cases hq with
        | none => exact absurd rfl (hmin hne)
        | more h _ => exact h.starts set hset

end

section
variable {bar : Anchor → Bool} {x n : Node}

/-- Something straight in the place of anchors that stand apart leaves an expression straight: what
look-behinds hold stays as it is. -/
theorem Node.isStraight_barring {refers : Bool} (hx : x.allParts.all isStraight = true)
    (hapart : n.allParts.all (standsApart bar refers) = true)
    (hn : n.allParts.all isStraight = true) :
    (n.barring bar x).allParts.all isStraight = true := by
  induction n with
  | anchor a => rcases barring_anchor_cases bar x a with h | h <;> rw [h] <;> assumption
  | seq a b iha ihb | alt a b iha ihb =>
    simp only [allParts_seq, allParts_alt, List.all_cons, List.all_append, Bool.and_eq_true]
      at hapart hn
    simp [isStraight, iha hapart.2.1 hn.2.1, ihb hapart.2.2 hn.2.2]
  | lookBehind negative extent body =>
    have hholds : body.holds bar = false := by
      simpa [standsApart] using List.all_eq_true.mp hapart _ (self_mem_allParts _)
    rw [barring_lookBehind, barring_eq_self hholds]
    exact hn
  | loop min max lazy watched body ih =>
    simp only [allParts_loop, List.all_cons, Bool.and_eq_true] at hapart hn
    simp only [barring_loop, allParts_loop, List.all_cons, Bool.and_eq_true]
    exact ⟨hn.1, ih hapart.2 hn.2⟩
  | group _ _ ih | enclosed _ ih | atomic _ ih | lookAhead _ _ ih => exact ih hapart hn
  | _ => exact hn

end

namespace Expression
variable {e : Expression} {bar : Anchor → Bool} {x : Node}

/-- All parts of the expression are straight. -/
def isStraight (e : Expression) : Bool :=
  e.root.allParts.all Node.isStraight

theorem isStraight_barring (hx : x.allParts.all Node.isStraight = true)
    (hapart : e.isApart bar = true) (he : e.isStraight = true) :
    (e.barring bar x).isStraight = true := by
  rw [isStraight, root, getD_barring]
  exact Node.isStraight_barring hx (Bool.and_eq_true_iff.mp hapart).1 he

/-- No position is left out at which the expression matches. -/
theorem tryAt_matcher (hcalled : e.called = []) (h : e.isStraight = true) (text : Array Char)
    (origin position : Nat) :
    e.matcher.tryAt text origin position = e.attempt text origin position := by
  change (if e.root.head.allows text position then e.attempt text origin position else none) = _
  split
  · rfl
  next hhead =>
  simp only [attempt, hcalled, List.contains_nil, Bool.false_eq_true, if_false]
  split
  · next q hq =>
    have hagrees := (Node.run_agrees (s := ⟨text, origin, []⟩) rfl h _).ends hq
    refine absurd ?_ hhead
    unfold Head.allows
    split
    · next set heq =>
      obtain ⟨c, hc, hset⟩ := hagrees.starts set heq
      rw [hc]
      exact hset
    · rfl
  · rfl

end Expression

end Rubric.Regex
