import Rubric.Proofs.Regex.Shape

/-!
# Other things in the place of anchors

An expression with something else in the place of some of its anchors (`Node.barring`). A character
there is read as the anchor is (`barring_before`, `barring_apply`). It is one character long where
the anchor has no length, so look-behinds get other extents with it and loops watch other groups,
unless none of the anchors stands in them (`Expression.isApart`); then what is finished differs in
the anchors alone (`Reading.finish_barring`). What stands in their place matters only for how it
matches (`Expression.attempt_barring`).
-/

namespace Rubric.Regex

/-- An assertion that always fails. -/
def Node.fail : Node :=
  .lookAhead true .empty

namespace Node
variable {bar : Anchor → Bool} {x n m a b body : Node} {set : CharSet}

/-- The anchor with something else in its place, if it is one of these. -/
def barAnchor (bar : Anchor → Bool) (x : Node) : Node → Node
  | anchor a => if bar a then x else anchor a
  | node => node

/-- The expression with something else in the place of these anchors. -/
def barring (node : Node) (bar : Anchor → Bool) (x : Node) : Node :=
  node.transform (barAnchor bar x)

/-- The node is one of these anchors. -/
def isOneOf (bar : Anchor → Bool) : Node → Bool
  | anchor a => bar a
  | _ => false

/-- One of these anchors stands in the expression. -/
def holds (bar : Anchor → Bool) (node : Node) : Bool :=
  node.allParts.any (isOneOf bar)

section
variable (bar x n a b body)

@[simp] theorem barring_seq : (seq a b).barring bar x = seq (a.barring bar x) (b.barring bar x) :=
  rfl

@[simp] theorem barring_alt : (alt a b).barring bar x = alt (a.barring bar x) (b.barring bar x) :=
  rfl

@[simp] theorem barring_group (index : Nat) :
    (Node.group index body).barring bar x = Node.group index (body.barring bar x) := rfl

@[simp] theorem barring_enclosed :
    (enclosed body).barring bar x = enclosed (body.barring bar x) := rfl

@[simp] theorem barring_atomic : (atomic body).barring bar x = atomic (body.barring bar x) := rfl

@[simp] theorem barring_lookAhead (negative : Bool) :
    (lookAhead negative body).barring bar x = lookAhead negative (body.barring bar x) := rfl

@[simp] theorem barring_lookBehind (negative : Bool) (extent : Extent) :
    (lookBehind negative extent body).barring bar x =
      lookBehind negative extent (body.barring bar x) := rfl

@[simp] theorem barring_loop (min : Nat) (max : Option Nat) (lazy : Bool) (watched : List Nat) :
    (loop min max lazy watched body).barring bar x =
      loop min max lazy watched (body.barring bar x) := rfl

end

theorem keepsShape_barring (hx : x.isLeaf = true) : KeepsShape (barAnchor bar x) where
  leaf n h := by
    cases n with
    | anchor a =>
      rw [barAnchor]
      split
      · exact hx
      · rfl
    | _ => first | rfl | cases h
  seq _ _ := rfl
  alt _ _ := rfl
  group _ _ := rfl
  enclosed _ := rfl
  atomic _ := rfl
  lookAhead _ _ := rfl
  lookBehind _ _ _ := ⟨_, rfl⟩
  loop _ _ _ _ _ := ⟨_, rfl⟩

theorem holds_of_shape (h : m.shape = n.shape) : m.holds bar = n.holds bar := by
  have hall : m.allParts.all (!isOneOf bar ·) = n.allParts.all (!isOneOf bar ·) :=
    all_of_shape (fun p => by cases p <;> rfl) h
  rw [← List.not_any_eq_all_not, ← List.not_any_eq_all_not] at hall
  exact Bool.not_inj hall

theorem holds_part {p : Node} (h : n.holds bar = false) (hp : p ∈ n.allParts) :
    p.holds bar = false := by
  rw [holds, List.any_eq_false] at h ⊢
  exact fun q hq => h q (allParts_subset hp hq)

/-- Without such anchors, an expression stays as it is. -/
theorem barring_eq_self (h : n.holds bar = false) : n.barring bar x = n := by
  induction n with
  | anchor a =>
    have ha : bar a = false := by
      simpa [isOneOf] using List.any_eq_false.mp h _ (self_mem_allParts _)
    simp [barring, transform, barAnchor, ha]
  | seq a b iha ihb | alt a b iha ihb =>
    have ha := iha (holds_part h (by simp [self_mem_allParts]))
    have hb := ihb (holds_part h (by simp [self_mem_allParts]))
    simp only [barring_seq, barring_alt, ha, hb]
  | group _ _ ih | enclosed _ ih | atomic _ ih | lookAhead _ _ ih | lookBehind _ _ _ ih
  | loop _ _ _ _ _ ih =>
    have hbody := ih (holds_part h (by simp [self_mem_allParts]))
    simp only [barring_group, barring_enclosed, barring_atomic, barring_lookAhead,
      barring_lookBehind, barring_loop, hbody]
  | _ => rfl

/-! ## Reading

A character that stands in the place of anchors is read as these are. -/

theorem barring_anchor_cases (bar : Anchor → Bool) (x : Node) (a : Anchor) :
    (anchor a).barring bar x = x ∨ (anchor a).barring bar x = anchor a := by
  cases h : bar a
  · exact .inr (if_neg (by simp [h]))
  · exact .inl (if_pos h)

theorem barring_before (a b : Node) : (a.before b).barring bar (one set) =
    (a.barring bar (one set)).before (b.barring bar (one set)) := by
  cases a with
  | folded s =>
    cases b with
    | anchor c =>
      change (seq (folded s) (anchor c)).barring bar (one set) = _
      rcases barring_anchor_cases bar (one set) c with h | h <;> rw [barring_seq, h] <;> rfl
    | seq c d =>
      cases c with
      | anchor c =>
        rw [folded_before_seq rfl]
        rcases barring_anchor_cases bar (one set) c with h | h <;>
          rw [barring_seq, barring_seq, h] <;> rfl
      | _ => rfl
    | _ => rfl
  | anchor c =>
    rw [before_of_isFolded rfl]
    rcases barring_anchor_cases bar (one set) c with h | h <;> rw [barring_seq, h] <;> rfl
  | _ => rfl

theorem barring_followedBy (a b : Node) : (a.followedBy b).barring bar (one set) =
    (a.barring bar (one set)).followedBy (b.barring bar (one set)) := by
  induction a with
  | seq first rest _ ih => rw [followedBy, barring_before, ih]; rfl
  | anchor c =>
    refine (barring_before (anchor c) b).trans ?_
    rcases barring_anchor_cases bar (one set) c with h | h <;> rw [h] <;> rfl
  | _ => exact barring_before _ _

theorem barring_apply (q : Quantifier) (n : Node) :
    (q.apply n).barring bar (one set) = q.apply (n.barring bar (one set)) := by
  unfold Quantifier.apply
  split
  · rfl
  split
  · rfl
  cases n with
  | loop min max lazy watched inner =>
    dsimp only [barring_loop]
    split <;> rfl
  | anchor a => rcases barring_anchor_cases bar (one set) a with h | h <;> rw [h, barring_loop, h]
  | _ => rfl

theorem unrepeatable_barring (h : (n.barring bar (one set)).unrepeatable = true) :
    n.unrepeatable = true := by
  induction n with
  | anchor => rfl
  | alt a b iha ihb =>
    rw [barring_alt, unrepeatable, Bool.or_eq_true] at h
    rw [unrepeatable, Bool.or_eq_true]
    exact h.imp iha ihb
  | _ => exact h

theorem barring_settled (group : Nat → Option Nat) (target : Nat → Nat) (n : Node) :
    (n.barring bar (one set)).settled group target =
      (n.settled group target).barring bar (one set) := by
  induction n with
  | anchor a =>
    rcases barring_anchor_cases bar (one set) a with h | h <;> rw [h]
    · exact h.symm
    · exact h.symm
  | seq a b iha ihb => exact congrArg₂ seq iha ihb
  | alt a b iha ihb => exact congrArg₂ alt iha ihb
  | group index body ih =>
    cases hindex : group index with
    | none => simpa [settled, transform, barring, barAnchor, hindex] using ih
    | some index' => simpa [settled, transform, barring, barAnchor, hindex] using ih
  | enclosed _ ih => exact congrArg enclosed ih
  | atomic _ ih => exact congrArg atomic ih
  | lookAhead _ _ ih => exact congrArg (lookAhead _) ih
  | lookBehind _ _ _ ih => exact congrArg (lookBehind _ _) ih
  | loop _ _ _ _ _ ih => exact congrArg (loop _ _ _ _) ih
  | _ => rfl

section
variable (group : Nat → Option Nat) (target : Nat → Nat)

theorem settled_seq : (seq a b).settled group target =
    seq (a.settled group target) (b.settled group target) := rfl

theorem settled_alt : (alt a b).settled group target =
    alt (a.settled group target) (b.settled group target) := rfl

theorem settled_group (index : Nat) : (Node.group index body).settled group target =
    match group index with
    | some index => Node.group index (body.settled group target)
    | none => body.settled group target := rfl

end

theorem settled_numbered (hnumber : n.allParts.all isNumbered = true)
    {group : Nat → Option Nat} (hgroup : ∀ index ≠ 0, group index ≠ some 0) (target : Nat → Nat) :
    (n.settled group target).allParts.all isNumbered = true := by
  induction n with
  | seq a b iha ihb | alt a b iha ihb =>
    simp only [allParts_seq, allParts_alt, List.all_cons, List.all_append, Bool.and_eq_true]
      at hnumber
    simp only [settled_seq, settled_alt, allParts_seq, allParts_alt, List.all_cons,
      List.all_append, iha hnumber.2.1, ihb hnumber.2.2]
    rfl
  | group index body ih =>
    simp only [allParts_group, List.all_cons, Bool.and_eq_true] at hnumber
    rw [settled_group]
    have hindex : index ≠ 0 := by simpa [isNumbered] using hnumber.1
    split
    · next index' heq =>
      have hindex' : index' ≠ 0 := by
        rintro rfl
        exact hgroup index hindex heq
      simp [isNumbered, hindex', ih hnumber.2]
    · exact ih hnumber.2
  | enclosed _ ih | atomic _ ih | lookAhead _ _ ih | lookBehind _ _ _ ih | loop _ _ _ _ _ ih =>
    exact ih hnumber
  | _ => rfl

/-! ## Lengths -/

/-- How long things are at the part does not depend on these anchors: none of them stands in a
look-behind, and if there are back-references, in a loop. -/
def standsApart (bar : Anchor → Bool) (refers : Bool) : Node → Bool
  | lookBehind _ _ body => !body.holds bar
  | loop _ _ _ _ body => !refers || !body.holds bar
  | call _ => false
  | _ => true

theorem standsApart_shape (refers : Bool) (p : Node) :
    p.shape.standsApart bar refers = p.standsApart bar refers := by
  cases p with
  | lookBehind _ _ body =>
    exact congrArg (!·) (holds_of_shape (shape_transform keepsShape_shape
      (fun n h => by cases n <;> first | rfl | cases h) body))
  | loop _ _ _ _ body =>
    exact congrArg (!refers || !·) (holds_of_shape (shape_transform keepsShape_shape
      (fun n h => by cases n <;> first | rfl | cases h) body))
  | _ => rfl

theorem uncalled_of_apart {refers : Bool} (h : n.allParts.all (standsApart bar refers) = true) :
    n.Uncalled :=
  fun _ hcall => Bool.false_ne_true (List.all_eq_true.mp h _ hcall)

theorem apart_part {refers : Bool} {p : Node} (h : n.allParts.all (standsApart bar refers) = true)
    (hp : p ∈ n.allParts) : p.allParts.all (standsApart bar refers) = true := by
  rw [List.all_eq_true] at h ⊢
  exact fun q hq => h q (allParts_subset hp hq)

theorem referred_barring (n : Node) : (n.barring bar (one set)).referred = n.referred := by
  rw [barring, referred, (keepsShape_barring rfl).allParts, List.flatMap_map]
  refine congrArg n.allParts.flatMap (funext fun p => ?_)
  cases p with
  | anchor a => cases ha : bar a <;> simp [transform, barAnchor, ha]
  | _ => rfl

end Node

/-- The groups that are referred to call nothing and refer to nothing else, and none of the anchors
stands in them. -/
structure Bodies.Apart (bodies : Bodies) (bar : Anchor → Bool) (refs : List Nat) : Prop where
  uncalled : ∀ index ∈ refs, (bodies.getD index .empty).Uncalled
  referred : ∀ index ∈ refs, (bodies.getD index .empty).referred ⊆ refs
  holds : ∀ index ∈ refs, (bodies.getD index .empty).holds bar = false

namespace Node
variable {bar : Anchor → Bool} {n m : Node} {set : CharSet} {bodies : Bodies} {refs : List Nat}

theorem getD_barring (bodies : Bodies) (index : Nat) :
    Array.getD (bodies.map (barring · bar (one set))) index .empty =
      (bodies.getD index .empty).barring bar (one set) := by
  simp only [Array.getD_eq_getD_getElem?, Array.getElem?_map]
  cases bodies[index]? <;> rfl

theorem extentIn_barring (H : bodies.Apart bar refs) (hn : n.Uncalled) (hrefs : n.referred ⊆ refs)
    (entered : List Nat) : n.extentIn (bodies.map (barring · bar (one set))) entered =
      n.extentIn bodies entered := by
  have hgroup (fuel : Nat) : ∀ index ∈ refs, ∀ entered,
      groupExtent (bodies.map (barring · bar (one set))) fuel entered index =
        groupExtent bodies fuel entered index := by
    induction fuel with
    | zero => exact fun _ _ _ => rfl
    | succ fuel ih =>
      intro index hindex entered
      rw [groupExtent, groupExtent, getD_barring, barring_eq_self (H.holds index hindex)]
      exact extent_congr (H.uncalled index hindex)
        (fun i hi => ih i (H.referred index hindex hi)) _
  rw [extentIn, extentIn, Array.size_map]
  exact extent_congr hn (fun index hindex => hgroup _ index (hrefs hindex)) entered

theorem behind_barring (H : bodies.Apart bar refs) (hn : n.Uncalled) (hrefs : n.referred ⊆ refs)
    (entered : List Nat) (negative : Bool) :
    behind (bodies.map (barring · bar (one set))) entered negative n =
      behind bodies entered negative n := by
  rw [behind, behind, extentIn_barring H hn hrefs, Array.size_map]
  rw [fitsBehind_congr hn]

/-- Look-behinds get the same extents. -/
theorem measured_barring (H : bodies.Apart bar refs) {refers : Bool} {entered : List Nat}
    (hn : n.allParts.all (standsApart bar refers) = true) (hrefs : n.referred ⊆ refs)
    (h : n.measured bodies entered = .ok m) :
    (n.barring bar (one set)).measured (bodies.map (barring · bar (one set))) entered =
      .ok (m.barring bar (one set)) := by
  induction n generalizing entered m with
  | seq a b iha ihb | alt a b iha ihb =>
    obtain ⟨a', ha, h⟩ := bind_eq_ok.mp h
    obtain ⟨b', hb, h⟩ := bind_eq_ok.mp h
    cases h
    simp only [referred_seq, referred_alt, List.append_subset] at hrefs
    have ha := iha (apart_part hn (by simp [self_mem_allParts])) hrefs.1 ha
    have hb := ihb (apart_part hn (by simp [self_mem_allParts])) hrefs.2 hb
    simp only [barring_seq, barring_alt, measured, ha, ok_bind, hb]
    rfl
  | group _ body ih | enclosed body ih | atomic body ih | lookAhead _ body ih
  | loop _ _ _ _ body ih =>
    obtain ⟨body', hbody, h⟩ := bind_eq_ok.mp h
    cases h
    have hbody := ih (apart_part hn (by simp [self_mem_allParts])) hrefs hbody
    simp only [barring_group, barring_enclosed, barring_atomic, barring_lookAhead, barring_loop,
      measured, hbody, ok_bind]
    rfl
  | lookBehind negative extent body ih =>
    -- Its extent stays, as none of the anchors stands in the body.
    obtain ⟨body', hbody, h⟩ := bind_eq_ok.mp h
    have hapart := apart_part hn (p := body) (by simp [self_mem_allParts])
    have hshape := shape_of_measured hbody
    have hcalls : body'.Uncalled :=
      uncalled_of_apart ((all_of_shape (standsApart_shape refers) hshape).trans hapart)
    have hholds : body.holds bar = false := by
      simpa [standsApart] using List.all_eq_true.mp hn _ (self_mem_allParts _)
    have hself : body'.barring bar (one set) = body' :=
      barring_eq_self ((holds_of_shape hshape).trans hholds)
    have hrefs' : body'.referred ⊆ refs := referred_of_shape hshape ▸ hrefs
    rw [barring_lookBehind, measured, ih hapart hrefs hbody, hself, ok_bind,
      behind_barring H hcalls hrefs', h]
    cases eq_of_behind h
    rw [barring_lookBehind, hself]
  | anchor a =>
    cases h
    rcases barring_anchor_cases bar (one set) a with h | h <;> rw [h] <;> rfl
  | _ => cases h; rfl

theorem watchedIn_barring (H : bodies.Apart bar refs) (hcalls : n.Uncalled)
    (hrefs : n.referred ⊆ refs) :
    n.watchedIn (bodies.map (barring · bar (one set))) = n.watchedIn bodies := by
  unfold watchedIn
  refine congrArg (List.filterMap _) (parts_congr fun p hp => ?_)
  cases p with
  | loop min max lazy watched inner =>
    have hinner : inner ∈ n.allParts := allParts_subset hp (by simp [self_mem_allParts])
    simp only [canStay, extentIn_barring H (hcalls.part hinner)
      (List.Subset.trans (referred_subset hinner) hrefs)]
  | _ => rfl

/-- Loops watch the same groups. -/
theorem watch_barring (H : bodies.Apart bar refs)
    (hn : n.allParts.all (standsApart bar true) = true) (hrefs : n.referred ⊆ refs) :
    (n.barring bar (one set)).transform (watch (bodies.map (barring · bar (one set)))) =
      (n.transform (watch bodies)).barring bar (one set) := by
  induction n with
  | seq a b iha ihb =>
    rw [referred_seq, List.append_subset] at hrefs
    exact congrArg₂ seq (iha (apart_part hn (by simp [self_mem_allParts])) hrefs.1)
      (ihb (apart_part hn (by simp [self_mem_allParts])) hrefs.2)
  | alt a b iha ihb =>
    rw [referred_alt, List.append_subset] at hrefs
    exact congrArg₂ alt (iha (apart_part hn (by simp [self_mem_allParts])) hrefs.1)
      (ihb (apart_part hn (by simp [self_mem_allParts])) hrefs.2)
  | group index body ih =>
    exact congrArg (Node.group index) (ih (apart_part hn (by simp [self_mem_allParts])) hrefs)
  | enclosed body ih =>
    exact congrArg enclosed (ih (apart_part hn (by simp [self_mem_allParts])) hrefs)
  | atomic body ih =>
    exact congrArg atomic (ih (apart_part hn (by simp [self_mem_allParts])) hrefs)
  | lookAhead negative body ih =>
    exact congrArg (lookAhead negative) (ih (apart_part hn (by simp [self_mem_allParts])) hrefs)
  | lookBehind negative extent body ih =>
    exact congrArg (lookBehind negative extent)
      (ih (apart_part hn (by simp [self_mem_allParts])) hrefs)
  | loop min max lazy watched body ih =>
    -- Whether an iteration can stay in place, and so what is watched, depends on the body alone.
    have hapart := apart_part hn (p := body) (by simp [self_mem_allParts])
    have hbody := ih hapart hrefs
    have hholds : body.holds bar = false := by
      simpa [standsApart] using List.all_eq_true.mp hn _ (self_mem_allParts _)
    have hshape : (body.transform (watch bodies)).shape = body.shape :=
      shape_transform keepsShape_watch (fun n h => by cases n <;> first | rfl | cases h) body
    have hcalls : (body.transform (watch bodies)).Uncalled :=
      uncalled_of_apart ((all_of_shape (standsApart_shape true) hshape).trans hapart)
    have hrefs' : (body.transform (watch bodies)).referred ⊆ refs :=
      referred_of_shape hshape ▸ hrefs
    have hself : (body.transform (watch bodies)).barring bar (one set) =
        body.transform (watch bodies) :=
      barring_eq_self ((holds_of_shape hshape).trans hholds)
    rw [hself] at hbody
    change watch (bodies.map (barring · bar (one set)))
        (loop min max lazy watched ((body.barring bar (one set)).transform _)) =
      (watch bodies (loop min max lazy watched (body.transform _))).barring bar (one set)
    rw [hbody, watch, watch, barring_loop, hself, canStay, canStay,
      extentIn_barring H hcalls hrefs', watchedIn_barring H hcalls hrefs']
  | anchor a =>
    rcases barring_anchor_cases bar (one set) a with h | h <;> rw [h]
    · exact h.symm
    · exact h.symm
  | _ => rfl

theorem watching_barring (H : bodies.Apart bar refs)
    (hn : n.allParts.all (standsApart bar !n.referred.isEmpty) = true) (hrefs : n.referred ⊆ refs) :
    (n.barring bar (one set)).watching (bodies.map (barring · bar (one set))) =
      (n.watching bodies).barring bar (one set) := by
  rw [watching_eq, watching_eq, referred_barring]
  cases hempty : n.referred.isEmpty with
  | true => rfl
  | false =>
    rw [hempty] at hn
    exact watch_barring H hn hrefs

end Node

/-! ## Expressions -/

namespace Expression
variable {bar : Anchor → Bool} {set : CharSet} {e : Expression} {r : Reading} {n : Node}

/-- The expression with something else in the place of these anchors. -/
def barring (e : Expression) (bar : Anchor → Bool) (x : Node) : Expression :=
  { e with bodies := e.bodies.map (·.barring bar x) }

/-- How long things are does not depend on these anchors: nothing is called, and none of them stands
in a look-behind, in a group that is referred to or, if there is such a group, in a loop. -/
def isApart (e : Expression) (bar : Anchor → Bool) : Bool :=
  e.root.allParts.all (Node.standsApart bar !e.root.referred.isEmpty) &&
    e.root.referred.all fun index => !(e.bodies.getD index .empty).holds bar

end Expression

theorem Reading.renumbered_ne_zero (r : Reading) {index : Nat} (h : index ≠ 0) :
    r.renumbered index ≠ some 0 := by
  unfold renumbered
  split
  · simpa using h
  · cases r.names.findIdx? (·.2 == index) <;> simp

/-- The groups that calls in the pattern mean, by their places. -/
def Reading.targetAt (r : Reading) (targets : List Nat) (place : Nat) : Nat :=
  (targets.map fun index => if index = 0 then 0 else (r.renumbered index).getD 0).getD place 0

/-- How many groups capture. -/
def Reading.capturing (r : Reading) : Nat :=
  if r.names.isEmpty then r.groups else r.names.length

/-- What is settled is measured, unless a call would never end. -/
def Node.finished (n : Node) (groups : Nat) : Except Error Expression :=
  let bodies := n.bodies groups
  if bodies.called.any bodies.neverEnds then .error .neverEnding
  else n.measured bodies [0] >>= fun m => .ok ⟨(m.watching bodies).bodies groups, bodies.called⟩

theorem Reading.finish_eq (r : Reading) (n : Node) : r.finish n =
    if r.unencodable then .error .badCodePoint
    else if !r.names.isEmpty && r.numbered then .error .numberAmongNames
    else if r.names.isEmpty && n.referred.any (r.groups < ·) then .error .badReference
    else r.calls.mapM r.target >>= fun targets =>
      (n.settled r.renumbered (r.targetAt targets)).finished r.capturing := by
  unfold finish
  refine ite_congr rfl (fun _ => rfl) fun _ => ?_
  refine ite_congr rfl (fun _ => rfl) fun _ => ?_
  refine ite_congr rfl (fun _ => rfl) fun _ => ?_
  refine bind_congr_ok fun targets _ => ?_
  exact ite_congr rfl (fun _ => rfl) fun _ => rfl

namespace Node
variable {bar : Anchor → Bool} {set : CharSet} {n m : Node} {groups : Nat}

theorem isNumbered_shape (p : Node) : p.shape.isNumbered = p.isNumbered := by
  cases p <;> rfl

theorem barring_numbered (h : n.allParts.all isNumbered = true) :
    (n.barring bar (one set)).allParts.all isNumbered = true := by
  have hpart (p : Node) : (p.barring bar (one set)).isNumbered = p.isNumbered := by
    cases p with
    | anchor a =>
      rcases barring_anchor_cases bar (one set) a with h | h
      · rw [h]
        rfl
      · rw [h]
    | _ => rfl
  rw [barring, (keepsShape_barring rfl).allParts, List.all_map]
  exact (congrArg n.allParts.all (funext hpart)).trans h

theorem barring_uncalled (h : n.Uncalled) : (n.barring bar (one set)).Uncalled := by
  intro index hcall
  rw [barring, (keepsShape_barring rfl).allParts] at hcall
  obtain ⟨p, hp, heq⟩ := List.mem_map.mp hcall
  change p.barring bar (one set) = call index at heq
  cases p with
  | anchor a =>
    rcases barring_anchor_cases bar (one set) a with h | h <;> rw [h] at heq <;> cases heq
  | call => exact h _ hp
  | _ => cases heq

theorem bodies_apart (hn : n.Uncalled)
    (h : ∀ index ∈ n.referred, ((n.bodies groups).getD index .empty).holds bar = false) :
    (n.bodies groups).Apart bar n.referred where
  uncalled index _ := by
    rcases getD_bodies n groups index with heq | hmem
    · rw [heq]
      exact fun _ hcall => Node.noConfusion (List.mem_singleton.mp hcall)
    · exact hn.part hmem
  referred index _ := by
    rcases getD_bodies n groups index with heq | hmem
    · rw [heq]
      exact List.nil_subset _
    · exact referred_subset hmem
  holds := h

/-- Where anchors stand apart, an expression with a character in their place is finished to the one
that comes of it with the character in their place. -/
theorem finished_barring {e : Expression} (h : n.finished groups = .ok e)
    (hnumber : n.allParts.all isNumbered = true) (hapart : e.isApart bar = true) :
    (n.barring bar (.one set)).finished groups = .ok (e.barring bar (.one set)) ∧
      e.called = [] := by
  unfold finished at h ⊢
  dsimp only at h ⊢
  split at h
  · cases h
  obtain ⟨m, hm, h⟩ := bind_eq_ok.mp h
  cases h
  have hmshape := shape_of_measured hm
  have hshape : (m.watching (n.bodies groups)).shape = n.shape :=
    (shape_watching m).trans hmshape
  have hroot : Expression.root ⟨(m.watching (n.bodies groups)).bodies groups,
      (n.bodies groups).called⟩ = m.watching (n.bodies groups) :=
    getD_bodies_zero ((all_of_shape isNumbered_shape hshape).trans hnumber)
  rw [Expression.isApart, hroot, referred_of_shape hshape,
    all_of_shape (standsApart_shape _) hshape, Bool.and_eq_true] at hapart
  obtain ⟨hparts, hgroups⟩ := hapart
  have hcalls := uncalled_of_apart hparts
  have H : (n.bodies groups).Apart bar n.referred := by
    refine bodies_apart hcalls fun index hindex => ?_
    rw [← holds_of_shape (bodies_of_shape hshape groups index)]
    simpa using List.all_eq_true.mp hgroups index hindex
  have hbodies (n : Node) : (n.barring bar (one set)).bodies groups =
      (n.bodies groups).map (barring · bar (one set)) :=
    (keepsShape_barring rfl).bodies rfl n groups
  have hcalled : ((n.barring bar (one set)).bodies groups).called = [] :=
    called_eq_nil (barring_numbered hnumber) (barring_uncalled hcalls)
  have hmparts : m.allParts.all (standsApart bar !m.referred.isEmpty) = true := by
    rw [referred_of_shape hmshape, all_of_shape (standsApart_shape _) hmshape, hparts]
  have hrefs : m.referred ⊆ n.referred := referred_of_shape hmshape ▸ List.Subset.refl _
  rw [hcalled, List.any_nil, if_neg Bool.false_ne_true, hbodies,
    measured_barring H hparts (List.Subset.refl _) hm, ok_bind, watching_barring H hmparts hrefs,
    hbodies, called_eq_nil hnumber hcalls]
  exact ⟨rfl, rfl⟩

end Node

theorem Reading.finish_barring {bar : Anchor → Bool} {set : CharSet} {e : Expression} {r : Reading}
    {n : Node} (h : r.finish n = .ok e) (hnumber : n.allParts.all Node.isNumbered = true)
    (hapart : e.isApart bar = true) :
    r.finish (n.barring bar (.one set)) = .ok (e.barring bar (.one set)) ∧ e.called = [] := by
  rw [finish_eq] at h ⊢
  simp only [Node.referred_barring, Node.barring_settled]
  split at h
  · cases h
  next hcodes =>
  split at h
  · cases h
  next hnames =>
  split at h
  · cases h
  next hreferred =>
  obtain ⟨targets, htargets, h⟩ := bind_eq_ok.mp h
  rw [if_neg hcodes, if_neg hnames, if_neg hreferred, htargets, ok_bind]
  exact Node.finished_barring h
    (Node.settled_numbered hnumber (fun _ => r.renumbered_ne_zero) _) hapart

/-! ## Matching

It makes no difference what stands in the place of the anchors, as long as it matches alike. -/

section
variable {bar : Anchor → Bool} {x y : Node} {set : CharSet} {text : Array Char} {origin : Nat}

theorem Node.run_barring {s : Subject} {call : Nat → (limit : Nat) → Step}
    (h : x.run s call = y.run s call) (n : Node) :
    (n.barring bar x).run s call = (n.barring bar y).run s call := by
  induction n with
  | anchor a =>
    cases ha : bar a with
    | true => simpa [barring, transform, barAnchor, ha] using h
    | false => simp [barring, transform, barAnchor, ha]
  | seq _ _ iha ihb | alt _ _ iha ihb =>
    funext limit p k
    simp only [barring_seq, barring_alt, run, iha, ihb]
  | group _ _ ih | enclosed _ ih | atomic _ ih | lookAhead _ _ ih | lookBehind _ _ _ ih
  | loop _ _ _ _ _ ih =>
    funext limit p k
    simp only [barring_group, barring_enclosed, barring_atomic, barring_lookAhead,
      barring_lookBehind, barring_loop, run, ih]
  | _ => rfl

namespace Expression

theorem getD_barring (e : Expression) (bar : Anchor → Bool) (x : Node) (index : Nat) :
    (e.barring bar x).bodies.getD index .empty = (e.bodies.getD index .empty).barring bar x := by
  simp only [barring, Array.getD_eq_getD_getElem?, Array.getElem?_map]
  cases e.bodies[index]? <;> rfl

theorem attempt_barring (e : Expression)
    (h : ∀ call, x.run ⟨text, origin, e.called⟩ call = y.run ⟨text, origin, e.called⟩ call)
    (position : Nat) :
    (e.barring bar x).attempt text origin position =
      (e.barring bar y).attempt text origin position := by
  have henter : (e.barring bar x).enter ⟨text, origin, e.called⟩ =
      (e.barring bar y).enter ⟨text, origin, e.called⟩ := by
    funext depth
    induction depth with
    | zero => rfl
    | succ depth ih =>
      funext index limit p k
      simp only [enter, getD_barring, ih, Node.run_barring (h _)]
  have hroot (call) : (e.barring bar x).root.run ⟨text, origin, e.called⟩ call =
      (e.barring bar y).root.run ⟨text, origin, e.called⟩ call := by
    rw [root, root, getD_barring, getD_barring, Node.run_barring (h _)]
  have hgroups (x : Node) : (e.barring bar x).groups = e.groups := by
    simp only [barring, groups, Array.size_map]
  unfold attempt
  rw [hgroups, hgroups]
  dsimp only [barring] at henter hroot ⊢
  simp only [henter, hroot]
  rfl

end Expression

/-- Where none of the characters stands, one of them cannot be matched. -/
theorem Node.run_one_eq_fail {s : Subject} (h : ∀ c ∈ s.text, set.contains c = false)
    (call : Nat → (limit : Nat) → Step) : (one set).run s call = fail.run s call := by
  funext limit p k
  simp only [run, fail, if_true]
  split
  · next c hc =>
    have hmem : c ∈ s.text := by
      unfold Subject.char? at hc
      split at hc
      · exact Array.mem_of_getElem? hc
      · cases hc
    rw [h c hmem]
    rfl
  · rfl

end

end Rubric.Regex
