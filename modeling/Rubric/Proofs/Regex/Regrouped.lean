import Rubric.Proofs.Outcome
import Rubric.Regex.Search

/-!
# Sequences in sequences

Whether the parts of a sequence stand in a sequence of their own makes no difference to what an
expression matches: nodes that differ in this alone (`Node.Regrouped`) are finished to matchers that
are the same (`Reading.finish_coupled`). Texts that are compared without regard to case are left
out, since neighbours of these become one when they are read.
-/

namespace Rubric.Regex

theorem Extent.add_assoc (x y z : Extent) : (x.add y).add z = x.add (y.add z) := by
  obtain ⟨l, m⟩ := x
  obtain ⟨l', m'⟩ := y
  obtain ⟨l'', m''⟩ := z
  cases m <;> cases m' <;> cases m'' <;> simp [add, Nat.add_assoc]

/-- The node is a text to be compared without regard to case. -/
def Node.isFolded : Node → Bool
  | folded _ => true
  | _ => false

/-- The node is a sequence of single characters. -/
def Node.isText : Node → Bool
  | one _ => true
  | seq a b => a.isText && b.isText
  | _ => false

/-- The node has no parts. -/
def Node.isLeaf : Node → Bool
  | empty | one _ | folded _ | lineBreak | anchor _ | keep | backref _ _ | call _ => true
  | _ => false

/-- In the first node, some sequences of characters stand in the front of other sequences; in the
second one, the characters do. -/
inductive Node.Regrouped : Node → Node → Prop
  | leaf {a : Node} : a.isLeaf = true → Regrouped a a
  | shift {set : CharSet} {a b c : Node} : a.isText = true → Regrouped (.seq a b) c →
    Regrouped (.seq (.seq (.one set) a) b) (.seq (.one set) c)
  | seq {a a' b b' : Node} : Regrouped a a' → Regrouped b b' → Regrouped (.seq a b) (.seq a' b')
  | alt {a a' b b' : Node} : Regrouped a a' → Regrouped b b' → Regrouped (.alt a b) (.alt a' b')
  | group {index : Nat} {a a' : Node} : Regrouped a a' →
    Regrouped (.group index a) (.group index a')
  | enclosed {a a' : Node} : Regrouped a a' → Regrouped (.enclosed a) (.enclosed a')
  | atomic {a a' : Node} : Regrouped a a' → Regrouped (.atomic a) (.atomic a')
  | lookAhead {negative : Bool} {a a' : Node} : Regrouped a a' →
    Regrouped (.lookAhead negative a) (.lookAhead negative a')
  | lookBehind {negative : Bool} {extent : Extent} {a a' : Node} : Regrouped a a' →
    Regrouped (.lookBehind negative extent a) (.lookBehind negative extent a')
  | loop {min : Nat} {max : Option Nat} {lazy : Bool} {watched : List Nat} {a a' : Node} :
    Regrouped a a' → Regrouped (.loop min max lazy watched a) (.loop min max lazy watched a')

/-- The bodies of groups, pairwise. -/
structure Bodies.Regrouped (bodies bodies' : Bodies) : Prop where
  size_eq : bodies.size = bodies'.size
  body (index : Nat) : (bodies.getD index .empty).Regrouped (bodies'.getD index .empty)

namespace Node.Regrouped
variable {a a' b b' : Node} {bodies bodies' : Bodies}

theorem refl (a : Node) : Regrouped a a := by
  induction a with
  | empty | one | folded | lineBreak | anchor | keep | backref | call => exact .leaf rfl
  | seq _ _ ih1 ih2 => exact .seq ih1 ih2
  | alt _ _ ih1 ih2 => exact .alt ih1 ih2
  | group _ _ ih => exact .group ih
  | enclosed _ ih => exact .enclosed ih
  | atomic _ ih => exact .atomic ih
  | lookAhead _ _ ih => exact .lookAhead ih
  | lookBehind _ _ _ ih => exact .lookBehind ih
  | loop _ _ _ _ _ ih => exact .loop ih

theorem isFolded_eq (h : Regrouped a a') : a.isFolded = a'.isFolded := by
  cases h <;> rfl

/-! ## Matching -/

theorem run_eq {s : Subject} {call : Nat → (limit : Nat) → Step} (h : Regrouped a a') :
    a.run s call = a'.run s call := by
  induction h with
  | leaf => rfl
  | shift _ _ ih =>
    funext limit p k
    simp only [Node.run, ← ih]
  | seq _ _ ih1 ih2 | alt _ _ ih1 ih2 =>
    funext limit p k
    simp only [Node.run, ih1, ih2]
  | group _ ih | enclosed _ ih | atomic _ ih | lookAhead _ ih | lookBehind _ ih | loop _ ih =>
    funext limit p k
    simp only [Node.run, ih]

theorem head_eq (h : Regrouped a a') : a.head = a'.head := by
  induction h with
  | leaf => rfl
  | shift => rfl
  | seq _ _ ih1 ih2 | alt _ _ ih1 ih2 => simp only [Node.head, ih1, ih2]
  | lookAhead | lookBehind => rfl
  | group _ ih | enclosed _ ih | atomic _ ih | loop _ ih => simp only [Node.head, ih]

/-! ## Extents -/
theorem extent_eq {group : List Nat → Nat → Extent} (h : Regrouped a a') (entered : List Nat) :
    a.extent group entered = a'.extent group entered := by
  induction h generalizing entered with
  | leaf => rfl
  | shift _ _ ih =>
    have hshift := ih entered
    simp only [Node.extent] at hshift ⊢
    rw [← hshift, Extent.add_assoc]
  | seq _ _ ih1 ih2 | alt _ _ ih1 ih2 => simp only [Node.extent, ih1, ih2]
  | lookAhead | lookBehind => simp only [Node.extent]
  | group _ ih | enclosed _ ih | atomic _ ih | loop _ ih => simp only [Node.extent, ih]

theorem groupExtent_eq (H : bodies.Regrouped bodies') :
    groupExtent bodies = groupExtent bodies' := by
  funext fuel
  induction fuel with
  | zero => rfl
  | succ fuel ih =>
    funext entered index
    rw [groupExtent, groupExtent, ih]
    exact (H.body index).extent_eq _

theorem extentIn_eq (H : bodies.Regrouped bodies') (h : Regrouped a a') (entered : List Nat) :
    a.extentIn bodies entered = a'.extentIn bodies' entered := by
  rw [extentIn, extentIn, H.size_eq, groupExtent_eq H]
  exact h.extent_eq _

theorem canStay_eq (H : bodies.Regrouped bodies') (h : Regrouped a a') :
    a.canStay bodies = a'.canStay bodies' := by
  rw [canStay, canStay, extentIn_eq H h]

/-! ## Look-behinds -/

theorem fitsBehind_eq {group : List Nat → Nat → Bool} {negative : Bool} (h : Regrouped a a')
    (entered : List Nat) :
    a.fitsBehind group negative entered = a'.fitsBehind group negative entered := by
  induction h generalizing entered with
  | leaf => rfl
  | shift _ _ ih =>
    have hshift := ih entered
    simp only [Node.fitsBehind] at hshift ⊢
    rw [← hshift, Bool.and_assoc]
  | seq _ _ ih1 ih2 | alt _ _ ih1 ih2 => simp only [Node.fitsBehind, ih1, ih2]
  | lookAhead => simp only [Node.fitsBehind]
  | group _ ih | enclosed _ ih | atomic _ ih | loop _ ih | lookBehind _ ih =>
    simp only [Node.fitsBehind, ih]

theorem groupFitsBehind_eq {negative : Bool} (H : bodies.Regrouped bodies') :
    groupFitsBehind bodies negative = groupFitsBehind bodies' negative := by
  funext fuel
  induction fuel with
  | zero => rfl
  | succ fuel ih =>
    funext entered index
    rw [groupFitsBehind, groupFitsBehind, ih]
    exact (H.body index).fitsBehind_eq _

/-- Look-behinds are refused together, or get one extent. -/
theorem behind_coupled {negative : Bool} (H : bodies.Regrouped bodies') (h : Regrouped a a')
    (entered : List Nat) :
    Coupled Regrouped (behind bodies entered negative a) (behind bodies' entered negative a') := by
  rw [behind, behind, extentIn_eq H h, H.size_eq, groupFitsBehind_eq H, h.fitsBehind_eq]
  split
  · exact .error
  · split
    · exact .error
    · exact .ok h.lookBehind

theorem measured_of_isText (h : a.isText = true) (entered : List Nat) :
    a.measured bodies entered = .ok a := by
  induction a with
  | one => rfl
  | seq a b ih1 ih2 =>
    obtain ⟨ha, hb⟩ := Bool.and_eq_true_iff.mp h
    rw [measured, ih1 ha, ih2 hb]
    rfl
  | _ => cases h

/-- Look-behinds in regrouped nodes get the same extents, and both nodes stay regrouped. -/
theorem measured_coupled (H : bodies.Regrouped bodies') (h : Regrouped a a') (entered : List Nat) :
    Coupled Regrouped (a.measured bodies entered) (a'.measured bodies' entered) := by
  induction h generalizing entered with
  | @leaf a h => cases a <;> first | exact .ok (.leaf rfl) | cases h
  | @shift set a b c ha _ ih =>
    have hshift := ih entered
    simp only [measured, measured_of_isText ha, pure_bind, ok_bind] at hshift ⊢
    cases hb : b.measured bodies entered with
    | error e =>
      rw [hb] at hshift
      rw [hshift.of_error]
      exact .error
    | ok b₁ =>
      rw [hb] at hshift
      obtain ⟨c₁, hc₁, hc⟩ := hshift.of_ok
      rw [hc₁]
      exact .ok (.shift ha hc)
  | seq _ _ ih1 ih2 =>
    exact (ih1 entered).bind fun _ _ ha => (ih2 entered).bind fun _ _ hb => .ok (.seq ha hb)
  | alt _ _ ih1 ih2 =>
    exact (ih1 entered).bind fun _ _ ha => (ih2 entered).bind fun _ _ hb => .ok (.alt ha hb)
  | group _ ih => exact (ih _).bind fun _ _ h => .ok (.group h)
  | enclosed _ ih => exact (ih _).bind fun _ _ h => .ok (.enclosed h)
  | atomic _ ih => exact (ih _).bind fun _ _ h => .ok (.atomic h)
  | lookAhead _ ih => exact (ih _).bind fun _ _ h => .ok (.lookAhead h)
  | loop _ ih => exact (ih _).bind fun _ _ h => .ok (.loop h)
  | lookBehind _ ih => exact (ih _).bind fun _ _ h => behind_coupled H h _

/-! ## Calls -/

theorem consumes_eq {call : Nat → Bool} (h : Regrouped a a') :
    a.consumes call = a'.consumes call := by
  induction h with
  | leaf => rfl
  | shift => simp only [consumes, Bool.true_or]
  | seq _ _ ih1 ih2 | alt _ _ ih1 ih2 => simp only [consumes, ih1, ih2]
  | lookAhead | lookBehind => simp only [consumes]
  | group _ ih | enclosed _ ih | atomic _ ih | loop _ ih => simp only [consumes, ih]

theorem reach_eq {consumed : Nat → Bool} {call : Nat → Bool → Reach} {target : Nat}
    (h : Regrouped a a') (still : Bool) :
    a.reach consumed call target still = a'.reach consumed call target still := by
  induction h generalizing still with
  | leaf => rfl
  | @shift set a b c _ _ ih =>
    have hshift := ih (still && !(Node.one set).consumes consumed)
    simp only [reach] at hshift ⊢
    rw [← hshift]
    simp only [Reach.never, consumes, Bool.not_or, Bool.and_assoc, Bool.false_or,
      Bool.false_eq_true,
      if_false]
  | seq h _ ih1 ih2 => simp only [reach, ih1, ih2, h.consumes_eq]
  | alt _ _ ih1 ih2 => simp only [reach, ih1, ih2]
  | group _ ih | enclosed _ ih | atomic _ ih | lookAhead _ ih | lookBehind _ ih | loop _ ih =>
    simp only [reach, ih]

theorem groupConsumes_eq (H : bodies.Regrouped bodies') :
    bodies.groupConsumes = bodies'.groupConsumes := by
  funext fuel
  induction fuel with
  | zero => rfl
  | succ fuel ih =>
    funext index
    rw [Bodies.groupConsumes, Bodies.groupConsumes, ih]
    exact (H.body index).consumes_eq

theorem groupReach_eq {target : Nat} (H : bodies.Regrouped bodies') :
    bodies.groupReach target = bodies'.groupReach target := by
  funext fuel
  induction fuel with
  | zero => rfl
  | succ fuel ih =>
    funext entered index still
    rw [Bodies.groupReach, Bodies.groupReach, ih, H.size_eq, groupConsumes_eq H,
      (H.body index).reach_eq]

theorem neverEnds_eq (H : bodies.Regrouped bodies') : bodies.neverEnds = bodies'.neverEnds := by
  funext index
  rw [Bodies.neverEnds, Bodies.neverEnds, H.size_eq, groupConsumes_eq H, groupReach_eq H,
    (H.body index).reach_eq]

/-! ## Parts -/

/-- The parts of two nodes, apart from sequences. -/
inductive PartsRegrouped : List Node → List Node → Prop
  | nil : PartsRegrouped [] []
  | cons {a a' : Node} {l l' : List Node} : Regrouped a a' → PartsRegrouped l l' →
    PartsRegrouped (a :: l) (a' :: l')
  | left {a b : Node} {l l' : List Node} : PartsRegrouped l l' → PartsRegrouped (.seq a b :: l) l'
  | right {a b : Node} {l l' : List Node} : PartsRegrouped l l' → PartsRegrouped l (.seq a b :: l')

theorem PartsRegrouped.of_seq {l l' : List Node} (h : PartsRegrouped (.seq a b :: l) l') :
    PartsRegrouped l l' := by
  generalize hm : Node.seq a b :: l = m at h
  induction h with
  | nil => cases hm
  | cons h hl =>
    cases hm
    cases h with
    | leaf h => cases h
    | shift | seq => exact .right hl
  | left hl => cases hm; exact hl
  | right _ ih => exact .right (ih hm)

/-- What is entered in the one node is entered in the other. -/
theorem parts {enter enter' : Node → Bool} (hseq : ∀ a b, enter (.seq a b) = true)
    (hseq' : ∀ a b, enter' (.seq a b) = true)
    (henter : ∀ {a a'}, Regrouped a a' → enter a = enter' a') {l l' : List Node}
    (h : Regrouped a a') (hl : PartsRegrouped l l') :
    PartsRegrouped (a.parts enter l) (a'.parts enter' l') := by
  have hnode {n n' : Node} {inner inner' l l' : List Node} (hn : Regrouped n n')
      (hinner : PartsRegrouped inner inner') (hl : PartsRegrouped l l') :
      PartsRegrouped (n :: if enter n then inner else l)
        (n' :: if enter' n' then inner' else l') := by
    rw [henter hn]
    split
    · exact .cons hn hinner
    · exact .cons hn hl
  induction h generalizing l l' with
  | @leaf a h => cases a <;> first | exact .cons (.leaf rfl) hl | cases h
  | shift _ _ ih =>
    have hrest := ih hl
    simp only [Node.parts, hseq, hseq', if_true] at hrest ⊢
    exact .left (.left (.right (.cons (.leaf rfl) hrest.of_seq)))
  | seq ha hb ih1 ih2 => exact hnode (.seq ha hb) (ih1 (ih2 hl)) hl
  | alt ha hb ih1 ih2 => exact hnode (.alt ha hb) (ih1 (ih2 hl)) hl
  | group h ih => exact hnode (.group h) (ih hl) hl
  | enclosed h ih => exact hnode (.enclosed h) (ih hl) hl
  | atomic h ih => exact hnode (.atomic h) (ih hl) hl
  | lookAhead h ih => exact hnode (.lookAhead h) (ih hl) hl
  | lookBehind h ih => exact hnode (.lookBehind h) (ih hl) hl
  | loop h ih => exact hnode (.loop h) (ih hl) hl

theorem allParts (h : Regrouped a a') : PartsRegrouped a.allParts a'.allParts :=
  h.parts (fun _ _ => rfl) (fun _ _ => rfl) (fun _ => rfl) .nil

/-- What regrouped nodes have in common can be collected from their parts. -/
theorem PartsRegrouped.filterMap_eq {β : Type} {f : Node → Option β} {l l' : List Node}
    (hl : PartsRegrouped l l') (hseq : ∀ a b, f (.seq a b) = none)
    (hf : ∀ {a a'}, Regrouped a a' → f a = f a') : l.filterMap f = l'.filterMap f := by
  induction hl with
  | nil => rfl
  | cons h _ ih => simp only [List.filterMap_cons, hf h, ih]
  | left _ ih | right _ ih => simpa only [List.filterMap_cons, hseq] using ih

theorem PartsRegrouped.flatMap_eq {β : Type} {f : Node → List β} {l l' : List Node}
    (hl : PartsRegrouped l l') (hseq : ∀ a b, f (.seq a b) = [])
    (hf : ∀ {a a'}, Regrouped a a' → f a = f a') : l.flatMap f = l'.flatMap f := by
  induction hl with
  | nil => rfl
  | cons h _ ih => simp only [List.flatMap_cons, hf h, ih]
  | left _ ih | right _ ih => simpa only [List.flatMap_cons, hseq, List.nil_append] using ih

theorem PartsRegrouped.countP_eq {f : Node → Bool} {l l' : List Node}
    (hl : PartsRegrouped l l') (hseq : ∀ a b, f (.seq a b) = false)
    (hf : ∀ {a a'}, Regrouped a a' → f a = f a') : l.countP f = l'.countP f := by
  induction hl with
  | nil => rfl
  | cons h _ ih => simp only [List.countP_cons, hf h, ih]
  | left _ ih | right _ ih => simpa [List.countP_cons, hseq] using ih

theorem PartsRegrouped.foldl {β : Type} {R : β → β → Prop} {f : β → Node → β} {l l' : List Node}
    (hl : PartsRegrouped l l') (hseq : ∀ x a b, f x (.seq a b) = x)
    (hf : ∀ {x x' a a'}, R x x' → Regrouped a a' → R (f x a) (f x' a')) {x x' : β} (h : R x x') :
    R (l.foldl f x) (l'.foldl f x') := by
  induction hl generalizing x x' with
  | nil => exact h
  | cons ha _ ih => exact ih (hf h ha)
  | left _ ih | right _ ih =>
    rw [List.foldl_cons, hseq]
    exact ih h

theorem referred_eq (h : Regrouped a a') : a.referred = a'.referred :=
  h.allParts.flatMap_eq (fun _ _ => rfl) fun h => by cases h <;> rfl

theorem calls_eq (h : Regrouped a a') : a.calls = a'.calls :=
  (h.parts (fun _ _ => rfl) (fun _ _ => rfl) (fun h => by cases h <;> rfl) .nil).filterMap_eq
    (fun _ _ => rfl) fun h => by cases h <;> rfl

theorem watchedIn_eq (H : bodies.Regrouped bodies') (h : Regrouped a a') :
    a.watchedIn bodies = a'.watchedIn bodies' := by
  unfold watchedIn
  rw [h.referred_eq]
  refine (h.parts (fun _ _ => rfl) (fun _ _ => rfl) (fun {n _} h => ?_) .nil).filterMap_eq
    (fun _ _ => rfl) fun h => ?_
  · cases h with
    | leaf h => cases n <;> first | rfl | cases h
    | loop h => simp only [canStay_eq H h]
    | _ => rfl
  · cases h <;> rfl

/-- The bodies of the groups of regrouped nodes are regrouped. -/
theorem bodies_regrouped (h : Regrouped a a') (groups : Nat) :
    (a.bodies groups).Regrouped (a'.bodies groups) := by
  have hset {bodies bodies' : Bodies} (H : bodies.Regrouped bodies') {b b' : Node}
      (hb : Regrouped b b') (index : Nat) :
      Bodies.Regrouped (bodies.setIfInBounds index b) (bodies'.setIfInBounds index b') := by
    refine ⟨by simp [H.size_eq], fun i => ?_⟩
    have hi := H.body i
    simp only [Array.getD_eq_getD_getElem?, Array.getElem?_setIfInBounds, H.size_eq] at hi ⊢
    split
    · split
      · exact hb
      · exact .refl _
    · exact hi
  refine h.allParts.foldl (R := Bodies.Regrouped) (fun _ _ _ => rfl) (fun {_ _ n _} H h => ?_)
    (hset ⟨rfl, fun _ => .refl _⟩ h 0)
  cases h with
  | leaf h => cases n <;> first | exact H | cases h
  | group h => exact hset H h _
  | _ => exact H

theorem called_eq (H : bodies.Regrouped bodies') : bodies.called = bodies'.called := by
  have hreachable (fuel : Nat) (found waiting : List Nat) :
      bodies.reachable fuel found waiting = bodies'.reachable fuel found waiting := by
    induction fuel generalizing found waiting with
    | zero => rfl
    | succ fuel ih =>
      cases waiting with
      | nil => rfl
      | cons index waiting =>
        rw [Bodies.reachable, Bodies.reachable, ih, ih, (H.body index).calls_eq]
  unfold Bodies.called
  simp only [hreachable, H.size_eq, (H.body 0).calls_eq]
  rw [(H.body 0).allParts.countP_eq (fun _ _ => rfl) fun h => by cases h <;> rfl]

/-! ## Transforming -/

theorem transform_of_isText {f : Node → Node} (hone : ∀ set, f (.one set) = .one set)
    (hseq : ∀ a b, f (.seq a b) = .seq a b) (h : a.isText = true) : a.transform f = a := by
  induction a with
  | one => exact hone _
  | seq a b ih1 ih2 =>
    obtain ⟨ha, hb⟩ := Bool.and_eq_true_iff.mp h
    rw [Node.transform, ih1 ha, ih2 hb, hseq]
  | _ => cases h

/-- Transformations that keep characters and sequences, and regroupings of anything else. -/
theorem transform {f f' : Node → Node} (hone : ∀ set, f (.one set) = .one set)
    (hone' : ∀ set, f' (.one set) = .one set) (hseq : ∀ a b, f (.seq a b) = .seq a b)
    (hseq' : ∀ a b, f' (.seq a b) = .seq a b)
    (hf : ∀ {a a'}, Regrouped a a' → Regrouped (f a) (f' a')) (h : Regrouped a a') :
    Regrouped (a.transform f) (a'.transform f') := by
  induction h with
  | @leaf a h => cases a <;> first | exact hf (.leaf rfl) | cases h
  | shift ha _ ih =>
    simp only [Node.transform, hone, hone', hseq, hseq', transform_of_isText hone hseq ha] at ih ⊢
    exact .shift ha ih
  | seq _ _ ih1 ih2 => exact hf (.seq ih1 ih2)
  | alt _ _ ih1 ih2 => exact hf (.alt ih1 ih2)
  | group _ ih => exact hf (.group ih)
  | enclosed _ ih => exact hf (.enclosed ih)
  | atomic _ ih => exact hf (.atomic ih)
  | lookAhead _ ih => exact hf (.lookAhead ih)
  | lookBehind _ ih => exact hf (.lookBehind ih)
  | loop _ ih => exact hf (.loop ih)

theorem settled {group : Nat → Option Nat} {target : Nat → Nat} (h : Regrouped a a') :
    Regrouped (a.settled group target) (a'.settled group target) := by
  refine h.transform (fun _ => rfl) (fun _ => rfl) (fun _ _ => rfl) (fun _ _ => rfl)
    fun {a _} h => ?_
  cases h with
  | leaf h => cases a <;> first | exact .leaf rfl | cases h
  | @group index _ _ h =>
    cases hindex : group index with
    | none => simpa only [hindex] using h
    | some index => simpa only [hindex] using h.group
  | shift ha h => exact .shift ha h
  | seq ha hb => exact .seq ha hb
  | alt ha hb => exact .alt ha hb
  | enclosed h => exact .enclosed h
  | atomic h => exact .atomic h
  | lookAhead h => exact .lookAhead h
  | lookBehind h => exact .lookBehind h
  | loop h => exact .loop h

theorem watching (H : bodies.Regrouped bodies') (h : Regrouped a a') :
    Regrouped (a.watching bodies) (a'.watching bodies') := by
  unfold Node.watching
  rw [h.referred_eq]
  split
  · exact h
  · refine h.transform (fun _ => rfl) (fun _ => rfl) (fun _ _ => rfl) (fun _ _ => rfl)
      fun {a _} h => ?_
    cases h with
    | leaf h => cases a <;> first | exact .leaf rfl | cases h
    | loop h => simpa only [canStay_eq H h, watchedIn_eq H h] using h.loop
    | shift ha h => exact .shift ha h
    | seq ha hb => exact .seq ha hb
    | alt ha hb => exact .alt ha hb
    | group h => exact .group h
    | enclosed h => exact .enclosed h
    | atomic h => exact .atomic h
    | lookAhead h => exact .lookAhead h
    | lookBehind h => exact .lookBehind h

end Node.Regrouped

/-! ## Reading -/

namespace Node
variable {a a' b b' : Node}

theorem isFolded_of_isText (h : a.isText = true) : a.isFolded = false := by
  cases a <;> first | rfl | cases h

theorem before_of_isFolded (h : a.isFolded = false) : a.before b = .seq a b := by
  cases a <;> first | rfl | cases h

theorem folded_before_seq {parts : List (List Nat)} (h : a.isFolded = false) :
    (folded parts).before (seq a b) = .seq (.folded parts) (.seq a b) := by
  cases a <;> first | rfl | cases h

namespace Regrouped

theorem unrepeatable_eq (h : Regrouped a a') : a.unrepeatable = a'.unrepeatable := by
  induction h with
  | alt _ _ ih1 ih2 => simp only [unrepeatable, ih1, ih2]
  | _ => rfl

theorem folded_before {parts : List (List Nat)} (h : Regrouped b b') :
    Regrouped ((folded parts).before b) ((folded parts).before b') := by
  cases h with
  | leaf h => exact .refl _
  | shift h hc => exact .seq (.leaf rfl) (.shift h hc)
  | @seq c c' d d' hc hd =>
    cases hfolded : c.isFolded with
    | false =>
      rw [folded_before_seq hfolded, folded_before_seq (hc.isFolded_eq ▸ hfolded)]
      exact .seq (.leaf rfl) (.seq hc hd)
    | true =>
      cases hc with
      | leaf =>
        cases c with
        | folded => exact .seq (.leaf rfl) hd
        | _ => cases hfolded
      | _ => cases hfolded
  | alt hc hd => exact .seq (.leaf rfl) (.alt hc hd)
  | group h => exact .seq (.leaf rfl) (.group h)
  | enclosed h => exact .seq (.leaf rfl) (.enclosed h)
  | atomic h => exact .seq (.leaf rfl) (.atomic h)
  | lookAhead h => exact .seq (.leaf rfl) (.lookAhead h)
  | lookBehind h => exact .seq (.leaf rfl) (.lookBehind h)
  | loop h => exact .seq (.leaf rfl) (.loop h)

theorem before (ha : Regrouped a a') (hb : Regrouped b b') :
    Regrouped (a.before b) (a'.before b') := by
  cases hfolded : a.isFolded with
  | false =>
    rw [before_of_isFolded hfolded, before_of_isFolded (ha.isFolded_eq ▸ hfolded)]
    exact .seq ha hb
  | true =>
    cases ha with
    | leaf =>
      cases a with
      | folded => exact hb.folded_before
      | _ => cases hfolded
    | _ => cases hfolded

theorem followedBy (ha : Regrouped a a') (hb : Regrouped b b') :
    Regrouped (a.followedBy b) (a'.followedBy b') := by
  induction ha with
  | @leaf a h => cases a <;> first | exact (leaf rfl).before hb | cases h
  | @shift set c d e hc _ ih =>
    rw [Node.followedBy, before_of_isFolded (isFolded_of_isText hc)] at ih
    rw [Node.followedBy, Node.followedBy, before_of_isFolded rfl, before_of_isFolded rfl]
    exact .shift hc ih
  | seq hc _ _ ih => exact hc.before ih
  | alt hc hd => exact (hc.alt hd).before hb
  | group h => exact h.group.before hb
  | enclosed h => exact h.enclosed.before hb
  | atomic h => exact h.atomic.before hb
  | lookAhead h => exact h.lookAhead.before hb
  | lookBehind h => exact h.lookBehind.before hb
  | loop h => exact h.loop.before hb

theorem apply (q : Quantifier) (h : Regrouped a a') : Regrouped (q.apply a) (q.apply a') := by
  unfold Quantifier.apply
  split
  · exact h.loop.atomic
  split
  · exact h
  cases h with
  | leaf h => exact .refl _
  | @loop min max lazy _ _ _ h =>
    dsimp only
    split
    · exact h.loop
    · exact h.loop.loop
    · exact h.loop.loop
  | shift ha h => exact (h.shift ha).loop
  | seq ha hb => exact (ha.seq hb).loop
  | alt ha hb => exact (ha.alt hb).loop
  | group h => exact h.group.loop
  | enclosed h => exact h.enclosed.loop
  | atomic h => exact h.atomic.loop
  | lookAhead h => exact h.lookAhead.loop
  | lookBehind h => exact h.lookBehind.loop

end Regrouped

end Node

/-! ## Expressions -/

/-- Expressions with regrouped bodies match alike. -/
theorem Expression.matcher_eq {r r' : Expression} (h : r.bodies.Regrouped r'.bodies)
    (hcalled : r.called = r'.called) : r.matcher = r'.matcher := by
  have henter (s : Subject) : r.enter s = r'.enter s := by
    funext depth
    induction depth with
    | zero => rfl
    | succ depth ih =>
      funext index limit p k
      simp only [enter, ih, (h.body index).run_eq]
  have hattempt : r.attempt = r'.attempt := by
    funext text origin position
    simp only [attempt, groups, root, hcalled, h.size_eq, henter, (h.body 0).run_eq]
  rw [matcher, matcher, hattempt, root, root, (h.body 0).head_eq]

/-- Regrouped nodes are finished to one matcher, or refused together. -/
theorem Reading.finish_coupled {r : Reading} {node node' : Node} (h : node.Regrouped node') :
    Coupled (fun e e' => e.matcher = e'.matcher) (r.finish node) (r.finish node') := by
  unfold finish
  simp only [h.referred_eq]
  refine .ite .error (.ite .error (.ite .error ?_))
  refine Coupled.bind (R := Eq) (.refl fun _ => rfl) ?_
  rintro targets _ rfl
  have hsettled : (node.settled r.renumbered _).Regrouped (node'.settled r.renumbered fun place =>
      (targets.map fun index =>
        if index = 0 then 0 else (r.renumbered index).getD 0).getD place 0) :=
    h.settled
  have hbodies := hsettled.bodies_regrouped (if r.names.isEmpty then r.groups else r.names.length)
  simp only [Node.Regrouped.called_eq hbodies, Node.Regrouped.neverEnds_eq hbodies]
  refine .ite .error ((hsettled.measured_coupled hbodies [0]).bind fun node node' hmeasured => ?_)
  exact .ok (Expression.matcher_eq ((hmeasured.watching hbodies).bodies_regrouped _) rfl)

end Rubric.Regex
