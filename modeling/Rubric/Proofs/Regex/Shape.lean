import Rubric.Proofs.Outcome
import Rubric.Proofs.Regex.Regrouped

/-!
# The shape of an expression

A transformation keeps the shape of expressions (`KeepsShape`) if it changes nothing but leaves, the
extents of look-behinds and the groups that loops watch. The parts of what comes of an expression
are then what comes of its parts (`KeepsShape.parts`). Extents and watched groups, which are worked
out when all of a pattern is read, are no part of the shape itself (`Node.shape`).
-/

namespace Rubric.Regex

/-- The transformation changes leaves, extents and watched groups alone. -/
structure KeepsShape (f : Node → Node) : Prop where
  leaf (n : Node) : n.isLeaf = true → (f n).isLeaf = true
  seq (a b : Node) : f (.seq a b) = .seq a b
  alt (a b : Node) : f (.alt a b) = .alt a b
  group (index : Nat) (body : Node) : f (.group index body) = .group index body
  enclosed (body : Node) : f (.enclosed body) = .enclosed body
  atomic (body : Node) : f (.atomic body) = .atomic body
  lookAhead (negative : Bool) (body : Node) :
    f (.lookAhead negative body) = .lookAhead negative body
  lookBehind (negative : Bool) (extent : Extent) (body : Node) :
    ∃ extent', f (.lookBehind negative extent body) = .lookBehind negative extent' body
  loop (min : Nat) (max : Option Nat) (lazy : Bool) (watched : List Nat) (body : Node) :
    ∃ watched', f (.loop min max lazy watched body) = .loop min max lazy watched' body

namespace Node

/-- The expression without what its extents and its watched groups are. -/
def shape (node : Node) : Node :=
  node.transform fun
    | lookBehind negative _ body => lookBehind negative (.exactly 0) body
    | loop min max lazy _ body => loop min max lazy [] body
    | node => node

theorem parts_leaf {enter : Node → Bool} {n : Node} {more : List Node} (h : n.isLeaf = true) :
    n.parts enter more = n :: more := by
  cases n <;> first | rfl | cases h

theorem transform_leaf {f : Node → Node} {n : Node} (h : n.isLeaf = true) :
    n.transform f = f n := by
  cases n <;> first | rfl | cases h

/-- The bodies of groups with that of a part, if it is a group. -/
def setBody (bodies : Bodies) : Node → Bodies
  | group index body => bodies.setIfInBounds index body
  | _ => bodies

theorem bodies_eq (n : Node) (groups : Nat) : n.bodies groups =
    n.allParts.foldl setBody ((Array.replicate (groups + 1) empty).setIfInBounds 0 n) := by
  unfold bodies
  congr

/-- The parts stand in front of the further ones. -/
theorem parts_append {enter : Node → Bool} (n : Node) (l more : List Node) :
    n.parts enter (l ++ more) = n.parts enter l ++ more := by
  induction n generalizing l with
  | seq a b iha ihb =>
    simp only [parts, ihb, iha]
    split <;> rfl
  | alt a b iha ihb =>
    simp only [parts, ihb, iha]
    split <;> rfl
  | group _ _ ih | enclosed _ ih | atomic _ ih | lookAhead _ _ ih | lookBehind _ _ _ ih
  | loop _ _ _ _ _ ih =>
    simp only [parts, ih]
    split <;> rfl
  | _ => rfl

theorem parts_eq {enter : Node → Bool} (n : Node) (more : List Node) :
    n.parts enter more = n.parts enter [] ++ more :=
  parts_append n [] more

section
variable (a b body : Node)

@[simp] theorem allParts_seq : (seq a b).allParts = seq a b :: (a.allParts ++ b.allParts) := by
  rw [allParts, parts, if_pos rfl, parts_eq]
  rfl

@[simp] theorem allParts_alt : (alt a b).allParts = alt a b :: (a.allParts ++ b.allParts) := by
  rw [allParts, parts, if_pos rfl, parts_eq]
  rfl

@[simp] theorem allParts_group (index : Nat) :
    (Node.group index body).allParts = Node.group index body :: body.allParts := rfl

@[simp] theorem allParts_enclosed : (enclosed body).allParts = enclosed body :: body.allParts := rfl

@[simp] theorem allParts_atomic : (atomic body).allParts = atomic body :: body.allParts := rfl

@[simp] theorem allParts_lookAhead (negative : Bool) :
    (lookAhead negative body).allParts = lookAhead negative body :: body.allParts := rfl

@[simp] theorem allParts_lookBehind (negative : Bool) (extent : Extent) :
    (lookBehind negative extent body).allParts =
      lookBehind negative extent body :: body.allParts := rfl

@[simp] theorem allParts_loop (min : Nat) (max : Option Nat) (lazy : Bool) (watched : List Nat) :
    (loop min max lazy watched body).allParts =
      loop min max lazy watched body :: body.allParts := rfl

end

theorem allParts_leaf {n : Node} (h : n.isLeaf = true) : n.allParts = [n] :=
  parts_leaf h

theorem self_mem_allParts (n : Node) : n ∈ n.allParts := by
  cases n <;> exact List.mem_cons_self ..

/-- The parts of parts are parts. -/
theorem allParts_subset {n p : Node} (h : p ∈ n.allParts) : p.allParts ⊆ n.allParts := by
  induction n with
  | seq a b iha ihb | alt a b iha ihb =>
    simp only [allParts_seq, allParts_alt, List.mem_cons, List.mem_append] at h ⊢
    rcases h with rfl | h | h
    · simp
    · exact fun q hq => by simp [iha h hq]
    · exact fun q hq => by simp [ihb h hq]
  | group _ _ ih | enclosed _ ih | atomic _ ih | lookAhead _ _ ih | lookBehind _ _ _ ih
  | loop _ _ _ _ _ ih =>
    simp only [allParts_group, allParts_enclosed, allParts_atomic, allParts_lookAhead,
      allParts_lookBehind, allParts_loop, List.mem_cons] at h ⊢
    rcases h with rfl | h
    · simp
    · exact fun q hq => by simp [ih h hq]
  | _ =>
    rw [allParts_leaf rfl, List.mem_singleton] at h
    exact h ▸ List.Subset.refl _

end Node

namespace KeepsShape
variable {f : Node → Node}

section
variable (hf : KeepsShape f) (a b body : Node)
include hf

theorem transform_seq : (Node.seq a b).transform f = .seq (a.transform f) (b.transform f) :=
  hf.seq _ _

theorem transform_alt : (Node.alt a b).transform f = .alt (a.transform f) (b.transform f) :=
  hf.alt _ _

theorem transform_group (index : Nat) :
    (Node.group index body).transform f = .group index (body.transform f) :=
  hf.group _ _

theorem transform_enclosed : (Node.enclosed body).transform f = .enclosed (body.transform f) :=
  hf.enclosed _

theorem transform_atomic : (Node.atomic body).transform f = .atomic (body.transform f) :=
  hf.atomic _

theorem transform_lookAhead (negative : Bool) :
    (Node.lookAhead negative body).transform f = .lookAhead negative (body.transform f) :=
  hf.lookAhead _ _

theorem transform_lookBehind (negative : Bool) (extent : Extent) :
    ∃ extent', (Node.lookBehind negative extent body).transform f =
      .lookBehind negative extent' (body.transform f) :=
  hf.lookBehind _ _ _

theorem transform_loop (min : Nat) (max : Option Nat) (lazy : Bool) (watched : List Nat) :
    ∃ watched', (Node.loop min max lazy watched body).transform f =
      .loop min max lazy watched' (body.transform f) :=
  hf.loop _ _ _ _ _

theorem transform_isLeaf {n : Node} (h : n.isLeaf = true) : (n.transform f).isLeaf = true :=
  Node.transform_leaf (f := f) h ▸ hf.leaf n h

end

/-- The parts of what comes of an expression, where the same parts are entered. -/
theorem parts (hf : KeepsShape f) {enter enter' : Node → Bool}
    (henter : ∀ n : Node, enter' (n.transform f) = enter n) (n : Node) (more : List Node) :
    (n.transform f).parts enter' (more.map (Node.transform f)) =
      (n.parts enter more).map (Node.transform f) := by
  have hnode (n : Node) (inner : List Node) (more : List Node) :
      (n.transform f :: if enter' (n.transform f) then inner.map (Node.transform f)
          else more.map (Node.transform f)) =
        (n :: if enter n then inner else more).map (Node.transform f) := by
    rw [henter]
    split <;> rfl
  have hleaf (n : Node) (h : n.isLeaf = true) (more : List Node) :
      (n.transform f).parts enter' (more.map (Node.transform f)) =
        (n.parts enter more).map (Node.transform f) := by
    rw [Node.parts_leaf h, Node.parts_leaf (hf.transform_isLeaf h)]
    rfl
  induction n generalizing more with
  | seq a b iha ihb =>
    have h := hnode (.seq a b) (a.parts enter (b.parts enter more)) more
    simpa only [Node.parts, hf.transform_seq, ihb, iha] using h
  | alt a b iha ihb =>
    have h := hnode (.alt a b) (a.parts enter (b.parts enter more)) more
    simpa only [Node.parts, hf.transform_alt, ihb, iha] using h
  | group index body ih =>
    have h := hnode (.group index body) (body.parts enter more) more
    simpa only [Node.parts, hf.transform_group, ih] using h
  | enclosed body ih =>
    have h := hnode (.enclosed body) (body.parts enter more) more
    simpa only [Node.parts, hf.transform_enclosed, ih] using h
  | atomic body ih =>
    have h := hnode (.atomic body) (body.parts enter more) more
    simpa only [Node.parts, hf.transform_atomic, ih] using h
  | lookAhead negative body ih =>
    have h := hnode (.lookAhead negative body) (body.parts enter more) more
    simpa only [Node.parts, hf.transform_lookAhead, ih] using h
  | lookBehind negative extent body ih =>
    have h := hnode (.lookBehind negative extent body) (body.parts enter more) more
    obtain ⟨extent', heq⟩ := hf.transform_lookBehind body negative extent
    simpa only [Node.parts, heq, ih] using h
  | loop min max lazy watched body ih =>
    have h := hnode (.loop min max lazy watched body) (body.parts enter more) more
    obtain ⟨watched', heq⟩ := hf.transform_loop body min max lazy watched
    simpa only [Node.parts, heq, ih] using h
  | _ => exact hleaf _ rfl more

theorem allParts (hf : KeepsShape f) (n : Node) :
    (n.transform f).allParts = n.allParts.map (Node.transform f) :=
  hf.parts (fun _ => rfl) n []

theorem setBody (hf : KeepsShape f) (bodies : Bodies) (n : Node) :
    Node.setBody (bodies.map (Node.transform f)) (n.transform f) =
      (Node.setBody bodies n).map (Node.transform f) := by
  have hleaf (n : Node) (h : n.isLeaf = true) :
      Node.setBody (bodies.map (Node.transform f)) (n.transform f) =
        bodies.map (Node.transform f) := by
    have h := hf.transform_isLeaf h
    unfold Node.setBody
    split
    · next hgroup =>
      rw [hgroup] at h
      cases h
    · rfl
  cases n with
  | group index body =>
    rw [hf.transform_group]
    exact (Array.map_setIfInBounds ..).symm
  | seq => rw [hf.transform_seq]; rfl
  | alt => rw [hf.transform_alt]; rfl
  | enclosed => rw [hf.transform_enclosed]; rfl
  | atomic => rw [hf.transform_atomic]; rfl
  | lookAhead => rw [hf.transform_lookAhead]; rfl
  | lookBehind negative extent body =>
    obtain ⟨extent', heq⟩ := hf.transform_lookBehind body negative extent
    rw [heq]
    rfl
  | loop min max lazy watched body =>
    obtain ⟨watched', heq⟩ := hf.transform_loop body min max lazy watched
    rw [heq]
    rfl
  | _ => exact hleaf _ rfl

/-- The bodies of groups in what comes of an expression. -/
theorem bodies (hf : KeepsShape f) (hempty : f .empty = .empty) (n : Node) (groups : Nat) :
    (n.transform f).bodies groups = (n.bodies groups).map (Node.transform f) := by
  have hstart : ((Array.replicate (groups + 1) Node.empty).setIfInBounds 0 (n.transform f)) =
      ((Array.replicate (groups + 1) Node.empty).setIfInBounds 0 n).map (Node.transform f) := by
    rw [Array.map_setIfInBounds, Array.map_replicate]
    exact congrArg (fun e => (Array.replicate (groups + 1) e).setIfInBounds 0 _) hempty.symm
  rw [Node.bodies_eq, Node.bodies_eq, hf.allParts, List.foldl_map, hstart]
  exact List.foldl_hom (Array.map (Node.transform f)) hf.setBody

end KeepsShape

/-! ## Groups and back-references -/

namespace Node
variable {n p : Node} {groups index : Nat}

theorem parts_subset {enter : Node → Bool} (n : Node) : n.parts enter [] ⊆ n.allParts := by
  induction n with
  | seq a b iha ihb | alt a b iha ihb =>
    intro p hp
    rw [parts] at hp
    simp only [allParts_seq, allParts_alt, List.mem_cons, List.mem_append]
    split at hp
    · rw [parts_eq, List.mem_cons, List.mem_append] at hp
      exact hp.imp_right fun hp => hp.imp (iha ·) (ihb ·)
    · exact .inl (List.mem_singleton.mp hp)
  | group _ _ ih | enclosed _ ih | atomic _ ih | lookAhead _ _ ih | lookBehind _ _ _ ih
  | loop _ _ _ _ _ ih =>
    intro p hp
    rw [parts] at hp
    simp only [allParts_group, allParts_enclosed, allParts_atomic, allParts_lookAhead,
      allParts_lookBehind, allParts_loop, List.mem_cons]
    split at hp
    · exact (List.mem_cons.mp hp).imp_right (ih ·)
    · exact .inl (List.mem_singleton.mp hp)
  | _ => exact List.Subset.refl _

/-- The same parts are counted if the same parts are entered. -/
theorem parts_congr {enter enter' : Node → Bool} {more : List Node}
    (h : ∀ p ∈ n.allParts, enter p = enter' p) : n.parts enter more = n.parts enter' more := by
  induction n generalizing more with
  | seq a b iha ihb | alt a b iha ihb =>
    simp only [allParts_seq, allParts_alt, List.forall_mem_cons, List.forall_mem_append] at h
    simp only [parts, h.1, iha h.2.1, ihb h.2.2]
  | group _ _ ih | enclosed _ ih | atomic _ ih | lookAhead _ _ ih | lookBehind _ _ _ ih
  | loop _ _ _ _ _ ih =>
    simp only [allParts_group, allParts_enclosed, allParts_atomic, allParts_lookAhead,
      allParts_lookBehind, allParts_loop, List.forall_mem_cons] at h
    simp only [parts, h.1, ih h.2]
  | _ => rfl

theorem mem_referred : index ∈ n.referred ↔
    ∃ indices ignoreCase, backref indices ignoreCase ∈ n.allParts ∧ index ∈ indices := by
  rw [referred, List.mem_flatMap]
  constructor
  · rintro ⟨p, hp, hindex⟩
    cases p with
    | backref indices ignoreCase => exact ⟨indices, ignoreCase, hp, hindex⟩
    | _ => cases hindex
  · rintro ⟨indices, ignoreCase, hp, hindex⟩
    exact ⟨_, hp, hindex⟩

theorem referred_subset (h : p ∈ n.allParts) : p.referred ⊆ n.referred := by
  intro index hindex
  obtain ⟨indices, ignoreCase, hp, hmem⟩ := mem_referred.mp hindex
  exact mem_referred.mpr ⟨indices, ignoreCase, allParts_subset h hp, hmem⟩

/-- The body of a group is a part of the expression. -/
theorem getD_bodies (n : Node) (groups index : Nat) :
    (n.bodies groups).getD index .empty = .empty ∨
      (n.bodies groups).getD index .empty ∈ n.allParts := by
  have hset {bodies : Bodies} {body : Node} (i : Nat)
      (h : ∀ index, bodies.getD index .empty = .empty ∨ bodies.getD index .empty ∈ n.allParts)
      (hbody : body ∈ n.allParts) (index : Nat) :
      (bodies.setIfInBounds i body).getD index .empty = .empty ∨
        (bodies.setIfInBounds i body).getD index .empty ∈ n.allParts := by
    have hindex := h index
    simp only [Array.getD_eq_getD_getElem?, Array.getElem?_setIfInBounds] at hindex ⊢
    split
    · split
      · exact .inr hbody
      · exact .inl rfl
    · exact hindex
  have hfold (l : List Node) (hl : l ⊆ n.allParts) (bodies : Bodies)
      (h : ∀ index, bodies.getD index .empty = .empty ∨ bodies.getD index .empty ∈ n.allParts) :
      ∀ index, (l.foldl setBody bodies).getD index .empty = .empty ∨
        (l.foldl setBody bodies).getD index .empty ∈ n.allParts := by
    induction l generalizing bodies with
    | nil => exact h
    | cons p l ih =>
      obtain ⟨hp, hl⟩ := List.cons_subset.mp hl
      refine ih hl _ ?_
      cases p with
      | group i body => exact hset i h (allParts_subset hp (by simp [self_mem_allParts]))
      | _ => exact h
  rw [bodies_eq]
  refine hfold _ (List.Subset.refl _) _ (hset 0 (fun index => .inl ?_) n.self_mem_allParts) index
  rw [Array.getD_eq_getD_getElem?, Array.getElem?_replicate]
  split <;> rfl

/-- Groups are numbered from 1. -/
def isNumbered : Node → Bool
  | .group index _ => index != 0
  | _ => true

theorem getD_bodies_zero (h : n.allParts.all isNumbered = true) :
    (n.bodies groups).getD 0 .empty = n := by
  have hfold (l : List Node) (hl : l.all isNumbered = true) (bodies : Bodies) :
      (l.foldl setBody bodies).getD 0 .empty = bodies.getD 0 .empty := by
    induction l generalizing bodies with
    | nil => rfl
    | cons p l ih =>
      rw [List.all_cons, Bool.and_eq_true] at hl
      rw [List.foldl_cons, ih hl.2]
      cases p with
      | group i body =>
        have hi : i ≠ 0 := by simpa [isNumbered] using hl.1
        simp [setBody, Array.getD_eq_getD_getElem?, hi]
      | _ => rfl
  rw [bodies_eq, hfold _ h]
  simp [Array.getD_eq_getD_getElem?]

end Node

/-! ## Lengths -/

namespace Node
variable {n : Node}

section
variable (a b : Node)

@[simp] theorem referred_seq : (seq a b).referred = a.referred ++ b.referred := by
  simp [referred, List.flatMap_append]

@[simp] theorem referred_alt : (alt a b).referred = a.referred ++ b.referred := by
  simp [referred, List.flatMap_append]

end

/-- Nothing is called in the expression. -/
def Uncalled (n : Node) : Prop :=
  ∀ index, Node.call index ∉ n.allParts

theorem Uncalled.part {p : Node} (h : n.Uncalled) (hp : p ∈ n.allParts) : p.Uncalled :=
  fun index hcall => h index (allParts_subset hp hcall)

section
variable {a b : Node}

theorem Uncalled.seq (h : (Node.seq a b).Uncalled) : a.Uncalled ∧ b.Uncalled :=
  ⟨h.part (by simp [self_mem_allParts]), h.part (by simp [self_mem_allParts])⟩

theorem Uncalled.alt (h : (Node.alt a b).Uncalled) : a.Uncalled ∧ b.Uncalled :=
  ⟨h.part (by simp [self_mem_allParts]), h.part (by simp [self_mem_allParts])⟩

end

/-- Without calls, the extent depends on the groups that back-references mean. -/
theorem extent_congr {group group' : List Nat → Nat → Extent} (hcalls : n.Uncalled)
    (h : ∀ index ∈ n.referred, ∀ entered, group entered index = group' entered index)
    (entered : List Nat) : n.extent group entered = n.extent group' entered := by
  induction n generalizing entered with
  | seq a b iha ihb =>
    simp only [referred_seq, List.forall_mem_append] at h
    simp only [extent, iha hcalls.seq.1 h.1, ihb hcalls.seq.2 h.2]
  | alt a b iha ihb =>
    simp only [referred_alt, List.forall_mem_append] at h
    simp only [extent, iha hcalls.alt.1 h.1, ihb hcalls.alt.2 h.2]
  | group _ body ih | enclosed body ih | atomic body ih | loop _ _ _ _ body ih =>
    have hbody := ih (hcalls.part (by simp [self_mem_allParts])) h
    simp only [extent, hbody]
  | backref indices _ =>
    have h : ∀ index ∈ indices, ∀ entered, group entered index = group' entered index :=
      fun index hindex => h index (mem_referred.mpr ⟨_, _, self_mem_allParts _, hindex⟩)
    simp only [extent]
    split
    · rfl
    · split
      · rfl
      · next g gs _ =>
        rw [List.forall_mem_cons] at h
        rw [h.1]
        exact List.foldl_ext _ _ _ fun _ g hg => by rw [h.2 g hg]
  | call index => exact absurd (self_mem_allParts _) (hcalls index)
  | _ => rfl

theorem fitsBehind_congr {group group' : List Nat → Nat → Bool} {negative : Bool}
    (hcalls : n.Uncalled) (entered : List Nat) :
    n.fitsBehind group negative entered = n.fitsBehind group' negative entered := by
  induction n generalizing entered with
  | seq a b iha ihb => simp only [fitsBehind, iha hcalls.seq.1, ihb hcalls.seq.2]
  | alt a b iha ihb => simp only [fitsBehind, iha hcalls.alt.1, ihb hcalls.alt.2]
  | group _ body ih | enclosed body ih | atomic body ih | loop _ _ _ _ body ih
  | lookBehind _ _ body ih =>
    have hbody := ih (hcalls.part (by simp [self_mem_allParts]))
    simp only [fitsBehind, hbody]
  | lookAhead => simp only [fitsBehind]
  | anchor a => cases a <;> rfl
  | call index => exact absurd (self_mem_allParts _) (hcalls index)
  | _ => rfl

/-- Without calls, groups are not called. -/
theorem calls_eq_nil (h : n.Uncalled) : n.calls = [] := by
  unfold calls
  refine List.filterMap_eq_nil_iff.mpr fun p hp => ?_
  cases p with
  | call index => exact absurd (parts_subset n hp) (h index)
  | _ => rfl

theorem called_eq_nil {groups : Nat} (hnumber : n.allParts.all isNumbered = true)
    (h : n.Uncalled) : (n.bodies groups).called = [] := by
  have hreachable (bodies : Bodies) (fuel : Nat) : bodies.reachable fuel [] [] = [] := by
    cases fuel <;> rfl
  rw [Bodies.called, getD_bodies_zero hnumber, calls_eq_nil h]
  exact hreachable _ _

end Node

/-! ## Measured expressions -/

namespace Node
variable {n m : Node} {bodies : Bodies}

theorem keepsShape_shape : KeepsShape fun
    | lookBehind negative _ body => lookBehind negative (.exactly 0) body
    | loop min max lazy _ body => loop min max lazy [] body
    | node => node where
  leaf n h := by cases n <;> first | rfl | cases h
  seq _ _ := rfl
  alt _ _ := rfl
  group _ _ := rfl
  enclosed _ := rfl
  atomic _ := rfl
  lookAhead _ _ := rfl
  lookBehind _ _ _ := ⟨_, rfl⟩
  loop _ _ _ _ _ := ⟨_, rfl⟩

theorem eq_of_behind {entered : List Nat} {negative : Bool}
    (h : behind bodies entered negative n = .ok m) :
    m = lookBehind negative (n.extentIn bodies entered) n := by
  simp only [behind] at h
  split at h
  · cases h
  · split at h
    · cases h
    · exact (Except.ok.inj h).symm

theorem shape_of_measured {entered : List Nat} (h : n.measured bodies entered = .ok m) :
    m.shape = n.shape := by
  induction n generalizing entered m with
  | seq a b iha ihb | alt a b iha ihb =>
    obtain ⟨a', ha, h⟩ := bind_eq_ok.mp h
    obtain ⟨b', hb, h⟩ := bind_eq_ok.mp h
    cases h
    have ha := iha ha
    have hb := ihb hb
    simp only [shape, transform] at ha hb ⊢
    rw [ha, hb]
  | group _ _ ih | enclosed _ ih | atomic _ ih | lookAhead _ _ ih | loop _ _ _ _ _ ih =>
    obtain ⟨body', hbody, h⟩ := bind_eq_ok.mp h
    cases h
    have hbody := ih hbody
    simp only [shape, transform] at hbody ⊢
    rw [hbody]
  | lookBehind negative _ _ ih =>
    obtain ⟨body', hbody, h⟩ := bind_eq_ok.mp h
    cases eq_of_behind h
    exact congrArg (Node.lookBehind negative (.exactly 0)) (ih hbody)
  | _ => cases h; rfl

/-- What a transformation changes that keeps all leaves is no part of the shape. -/
theorem shape_transform {f : Node → Node} (hf : KeepsShape f)
    (hleaf : ∀ n : Node, n.isLeaf = true → f n = n) (n : Node) :
    (n.transform f).shape = n.shape := by
  induction n with
  | seq _ _ iha ihb => exact (congrArg shape (hf.transform_seq ..)).trans (congrArg₂ seq iha ihb)
  | alt _ _ iha ihb => exact (congrArg shape (hf.transform_alt ..)).trans (congrArg₂ alt iha ihb)
  | group _ _ ih =>
    exact (congrArg shape (hf.transform_group ..)).trans (congrArg (Node.group _) ih)
  | enclosed _ ih => exact (congrArg shape (hf.transform_enclosed ..)).trans (congrArg enclosed ih)
  | atomic _ ih => exact (congrArg shape (hf.transform_atomic ..)).trans (congrArg atomic ih)
  | lookAhead _ _ ih =>
    exact (congrArg shape (hf.transform_lookAhead ..)).trans (congrArg (lookAhead _) ih)
  | lookBehind negative extent body ih =>
    obtain ⟨extent', heq⟩ := hf.transform_lookBehind body negative extent
    exact (congrArg shape heq).trans (congrArg (lookBehind negative (.exactly 0)) ih)
  | loop min max lazy watched body ih =>
    obtain ⟨watched', heq⟩ := hf.transform_loop body min max lazy watched
    exact (congrArg shape heq).trans (congrArg (loop min max lazy []) ih)
  | _ => exact congrArg shape ((transform_leaf rfl).trans (hleaf _ rfl))

/-- Tells a loop which groups to watch. -/
def watch (bodies : Bodies) : Node → Node
  | loop min max lazy _ body =>
    loop min max lazy
      (if max != some 0 && body.canStay bodies then body.watchedIn bodies else []) body
  | node => node

theorem watching_eq (n : Node) : n.watching bodies =
    if n.referred.isEmpty then n else n.transform (watch bodies) := by
  unfold watching
  congr

theorem keepsShape_watch : KeepsShape (watch bodies) where
  leaf n h := by cases n <;> first | rfl | cases h
  seq _ _ := rfl
  alt _ _ := rfl
  group _ _ := rfl
  enclosed _ := rfl
  atomic _ := rfl
  lookAhead _ _ := rfl
  lookBehind _ _ _ := ⟨_, rfl⟩
  loop _ _ _ _ _ := ⟨_, rfl⟩

theorem shape_watching (n : Node) : (n.watching bodies).shape = n.shape := by
  rw [watching_eq]
  split
  · rfl
  · exact shape_transform keepsShape_watch (fun n h => by cases n <;> first | rfl | cases h) n

/-- What the parts of an expression have in common, apart from extents and watched groups, depends
on its shape alone. -/
theorem all_of_shape {check : Node → Bool} (hcheck : ∀ p : Node, check p.shape = check p)
    (h : m.shape = n.shape) : m.allParts.all check = n.allParts.all check := by
  have hall (n : Node) : n.shape.allParts.all check = n.allParts.all check := by
    rw [shape, keepsShape_shape.allParts, List.all_map]
    exact congrArg n.allParts.all (funext hcheck)
  rw [← hall m, ← hall n, h]

theorem referred_of_shape (h : m.shape = n.shape) : m.referred = n.referred := by
  have hreferred (n : Node) : n.shape.referred = n.referred := by
    rw [shape, referred, keepsShape_shape.allParts, List.flatMap_map]
    exact congrArg n.allParts.flatMap (funext fun p => by cases p <;> rfl)
  rw [← hreferred m, ← hreferred n, h]

theorem bodies_of_shape (h : m.shape = n.shape) (groups index : Nat) :
    ((m.bodies groups).getD index .empty).shape = ((n.bodies groups).getD index .empty).shape := by
  have hbody (n : Node) : ((n.bodies groups).getD index .empty).shape =
      (n.shape.bodies groups).getD index .empty := by
    rw [shape, shape, keepsShape_shape.bodies rfl]
    simp only [Array.getD_eq_getD_getElem?, Array.getElem?_map]
    cases (n.bodies groups)[index]? <;> rfl
  rw [hbody, hbody, h]

end Node

end Rubric.Regex
