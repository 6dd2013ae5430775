import Rubric.Proofs.Pattern.Leftmost

/-!
# Matches at a place

A pattern hits a place if its matcher finds a match that begins there, and ends a number of
characters further on, on whatever line (`Hits`). This is read off the expression that the pattern
is compiled to (`Compiles.hits`).
-/

namespace Rubric.Pattern

open Regex (CharSet Expression Head Match Matcher Node Progress Step Subject)

/-- The pattern is of the plain syntax, and compiled to the expression. -/
def Compiles (s : String) (root : Node) : Prop :=
  isPlain false s.toList = true ∧ ∃ r, Expression.compile s.toList = .ok r ∧ r.root = root

/-- The pattern matches at the place, so many characters. -/
def Hits (s : String) (text : Array Char) (position length : Nat) : Prop :=
  ∃ groups, ∀ a matcher, Ready a (.str s) matcher → ∀ origin,
    matcher.tryAt text origin position = some ⟨position, position + length, groups⟩

/-- The character may be the first of a match. -/
def headTakes (head : Head) (c : Char) : Bool :=
  match head with
  | .starts set => set.contains c
  | _ => true

/-- The pattern is compiled to the expression. -/
def compilesTo (s : String) (root : Node) : Bool :=
  isPlain false s.toList &&
    match Expression.compile s.toList with
    | .ok r => r.root == root
    | .error _ => false

/-- The matches of the pattern begin with a character of the set. -/
def startsWith (s : String) (set : CharSet) : Bool :=
  isPlain false s.toList &&
    match Expression.compile s.toList with
    | .ok r => r.root.firsts == some (set, false)
    | .error _ => false

variable {s : String} {root : Node} {set : CharSet} {text : Array Char} {position : Nat}
  {c : Char} {x rest : List Char}

theorem compiles_of_compilesTo (h : compilesTo s root = true) : Compiles s root := by
  obtain ⟨hplain, h⟩ := Bool.and_eq_true_iff.mp h
  refine ⟨hplain, ?_⟩
  split at h
  · next r hr => exact ⟨r, hr, beq_iff_eq.mp h⟩
  · cases h

theorem starts_of_startsWith (h : startsWith s set = true) : Starts (.str s) set := by
  obtain ⟨hplain, h⟩ := Bool.and_eq_true_iff.mp h
  refine ⟨s, rfl, hplain, ?_⟩
  split at h
  · next r hr => exact ⟨r, hr, beq_iff_eq.mp h⟩
  · cases h

namespace Compiles

theorem starts (H : Compiles s root) (h : root.firsts = some (set, false)) :
    Starts (.str s) set := by
  obtain ⟨hplain, r, hr, rfl⟩ := H
  exact ⟨s, rfl, hplain, r, hr, h⟩

/-- Where the expression prefers to go on, the match ends. -/
theorem hits_of_prefers (H : Compiles s root) (hhead : headTakes root.head c = true)
    (hp : text.toList.drop position = c :: rest) {length : Nat}
    (h : ∀ groups, ∃ groups', ∀ origin call,
      Step.Prefers (root.run ⟨text, origin, []⟩ call text.size) ⟨position, position, groups⟩
        ⟨position + length, position, groups'⟩) : Hits s text position length := by
  obtain ⟨hplain, r, hr, rfl⟩ := H
  have hcalled : r.called = [] := by
    simp only [isPlain, hr, Bool.and_eq_true, Expression.isPlain, List.isEmpty_iff] at hplain
    exact hplain.2.1.1
  obtain ⟨groups, hprefers⟩ := h (List.replicate r.groups none)
  refine ⟨groups, fun a matcher hready origin => ?_⟩
  have hcompile : Regex.Engine.standard.compile s.toList = .ok r.matcher := by
    simp [Regex.Engine.standard, hr, Except.map]
  have hready : prepare .standard a (.str s) = .ok matcher := hready
  rw [prepare_eq_compile hplain, hcompile] at hready
  cases hready
  have hallows : r.root.head.allows text position = true := by
    have hc : text[position]? = some c := by
      have := getElem?_of_drop_cons (w := []) hp
      simpa using this
    cases hkind : r.root.head with
    | starts set =>
      rw [hkind] at hhead
      simp only [Head.allows, hc, Option.any_some]
      exact hhead
    | still | unknown => rfl
  rw [Matcher.tryAt, Expression.matcher, if_pos hallows]
  show r.attempt text origin position = _
  rw [Expression.attempt_of_prefers hcalled (Nat.le_add_right position length) (hprefers origin)]
  simp

/-- The match is the text that the expression reads. -/
theorem hits (H : Compiles s root) (hreads : root.Reads x rest)
    (hhead : ∀ c, (x ++ rest).head? = some c → headTakes root.head c = true)
    (hne : x ++ rest ≠ []) (hp : text.toList.drop position = x ++ rest) :
    Hits s text position x.length := by
  obtain ⟨c, more, hcons⟩ := List.exists_cons_of_ne_nil hne
  refine H.hits_of_prefers (hhead c (by rw [hcons]; rfl)) (hcons ▸ hp) fun groups => ⟨groups, ?_⟩
  exact fun origin call => hreads ⟨text, origin, []⟩ call ⟨position, position, groups⟩ hp

theorem hits_one (H : Compiles s (.one set)) (hc : set.contains c = true)
    (hp : text.toList.drop position = c :: rest) : Hits s text position 1 :=
  H.hits (.one hc) (fun d hd => by cases hd; exact hc) (List.cons_ne_nil c rest) hp

end Compiles

end Rubric.Pattern
