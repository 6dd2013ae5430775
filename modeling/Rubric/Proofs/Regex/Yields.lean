import Rubric.Proofs.Outcome
import Rubric.Regex.Reader

/-!
# Parts that are read

A part that is no group is read to an anchor only if it is the sign of one, or an escape with the
letter of one (`yields_part`). Other parts hold no anchors.
-/

namespace Rubric.Regex

/-- Whatever the step reads has the property. -/
def Yields {α : Type} (P : α → Prop) (x : Reads α) : Prop :=
  ∀ r p, x.run r = .ok p → P p.1

section
variable {α β : Type} {P : α → Prop} {Q : β → Prop} {x : Reads β} {f : β → Reads α}

theorem Yields.pure {a : α} (h : P a) : Yields P (pure a) := by
  rintro r p ⟨⟩
  exact h

theorem Yields.throw {e : Error} : Yields P (throw e) := by
  rintro r p ⟨⟩

theorem Yields.bind (hx : Yields Q x) (H : ∀ b, Q b → Yields P (f b)) : Yields P (x >>= f) := by
  intro r p h
  rw [StateT.run_bind] at h
  obtain ⟨q, hq, h⟩ := bind_eq_ok.mp h
  exact H q.1 (hx _ _ hq) _ _ h

/-- It depends on the last step alone. -/
theorem Yields.after (H : ∀ b, Yields P (f b)) : Yields P (x >>= f) :=
  Yields.bind (Q := fun _ => True) (fun _ _ _ => trivial) fun b _ => H b

end

/-- A part that is neither an anchor nor holds other parts. -/
def Node.isPlain : Node → Bool
  | one _ | folded _ | lineBreak | keep | backref _ _ | call _ => true
  | _ => false

section
variable {o : Options} {c : Char} {rest shown : List Char} {n : Nat}

theorem yields_literal : Yields (·.isPlain) (o.literal n) := by
  unfold Options.literal
  extract_lets last
  have hlast : ∀ u, Yields (·.isPlain) (last u) := by
    intro u
    unfold last
    split
    · exact .pure rfl
    · split <;> exact .pure rfl
  split
  · exact .after hlast
  · exact hlast ()

theorem yields_code (code : Code) : Yields (·.isPlain) (code.read o) := by
  cases code with
  | point n => exact yields_literal
  | byte base lead => exact .after fun _ => .after fun _ => yields_literal

theorem yields_referTo (target : Reference) : Yields (·.isPlain) (referTo o target shown) := by
  unfold referTo
  split
  · exact .throw
  · exact .after fun _ => .pure rfl
  · refine .after fun r => ?_
    split
    · exact .after fun _ => .pure rfl
    · exact .throw
  · refine .after fun r => ?_
    split
    · exact .throw
    · exact .pure rfl

theorem yields_callTo (target : Reference) : Yields (·.isPlain) (callTo target shown) := by
  unfold callTo
  extract_lets last
  have hlast (target : Reference) : Yields (·.isPlain) (last target) :=
    .after fun r => .after fun _ => .pure rfl
  split
  · refine .after fun r => ?_
    split <;> exact .after hlast
  · exact .after hlast

theorem yields_digitEscape : Yields (·.isPlain) (digitEscape o c rest) := by
  refine .after fun r => ?_
  dsimp only
  split
  · exact .after fun _ => yields_referTo _
  · split
    · exact .after fun _ => yields_literal
    · exact .after fun _ => yields_code _

theorem yields_referenceEscape? :
    Yields (fun found => ∀ node ∈ found, node.isPlain = true) (referenceEscape? o c rest) := by
  have hsome {x : Reads Node} (hx : Yields (·.isPlain) x) :
      Yields (fun found => ∀ node ∈ found, node.isPlain = true) (do return some (← x)) :=
    hx.bind fun node h => .pure (by rintro _ ⟨⟩; exact h)
  unfold referenceEscape?
  split
  · split
    · extract_lets close last
      have hlast (found : Reference × List Char × List Char) :
          Yields (fun found => ∀ node ∈ found, node.isPlain = true) (last found) := by
        unfold last
        refine .after fun _ => ?_
        split
        · exact hsome (yields_referTo _)
        · exact hsome (yields_callTo _)
      split <;> exact .after hlast
    · exact .pure nofun
  · exact .pure nofun

/-- What a backslash begins is an anchor only if its letter says so. -/
theorem yields_escaped :
    Yields (fun node => node.isPlain = true ∨ ∃ a, node = .anchor a ∧ anchorEscape? c = some a)
      (escaped o c rest) := by
  have hplain {x : Reads Node} (hx : Yields (·.isPlain) x) :
      Yields (fun node => node.isPlain = true ∨ ∃ a, node = .anchor a ∧ anchorEscape? c = some a)
        x := fun r p h => .inl (hx r p h)
  unfold escaped
  split
  · next a ha => exact .after fun _ => .pure (.inr ⟨a, rfl, ha⟩)
  · exact hplain (.after fun _ => .pure rfl)
  refine hplain ?_
  split
  · exact .after fun _ => .pure rfl
  split
  · exact .after fun _ => .pure rfl
  split
  · exact .after fun _ => .pure rfl
  split
  · exact .after fun _ => .pure rfl
  split
  · exact yields_digitEscape
  split
  · refine yields_referenceEscape?.bind fun found hfound => ?_
    split
    · next node => exact .pure (hfound node rfl)
    · exact .after fun _ => yields_literal
  split
  · refine .after fun found => ?_
    split
    · exact .after fun _ => .pure rfl
    · exact .after fun _ => yields_literal
  · exact .after fun found => .after fun _ => yields_code _

theorem yields_member (ho : o.ignoreCase = false) (set : CharSet) :
    Yields (·.isPlain) (o.member set) := by
  unfold Options.member
  split
  · exact yields_literal
  · exact .pure rfl
  · rw [ho]
    exact .pure rfl

/-- A part that is no group is an anchor only if its sign or the letter of its escape says so. -/
theorem yields_part (ho : o.ignoreCase = false) (depth : Nat) :
    Yields (fun node => node.isPlain = true ∨ node = .anchor .lineStart ∨ node = .anchor .lineEnd ∨
      ∃ a d s, node = .anchor a ∧ c = '\\' ∧ rest = d :: s ∧ anchorEscape? d = some a)
      (part o depth c rest) := by
  have hplain {x : Reads Node} (hx : Yields (·.isPlain) x) : Yields (fun node =>
      node.isPlain = true ∨ node = .anchor .lineStart ∨ node = .anchor .lineEnd ∨
        ∃ a d s, node = .anchor a ∧ c = '\\' ∧ rest = d :: s ∧ anchorEscape? d = some a) x :=
    fun r p h => .inl (hx r p h)
  unfold part
  split
  · next hc =>
    split
    · exact .throw
    · next d s =>
      intro r p h
      obtain hnode | ⟨a, hnode, ha⟩ := yields_escaped r p h
      · exact .inl hnode
      · exact .inr (.inr (.inr ⟨a, d, s, hnode, hc, rfl, ha⟩))
  split
  · exact hplain (.after fun _ => .after fun _ => yields_member ho _)
  split
  · exact hplain (.after fun _ => .pure rfl)
  split
  · exact .after fun _ => .pure (.inr (.inl rfl))
  split
  · exact .after fun _ => .pure (.inr (.inr (.inl rfl)))
  · refine hplain (.after fun found => ?_)
    split
    · exact .throw
    · exact .after fun _ => yields_literal

end

end Rubric.Regex
