import Mathlib.Data.List.Forall2
import Rubric.Fault

/-! Computations that can fail, taken apart, also those that keep what they have changed even then.
-/

namespace Rubric

theorem bind_eq_ok {ε α β : Type} {x : Except ε α} {f : α → Except ε β} {b : β} :
    (x >>= f) = .ok b ↔ ∃ a, x = .ok a ∧ f a = .ok b := by
  cases x with
  | error e => simp [bind, Except.bind]
  | ok a => simp [bind, Except.bind]

theorem bind_eq_error {ε α β : Type} {x : Except ε α} {f : α → Except ε β} {e : ε} :
    (x >>= f) = .error e ↔ x = .error e ∨ ∃ a, x = .ok a ∧ f a = .error e := by
  cases x with
  | error e => simp [bind, Except.bind]
  | ok a => simp [bind, Except.bind]

theorem ok_bind {ε α β : Type} (a : α) (f : α → Except ε β) : (Except.ok a >>= f) = f a := rfl

/-- What follows need only be equal for the result that there is. -/
theorem bind_congr_ok {ε α β : Type} {x : Except ε α} {f g : α → Except ε β}
    (h : ∀ a, x = .ok a → f a = g a) : (x >>= f) = (x >>= g) := by
  cases x with
  | error e => rfl
  | ok a => exact h a rfl

theorem pure_eq_ok {ε α : Type} {a b : α} : (pure a : Except ε α) = .ok b ↔ a = b := by
  simp [pure, Except.pure]

theorem throw_ne_ok {ε α : Type} {e : ε} {a : α} : (throw e : Except ε α) ≠ .ok a := by
  simp [throw, throwThe, MonadExceptOf.throw]

theorem mapError_eq_ok {ε ε' α : Type} {x : Except ε α} {f : ε → ε'} {a : α} :
    x.mapError f = .ok a ↔ x = .ok a := by
  cases x <;> simp [Except.mapError]

theorem mapError_bind {ε ε' α β : Type} {x : Except ε α} {f : α → Except ε β} {g : ε → ε'} :
    (x >>= f).mapError g = x.mapError g >>= fun a => (f a).mapError g := by
  cases x <;> rfl

theorem toOption_eq_some {ε α : Type} {x : Except ε α} {a : α} :
    x.toOption = some a ↔ x = .ok a := by
  cases x <;> simp [Except.toOption]

/-! ## Lists -/

section
variable {ε ι α γ : Type} {f : ι → Except ε α} {items : List ι} {results : List α}

theorem forall₂_of_mapM (h : items.mapM f = .ok results) :
    List.Forall₂ (fun i a => f i = .ok a) items results := by
  induction items generalizing results with
  | nil =>
    cases h
    exact .nil
  | cons i rest ih =>
    rw [List.mapM_cons] at h
    obtain ⟨a, ha, h⟩ := bind_eq_ok.mp h
    obtain ⟨others, hothers, h⟩ := bind_eq_ok.mp h
    cases pure_eq_ok.mp h
    exact .cons ha (ih hothers)

theorem mapM_of_forall₂ (h : List.Forall₂ (fun i a => f i = .ok a) items results) :
    items.mapM f = .ok results := by
  induction h with
  | nil => rfl
  | cons ha _ ih =>
    rw [List.mapM_cons, ha, ok_bind, ih]
    rfl

theorem exists_of_mem_mapM {a : α} (h : items.mapM f = .ok results) (ha : a ∈ results) :
    ∃ i ∈ items, f i = .ok a := by
  have hresults := forall₂_of_mapM h
  rw [← List.map_snd_zip (Nat.le_of_eq hresults.length_eq.symm)] at ha
  obtain ⟨⟨i, _⟩, hzip, rfl⟩ := List.mem_map.mp ha
  exact ⟨i, (List.of_mem_zip hzip).1, List.forall₂_zip hresults hzip⟩

theorem mapM_total (H : ∀ i ∈ items, ∃ a, f i = .ok a) : ∃ results, items.mapM f = .ok results := by
  induction items with
  | nil => exact ⟨[], rfl⟩
  | cons i rest ih =>
    obtain ⟨a, ha⟩ := H i (List.mem_cons_self ..)
    obtain ⟨others, hothers⟩ := ih fun j hj => H j (List.mem_cons_of_mem _ hj)
    refine ⟨a :: others, ?_⟩
    rw [List.mapM_cons, ha, ok_bind, hothers]
    rfl

theorem mapM_congr {f' : ι → Except ε α} (H : ∀ i ∈ items, f i = f' i) :
    items.mapM f = items.mapM f' := by
  induction items with
  | nil => rfl
  | cons i rest ih =>
    rw [List.mapM_cons, List.mapM_cons, H i (List.mem_cons_self ..),
      ih fun j hj => H j (List.mem_cons_of_mem _ hj)]

theorem mapM_map {p : α → γ} (items : List ι) :
    (items.mapM f).map (List.map p) = items.mapM fun i => (f i).map p := by
  induction items with
  | nil => rfl
  | cons i rest ih =>
    rw [List.mapM_cons, List.mapM_cons, ← ih]
    cases f i with
    | error e => rfl
    | ok a => cases rest.mapM f <;> rfl

end

/-! ## Two computations -/

/-- Two computations fail with one error, or both succeed with results in the relation. -/
inductive Coupled {ε α β : Type} (R : α → β → Prop) : Except ε α → Except ε β → Prop
  | error {e : ε} : Coupled R (.error e) (.error e)
  | ok {a : α} {b : β} : R a b → Coupled R (.ok a) (.ok b)

section
variable {ε α β γ δ : Type} {R : α → β → Prop} {S : γ → δ → Prop} {x : Except ε α} {y : Except ε β}

theorem Coupled.bind {f : α → Except ε γ} {g : β → Except ε δ} (h : Coupled R x y)
    (H : ∀ a b, R a b → Coupled S (f a) (g b)) : Coupled S (x >>= f) (y >>= g) := by
  cases h with
  | error => exact .error
  | ok h => exact H _ _ h

theorem Coupled.ite {p : Prop} [Decidable p] {x' : Except ε α} {y' : Except ε β}
    (h : Coupled R x y) (h' : Coupled R x' y') :
    Coupled R (if p then x else x') (if p then y else y') := by
  split
  · exact h
  · exact h'

theorem Coupled.of_error {e : ε} (h : Coupled R (.error e) y) : y = .error e := by
  generalize hx : (Except.error e : Except ε α) = x at h
  cases h with
  | error => cases hx; rfl
  | ok => cases hx

theorem Coupled.of_ok {a : α} (h : Coupled R (.ok a) y) : ∃ b, y = .ok b ∧ R a b := by
  generalize hx : (Except.ok a : Except ε α) = x at h
  cases h with
  | error => cases hx
  | ok h => cases hx; exact ⟨_, rfl, h⟩

theorem Coupled.mono {T : α → β → Prop} (h : Coupled R x y) (H : ∀ a b, R a b → T a b) :
    Coupled T x y := by
  cases h with
  | error => exact .error
  | ok h => exact .ok (H _ _ h)

theorem Coupled.map_eq {f : α → γ} {g : β → γ} (h : Coupled (fun a b => f a = g b) x y) :
    x.map f = y.map g := by
  cases h with
  | error => rfl
  | ok h => exact congrArg Except.ok h

theorem Coupled.refl {x : Except ε α} {R : α → α → Prop} (H : ∀ a, R a a) : Coupled R x x := by
  cases x with
  | error => exact .error
  | ok a => exact .ok (H a)

end

/-- If the one computation succeeds, so does the other one, with results in the relation. -/
def Carries {ε α β : Type} (R : α → β → Prop) (x : Except ε α) (y : Except ε β) : Prop :=
  ∀ a, x = .ok a → ∃ b, y = .ok b ∧ R a b

section
variable {ε α β γ δ : Type} {R : α → β → Prop} {S : γ → δ → Prop} {x : Except ε α} {y : Except ε β}

theorem Carries.ok {a : α} {b : β} (h : R a b) : Carries R (.ok a : Except ε α) (.ok b) := by
  rintro _ ⟨⟩
  exact ⟨b, rfl, h⟩

theorem Carries.error {e : ε} : Carries R (.error e) y := nofun

theorem Carries.bind {f : α → Except ε γ} {g : β → Except ε δ} (h : Carries R x y)
    (H : ∀ a b, R a b → Carries S (f a) (g b)) : Carries S (x >>= f) (y >>= g) := by
  intro c hc
  obtain ⟨a, ha, hc⟩ := bind_eq_ok.mp hc
  obtain ⟨b, rfl, hab⟩ := h a ha
  exact H a b hab c hc

end

/-! ## States -/

section
variable {σ : Type} {x : ExceptT Fault (StateM σ) α} {f : α → ExceptT Fault (StateM σ) β} {s s' : σ}

theorem run_bind_ok {a : α} (h : StateT.run (m := Id) (ExceptT.run x) s = (.ok a, s')) :
    StateT.run (m := Id) (ExceptT.run (x >>= f)) s = StateT.run (ExceptT.run (f a)) s' := by
  simp only [ExceptT.run_bind, StateT.run_bind, h]
  rfl

theorem run_bind_error {e : Fault} (h : StateT.run (m := Id) (ExceptT.run x) s = (.error e, s')) :
    StateT.run (m := Id) (ExceptT.run (x >>= f)) s = (.error e, s') := by
  simp only [ExceptT.run_bind, StateT.run_bind, h]
  rfl

end

end Rubric
