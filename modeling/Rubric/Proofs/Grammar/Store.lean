import Rubric.Grammar.Store
import Rubric.Proofs.Grammar.References

/-!
# What a store holds

Each entry of a store is what would be worked out without it (`Store.Sound`), and entries stay where
they are (`Store.Later`). On such a store a rule is made ready with the outcome that it has without
one, and is held from then on (`Grammar.recallRule_ends`).
-/

namespace Rubric

namespace Store
variable {g : Grammar} {store later latest : Store} {rule : Rule} {place : Nat}

/-- Each entry is what is worked out of the grammar for its key. -/
structure Sound (g : Grammar) (store : Store) : Prop where
  references : ∀ entry ∈ store.references, g.reference entry.1 = .ok entry.2
  expansions : ∀ entry ∈ store.expansions, g.expand entry.1 = .ok entry.2
  rules : ∀ entry ∈ store.rules, g.compileRule entry.1 = .ok entry.2

theorem Sound.empty (g : Grammar) : Sound g {} where
  references _ h := by cases h
  expansions _ h := by cases h
  rules _ h := by cases h

/-- The store after more work. Rules keep their places. -/
structure Later (g : Grammar) (store later : Store) : Prop where
  sound : later.Sound g
  rules : store.rules <+: later.rules

theorem Later.refl (h : store.Sound g) : store.Later g store :=
  ⟨h, List.prefix_rfl⟩

theorem Later.trans (h : store.Later g later) (h' : later.Later g latest) :
    store.Later g latest :=
  ⟨h'.sound, h.rules.trans h'.rules⟩

/-- The rule has been made ready. -/
def Holds (store : Store) (rule : Rule) : Prop :=
  ∃ compiled, (rule, compiled) ∈ store.rules

theorem Holds.stays (h : store.Holds rule) (hl : store.Later g later) : later.Holds rule := by
  obtain ⟨compiled, hmem⟩ := h
  exact ⟨compiled, hl.rules.subset hmem⟩

theorem Holds.place?_isSome (h : store.Holds rule) : (store.place? rule).isSome := by
  obtain ⟨compiled, hmem⟩ := h
  rw [place?, List.findIdx?_isSome, List.any_eq_true]
  exact ⟨_, hmem, by simp⟩

/-- A rule that is held keeps its place. -/
theorem Holds.place?_eq (h : store.Holds rule) (hl : store.Later g later) :
    later.place? rule = store.place? rule := by
  obtain ⟨more, hmore⟩ := hl.rules
  obtain ⟨place, hplace⟩ := Option.isSome_iff_exists.mp h.place?_isSome
  unfold place? at hplace ⊢
  rw [← hmore, List.findIdx?_append, hplace]
  rfl

/-- Two rules do not share a place. -/
theorem eq_of_place? {other : Rule} (h : store.place? rule = some place)
    (h' : store.place? other = some place) : rule = other := by
  obtain ⟨hlt, hrule, _⟩ := List.findIdx?_eq_some_iff_getElem.mp h
  obtain ⟨_, hother, _⟩ := List.findIdx?_eq_some_iff_getElem.mp h'
  rw [beq_iff_eq] at hrule hother
  rw [← hrule, hother]

end Store

/-! ## Work on a store -/

/-- The work ends like this, with a later store. -/
def Recall.Ends (g : Grammar) (store : Store) (x : Recall α) (Q : Outcome α → Store → Prop) :
    Prop :=
  Q (store.run x).1 (store.run x).2 ∧ store.Later g (store.run x).2

namespace Recall
variable {g : Grammar} {store : Store} {x : Recall α} {f : α → Recall β}
  {Q : Outcome α → Store → Prop} {R : Outcome β → Store → Prop}

theorem ends_lift (hs : store.Sound g) (a : Outcome α) (h : Q a store) : Ends g store (lift a) Q :=
  ⟨h, .refl hs⟩

theorem ends_pure (hs : store.Sound g) (a : α) (h : Q (.ok a) store) : Ends g store (pure a) Q :=
  ⟨h, .refl hs⟩

theorem ends_throw (hs : store.Sound g) (e : Fault) (h : Q (.error e) store) :
    Ends g store (throw e) Q :=
  ⟨h, .refl hs⟩

theorem Ends.mono {Q' : Outcome α → Store → Prop} (H : Ends g store x Q)
    (h : ∀ r later, store.Later g later → Q r later → Q' r later) : Ends g store x Q' :=
  ⟨h _ _ H.2 H.1, H.2⟩

theorem Ends.of_run {y : Recall α} (h : store.run x = store.run y) (H : Ends g store y Q) :
    Ends g store x Q := by
  unfold Ends
  rw [h]
  exact H

theorem Ends.bind (H : Ends g store x Q)
    (hok : ∀ a later, store.Later g later → Q (.ok a) later → Ends g later (f a) R)
    (herror : ∀ e later, Q (.error e) later → R (.error e) later) :
    Ends g store (x >>= f) R := by
  obtain ⟨hQ, hlater⟩ := H
  cases hr : store.run x with
  | mk r later =>
    rw [hr] at hQ hlater
    cases r with
    | ok a =>
      obtain ⟨hR, hlatest⟩ := hok a later hlater hQ
      have hrun : store.run (x >>= f) = later.run (f a) := run_bind_ok hr
      unfold Ends
      rw [hrun]
      exact ⟨hR, hlater.trans hlatest⟩
    | error e =>
      have hrun : store.run (x >>= f) = (.error e, later) := run_bind_error hr
      unfold Ends
      rw [hrun]
      exact ⟨herror e later hQ, hlater⟩

end Recall

/-! ## Shelves -/

/-- The shelf is for values of a function, and lets them be put there. -/
structure Shelf.Means (g : Grammar) (shelf : Shelf κ α) (f : κ → Outcome α) : Prop where
  holds : ∀ store : Store, store.Sound g → ∀ entry ∈ shelf.read store, f entry.1 = .ok entry.2
  read_write : ∀ store entries, shelf.read (shelf.write store entries) = entries
  put : ∀ (store : Store) key a, store.Sound g → f key = .ok a →
    store.Later g (shelf.write store (shelf.read store ++ [(key, a)]))

namespace Shelf
variable {g : Grammar} {store : Store}

theorem forall_mem_concat {P : ι → Prop} {items : List ι} {i : ι} (h : ∀ j ∈ items, P j)
    (hi : P i) : ∀ j ∈ items ++ [i], P j :=
  List.forall_mem_append.mpr ⟨h, List.forall_mem_singleton.mpr hi⟩

theorem references_means : references.Means g g.reference where
  holds _ hs := hs.references
  read_write _ _ := rfl
  put _ _ _ hs h := {
    sound := { hs with references := forall_mem_concat hs.references h }
    rules := List.prefix_rfl }

theorem expansions_means : expansions.Means g g.expand where
  holds _ hs := hs.expansions
  read_write _ _ := rfl
  put _ _ _ hs h := {
    sound := { hs with expansions := forall_mem_concat hs.expansions h }
    rules := List.prefix_rfl }

theorem rules_means : rules.Means g g.compileRule where
  holds _ hs := hs.rules
  read_write _ _ := rfl
  put _ _ _ hs h := {
    sound := { hs with rules := forall_mem_concat hs.rules h }
    rules := List.prefix_append _ _ }

/-- What comes from a shelf was there, or is worked out and put there. -/
theorem Means.fetch_ends {κ α : Type} [BEq κ] [LawfulBEq κ] {shelf : Shelf κ α}
    {f : κ → Outcome α} {key : κ} {work : Recall α} {Q : Outcome α → Prop} (H : shelf.Means g f)
    (hs : store.Sound g) (hheld : ∀ a, f key = .ok a → Q (.ok a))
    (hwork : Recall.Ends g store work fun r _ => Q r ∧ Approximates r (f key)) :
    Recall.Ends g store (shelf.fetch key work) fun r later =>
      Q r ∧ ∀ a, r = .ok a → (key, a) ∈ shelf.read later := by
  have hget : store.run get = (.ok store, store) := rfl
  cases hlookup : (shelf.read store).lookup key with
  | some a =>
    obtain ⟨front, back, hentries, _⟩ := List.lookup_eq_some_iff.mp hlookup
    have hmem : (key, a) ∈ shelf.read store := by rw [hentries]; simp
    have hfetch : store.run (shelf.fetch key work) = store.run (pure a) := by
      refine (run_bind_ok hget).trans ?_
      simp only [hlookup]
      rfl
    refine .of_run hfetch
      (Recall.ends_pure hs a ⟨hheld a (H.holds store hs _ hmem), fun b hb => ?_⟩)
    cases hb
    exact hmem
  | none =>
    have hfetch : store.run (shelf.fetch key work) = store.run (do
        let a ← work
        modify fun store => shelf.write store (shelf.read store ++ [(key, a)])
        return a) := by
      refine (run_bind_ok hget).trans ?_
      simp only [hlookup]
      rfl
    refine .of_run hfetch (hwork.bind (fun a later hlater hQ => ?_)
      fun e later hQ => ⟨hQ.1, fun a ha => ?_⟩)
    · have hf : f key = .ok a := (hQ.2.eq fun h => by cases h).symm
      have hlatest := H.put later key a hlater.sound hf
      refine ⟨⟨hQ.1, fun b hb => ?_⟩, hlatest⟩
      cases hb
      show (key, a) ∈ shelf.read (shelf.write later (shelf.read later ++ [(key, a)]))
      rw [H.read_write]
      simp
    · cases ha

end Shelf

/-! ## Rules made ready -/

/-- The outcome is no less than the one and no more than the other. -/
def Between (low : Outcome α) (r : Outcome α) (high : Outcome α) : Prop :=
  Approximates low r ∧ Approximates r high

theorem Between.same (r : Outcome α) : Between r r r :=
  ⟨.refl r, .refl r⟩

theorem Between.eq {r s : Outcome α} (h : Between s r s) : r = s :=
  h.2.antisymm h.1

theorem Recall.Ends.between {g : Grammar} {store : Store} {x : Recall α} {f : α → Recall β}
    {low high : Outcome α} {flow fhigh : α → Outcome β}
    (H : Recall.Ends g store x fun r _ => Between low r high)
    (hok : ∀ a later, store.Later g later →
      Recall.Ends g later (f a) fun r _ => Between (flow a) r (fhigh a)) :
    Recall.Ends g store (x >>= f) fun r _ => Between (low >>= flow) r (high >>= fhigh) := by
  refine H.bind (fun a later hlater hbetween => (hok a later hlater).mono ?_)
    fun e later hbetween => ?_
  · rintro r _ _ ⟨hlow, hhigh⟩
    rw [← hbetween.2.eq (fun h => by cases h), ok_bind]
    refine ⟨?_, hhigh⟩
    rcases hbetween.1 with rfl | rfl
    · exact .inl rfl
    · exact hlow
  · exact ⟨hbetween.1.bind fun _ => .refl _, hbetween.2.bind fun _ => .refl _⟩

section
variable {g : Grammar} {refer : Json → Recall Candidates}
  {low : Json → Outcome Candidates}

/-- Every reference has an outcome between the one that it has within a depth and the one that it
has within any. -/
def ReferBetween (g : Grammar) (refer : Json → Recall Candidates)
    (low : Json → Outcome Candidates) : Prop :=
  (∀ target, Approximates (low target) (g.reference target)) ∧
    ∀ target store, store.Sound g →
      Recall.Ends g store (refer target) fun r _ => Between (low target) r (g.reference target)

mutual

theorem Rule.recallCandidates_ends (H : ReferBetween g refer low) :
    ∀ (rule : Rule) (store : Store), rule.isKey = true → store.Sound g →
      Recall.Ends g store (rule.recallCandidates refer) fun r _ =>
        Between (rule.candidates low) r (rule.candidates g.reference)
  | ⟨scopes, single, opening, closing, continuing, contentScopes, captures, openingCaptures,
      closingCaptures, continuingCaptures, reference, children⟩, store, hkey, hs => by
    unfold Rule.recallCandidates Rule.candidates
    split
    · exact H.2 _ store hs
    · split
      · next hempty =>
        rw [List.isEmpty_iff.mp hempty]
        exact Recall.ends_pure hs _ (.same _)
      · have hkeys : rulesAreKeys children = true := by
          simp only [Rule.isKey, Bool.and_eq_true] at hkey
          exact hkey.2
        have hexpand : g.expand children = rulesCandidates g.reference children := by
          rw [Grammar.expand, Grammar.expandWith, if_pos hkeys]
        have hlow := rulesCandidates_approximates H.1 children
        refine (Shelf.expansions_means.fetch_ends hs (fun a ha => ?_) ?_).mono
          fun _ _ _ h => h.1
        · rw [← hexpand, ha] at hlow ⊢
          exact ⟨hlow, .refl _⟩
        · exact (recallRulesCandidates_ends H children store hkeys hs).mono fun _ _ _ h =>
            ⟨h, hexpand ▸ h.2⟩
    · exact Recall.ends_pure hs _ (.same _)
    · exact Recall.ends_pure hs _ (.same _)

theorem recallRulesCandidates_ends (H : ReferBetween g refer low) :
    ∀ (rules : List Rule) (store : Store), rulesAreKeys rules = true → store.Sound g →
      Recall.Ends g store (recallRulesCandidates refer rules) fun r _ =>
        Between (rulesCandidates low rules) r (rulesCandidates g.reference rules)
  | [], store, _, hs => Recall.ends_pure hs _ (.same _)
  | rule :: rest, store, hkeys, hs => by
    simp only [rulesAreKeys, Bool.and_eq_true] at hkeys
    refine (Rule.recallCandidates_ends H rule store hkeys.1 hs).between fun first later hl => ?_
    refine (recallRulesCandidates_ends H rest later hkeys.2 hl.sound).between
      fun others last hl => ?_
    exact Recall.ends_pure hl.sound _ (.same _)

end

end

namespace Grammar
variable {g : Grammar} {store : Store}

theorem recallExpandWith_ends {refer : Json → Recall Candidates}
    {low : Json → Outcome Candidates} (H : ReferBetween g refer low) (rules : List Rule)
    (hs : store.Sound g) :
    Recall.Ends g store (recallExpandWith refer rules) fun r _ =>
      Between (expandWith low rules) r (g.expand rules) := by
  have hlow := expandWith_approximates H.1 rules
  unfold recallExpandWith
  split
  · next hkeys =>
    refine (Shelf.expansions_means.fetch_ends hs (fun a ha => ?_) ?_).mono fun _ _ _ h => h.1
    · rw [ha]
      exact ⟨ha ▸ hlow, .refl _⟩
    · refine (recallRulesCandidates_ends H rules store hkeys hs).mono fun r _ _ h => ?_
      have hexpand (refer : Json → Outcome Candidates) :
          expandWith refer rules = rulesCandidates refer rules := if_pos hkeys
      rw [expand, hexpand, hexpand]
      exact ⟨h, h.2⟩
  · next hkeys =>
    have hexpand (refer : Json → Outcome Candidates) :
        expandWith refer rules = .error (.misuse .notKey) := if_neg hkeys
    rw [expand, hexpand, hexpand]
    exact Recall.ends_throw hs _ (.same _)

theorem recallRefer_between (g : Grammar) (depth : Nat) :
    ReferBetween g (g.recallRefer depth) (g.refer depth) := by
  induction depth with
  | zero =>
    refine ⟨refer_approximates_reference 0, fun target store hs => ?_⟩
    refine (Shelf.references_means.fetch_ends hs (fun a ha => ?_) ?_).mono fun _ _ _ h => h.1
    · exact ⟨.inl rfl, .inr ha.symm⟩
    · exact Recall.ends_throw hs _ ⟨⟨.inl rfl, .inl rfl⟩, .inl rfl⟩
  | succ depth ih =>
    refine ⟨refer_approximates_reference (depth + 1), fun target store hs => ?_⟩
    refine (Shelf.references_means.fetch_ends hs (fun a ha => ?_) ?_).mono fun _ _ _ h => h.1
    · exact ⟨ha ▸ refer_approximates_reference (depth + 1) target, .inr ha.symm⟩
    · have hwork := (Recall.ends_lift hs (g.referred target) (.same _)).between
        fun rules later hl => recallExpandWith_ends ih rules hl.sound
      refine hwork.mono fun r _ _ h => ?_
      rw [← reference_eq] at h
      exact ⟨h, h.2⟩

/-- Rules stand for the same with a store as without. -/
theorem recallExpand_ends (rules : List Rule) (hs : store.Sound g) :
    Recall.Ends g store (g.recallExpand rules) fun r _ => r = g.expand rules :=
  (recallExpandWith_ends (g.recallRefer_between g.referenceDepth) rules hs).mono
    fun _ _ _ h => Between.eq h

theorem recallCompile_ends (rule : Rule) (hs : store.Sound g) :
    Recall.Ends g store (g.recallCompile rule) fun r _ => r = g.compileRule rule := by
  have hexpand (f : List Candidate → CompiledRule) :
      Recall.Ends g store (do return f (← g.recallExpand rule.children).pairs) fun r _ =>
        r = do return f (← g.expand rule.children).pairs := by
    refine (recallExpand_ends rule.children hs).bind (fun cs later hl h => ?_) fun e _ h => ?_
    · exact Recall.ends_pure hl.sound _ (by rw [← h]; rfl)
    · rw [← h]
      rfl
  obtain ⟨_, single, opening, closing, continuing, _, _, _, _, _, reference, children⟩ := rule
  cases reference with
  | some _ => exact Recall.ends_throw hs _ rfl
  | none =>
    cases single with
    | some _ => exact Recall.ends_pure hs _ rfl
    | none =>
      cases opening with
      | none => exact hexpand _
      | some _ =>
        cases continuing with
        | none => exact hexpand _
        | some _ => exact hexpand _

/-- With a store a rule is made ready as without, and is held from then on. -/
theorem recallRule_ends (rule : Rule) (hs : store.Sound g) :
    Recall.Ends g store (g.recallRule rule) fun r later =>
      r = g.compileRule rule ∧ ∀ compiled, r = .ok compiled → later.Holds rule := by
  refine (Shelf.rules_means.fetch_ends hs (fun a ha => ha.symm) ?_).mono
    fun r later _ h => ⟨h.1, fun compiled hr => ⟨compiled, h.2 compiled hr⟩⟩
  exact (recallCompile_ends rule hs).mono fun r _ _ h => ⟨h, .inr h⟩

theorem recallRoot_ends (hs : store.Sound g) :
    Recall.Ends g store g.recallRoot fun r _ => r = g.compile := by
  refine (recallExpand_ends g.patterns hs).bind (fun cs later hl h => ?_) fun e _ h => ?_
  · exact Recall.ends_pure hl.sound _ (by rw [compile, ← h]; rfl)
  · rw [compile, ← h]
    rfl

end Grammar

end Rubric
