import Rubric.Proofs.Line.Course

/-!
# The stack of open rules

At every place that a document comes by, the stack `Stands`: the grammar lies at its bottom, each
other entry lies on the one below it with the scopes of its rule added, and the blocks are those of
the stack with their heights. Opening a rule, closing one and cutting the stack at a block that the
line does not go on with keep this; so a match that closes a rule gets the scope that the match
which opened it had, and takes neither the bottom nor a block away.
-/

namespace Rubric

namespace CompiledRule

/-- A rule whose content each line has to continue. -/
def isBlock : CompiledRule → Bool
  | block _ _ _ => true
  | _ => false

/-- A rule with content that a pattern ends or keeps open. -/
def isOpenable : CompiledRule → Bool
  | span _ _ _ | block _ _ _ => true
  | _ => false

/-- The scopes of the content alone. -/
def contentScopes : CompiledRule → Scope
  | span rule _ _ | block rule _ _ => rule.contentScopes.map .str
  | _ => []

theorem isOpenable_of_isBlock {rule : CompiledRule} (h : rule.isBlock = true) :
    rule.isOpenable = true := by
  cases rule <;> first | rfl | cases h

end CompiledRule

/-- The entry can lie on the other: its rule has content, and its scopes are those of the other with
the scopes of its rule and of its content added. -/
structure Entry.LiesOn (entry below : Entry) : Prop where
  openable : entry.rule.isOpenable = true
  scope : entry.scope = below.scope ++ entry.rule.scopes ++ entry.rule.contentScopes

/-- The blocks among entries from the outside in, with their heights, of which the first entry has
the height `n`. -/
def blocksFrom : (n : Nat) → List Entry → List (CompiledRule × Nat)
  | _, [] => []
  | n, entry :: rest =>
    (if entry.rule.isBlock then [(entry.rule, n)] else []) ++ blocksFrom (n + 1) rest

/-- The stack is in order, with `root` at its bottom. -/
structure State.Stands (root : Entry) (s : State) : Prop where
  bottom : s.entries[0]? = some root
  above : ∀ i below entry, s.entries[i]? = some below → s.entries[i + 1]? = some entry →
    entry.LiesOn below
  blocks : s.blocks = blocksFrom 1 s.entries

/-- All entries of the stack have a property. -/
def State.All (P : Entry → Prop) (s : State) : Prop :=
  ∀ e ∈ s.current :: s.below, P e

namespace State.All
variable {P : Entry → Prop} {s s' : State}

theorem of_subset (H : s.All P) (h : s'.current :: s'.below ⊆ s.current :: s.below) : s'.All P :=
  fun e he => H e (h he)

theorem pop (H : s.All P) : s.pop.All P := by
  apply H.of_subset
  unfold State.pop
  split
  · exact List.Subset.refl _
  · next h =>
    rw [h]
    exact List.subset_cons_self _ _

theorem push {e : Entry} (H : s.All P) (he : P e) : (s.push e).All P :=
  List.forall_mem_cons.mpr ⟨he, H⟩

theorem resume {height : Nat} {blocks : List (CompiledRule × Nat)} (H : s.All P) :
    (s.resume height blocks).All P := by
  apply H.of_subset
  unfold State.resume State.cut
  split
  · exact List.Subset.refl _
  · next h => exact h ▸ List.drop_subset _ _

end State.All

/-! ## The entries of a state -/

namespace State

theorem length_entries (s : State) : s.entries.length = s.height := by
  simp [entries, height]

theorem entries_ne_nil (s : State) : s.entries ≠ [] := by
  simp [entries]

theorem getElem?_height_entries (s : State) : s.entries[s.height - 1]? = some s.current := by
  simp [entries, height]

theorem entries_push (s : State) (entry : Entry) :
    (s.push entry).entries = s.entries ++ [entry] := by
  simp [entries, push]

theorem entries_pushBlock (s : State) (entry : Entry) :
    (s.pushBlock entry).entries = s.entries ++ [entry] := by
  simp [entries, pushBlock, push]

theorem entries_pop {s : State} (h : s.below ≠ []) : s.pop.entries = s.entries.dropLast := by
  cases hb : s.below with
  | nil => exact absurd hb h
  | cons entry below => simp [entries, pop, hb]

theorem entries_cut {s : State} {height : Nat} (h0 : 0 < height) (h : height ≤ s.height) :
    (s.cut height).entries = s.entries.take height := by
  have hlen : (s.current :: s.below).length = s.height := rfl
  unfold cut
  split
  · next hdrop =>
    have := List.drop_eq_nil_iff.mp hdrop
    omega
  · next entry below hdrop =>
    simp only [entries]
    rw [← hdrop, List.reverse_drop, hlen, Nat.sub_sub_self h]

theorem entries_resume (s : State) {height : Nat} (blocks : List (CompiledRule × Nat))
    (h0 : 0 < height) (h : height ≤ s.height) :
    (s.resume height blocks).entries = s.entries.take height :=
  entries_cut h0 h

theorem blocks_resume (s : State) (height : Nat) (blocks : List (CompiledRule × Nat)) :
    (s.resume height blocks).blocks = blocks := rfl

theorem entries_popBlock {s : State} (h : s.below ≠ []) :
    s.popBlock.entries = s.entries.dropLast :=
  entries_pop h

theorem below_ne_nil_iff (s : State) : s.below ≠ [] ↔ 1 < s.entries.length := by
  rw [length_entries, height]
  cases s.below <;> simp

end State

/-! ## The blocks of a stack -/

theorem blocksFrom_append (n : Nat) (xs ys : List Entry) :
    blocksFrom n (xs ++ ys) = blocksFrom n xs ++ blocksFrom (n + xs.length) ys := by
  induction xs generalizing n with
  | nil => rfl
  | cons x xs ih =>
    simp only [List.cons_append, blocksFrom, ih, List.append_assoc, List.length_cons]
    congr 3
    omega

theorem blocksFrom_singleton (n : Nat) (entry : Entry) :
    blocksFrom n [entry] = if entry.rule.isBlock then [(entry.rule, n)] else [] := by
  simp [blocksFrom]

/-- A block among those of a stack stands for the entry at its height, and the blocks before it are
those below. -/
theorem blocksFrom_eq_append {n height : Nat} {rule : CompiledRule} {entries : List Entry}
    {kept left : List (CompiledRule × Nat)}
    (h : blocksFrom n entries = kept ++ (rule, height) :: left) :
    ∃ entry, n ≤ height ∧ entries[height - n]? = some entry ∧ entry.rule = rule ∧
      rule.isBlock = true ∧ blocksFrom n (entries.take (height - n)) = kept := by
  induction entries generalizing n kept with
  | nil => simp [blocksFrom] at h
  | cons e es ih =>
    have htail {kept : List (CompiledRule × Nat)}
        (h : blocksFrom (n + 1) es = kept ++ (rule, height) :: left) :
        ∃ entry, n ≤ height ∧ (e :: es)[height - n]? = some entry ∧ entry.rule = rule ∧
          rule.isBlock = true ∧ blocksFrom n ((e :: es).take (height - n)) =
            (if e.rule.isBlock then [(e.rule, n)] else []) ++ kept := by
      obtain ⟨entry, hle, hget, hrule, hblock, hkept⟩ := ih h
      have hsub : height - n = (height - (n + 1)) + 1 := by omega
      refine ⟨entry, by omega, by rwa [hsub, List.getElem?_cons_succ], hrule, hblock, ?_⟩
      rw [hsub, List.take_succ_cons, blocksFrom, hkept]
    by_cases he : e.rule.isBlock = true
    · simp only [blocksFrom, he, if_true, List.singleton_append] at h
      cases kept with
      | nil =>
        simp only [List.nil_append, List.cons.injEq, Prod.mk.injEq] at h
        obtain ⟨⟨rfl, rfl⟩, _⟩ := h
        exact ⟨e, Nat.le_refl _, by simp, rfl, he, by simp [blocksFrom]⟩
      | cons b kept =>
        simp only [List.cons_append, List.cons.injEq] at h
        obtain ⟨rfl, h⟩ := h
        simpa [he] using htail h
    · simp only [Bool.not_eq_true] at he
      simp only [blocksFrom, he, Bool.false_eq_true, if_false, List.nil_append] at h
      simpa [he] using htail h

/-! ## What keeps the stack in order -/

namespace State.Stands
variable {root : Entry} {s : State}

/-- The part of a stack up to a height, with the blocks in it. -/
theorem of_take {s' : State} {n : Nat} (H : s.Stands root) (h0 : 0 < n)
    (he : s'.entries = s.entries.take n) (hb : s'.blocks = blocksFrom 1 (s.entries.take n)) :
    s'.Stands root := by
  refine ⟨?_, fun i below entry h1 h2 => ?_, by rw [hb, he]⟩
  · rw [he, List.getElem?_take, if_pos h0]
    exact H.bottom
  · rw [he, List.getElem?_take] at h1 h2
    split at h1
    · split at h2
      · exact H.above i below entry h1 h2
      · cases h2
    · cases h1

/-- A stack with one more entry, which lies on the innermost one. -/
theorem of_append {s' : State} {entry : Entry} (H : s.Stands root) (hl : entry.LiesOn s.current)
    (he : s'.entries = s.entries ++ [entry])
    (hb : s'.blocks = s.blocks ++ if entry.rule.isBlock then [(entry.rule, s.height + 1)] else []) :
    s'.Stands root := by
  have hlen := s.length_entries
  have hpos : 0 < s.entries.length := List.length_pos_iff.mpr s.entries_ne_nil
  refine ⟨?_, fun i below e h1 h2 => ?_, ?_⟩
  · rw [he, List.getElem?_append_left hpos]
    exact H.bottom
  · rw [he] at h1 h2
    by_cases hi : i + 1 < s.entries.length
    · rw [List.getElem?_append_left (by omega)] at h1
      rw [List.getElem?_append_left hi] at h2
      exact H.above i below e h1 h2
    · have hi' : i + 1 = s.entries.length := by
        have := (List.getElem?_eq_some_iff.mp h2).1
        simp only [List.length_append, List.length_singleton] at this
        omega
      rw [List.getElem?_append_left (by omega)] at h1
      rw [hi', List.getElem?_append_right (Nat.le_refl _), Nat.sub_self] at h2
      cases h2
      have hcur := s.getElem?_height_entries
      rw [← hlen, ← hi', Nat.add_sub_cancel, h1] at hcur
      cases hcur
      exact hl
  · rw [hb, he, blocksFrom_append, blocksFrom_singleton, H.blocks, hlen, Nat.add_comm 1]

/-- The entry that an entry with an openable rule lies on. -/
theorem current_liesOn {below : Entry} {rest : List Entry} (H : s.Stands root)
    (h : s.below = below :: rest) : s.current.LiesOn below := by
  refine H.above rest.length below s.current ?_ ?_
  · simp [entries, h]
  · have := s.getElem?_height_entries
    simpa [height, h] using this

/-- A rule that can be opened does not lie at the bottom. -/
theorem exists_below (H : s.Stands root) (hroot : root.rule.isOpenable = false)
    (h : s.current.rule.isOpenable = true) : ∃ below rest, s.below = below :: rest := by
  cases hb : s.below with
  | nil =>
    have hbottom := H.bottom
    simp only [entries, hb, List.reverse_singleton, List.getElem?_cons_zero,
      Option.some.injEq] at hbottom
    rw [hbottom, hroot] at h
    cases h
  | cons below rest => exact ⟨below, rest, rfl⟩

/-- The blocks without the innermost entry. -/
theorem blocks_eq (H : s.Stands root) :
    s.blocks = blocksFrom 1 s.entries.dropLast ++
      if s.current.rule.isBlock then [(s.current.rule, s.height)] else [] := by
  have hsplit : s.entries = s.entries.dropLast ++ [s.current] := by
    simp [entries]
  have hlen : 1 + s.entries.dropLast.length = s.height := by
    rw [List.length_dropLast, length_entries]
    exact Nat.add_sub_of_le (Nat.succ_pos _)
  rw [H.blocks, ← hlen]
  conv => lhs; rw [hsplit, blocksFrom_append, blocksFrom_singleton]

/-- The stack without the innermost entry, which is not the bottom. -/
theorem of_dropLast {s' : State} (H : s.Stands root) (hb : s.below ≠ [])
    (he : s'.entries = s.entries.dropLast) (hbl : s'.blocks = blocksFrom 1 s.entries.dropLast) :
    s'.Stands root := by
  have hlong := s.below_ne_nil_iff.mp hb
  rw [List.dropLast_eq_take] at he hbl
  exact H.of_take (by omega) he hbl

/-- Closing a span leaves the rest of the stack as it was. -/
theorem pop (H : s.Stands root) (hroot : root.rule.isOpenable = false)
    (ho : s.current.rule.isOpenable = true) (hb : s.current.rule.isBlock = false) :
    s.pop.Stands root ∧ s.pop.entries = s.entries.dropLast := by
  obtain ⟨below, rest, hbelow⟩ := H.exists_below hroot ho
  have hne : s.below ≠ [] := by simp [hbelow]
  have hblocks : s.pop.blocks = s.blocks := by
    simp [State.pop, hbelow]
  refine ⟨H.of_dropLast hne (entries_pop hne) ?_, entries_pop hne⟩
  rw [hblocks, H.blocks_eq, hb]
  exact List.append_nil _

/-- Closing a block takes it from the blocks too. -/
theorem popBlock (H : s.Stands root) (hroot : root.rule.isOpenable = false)
    (hb : s.current.rule.isBlock = true) :
    s.popBlock.Stands root ∧ s.popBlock.entries = s.entries.dropLast := by
  obtain ⟨below, rest, hbelow⟩ := H.exists_below hroot (CompiledRule.isOpenable_of_isBlock hb)
  have hne : s.below ≠ [] := by simp [hbelow]
  refine ⟨H.of_dropLast hne (entries_popBlock hne) ?_, entries_popBlock hne⟩
  have hblocks : s.popBlock.blocks = s.blocks.dropLast := rfl
  rw [hblocks, H.blocks_eq, hb]
  exact List.dropLast_concat

/-- The stack up to a block, which is then the innermost entry. -/
theorem resume {rule : CompiledRule} {height : Nat} {kept left : List (CompiledRule × Nat)}
    (H : s.Stands root) (h : s.blocks = kept ++ (rule, height) :: left) :
    (s.resume height (kept ++ [(rule, height)])).Stands root ∧
      (s.resume height (kept ++ [(rule, height)])).entries = s.entries.take height ∧
      (s.resume height (kept ++ [(rule, height)])).current.rule = rule ∧ rule.isBlock = true := by
  rw [H.blocks] at h
  obtain ⟨entry, hpos, hget, hrule, hblock, hkept⟩ := blocksFrom_eq_append h
  have hlt : height - 1 < s.entries.length := (List.getElem?_eq_some_iff.mp hget).1
  have hlen := s.length_entries
  have hentries := s.entries_resume (kept ++ [(rule, height)])
    (show 0 < height by omega) (show height ≤ s.height by omega)
  have hsplit : s.entries.take height = s.entries.take (height - 1) ++ [entry] := by
    rw [show s.entries.take height = s.entries.take (height - 1 + 1) by congr 1; omega,
      List.take_add_one, hget]
    rfl
  have hbelow : 1 + (s.entries.take (height - 1)).length = height := by
    rw [List.length_take]
    omega
  refine ⟨H.of_take (by omega) hentries ?_, hentries, ?_, hblock⟩
  · rw [blocks_resume, hsplit, blocksFrom_append, blocksFrom_singleton, hkept, hrule, hblock,
      hbelow]
    rfl
  · have hcurrent := congrArg List.getLast? (hentries.trans hsplit)
    simp only [entries, List.getLast?_reverse, List.head?_cons, List.getLast?_concat,
      Option.some.injEq] at hcurrent
    rw [hcurrent, hrule]

/-- The scope around the content of the innermost rule is the one it has where the rule lies. -/
theorem scopeAround_eq {rule : Rule} {closing : Json} {inner : List Candidate} {below : Entry}
    {rest : List Entry} (H : s.Stands root) (hb : s.below = below :: rest)
    (hr : s.current.rule = .span rule closing inner) :
    s.current.scopeAround rule = below.scope ++ rule.scopes.map .str := by
  have hscope := (H.current_liesOn hb).scope
  simp only [hr, CompiledRule.scopes, CompiledRule.contentScopes] at hscope
  rw [Entry.scopeAround, hscope, List.length_append, List.length_map, Nat.add_sub_cancel]
  exact List.take_left

end State.Stands

end Rubric
