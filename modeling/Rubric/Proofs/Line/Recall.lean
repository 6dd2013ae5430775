import Rubric.Line.Recall
import Rubric.Proofs.Grammar.Store
import Rubric.Proofs.Line.Standing

/-!
# Lines with a store at hand

On a store that is sound, and holds the rules on the stack, a line is highlighted as it is without
one (`Recall.highlightWithin_runs`). A step leads back with the store exactly if it does without:
rules on the stack are held, and those that are held differ in their places
(`Recall.contains_keyIn`).
-/

namespace Rubric

/-- The rules on the stack have been made ready. -/
def State.HeldIn (store : Store) (s : State) : Prop :=
  s.All fun e => ∀ rule, e.rule.source? = some rule → store.Holds rule

/-- The innermost rule has been made ready. -/
def State.Key.HeldIn (store : Store) (key : State.Key) : Prop :=
  ∀ rule, key.2 = some rule → store.Holds rule

section
variable {g : Grammar} {store later : Store} {s : State}

theorem State.HeldIn.stays (H : s.HeldIn store) (hl : store.Later g later) : s.HeldIn later :=
  fun e he rule hrule => (H e he rule hrule).stays hl

theorem State.HeldIn.key (H : s.HeldIn store) : s.key.HeldIn store :=
  H s.current (List.mem_cons_self ..)

theorem State.Key.HeldIn.stays {key : State.Key} (H : key.HeldIn store)
    (hl : store.Later g later) : key.HeldIn later :=
  fun rule hrule => (H rule hrule).stays hl

theorem CompiledRule.start_heldIn {rule : CompiledRule} {scope : Scope}
    (h : ∀ source, rule.source? = some source → store.Holds source) :
    (rule.start scope).HeldIn store :=
  fun _ he => by cases List.mem_singleton.mp he; exact h

end

namespace Recall

/-! ## Places as keys -/

section
variable {g : Grammar} {store later : Store} {key other : State.Key}

theorem keyIn_stays (h : key.HeldIn store) (hl : store.Later g later) :
    keyIn later key = keyIn store key := by
  obtain ⟨height, source⟩ := key
  cases source with
  | none => rfl
  | some rule =>
    have hplace := (h rule rfl).place?_eq hl
    simp only [keyIn, Option.bind_some, hplace]

theorem keyIn_inj (h : key.HeldIn store) (h' : other.HeldIn store) :
    keyIn store key = keyIn store other ↔ key = other := by
  refine ⟨fun heq => ?_, fun heq => by rw [heq]⟩
  obtain ⟨height, source⟩ := key
  obtain ⟨height', source'⟩ := other
  obtain ⟨rfl, hplaces⟩ := Prod.mk.inj heq
  cases source with
  | none =>
    cases source' with
    | none => rfl
    | some rule' =>
      have := (h' rule' rfl).place?_isSome
      simp only [Option.bind_none, Option.bind_some] at hplaces
      rw [← hplaces] at this
      cases this
  | some rule =>
    obtain ⟨place, hplace⟩ := Option.isSome_iff_exists.mp (h rule rfl).place?_isSome
    cases source' with
    | none =>
      simp only [Option.bind_none, Option.bind_some, hplace] at hplaces
      cases hplaces
    | some rule' =>
      simp only [Option.bind_some, hplace] at hplaces
      rw [Store.eq_of_place? hplace hplaces.symm]

theorem contains_keyIn {seen : List State.Key} (hseen : ∀ other ∈ seen, other.HeldIn store)
    (h : key.HeldIn store) :
    (seen.map (keyIn store)).contains (keyIn store key) = seen.contains key := by
  rw [Bool.eq_iff_iff, List.contains_iff_mem, List.contains_iff_mem, List.mem_map]
  refine ⟨fun ⟨other, hmem, heq⟩ => ?_, fun hmem => ⟨key, hmem, rfl⟩⟩
  exact (keyIn_inj (hseen other hmem) h).mp heq ▸ hmem

theorem map_keyIn_stays {seen : List State.Key} (hseen : ∀ other ∈ seen, other.HeldIn store)
    (hl : store.Later g later) : seen.map (keyIn later) = seen.map (keyIn store) :=
  List.map_congr_left fun other hmem => keyIn_stays (hseen other hmem) hl

end

/-! ## With a store as without -/

/-- The computation has the outcome that there is without a store; of its value and the later store
more holds. -/
def Runs (g : Grammar) (store : Store) (x : Recall α) (a : Outcome α) (R : α → Store → Prop) :
    Prop :=
  Ends g store x fun r later => r = a ∧ ∀ b, r = .ok b → R b later

section
variable {g : Grammar} {store : Store} {x : Recall α} {a : Outcome α} {f : α → Recall β}
  {h : α → Outcome β} {R : α → Store → Prop} {S : β → Store → Prop}

theorem runs_pure {b : α} (hs : store.Sound g) (hR : R b store) :
    Runs g store (pure b) (pure b) R :=
  ends_pure hs b ⟨rfl, fun _ hb => by cases hb; exact hR⟩

theorem runs_throw {e : Fault} (hs : store.Sound g) : Runs g store (throw e) (throw e) R :=
  ends_throw hs e ⟨rfl, fun _ hb => by cases hb⟩

theorem runs_lift (hs : store.Sound g) (hR : ∀ b, a = .ok b → R b store) :
    Runs g store (lift a) a R :=
  ends_lift hs a ⟨rfl, hR⟩

theorem Runs.bind (H : Runs g store x a R)
    (hok : ∀ b later, store.Later g later → a = .ok b → R b later →
      Runs g later (f b) (h b) S) : Runs g store (x >>= f) (a >>= h) S := by
  refine Ends.bind H (fun b later hl ⟨ha, hb⟩ => ?_) fun e later ⟨ha, _⟩ => ?_
  · subst ha
    exact hok b later hl rfl (hb b rfl)
  · subst ha
    exact ⟨rfl, fun _ hb => by cases hb⟩

end

/-- A rule made ready is the one that was asked for, and it is held. -/
theorem recallRule_runs {g : Grammar} {store : Store} (rule : Rule) (hs : store.Sound g) :
    Runs g store (g.recallRule rule) (g.compileRule rule) fun compiled later =>
      compiled.source? = some rule ∧ later.Holds rule := by
  refine (Grammar.recallRule_ends rule hs).mono fun r later _ ⟨hr, hheld⟩ => ?_
  refine ⟨hr, fun compiled hc => ⟨?_, hheld compiled hc⟩⟩
  exact Grammar.source?_compileRule (hr ▸ hc)

/-! ## Captures -/

/-- The texts of captures are highlighted as without a store. -/
def Serves (g : Grammar) (inner : Highlights) (plain : Rubric.Highlights) : Prop :=
  ∀ text state store, store.Sound g → state.HeldIn store →
    Runs g store (inner text state) (plain text state) fun _ _ => True

section
variable {g : Grammar} {store : Store} {inner : Highlights} {plain : Rubric.Highlights}
  {text : Array Char} {scope : Scope} {m : Regex.Match}

theorem nestedRegions_runs {span : Regex.Span} {rule : CompiledRule} (H : Serves g inner plain)
    (hs : store.Sound g) (hrule : ∀ source, rule.source? = some source → store.Holds source) :
    Runs g store (nestedRegions inner text span scope rule)
      (Rubric.nestedRegions plain text span scope rule) fun _ _ => True :=
  (H _ _ store hs (CompiledRule.start_heldIn hrule)).bind fun _ _ hl _ _ =>
    runs_pure hl.sound trivial

theorem splitRegion_runs {span : Regex.Span} {rule : CompiledRule} {regions : List Region}
    (H : Serves g inner plain) (hs : store.Sound g)
    (hrule : ∀ source, rule.source? = some source → store.Holds source) :
    Runs g store (splitRegion inner text rule span regions)
      (Rubric.splitRegion plain text rule span regions) fun _ _ => True := by
  unfold splitRegion Rubric.splitRegion
  dsimp only
  cases regions[regionIndex span.1 regions (regions.length - 1)]? with
  | none => exact runs_throw hs
  | some old =>
    exact (nestedRegions_runs H hs hrule).bind fun _ _ hl _ _ => runs_pure hl.sound trivial

theorem addCapture_runs {capture : Int × Rule} {position : Nat} {regions : List Region}
    (H : Serves g inner plain) (hs : store.Sound g) :
    Runs g store (addCapture g inner text scope m capture position regions)
      (Rubric.addCapture g plain text scope m capture position regions) fun _ _ => True := by
  unfold addCapture Rubric.addCapture
  cases Pattern.takenSpan? m capture.1 with
  | none => exact runs_pure hs trivial
  | some span =>
    refine (recallRule_runs capture.2 hs).bind fun rule later hl _ ⟨hsource, hheld⟩ => ?_
    have hrule : ∀ source, rule.source? = some source → later.Holds source := by
      intro source h
      cases hsource.symm.trans h
      exact hheld
    by_cases hlt : span.1 < position
    · simp only [hlt, if_true]
      exact (splitRegion_runs H hl.sound hrule).bind fun _ _ hl _ _ => runs_pure hl.sound trivial
    · simp only [hlt, if_false]
      exact (nestedRegions_runs H hl.sound hrule).bind fun _ _ hl _ _ => runs_pure hl.sound trivial

theorem captureRegions_runs {captures : List (Int × Rule)} {position : Nat}
    {regions : List Region} (H : Serves g inner plain) (hs : store.Sound g) :
    Runs g store (captureRegions g inner text scope m captures position regions)
      (Rubric.captureRegions g plain text scope m captures position regions) fun _ _ => True := by
  induction captures generalizing position regions store with
  | nil => exact runs_pure hs trivial
  | cons capture rest ih => exact (addCapture_runs H hs).bind fun _ _ hl _ _ => ih hl.sound

theorem matchRegions_runs {captures : List (Int × Rule)} (H : Serves g inner plain)
    (hs : store.Sound g) :
    Runs g store (matchRegions g inner text scope m captures)
      (Rubric.matchRegions g plain text scope m captures) fun _ _ => True := by
  refine (captureRegions_runs H hs).bind fun ⟨position, regions⟩ later hl _ _ => ?_
  by_cases hlt : position < m.stop
  · simp only [hlt, if_true]
    exact runs_pure hl.sound trivial
  · simp only [hlt, if_false]
    exact runs_pure hl.sound trivial

end

/-! ## Steps -/

section
variable {c : LineContext} {inner : Highlights} {store : Store} {s : State} {position : Nat}
  {anchor : Option Nat}

theorem enter_heldIn {anchor' : Option Nat} {m : Regex.Match} {compiled : CompiledRule} {s' : State}
    (hs : s.HeldIn store) (hrule : ∀ source, compiled.source? = some source → store.Holds source)
    (h : c.enter s anchor m compiled = .ok (s', anchor')) : s'.HeldIn store := by
  rcases LineContext.enter_ok h with ⟨_, _, rfl, _⟩ | ⟨_, _, _, entry, rfl, hopen, rfl, _⟩ |
    ⟨_, _, _, entry, rfl, hopen, rfl, _⟩
  · exact hs
  all_goals
    obtain ⟨_, hentry⟩ := LineContext.opened_ok hopen
    exact State.All.push hs (hentry ▸ hrule)

theorem step_runs (H : Serves c.grammar inner c.inner) (hstore : store.Sound c.grammar)
    (hs : s.HeldIn store) :
    Runs c.grammar store (step c inner s position anchor) (c.step s position anchor)
      fun found later => ∀ next, found = some next → next.state.HeldIn later := by
  refine (runs_lift (R := fun _ _ => True) hstore fun _ _ => trivial).bind
    fun choice later hl hchoice _ => ?_
  have hs' := hs.stays hl
  cases choice with
  | none => exact runs_pure hl.sound fun _ h => by cases h
  | some choice =>
    have htake : Runs c.grammar later (take c inner s position anchor choice)
        (c.take s position anchor choice) fun next last => next.state.HeldIn last := by
      cases choice with
      | closing rule m =>
        exact (matchRegions_runs H hl.sound).bind fun _ _ hl _ _ =>
          runs_pure hl.sound (State.All.pop (hs'.stays hl))
      | candidate rule m =>
        refine (recallRule_runs rule hl.sound).bind fun compiled last hl _ ⟨hsource, hheld⟩ => ?_
        have hrule : ∀ source, compiled.source? = some source → last.Holds source := by
          intro source h
          cases hsource.symm.trans h
          exact hheld
        have henter : Runs c.grammar last (lift (c.enter s anchor m compiled))
            (c.enter s anchor m compiled) fun entered last => entered.1.HeldIn last :=
          runs_lift hl.sound fun _ h => enter_heldIn (hs'.stays hl) hrule h
        exact henter.bind fun entered _ hl _ hnext =>
          (matchRegions_runs H hl.sound).bind fun _ _ hl _ _ =>
            runs_pure hl.sound (hnext.stays hl)
    refine htake.bind fun next last hl _ hnext => runs_pure hl.sound fun other hother => ?_
    cases hother
    exact hnext

theorem continueBlocks_runs {kept left : List (CompiledRule × Nat)} {place : Place}
    (H : Serves c.grammar inner c.inner) (hstore : store.Sound c.grammar) (hs : s.HeldIn store)
    (hplace : place.state.HeldIn store) :
    Runs c.grammar store (continueBlocks c inner s kept left place)
      (c.continueBlocks s kept left place) fun final later => final.state.HeldIn later := by
  induction left generalizing kept place store with
  | nil => exact runs_pure hstore hplace
  | cons block left ih =>
    obtain ⟨rule, height⟩ := block
    refine (runs_lift (R := fun _ _ => True) hstore fun _ _ => trivial).bind
      fun found later hl _ _ => ?_
    cases found with
    | none => exact runs_pure hl.sound (State.All.pop (State.All.resume (hs.stays hl)))
    | some m =>
      exact (matchRegions_runs H hl.sound).bind fun regions last hl' _ _ =>
        ih hl'.sound ((hs.stays hl).stays hl') ((hplace.stays hl).stays hl')

theorem steps_runs {fuel : Nat} {seen : List State.Key} {place : Place}
    (H : Serves c.grammar inner c.inner) (hstore : store.Sound c.grammar)
    (hseen : ∀ key ∈ seen, key.HeldIn store) (hplace : place.state.HeldIn store) :
    Runs c.grammar store (steps c inner fuel (seen.map (keyIn store)) place)
      (c.steps fuel seen place) fun final later => final.state.HeldIn later := by
  induction fuel generalizing seen place store with
  | zero => exact runs_throw hstore
  | succ fuel ih =>
    refine (step_runs H hstore hplace).bind fun found later hl _ hfound => ?_
    cases found with
    | none => exact runs_pure hl.sound (hplace.stays hl)
    | some next =>
      have hnext : next.state.HeldIn later := hfound next rfl
      have hseen' : ∀ key ∈ seen, key.HeldIn later := fun key hkey => (hseen key hkey).stays hl
      -- places are those of the store as it is now; what was seen earlier has kept its places
      rw [← map_keyIn_stays hseen hl]
      have hget : later.run get = (.ok later, later) := rfl
      refine Ends.of_run (run_bind_ok hget) ?_
      by_cases hlt : place.position < next.position
      · simp only [hlt, if_true]
        have hsingle : ∀ key ∈ [next.state.key], key.HeldIn later :=
          List.forall_mem_singleton.mpr hnext.key
        exact ih hl.sound hsingle hnext
      · simp only [hlt, if_false, contains_keyIn hseen' hnext.key]
        by_cases hback : seen.contains next.state.key = true
        · simp only [hback, if_true]
          exact runs_pure hl.sound hnext
        · simp only [hback]
          exact ih hl.sound (List.forall_mem_cons.mpr ⟨hnext.key, hseen'⟩) hnext

/-- The line is highlighted as without a store. -/
theorem highlight_runs (H : Serves c.grammar inner c.inner) (hstore : store.Sound c.grammar)
    (hs : s.HeldIn store) :
    Runs c.grammar store (highlight c inner s) (c.highlight s)
      fun result later => result.1.HeldIn later := by
  refine (continueBlocks_runs H hstore hs hs).bind fun place later hl _ hplace => ?_
  have hget : later.run get = (.ok later, later) := rfl
  refine Ends.of_run (run_bind_ok hget) ?_
  have hsingle : ∀ key ∈ [place.state.key], key.HeldIn later :=
    List.forall_mem_singleton.mpr hplace.key
  exact (steps_runs H hl.sound hsingle hplace).bind fun final last hl _ hfinal =>
    runs_pure hl.sound hfinal

end

/-- The line is highlighted as without a store, the texts of captures included. -/
theorem highlightWithin_runs {engine : Regex.Engine} {g : Grammar} {depth : Nat}
    {text : Array Char} {s : State} {firstLine : Bool} {store : Store} (hstore : store.Sound g)
    (hs : s.HeldIn store) :
    Runs g store (highlightWithin engine g depth text s firstLine)
      (Rubric.highlightWithin engine g depth text s firstLine)
      fun result later => result.1.HeldIn later := by
  induction depth generalizing text s firstLine store with
  | zero => exact runs_throw hstore
  | succ depth ih =>
    refine highlight_runs (c := lineContext engine g depth text firstLine) ?_ hstore hs
    intro text s store hstore hs
    exact (ih hstore hs).bind fun result later hl _ _ => runs_pure hl.sound trivial

end Recall

end Rubric
