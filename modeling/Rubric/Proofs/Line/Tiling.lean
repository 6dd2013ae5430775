import Rubric.Proofs.Grammar.Compiling
import Rubric.Proofs.Line.Nesting
import Rubric.Document.RawToken

/-!
# The regions of a line

The regions of a line cover it from end to end, for every grammar and from every state, if the
matches that are used are sound (`highlightWithin_tiles`): each step covers the stretch from where
the line stands to where it goes on, and the induction on the depth of captures gives the texts
that they take for themselves. Without the newline at the end the tokens of a line are the line
again (`flatMap_text_tokensOfRegions`).
-/

namespace Rubric

/-! ## A rule without children leaves its text in one piece -/

theorem Grammar.expand_nil (g : Grammar) : g.expand [] = .ok .empty := rfl

theorem Grammar.inner_of_children_eq_nil {g : Grammar} {rule : Rule} {compiled : CompiledRule}
    (hc : rule.children = []) (h : g.compileRule rule = .ok compiled) : compiled.inner = [] := by
  rcases Grammar.inner_of_compileRule h with hnone | ⟨cs, hcs, hinner⟩
  · exact hnone
  · rw [hc, expand_nil] at hcs
    cases hcs
    exact hinner

namespace LineContext
variable {c : LineContext}

/-- Where the innermost rule has no candidates and no pattern that ends it, nothing matches. -/
theorem choose_bare {s : State} {position : Nat} {anchor : Option Nat} {found : Option Choice}
    (hi : s.current.rule.inner = []) (he : s.current.ending = none)
    (h : c.choose s position anchor = .ok found) : found = none := by
  have hnone : c.chooseCandidate position anchor [] = .ok none := rfl
  unfold choose at h
  split at h
  · cases h
  · simp only [findEnding, he] at h
    cases h
  all_goals
    simp only [*, CompiledRule.inner] at hi
    rw [hi, hnone] at h
    cases h
    rfl

theorem highlight_bare {rule : CompiledRule} {scope : Scope} {s' : State} {regions : List Region}
    (hi : rule.inner = []) (h : c.highlight (rule.start scope) = .ok (s', regions)) :
    regions = if 0 < c.text.size then [⟨0, c.text.size, scope ++ rule.scopes⟩] else [] := by
  obtain ⟨place, hblocks, h⟩ := bind_eq_ok.mp h
  obtain ⟨final, hsteps, h⟩ := bind_eq_ok.mp h
  cases hblocks
  have hfinal : final = .start (rule.start scope) := by
    cases hlimit : c.stepLimit (Place.start (rule.start scope)).state with
    | zero => rw [hlimit] at hsteps; cases hsteps
    | succ fuel =>
      rw [hlimit] at hsteps
      obtain ⟨found, hstep, hsteps⟩ := bind_eq_ok.mp hsteps
      obtain ⟨choice, hchoose, hstep⟩ := bind_eq_ok.mp hstep
      cases choose_bare hi rfl hchoose
      cases pure_eq_ok.mp hstep
      cases pure_eq_ok.mp hsteps
      rfl
  subst hfinal
  cases pure_eq_ok.mp h
  rfl

end LineContext

theorem nestedHighlights_whole {engine : Regex.Engine} {g : Grammar} {depth : Nat} {rule : Rule}
    {compiled : CompiledRule} {scope : Scope} {t : Array Char} {regions : List Region}
    (hc : rule.children = []) (hcomp : g.compileRule rule = .ok compiled) (ht : 0 < t.size)
    (h : nestedHighlights engine g depth t (compiled.start scope) = .ok regions) :
    ∃ scope', regions = [⟨0, t.size, scope'⟩] := by
  obtain ⟨⟨s', regions'⟩, hline, hr⟩ := bind_eq_ok.mp h
  cases pure_eq_ok.mp hr
  cases depth with
  | zero => cases hline
  | succ depth =>
    rw [highlightWithin_succ] at hline
    have hwhole := LineContext.highlight_bare (Grammar.inner_of_children_eq_nil hc hcomp) hline
    exact ⟨_, hwhole.trans (if_pos ht)⟩

/-! ## From the steps of a line to all of it -/

namespace LineContext

/-- The texts of captures are highlighted as they should be: sound matches make regions that cover
the text, and a rule without children leaves it in one piece. -/
structure InnerTiles (c : LineContext) (nested : Array Char → State → Use → Prop) : Prop where
  tiles : ∀ t s regions, (∀ u, nested t s u → u.Sound) → c.inner t s = .ok regions →
    Tiles 0 t.size regions
  whole : ∀ rule compiled scope t regions, rule.children = [] →
    c.grammar.compileRule rule = .ok compiled → 0 < t.size →
    c.inner t (compiled.start scope) = .ok regions → ∃ scope', regions = [⟨0, t.size, scope'⟩]

variable {c : LineContext} {nested : Array Char → State → Use → Prop} {s : State}

theorem Takes.regionsOf_tiles (hc : c.InnerTiles nested) (hu : ∀ u, c.Uses nested s u → u.Sound)
    {u : Use} {scope : Scope} {regions : List Region} (H : c.Takes s u scope)
    (h : c.regionsOf scope u.found u.captures = .ok regions) :
    Tiles u.found.start u.found.stop regions := by
  have htext : u.text = c.text := by cases H <;> rfl
  rw [regionsOf, ← htext] at h
  refine matchRegions_tiles (hu u (.itself H))
    (fun t s' hn rule compiled sc hs hcomp regs hr => ?_) h
  rw [htext] at hn
  refine ⟨hc.tiles t s' regs (fun v hv => hu v (.inside H hn hv)) hr, fun hnil ht => ?_⟩
  subst hs
  exact hc.whole rule compiled sc t regs hnil hcomp ht hr

/-- Each step covers the stretch from where the line stands to where it goes on. -/
theorem Passes.step_tiles (hc : c.InnerTiles nested) (hu : ∀ u, c.Uses nested s u → u.Sound)
    {seen : List State.Key} {place : Place} {next : Step} (H : c.Passes s seen place)
    (h : c.step place.state place.position place.anchor = .ok (some next)) :
    Tiles place.position next.position next.regions := by
  obtain ⟨choice, hchoose, htake⟩ := step_ok h
  obtain ⟨hstop, regions, hr, hregions⟩ := take_ok htake
  have ht := Takes.chosen H hchoose
  have hsound := hu _ (.itself ht)
  rw [hstop, hregions]
  exact (Tiles.gap _ hsound.position_le).append (ht.regionsOf_tiles hc hu hr)

theorem Asks.tiles (hc : c.InnerTiles nested) (hu : ∀ u, c.Uses nested s u → u.Sound)
    {kept left : List (CompiledRule × Nat)} {place : Place} (H : c.Asks s kept left place) :
    Tiles 0 place.position place.regions := by
  induction H with
  | start => rfl
  | goOn H hask hr ih =>
    have ht := Takes.asked H hask
    have htiles := ht.regionsOf_tiles hc hu hr
    rw [(hu _ (.itself ht)).start_eq rfl] at htiles
    exact ih.append htiles

theorem Passes.tiles (hc : c.InnerTiles nested) (hu : ∀ u, c.Uses nested s u → u.Sound)
    {seen : List State.Key} {place : Place} (H : c.Passes s seen place) :
    Tiles 0 place.position place.regions := by
  induction H with
  | start h =>
    rcases Asks.start.continueBlocks_ok h with ⟨_, H⟩ | ⟨_, _, _, _, _, H, _, rfl⟩
    · exact H.tiles hc hu
    · exact H.tiles hc hu
  | advance H h _ ih => exact ih.append (H.step_tiles hc hu h)
  | stay H h _ _ ih => exact ih.append (H.step_tiles hc hu h)

/-- A step that consumes nothing leaves the line where it stands, so that the guard which ends a
line loses nothing. -/
theorem Halts.tiles (hc : c.InnerTiles nested) (hu : ∀ u, c.Uses nested s u → u.Sound)
    {seen : List State.Key} {place final : Place} (H : c.Passes s seen place)
    (h : c.Halts seen place final) : Tiles 0 final.position final.regions := by
  cases h with
  | spent => exact H.tiles hc hu
  | back hstep hstay _ =>
    have ht := H.step_tiles hc hu hstep
    have heq : place.position = _ := Nat.le_antisymm ht.le (Nat.not_lt.mp hstay)
    apply (H.tiles hc hu).append
    rwa [← heq] at ht

theorem Asks.position_le (hu : ∀ u, c.Uses nested s u → u.Sound)
    {kept left : List (CompiledRule × Nat)} {place : Place} (H : c.Asks s kept left place) :
    place.position ≤ c.text.size := by
  cases H with
  | start => exact Nat.zero_le _
  | goOn H hask _ => exact (hu _ (.itself (.asked H hask))).stop_le

theorem Passes.position_le (hu : ∀ u, c.Uses nested s u → u.Sound) {seen : List State.Key}
    {place : Place} (H : c.Passes s seen place) : place.position ≤ c.text.size := by
  have hnext {seen : List State.Key} {place : Place} {next : Step} (H : c.Passes s seen place)
      (h : c.step place.state place.position place.anchor = .ok (some next)) :
      next.position ≤ c.text.size := by
    obtain ⟨choice, hchoose, htake⟩ := step_ok h
    rw [(take_ok htake).1]
    exact (hu _ (.itself (.chosen H hchoose))).stop_le
  cases H with
  | start h =>
    rcases Asks.start.continueBlocks_ok h with ⟨_, H⟩ | ⟨_, _, _, _, _, H, _, rfl⟩
    · exact H.position_le hu
    · exact H.position_le hu
  | advance H h _ => exact hnext H h
  | stay H h _ _ => exact hnext H h

theorem highlight_tiles (hc : c.InnerTiles nested) (hu : ∀ u, c.Uses nested s u → u.Sound)
    {s' : State} {regions : List Region} (h : c.highlight s = .ok (s', regions)) :
    Tiles 0 c.text.size regions := by
  obtain ⟨seen, last, final, hp, hh, rfl, rfl⟩ := highlight_ok h
  have hle : final.position ≤ c.text.size := by
    cases hh <;> exact hp.position_le hu
  exact (hh.tiles hc hu hp).append (.gap _ hle)

end LineContext

theorem highlightWithin_tiles {engine : Regex.Engine} {g : Grammar} {depth : Nat}
    {text : Array Char} {s s' : State} {firstLine : Bool} {regions : List Region}
    (hu : ∀ u, UsesWithin engine g depth text s firstLine u → u.Sound)
    (h : highlightWithin engine g depth text s firstLine = .ok (s', regions)) :
    Tiles 0 text.size regions := by
  induction depth generalizing text s s' firstLine regions with
  | zero => cases h
  | succ depth ih =>
    rw [highlightWithin_succ] at h
    refine LineContext.highlight_tiles ⟨fun t s regs hu hinner => ?_, fun _ _ _ _ _ hc hcomp ht =>
      nestedHighlights_whole hc hcomp ht⟩ hu h
    obtain ⟨⟨s', regs'⟩, hline, hr⟩ := bind_eq_ok.mp hinner
    cases pure_eq_ok.mp hr
    exact ih hu hline

/-! ## Documents -/

/-- The text of a token. -/
def RawToken.text (line : List Char) (t : RawToken) : List Char :=
  (line.drop t.start).take (t.stop - t.start)

/-- Regions that reach up to the end of a line or behind it make tokens that are the line. -/
theorem flatMap_text_tokensOfRegions {line : List Char} {a b : Nat} {regions : List Region}
    (H : Tiles a b regions) (hb : line.length ≤ b) :
    (tokensOfRegions line regions).flatMap (RawToken.text line) = line.drop a := by
  induction regions generalizing a with
  | nil =>
    cases H
    simp [tokensOfRegions, List.drop_eq_nil_of_le hb]
  | cons r rest ih =>
    obtain ⟨rfl, hlt, H⟩ := H
    have ih := ih H
    unfold tokensOfRegions at ih ⊢
    by_cases hr : r.start < line.length
    · simp only [List.filter_cons, hr, decide_true, if_true, List.map_cons, List.flatMap_cons, ih,
        RawToken.text]
      have htake : (line.drop r.start).take (min r.stop line.length - r.start) =
          (line.drop r.start).take (r.stop - r.start) := by
        rw [List.take_eq_take_iff, List.length_drop]
        omega
      rw [htake, show line.drop r.stop = (line.drop r.start).drop (r.stop - r.start) by
        rw [List.drop_drop]; congr 1; omega]
      exact List.take_append_drop _ _
    · simp only [List.filter_cons, hr, decide_false, Bool.false_eq_true, if_false, ih]
      rw [List.drop_eq_nil_of_le (by omega), List.drop_eq_nil_of_le (by omega)]

theorem lt_of_mem_tokensOfRegions {line : List Char} {a b : Nat} {regions : List Region}
    (H : Tiles a b regions) {t : RawToken} (ht : t ∈ tokensOfRegions line regions) :
    t.start < t.stop := by
  obtain ⟨r, hr, rfl⟩ := List.mem_map.mp ht
  obtain ⟨hr, hlt⟩ := List.mem_filter.mp hr
  have := H.mem r hr
  simp only [decide_eq_true_eq] at hlt
  simp only
  omega

/-- The tokens are the line, and none of them is empty. -/
def Spell (line : List Char) (tokens : List RawToken) : Prop :=
  (∀ t ∈ tokens, t.start < t.stop) ∧ tokens.flatMap (RawToken.text line) = line

end Rubric
