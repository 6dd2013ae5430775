import Rubric.Document.RawToken
import Rubric.Grammar.Reader
import Rubric.Proofs.Grammar.Compiling
import Rubric.Proofs.Line.Standing

/-!
# Captures of the whole rule

A rule that opens a content has a match that begins it, and one that closes it or that further lines
go on with. Captures of the whole rule are for both of them, where the reader sees both ends
(`sharedCaptures_captures`). It looks for a pattern that closes the rule before one that continues
it, and takes an empty pattern for none, whereas a rule is made ready by the patterns that there
are, of which the one that continues it comes first (`OpensContent.kind`). So where the two see
different ends, one of the matches or both keep the captures of their own (`captures_at_both_ends`).
-/

namespace Rubric

/-- The captures of a match that closes the rule or that a line goes on with. -/
def CompiledRule.endingCaptures : CompiledRule → List (Int × Rule)
  | .span rule _ _ => rule.closingCaptures
  | .block rule _ _ => rule.continuingCaptures
  | .root _ _ | .group _ _ | .single _ => []

/-- The lines of a grammar take the captures `first` for a match that begins the rule, and `last`
for one that closes it or that they go on with. -/
structure CompiledRule.Takes (g : Grammar) (rule : Rule) (compiled : CompiledRule)
    (first last : List (Int × Rule)) : Prop where
  begins : ∀ {c : LineContext} {s : State} {position : Nat} {anchor : Option Nat}
    {m : Regex.Match} {next : Step}, c.grammar = g →
    c.take s position anchor (.candidate rule m) = .ok next →
    ∃ regions, c.regionsOf (s.current.scope ++ compiled.scopes) m first = .ok regions ∧
      next.regions = LineContext.gap s position m ++ regions
  closes : ∀ {c : LineContext} {s : State} {position : Nat} {anchor : Option Nat} {r : Rule}
    {m : Regex.Match} {next : Step}, s.current.rule = compiled →
    c.choose s position anchor = .ok (some (.closing r m)) →
    c.take s position anchor (.closing r m) = .ok next →
    ∃ regions, c.regionsOf (s.current.scopeAround rule) m last = .ok regions ∧
      next.regions = LineContext.gap s position m ++ regions
  continues : ∀ {c : LineContext} {continuing : Json} {inner : List Candidate} {whole : State}
    {kept left : List (CompiledRule × Nat)} {height : Nat} {place place' : Place}
    {m : Regex.Match}, compiled = .block rule continuing inner →
    c.askBlock (whole.resume height (kept ++ [(compiled, height)])).current place.position
      place.anchor = .ok (some m) →
    c.continueBlocks whole kept ((compiled, height) :: left) place = .ok place' →
    ∃ regions, c.regionsOf (whole.resume height (kept ++ [(compiled, height)])).current.scope m
        last = .ok regions ∧
      c.continueBlocks whole (kept ++ [(compiled, height)]) left (place.behind m regions) =
        .ok place'

/-- The object of a rule that opens a content, with the patterns that end it, if they are there and
not null. -/
structure OpensContent (members : List (String × Json)) (opening : String)
    (closing continuing : Option String) : Prop where
  single : given? members "match" = none
  reference : given? members "include" = none
  opening : given? members "begin" = some (.str opening)
  closing : given? members "end" = closing.map .str
  continuing : given? members "while" = continuing.map .str

/-- The rule has the patterns of the object and for each kind of match the captures that the object
gives for it. -/
structure Rule.GivenBy (depth : Nat) (members : List (String × Json)) (rule : Rule) : Prop where
  single : rule.single = given? members "match"
  reference : rule.reference = given? members "include"
  opening : rule.opening = given? members "begin"
  closing : rule.closing = given? members "end"
  continuing : rule.continuing = given? members "while"
  captures : readCaptures (Rule.read depth) members "captures" = .ok rule.captures
  openingCaptures :
    readCaptures (Rule.read depth) members "beginCaptures" = .ok rule.openingCaptures
  closingCaptures : readCaptures (Rule.read depth) members "endCaptures" = .ok rule.closingCaptures
  continuingCaptures :
    readCaptures (Rule.read depth) members "whileCaptures" = .ok rule.continuingCaptures

variable {g : Grammar} {rule given : Rule} {compiled : CompiledRule} {depth : Nat}
  {members entries : List (String × Json)} {name opening : String}
  {closing continuing : Option String}

/-! ## Lines -/

/-- The lines take the captures that a rule has for its matches. -/
theorem CompiledRule.takes (h : g.compileRule rule = .ok compiled) :
    compiled.Takes g rule compiled.openingCaptures compiled.endingCaptures where
  begins := by
    rintro c s position anchor m next rfl htake
    obtain ⟨compiled', hcompiled, htake⟩ := bind_eq_ok.mp htake
    cases hcompiled.symm.trans h
    obtain ⟨_, _, htake⟩ := bind_eq_ok.mp htake
    obtain ⟨regions, hregions, htake⟩ := bind_eq_ok.mp htake
    cases pure_eq_ok.mp htake
    exact ⟨regions, hregions, rfl⟩
  closes := by
    rintro c s position anchor r m next rfl hchoose htake
    obtain ⟨closing, inner, hrule⟩ := LineContext.choose_closing hchoose
    have hsource := Grammar.source?_compileRule h
    rw [hrule] at hsource ⊢
    cases hsource
    obtain ⟨regions, hregions, htake⟩ := bind_eq_ok.mp htake
    cases pure_eq_ok.mp htake
    exact ⟨regions, hregions, rfl⟩
  continues := by
    rintro c continuing inner whole kept left height place place' m rfl hask hblocks
    rw [LineContext.continueBlocks] at hblocks
    simp only [hask, ok_bind] at hblocks
    obtain ⟨regions, hregions, hblocks⟩ := bind_eq_ok.mp hblocks
    exact ⟨regions, hregions, hblocks⟩

/-! ## Reading -/

theorem isSetMember_eq :
    isSetMember members name = ((given? members name).map Json.isSet).getD false := by
  unfold isSetMember given?
  cases Json.member? members name with
  | none => rfl
  | some v => cases v <;> rfl

theorem isSetMember_of_given {p : Option String} (h : given? members name = p.map .str) :
    isSetMember members name = (p.getD "" != "") := by
  rw [isSetMember_eq, h]
  cases p <;> rfl

/-- Every entry gives a capture. -/
theorem readCaptures_ne_nil {read : Json → Except Misuse Rule} {captures : List (Int × Rule)}
    (hmember : Json.member? members name = some (.obj entries)) (hne : entries ≠ [])
    (h : readCaptures read members name = .ok captures) : captures ≠ [] := by
  rw [readCaptures, hmember] at h
  have hlength := (forall₂_of_mapM h).length_eq
  rintro rfl
  exact hne (List.length_eq_zero_iff.mp hlength)

/-- A rule that is read has what its object gives, its captures shared. -/
theorem Rule.exists_givenBy (h : Rule.read (depth + 1) (.obj members) = .ok rule) :
    ∃ given : Rule, given.GivenBy depth members ∧
      rule = sharedCaptures (isSetMember members "begin") (isSetMember members "end")
        (isSetMember members "while") given := by
  obtain ⟨_, hmembers, h⟩ := bind_eq_ok.mp h
  cases hmembers
  obtain ⟨captures, hcaptures, h⟩ := bind_eq_ok.mp h
  obtain ⟨openingCaptures, hopening, h⟩ := bind_eq_ok.mp h
  obtain ⟨closingCaptures, hclosing, h⟩ := bind_eq_ok.mp h
  obtain ⟨continuingCaptures, hcontinuing, h⟩ := bind_eq_ok.mp h
  obtain ⟨scopes, -, h⟩ := bind_eq_ok.mp h
  obtain ⟨contentScopes, -, h⟩ := bind_eq_ok.mp h
  split at h
  all_goals
    obtain ⟨children, -, h⟩ := bind_eq_ok.mp h
    exact ⟨_, ⟨rfl, rfl, rfl, rfl, rfl, hcaptures, hopening, hclosing, hcontinuing⟩,
      (pure_eq_ok.mp h).symm⟩

/-! ## Sharing -/

/-- Sharing captures leaves the patterns alone. -/
theorem sharedCaptures_patterns (opens closes continues : Bool) (rule : Rule) :
    (sharedCaptures opens closes continues rule).reference = rule.reference ∧
      (sharedCaptures opens closes continues rule).single = rule.single ∧
      (sharedCaptures opens closes continues rule).opening = rule.opening ∧
      (sharedCaptures opens closes continues rule).closing = rule.closing ∧
      (sharedCaptures opens closes continues rule).continuing = rule.continuing := by
  unfold sharedCaptures
  split_ifs <;> exact ⟨rfl, rfl, rfl, rfl, rfl⟩

/-- The match that begins a rule gets the captures of the whole rule if there is an end, and of the
ends the match that closes the rule comes before the one that lines go on with. -/
theorem sharedCaptures_captures {opens closes continues : Bool} (h : rule.captures ≠ []) :
    (sharedCaptures opens closes continues rule).openingCaptures =
        (if opens && (closes || continues) then rule.captures else rule.openingCaptures) ∧
      (sharedCaptures opens closes continues rule).closingCaptures =
        (if opens && closes then rule.captures else rule.closingCaptures) ∧
      (sharedCaptures opens closes continues rule).continuingCaptures =
        (if opens && !closes && continues then rule.captures else rule.continuingCaptures) := by
  have hempty : rule.captures.isEmpty = false := by simpa using h
  cases opens <;> cases closes <;> cases continues <;> simp [sharedCaptures, hempty]

/-- The patterns that there are say what the rule is made into. -/
theorem OpensContent.kind (H : OpensContent members opening closing continuing)
    (hgiven : given.GivenBy depth members) {opens closes continues : Bool}
    (h : g.compileRule (sharedCaptures opens closes continues given) = .ok compiled) :
    (continuing = none → ∃ inner, compiled =
        .span (sharedCaptures opens closes continues given) (.str (closing.getD neverClosing))
          inner) ∧
      ∀ text, continuing = some text → ∃ inner, compiled =
        .block (sharedCaptures opens closes continues given) (.str text) inner := by
  obtain ⟨-, hsingle, hopening, hclosing, hcontinuing⟩ :=
    sharedCaptures_patterns opens closes continues given
  rw [hgiven.single, H.single] at hsingle
  rw [hgiven.opening, H.opening] at hopening
  rw [hgiven.closing, H.closing] at hclosing
  rw [hgiven.continuing, H.continuing] at hcontinuing
  cases Grammar.of_compileRule h with
  | single _ hne => exact absurd hsingle hne
  | group _ _ hnone => cases hopening.symm.trans hnone
  | block _ _ _ hsome =>
    refine ⟨?_, ?_⟩
    · rintro rfl
      cases hcontinuing.symm.trans hsome
    · rintro text rfl
      cases hcontinuing.symm.trans hsome
      exact ⟨_, rfl⟩
  | span _ _ _ hnone =>
    refine ⟨fun _ => ?_, ?_⟩
    · rw [hclosing, Option.getD_map]
      exact ⟨_, rfl⟩
    · rintro text rfl
      cases hcontinuing.symm.trans hnone

/-- Captures of the whole rule are taken for both its matches, if a pattern that is not empty opens
it and only one such pattern ends it. In general lines take what is said here: if the pattern that
opens the rule is empty, or no end is left when the empty ones count as none, both matches keep the
captures that the object gives for them. Where a rule that lines have to continue has also a pattern
that would close it, the captures of the whole rule go to that one, which nothing searches for, and
the match that lines go on with keeps its own. -/
theorem captures_at_both_ends (H : OpensContent members opening closing continuing)
    (hentries : Json.member? members "captures" = some (.obj entries)) (hne : entries ≠ [])
    (hread : Rule.read (depth + 1) (.obj members) = .ok rule)
    (hcompiled : g.compileRule rule = .ok compiled) :
    ∃ given : Rule, given.GivenBy depth members ∧ given.captures ≠ [] ∧
      compiled.Takes g rule compiled.openingCaptures compiled.endingCaptures ∧
      (continuing = none →
        (∃ inner, compiled = .span rule (.str (closing.getD neverClosing)) inner) ∧
          (compiled.openingCaptures, compiled.endingCaptures) =
            if opening = "" ∨ closing.getD "" = "" then
              (given.openingCaptures, given.closingCaptures)
            else (given.captures, given.captures)) ∧
      ∀ text, continuing = some text →
        (∃ inner, compiled = .block rule (.str text) inner) ∧
          (compiled.openingCaptures, compiled.endingCaptures) =
            if opening = "" ∨ closing.getD "" = "" ∧ text = "" then
              (given.openingCaptures, given.continuingCaptures)
            else if closing.getD "" = "" then (given.captures, given.captures)
            else (given.captures, given.continuingCaptures) := by
  obtain ⟨given, hgiven, rfl⟩ := Rule.exists_givenBy hread
  have hcaptures := readCaptures_ne_nil hentries hne hgiven.captures
  have hopens : isSetMember members "begin" = (opening != "") :=
    isSetMember_of_given (p := some opening) H.opening
  have hcloses := isSetMember_of_given H.closing
  have hcontinues := isSetMember_of_given H.continuing
  obtain ⟨hfirst, hclosed, hcontinued⟩ := sharedCaptures_captures hcaptures
  obtain ⟨hspan, hblock⟩ := H.kind hgiven hcompiled
  refine ⟨given, hgiven, hcaptures, CompiledRule.takes hcompiled, ?_, ?_⟩
  -- the three members that the reader looks at are set if their patterns are not empty
  · rintro rfl
    obtain ⟨inner, rfl⟩ := hspan rfl
    refine ⟨⟨inner, rfl⟩, ?_⟩
    rw [CompiledRule.openingCaptures, CompiledRule.endingCaptures, hfirst, hclosed, hopens, hcloses,
      hcontinues]
    by_cases ho : opening = "" <;> by_cases hc : closing.getD "" = "" <;> simp [ho, hc]
  · rintro text rfl
    obtain ⟨inner, rfl⟩ := hblock text rfl
    refine ⟨⟨inner, rfl⟩, ?_⟩
    rw [CompiledRule.openingCaptures, CompiledRule.endingCaptures, hfirst, hcontinued, hopens,
      hcloses, hcontinues]
    by_cases ho : opening = "" <;> by_cases hc : closing.getD "" = "" <;>
      by_cases ht : text = "" <;> simp [ho, hc, ht]

/-! ## Rules with captures of the whole -/

/-- The captures that mark a match. -/
def markEntries : List (String × Json) :=
  [("0", .obj [("name", .str "mark")])]

/-- The object of quoted lines. Its pattern that closes the rule is empty. -/
def quotedMembers : List (String × Json) :=
  [("begin", .str ">"), ("end", .str ""), ("while", .str ">"), ("captures", .obj markEntries)]

/-- The object of quoted lines, each of which closes the rule. -/
def closedMembers : List (String × Json) :=
  [("begin", .str ">"), ("end", .str "$"), ("while", .str ">"), ("captures", .obj markEntries)]

/-- The object of an opening parenthesis, with an empty pattern that closes the rule at once. -/
def shutMembers : List (String × Json) :=
  [("begin", .str "\\("), ("end", .str ""), ("captures", .obj markEntries)]

/-- A grammar of rules, by the members of their objects. -/
def markedGrammar (rules : List (List (String × Json))) : Json :=
  .obj [("scopeName", .str "text.marked"), ("patterns", .arr (rules.map .obj))]

/-- A rule whose pattern that closes it is empty has its captures for both matches. -/
theorem captures_at_both_ends_quoted : ∃ g rule compiled,
    Grammar.ofJson .unlimited (markedGrammar [quotedMembers]) = .ok g ∧
      OpensContent quotedMembers ">" (some "") (some ">") ∧
      Json.member? quotedMembers "captures" = some (.obj markEntries) ∧ markEntries ≠ [] ∧
      Rule.ofJson (.obj quotedMembers) = .ok rule ∧ g.compileRule rule = .ok compiled ∧
      compiled.openingCaptures ≠ [] ∧ compiled.endingCaptures = compiled.openingCaptures := by
  obtain ⟨g, hg⟩ : ∃ g, Grammar.ofJson .unlimited (markedGrammar [quotedMembers]) = .ok g :=
    ⟨_, rfl⟩
  have H : OpensContent quotedMembers ">" (some "") (some ">") :=
    ⟨rfl, rfl, rfl, rfl, rfl⟩
  have hentries : Json.member? quotedMembers "captures" = some (.obj markEntries) := rfl
  have hne : markEntries ≠ [] := List.cons_ne_nil _ _
  obtain ⟨rule, hread⟩ : ∃ rule, Rule.ofJson (.obj quotedMembers) = .ok rule := ⟨_, rfl⟩
  obtain ⟨compiled, hcompiled⟩ : ∃ compiled, g.compileRule rule = .ok compiled := by
    cases hread
    exact ⟨_, rfl⟩
  obtain ⟨given, _, hcaptures, _, _, hblock⟩ :=
    captures_at_both_ends H hentries hne hread hcompiled
  obtain ⟨hfirst, hlast⟩ := Prod.mk.inj (hblock ">" rfl).2
  exact ⟨g, rule, compiled, hg, H, hentries, hne, hread, hcompiled, hfirst ▸ hcaptures,
    hlast.trans hfirst.symm⟩

/-- The scopes of the regions of two lines, the second one highlighted behind the first. -/
def scopesOfLines (grammar : Json) (first second : String) :
    Outcome (List Scope × List Scope) := do
  let g ← CompiledGrammar.ofGrammar (← Grammar.ofJson .unlimited grammar)
  let (s, before) ← g.highlight .standard g.start first.toList true
  let (_, behind) ← g.highlight .standard s second.toList false
  return (before.map Region.scope, behind.map Region.scope)

/-- A pattern that closes the rule takes the captures from the match that lines go on with, and one
that is empty leaves the match that begins the rule without them. -/
theorem captures_not_at_both_ends :
    (∃ g rule inner, Grammar.ofJson .unlimited (markedGrammar [closedMembers]) = .ok g ∧
      OpensContent closedMembers ">" (some "$") (some ">") ∧
      Rule.ofJson (.obj closedMembers) = .ok rule ∧
      g.compileRule rule = .ok (.block rule (.str ">") inner) ∧
      rule.openingCaptures = [(0, { scopes := ["mark"] })] ∧ rule.continuingCaptures = []) ∧
    (∃ g rule inner, Grammar.ofJson .unlimited (markedGrammar [shutMembers]) = .ok g ∧
      OpensContent shutMembers "\\(" (some "") none ∧
      Rule.ofJson (.obj shutMembers) = .ok rule ∧
      g.compileRule rule = .ok (.span rule (.str "") inner) ∧
      rule.captures = [(0, { scopes := ["mark"] })] ∧ rule.openingCaptures = []) ∧
    scopesOfLines (markedGrammar [closedMembers]) ">a" ">b" =
      .ok ([[.str "text.marked", .str "mark"], [.str "text.marked"]],
        [[.str "text.marked"], [.str "text.marked"]]) ∧
    scopesOfLines (markedGrammar [shutMembers]) "(" "(" =
      .ok ([[.str "text.marked"]], [[.str "text.marked"]]) := by
  refine ⟨?_, ?_, ?_, ?_⟩
  · exact ⟨_, _, _, rfl, ⟨rfl, rfl, rfl, rfl, rfl⟩, rfl, rfl, rfl, rfl⟩
  · exact ⟨_, _, _, rfl, ⟨rfl, rfl, rfl, rfl, rfl⟩, rfl, rfl, rfl, rfl⟩
  · exact toOption_eq_some.mp (eq_of_beq (by decide +kernel))
  · exact toOption_eq_some.mp (eq_of_beq (by decide +kernel))

end Rubric
