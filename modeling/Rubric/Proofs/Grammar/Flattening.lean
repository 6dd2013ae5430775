import Rubric.Proofs.Grammar.Circles
import Rubric.Proofs.Grammar.Rules
import Rubric.Proofs.Grammar.Store

/-!
# Rules written out

`Grammar.Flattens` says what a list of rules stands for, from left to right and each reference in
depth, as a list of patterns and a list of the rules that these belong to. Without circles that is
what is worked out, whatever the store holds from earlier work (`Grammar.flattening`).
-/

namespace Rubric

/-- The rules can be looked up, and refer to others by texts. Rules whose patterns and references
are all texts do. -/
structure ReferByName (rules : List Rule) : Prop where
  keys : rulesAreKeys rules = true
  names : ∀ target ∈ rulesReferences rules, ∃ name, target = .str name

namespace Grammar

/-- The rules of the grammar refer to each other by texts. -/
structure RefersByName (g : Grammar) : Prop where
  patterns : ReferByName g.patterns
  repository : ∀ entry ∈ g.repository, ReferByName [entry.2]

/-- No reference leads back to itself. -/
def Acyclic (g : Grammar) : Prop :=
  ∀ target, ¬ Relation.TransGen g.Leads target target

/-- The rules that a name stands for: the patterns of the grammar, a rule of its repository, or
nothing. -/
inductive StandsFor (g : Grammar) : String → List Rule → Prop where
  | self : g.StandsFor "$self" g.patterns
  | base : g.StandsFor "$base" g.patterns
  | rule (h : Json.member? g.repository name = some rule) : g.StandsFor ("#" ++ name) [rule]
  | unknown (h : Json.member? g.repository name = none) : g.StandsFor ("#" ++ name) []
  | foreign (hself : name ≠ "$self") (hbase : name ≠ "$base") (hhash : ∀ rest, name ≠ "#" ++ rest) :
    g.StandsFor name []

/-- What rules stand for: the patterns from left to right, and the rules that they belong to. A
reference is replaced by what the rules behind it stand for, a group by what its children stand for.
-/
inductive Flattens (g : Grammar) : List Rule → List Json → List Rule → Prop where
  | done : g.Flattens [] [] []
  | reference (href : rule.reference = some (.str name)) (hname : g.StandsFor name behind)
    (hinner : g.Flattens behind found owners) (hrest : g.Flattens rest found' owners') :
    g.Flattens (rule :: rest) (found ++ found') (owners ++ owners')
  | group (href : rule.reference = none) (hsingle : rule.single = none)
    (hopening : rule.opening = none)
    (hinner : g.Flattens rule.children found owners) (hrest : g.Flattens rest found' owners') :
    g.Flattens (rule :: rest) (found ++ found') (owners ++ owners')
  | pattern (hbegins : rule.BeginsWith pattern) (hrest : g.Flattens rest found owners) :
    g.Flattens (rule :: rest) (pattern :: found) (rule :: owners)

end Grammar

/-! ## Names -/

section
variable {g : Grammar} {name : String} {behind rules rules' : List Rule} {found found' : List Json}
  {owners owners' : List Rule} {target : Json} {cs : Candidates}

theorem toList_eq_hash {rest : List Char} (h : name.toList = '#' :: rest) :
    name = "#" ++ String.ofList rest := by
  rw [← String.toList_inj, h]
  simp

namespace Grammar

theorem referred_hash (g : Grammar) (name : String) :
    g.referred (.str ("#" ++ name)) = .ok (Json.member? g.repository name).toList := by
  have hlist : ("#" ++ name).toList = '#' :: name.toList := by simp
  have hself : ("#" ++ name == "$self" || "#" ++ name == "$base") = false := by
    rw [Bool.or_eq_false_iff, beq_eq_false_iff_ne, beq_eq_false_iff_ne]
    constructor <;> intro h <;> cases hlist.symm.trans (congrArg String.toList h)
  rw [referred, hself, hlist]
  simp only [Bool.false_eq_true, if_false, String.ofList_toList]
  cases Json.member? g.repository name <;> rfl

/-- The rules behind a name are those that it stands for. -/
theorem referred_str_iff : g.referred (.str name) = .ok behind ↔ g.StandsFor name behind := by
  constructor
  · intro h
    rw [referred] at h
    split at h
    · next hself =>
      cases h
      rcases Bool.or_eq_true_iff.mp hself with h | h
      · rw [beq_iff_eq.mp h]
        exact .self
      · rw [beq_iff_eq.mp h]
        exact .base
    · next hself =>
      split at h
      · next rest hlist =>
        rw [toList_eq_hash hlist]
        split at h
        · next hrule =>
          cases h
          exact .rule hrule
        · next hrule =>
          cases h
          exact .unknown hrule
      · next hhash =>
        cases h
        simp only [Bool.or_eq_true, beq_iff_eq, not_or] at hself
        exact .foreign hself.1 hself.2 fun rest h => hhash rest.toList (by simp [h])
  · intro h
    cases h with
    | self => rfl
    | base => rfl
    | rule h => rw [referred_hash, h, Option.toList_some]
    | unknown h => rw [referred_hash, h, Option.toList_none]
    | foreign hself hbase hhash =>
      rw [referred, if_neg (by simp [hself, hbase])]
      split
      · next rest hlist => exact absurd (toList_eq_hash hlist) (hhash _)
      · rfl

theorem standsFor_of_referred (h : g.referred target = .ok behind) :
    ∃ name, target = .str name ∧ g.StandsFor name behind := by
  cases target with
  | str name => exact ⟨name, rfl, referred_str_iff.mp h⟩
  | _ => cases h

theorem StandsFor.unique (h : g.StandsFor name rules) (h' : g.StandsFor name rules') :
    rules = rules' :=
  Except.ok.inj ((referred_str_iff.mpr h).symm.trans (referred_str_iff.mpr h'))

/-- Each name stands for rules that refer by texts in their turn. -/
theorem RefersByName.standsFor (H : g.RefersByName) (h : g.StandsFor name behind) :
    ReferByName behind := by
  cases h with
  | self => exact H.patterns
  | base => exact H.patterns
  | rule h =>
    obtain ⟨entry, hentry, rfl⟩ := Option.map_eq_some_iff.mp h
    exact H.repository entry (List.mem_of_find?_eq_some hentry)
  | unknown h => exact ⟨rfl, fun _ h => nomatch h⟩
  | foreign => exact ⟨rfl, fun _ h => nomatch h⟩

theorem exists_standsFor (g : Grammar) (name : String) : ∃ behind, g.StandsFor name behind := by
  have hok : ∃ behind, g.referred (.str name) = .ok behind := by
    rw [referred]
    split
    · exact ⟨_, rfl⟩
    · split
      · split <;> exact ⟨_, rfl⟩
      · exact ⟨_, rfl⟩
  exact hok.imp fun _ => referred_str_iff.mp

end Grammar

/-! ## What rules stand for is one thing -/

theorem Rule.BeginsWith.unique {rule : Rule} {pattern pattern' : Json} (h : rule.BeginsWith pattern)
    (h' : rule.BeginsWith pattern') : pattern = pattern' := by
  rcases h.2 with hsingle | ⟨hsingle, hopening⟩
  · rcases h'.2 with hsingle' | ⟨hsingle', _⟩
    · exact Option.some.inj (hsingle.symm.trans hsingle')
    · cases hsingle.symm.trans hsingle'
  · rcases h'.2 with hsingle' | ⟨_, hopening'⟩
    · cases hsingle.symm.trans hsingle'
    · exact Option.some.inj (hopening.symm.trans hopening')

/-- A rule without a pattern does not begin with one. -/
theorem Rule.not_beginsWith {rule : Rule} {pattern : Json} (hsingle : rule.single = none)
    (hopening : rule.opening = none) : ¬ rule.BeginsWith pattern := by
  rintro ⟨_, h | ⟨_, h⟩⟩
  · cases hsingle.symm.trans h
  · cases hopening.symm.trans h

namespace Grammar


theorem Flattens.append (h : g.Flattens rules found owners)
    (h' : g.Flattens rules' found' owners') :
    g.Flattens (rules ++ rules') (found ++ found') (owners ++ owners') := by
  induction h with
  | done => exact h'
  | reference href hname hinner _ _ ih =>
    rw [List.append_assoc, List.append_assoc]
    exact .reference href hname hinner ih
  | group href hsingle hopening hinner _ _ ih =>
    rw [List.append_assoc, List.append_assoc]
    exact .group href hsingle hopening hinner ih
  | pattern hbegins _ ih => exact .pattern hbegins ih

theorem Flattens.unique (h : g.Flattens rules found owners) (h' : g.Flattens rules found' owners') :
    found = found' ∧ owners = owners' := by
  induction h generalizing found' owners' with
  | done =>
    cases h'
    exact ⟨rfl, rfl⟩
  | reference href hname _ _ ihinner ihrest =>
    cases h' with
    | reference href' hname' hinner' hrest' =>
      cases href.symm.trans href'
      cases hname.unique hname'
      obtain ⟨rfl, rfl⟩ := ihinner hinner'
      obtain ⟨rfl, rfl⟩ := ihrest hrest'
      exact ⟨rfl, rfl⟩
    | group href' => cases href.symm.trans href'
    | pattern hbegins => cases href.symm.trans hbegins.1
  | group href hsingle hopening _ _ ihinner ihrest =>
    cases h' with
    | reference href' => cases href.symm.trans href'
    | group _ _ _ hinner' hrest' =>
      obtain ⟨rfl, rfl⟩ := ihinner hinner'
      obtain ⟨rfl, rfl⟩ := ihrest hrest'
      exact ⟨rfl, rfl⟩
    | pattern hbegins => exact absurd hbegins (Rule.not_beginsWith hsingle hopening)
  | pattern hbegins _ ihrest =>
    cases h' with
    | reference href' => cases hbegins.1.symm.trans href'
    | group _ hsingle hopening => exact absurd hbegins (Rule.not_beginsWith hsingle hopening)
    | pattern hbegins' hrest' =>
      obtain ⟨rfl, rfl⟩ := ihrest hrest'
      cases hbegins.unique hbegins'
      exact ⟨rfl, rfl⟩

/-- Each pattern is the one that the rule at its place begins with. -/
theorem Flattens.aligned (h : g.Flattens rules found owners) :
    List.Forall₂ (fun pattern rule => rule.BeginsWith pattern) found owners := by
  induction h with
  | done => exact .nil
  | reference _ _ _ _ ihinner ihrest => exact List.rel_append ihinner ihrest
  | group _ _ _ _ _ ihinner ihrest => exact List.rel_append ihinner ihrest
  | pattern hbegins _ ih => exact .cons hbegins ih

end Grammar

/-! ## What is worked out -/

/-- What is worked out for a reference is what the rules behind it stand for. -/
def FlattensReferences (g : Grammar) (refer : Json → Outcome Candidates) : Prop :=
  ∀ target cs, refer target = .ok cs → ∃ name behind, target = .str name ∧ g.StandsFor name behind ∧
    g.Flattens behind cs.patterns cs.owners

variable {refer : Json → Outcome Candidates}

mutual

theorem Rule.flattens_candidates (hrefer : FlattensReferences g refer) :
    ∀ (rule : Rule) (cs : Candidates), rule.candidates refer = .ok cs →
      g.Flattens [rule] cs.patterns cs.owners
  | ⟨scopes, single, opening, closing, continuing, contentScopes, captures, openingCaptures,
      closingCaptures, continuingCaptures, reference, children⟩, cs, h => by
    unfold Rule.candidates at h
    split at h
    · obtain ⟨name, behind, rfl, hname, hinner⟩ := hrefer _ _ h
      simpa using Grammar.Flattens.reference rfl hname hinner .done
    · have hinner := flattens_rulesCandidates hrefer children cs h
      simpa using Grammar.Flattens.group rfl rfl rfl hinner .done
    · cases h
      exact .pattern ⟨rfl, .inl rfl⟩ .done
    · cases h
      exact .pattern ⟨rfl, .inr ⟨rfl, rfl⟩⟩ .done

theorem flattens_rulesCandidates (hrefer : FlattensReferences g refer) :
    ∀ (rules : List Rule) (cs : Candidates), rulesCandidates refer rules = .ok cs →
      g.Flattens rules cs.patterns cs.owners
  | [], cs, h => by
    cases h
    exact .done
  | rule :: rest, cs, h => by
    obtain ⟨first, hfirst, h⟩ := bind_eq_ok.mp h
    obtain ⟨others, hothers, h⟩ := bind_eq_ok.mp h
    cases pure_eq_ok.mp h
    exact (Rule.flattens_candidates hrefer rule first hfirst).append
      (flattens_rulesCandidates hrefer rest others hothers)

end

namespace Grammar

theorem flattens_of_expandWith (hrefer : FlattensReferences g refer)
    (h : expandWith refer rules = .ok cs) : g.Flattens rules cs.patterns cs.owners := by
  unfold expandWith at h
  split at h
  · exact flattens_rulesCandidates hrefer rules cs h
  · cases h

theorem flattensReferences_refer (g : Grammar) (depth : Nat) :
    FlattensReferences g (g.refer depth) := by
  induction depth with
  | zero => exact fun _ _ h => nomatch h
  | succ depth ih =>
    intro target cs h
    obtain ⟨behind, hreferred, hexpand⟩ := bind_eq_ok.mp h
    obtain ⟨name, rfl, hname⟩ := standsFor_of_referred hreferred
    exact ⟨name, behind, rfl, hname, flattens_of_expandWith ih hexpand⟩

theorem flattens_of_expand (h : g.expand rules = .ok cs) :
    g.Flattens rules cs.patterns cs.owners :=
  flattens_of_expandWith (g.flattensReferences_refer g.referenceDepth) h

/-! ## Grammars without circles -/

/-- The rules lead to names only. -/
theorem RefersByName.of_meets (H : g.RefersByName) (hrules : ReferByName rules)
    (h : g.Meets rules target) : ∃ name, target = .str name := by
  obtain ⟨first, hfirst, hchain⟩ := h
  cases hchain with
  | refl => exact hrules.names _ hfirst
  | tail _ hleads =>
    obtain ⟨behind, hreferred, hmem⟩ := hleads
    obtain ⟨name, rfl, hname⟩ := standsFor_of_referred hreferred
    exact (H.standsFor hname).names _ hmem

theorem RefersByName.unfolds (H : g.RefersByName) (hacyclic : g.Acyclic)
    (hrules : ReferByName rules) :
    g.Unfolds rules where
  keys := hrules.keys
  refers target h := by
    obtain ⟨name, rfl⟩ := H.of_meets hrules h
    obtain ⟨behind, hname⟩ := g.exists_standsFor name
    exact ⟨behind, referred_str_iff.mpr hname, (H.standsFor hname).keys⟩
  straight target _ := hacyclic target

/-- **Rules written out.** Without circles there is one list of patterns, and one of the rules that
they belong to, that rules stand for. Each pattern is the one that the rule at its place begins
with. Both lists are worked out, whatever the store holds from earlier work on the grammar, and the
store stays sound. -/
theorem flattening (g : Grammar) (H : g.RefersByName) (hacyclic : g.Acyclic) (rules : List Rule)
    (hrules : ReferByName rules) :
    ∃ cs : Candidates, g.Flattens rules cs.patterns cs.owners ∧
      (∀ found owners, g.Flattens rules found owners → found = cs.patterns ∧ owners = cs.owners) ∧
      List.Forall₂ (fun pattern rule => rule.BeginsWith pattern) cs.patterns cs.owners ∧
      ∀ store : Store, store.Sound g →
        (store.run (g.recallExpand rules)).1 = .ok cs ∧
          store.Later g (store.run (g.recallExpand rules)).2 := by
  obtain ⟨cs, hcs⟩ := expand_ok_iff.mpr (H.unfolds hacyclic hrules)
  have hflat := flattens_of_expand hcs
  refine ⟨cs, hflat, fun _ _ h => h.unique hflat, hflat.aligned, fun store hs => ?_⟩
  obtain ⟨hrun, hlater⟩ := recallExpand_ends rules hs
  exact ⟨hrun.trans hcs, hlater⟩

/-- There is no circle if each reference that rules stand behind comes to an end. -/
theorem acyclic_of_known (h : ∀ target ∈ g.known, ∃ cs, g.reference target = .ok cs) :
    g.Acyclic := by
  intro target hcircle
  obtain ⟨other, hleads, _⟩ := Relation.TransGen.head'_iff.mp hcircle
  exact not_circle_of_refer (h target (mem_known_of_leads hleads)) hcircle

/-- A grammar of letters in brackets, with commas between them. -/
def brackets : Grammar where
  scopeName := .str "source.brackets"
  patterns := [
    { reference := some (.str "#bracket") },
    { scopes := ["comma"], single := some (.str ",") }]
  repository := [
    ("bracket", { children := [
      { reference := some (.str "#letter") },
      { reference := some (.str "#digit") },
      { reference := some (.str "text.html.basic") },
      { opening := some (.str "\\("), closing := some (.str "\\)"),
        children := [{ reference := some (.str "$self") }] }] }),
    ("letter", { scopes := ["letter"], single := some (.str "[a-z]") })]

theorem brackets_refersByName : brackets.RefersByName where
  patterns := ⟨rfl, by simp [brackets, rulesReferences, Rule.references]⟩
  repository := by
    refine List.forall_mem_cons.mpr ⟨⟨rfl, ?_⟩, List.forall_mem_cons.mpr ⟨⟨rfl, ?_⟩, by simp⟩⟩ <;>
      simp [rulesReferences, Rule.references]

theorem brackets_acyclic : brackets.Acyclic := by
  apply acyclic_of_known
  have hknown : ∀ target ∈ brackets.known, (brackets.reference target).toOption.isSome = true := by
    decide +kernel
  intro target hmem
  obtain ⟨cs, hcs⟩ := Option.isSome_iff_exists.mp (hknown target hmem)
  exact ⟨cs, toOption_eq_some.mp hcs⟩

theorem flattening_brackets :
    ∃ cs : Candidates, cs.patterns = [.str "[a-z]", .str "\\(", .str ","] ∧
      brackets.Flattens brackets.patterns cs.patterns cs.owners ∧
      ∀ store : Store, store.Sound brackets →
        (store.run (brackets.recallExpand brackets.patterns)).1 = .ok cs := by
  obtain ⟨cs, hflat, _, _, hstore⟩ := flattening brackets brackets_refersByName brackets_acyclic
    brackets.patterns brackets_refersByName.patterns
  have hrun : ((Store.run {} (brackets.recallExpand brackets.patterns)).1.toOption.map
      (·.patterns) == some [.str "[a-z]", .str "\\(", .str ","]) = true := by
    decide +kernel
  rw [(hstore {} (.empty _)).1, Except.toOption, beq_iff_eq, Option.map_some] at hrun
  exact ⟨cs, Option.some.inj hrun, hflat, fun store hs => (hstore store hs).1⟩

end Grammar

end

end Rubric
