import Rubric.Json.Value

/-! Grammars: trees of rules, and a repository of rules by name that others refer to. -/

namespace Rubric

/-- A rule of a grammar. A pattern is kept as it stands in the grammar, whatever its kind; a null
counts as absent. -/
structure Rule where
  /-- the scopes of all that the rule matches -/
  scopes : List String := []
  /-- the pattern of a rule that matches once -/
  single : Option Json := none
  /-- the pattern that opens a rule with content -/
  opening : Option Json := none
  /-- the pattern that closes the content -/
  closing : Option Json := none
  /-- the pattern that keeps the content open at the start of each further line -/
  continuing : Option Json := none
  /-- the scopes of the content alone -/
  contentScopes : List String := []
  /-- rules for groups of the match, by number, in the order of the grammar -/
  captures : List (Int × Rule) := []
  openingCaptures : List (Int × Rule) := []
  closingCaptures : List (Int × Rule) := []
  continuingCaptures : List (Int × Rule) := []
  /-- the rules that stand here instead -/
  reference : Option Json := none
  /-- the rules for the content -/
  children : List Rule := []
deriving Repr, Inhabited

mutual

/-- The two rules are one, part by part. -/
def Rule.beq : Rule → Rule → Bool
  | ⟨scopes, single, opening, closing, continuing, contentScopes, captures, openingCaptures,
      closingCaptures, continuingCaptures, reference, children⟩,
    ⟨scopes', single', opening', closing', continuing', contentScopes', captures',
      openingCaptures', closingCaptures', continuingCaptures', reference', children'⟩ =>
    scopes == scopes' && single == single' && opening == opening' && closing == closing' &&
      continuing == continuing' && contentScopes == contentScopes' &&
      capturesBeq captures captures' && capturesBeq openingCaptures openingCaptures' &&
      capturesBeq closingCaptures closingCaptures' &&
      capturesBeq continuingCaptures continuingCaptures' && reference == reference' &&
      rulesBeq children children'

def capturesBeq : List (Int × Rule) → List (Int × Rule) → Bool
  | [], [] => true
  | (m, a) :: as, (n, b) :: bs => m == n && a.beq b && capturesBeq as bs
  | _, _ => false

def rulesBeq : List Rule → List Rule → Bool
  | [], [] => true
  | a :: as, b :: bs => a.beq b && rulesBeq as bs
  | _, _ => false

end

instance : BEq Rule := ⟨Rule.beq⟩

mutual

theorem Rule.beq_iff : ∀ {a b : Rule}, a.beq b = true ↔ a = b
  | ⟨scopes, single, opening, closing, continuing, contentScopes, captures, openingCaptures,
      closingCaptures, continuingCaptures, reference, children⟩, b => by
    cases b
    simp only [Rule.beq, Bool.and_eq_true, beq_iff_eq, capturesBeq_iff, rulesBeq_iff,
      Rule.mk.injEq, and_assoc]

theorem capturesBeq_iff : ∀ {as bs : List (Int × Rule)}, capturesBeq as bs = true ↔ as = bs
  | [], bs => by cases bs <;> simp [capturesBeq]
  | (m, a) :: as, bs => by
    cases bs with
    | nil => simp [capturesBeq]
    | cons b bs => simp [capturesBeq, Rule.beq_iff, capturesBeq_iff, Prod.ext_iff]

theorem rulesBeq_iff : ∀ {as bs : List Rule}, rulesBeq as bs = true ↔ as = bs
  | [], bs => by cases bs <;> simp [rulesBeq]
  | a :: as, bs => by cases bs <;> simp [rulesBeq, Rule.beq_iff, rulesBeq_iff]

end

instance : LawfulBEq Rule where
  eq_of_beq := Rule.beq_iff.mp
  rfl := Rule.beq_iff.mpr rfl

/-- A grammar. The scope name is kept as it was declared, whatever its kind. -/
structure Grammar where
  scopeName : Json
  patterns : List Rule
  repository : List (String × Rule)
deriving BEq, Repr

mutual

/-- How many rules there are, the rule itself included. -/
def Rule.count : Rule → Nat
  | ⟨_, _, _, _, _, _, captures, openingCaptures, closingCaptures, continuingCaptures, _,
      children⟩ =>
    capturesCount captures + capturesCount openingCaptures + capturesCount closingCaptures +
      capturesCount continuingCaptures + rulesCount children + 1

def capturesCount : List (Int × Rule) → Nat
  | [] => 0
  | (_, rule) :: rest => rule.count + capturesCount rest

def rulesCount : List Rule → Nat
  | [] => 0
  | rule :: rest => rule.count + rulesCount rest

end

/-- How many rules the grammar holds. -/
def Grammar.ruleCount (g : Grammar) : Nat :=
  rulesCount g.patterns + rulesCount (g.repository.map (·.2))

end Rubric
