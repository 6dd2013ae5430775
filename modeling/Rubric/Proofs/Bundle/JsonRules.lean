import Rubric.Proofs.Bundle.JsonPatterns
import Rubric.Proofs.Document.Spots
import Rubric.Proofs.Line.Choosing

/-!
# The rules of the JSON grammar

Which rules of the grammar can be open in front of a valid text, or in it (`Kind`), with what is
looked for in them: tokens, each with the characters that it begins with, and the end of the rule.
What comes next decides what is chosen (`In.candidate`, `In.closing`, `In.none`).
-/

namespace Rubric.JsonText

open Rubric.Bundle (json)
open Pattern (Avoid Hits Starts)
open Regex (CharSet Match)

/-- A candidate, with the characters that its matches begin with. -/
structure Token where
  pattern : String
  set : CharSet
  rule : Rule

def Token.candidate (t : Token) : Candidate :=
  (.str t.pattern, t.rule)

/-- The rule with that name. -/
def ruleOf (name : String) : Rule :=
  (Json.member? json.repository name).getD {}

/-- The rule at that place among the children of another one. -/
def childOf (name : String) (place : Nat) : Rule :=
  (ruleOf name).children.getD place {}

/-- All characters but white space and one other. -/
def otherThan (c : Char) : CharSet :=
  .compl (.union (.property .space) (.char c))

def constantToken : Token where
  pattern := constantPattern
  set := .union (.char 't') (.union (.char 'f') (.char 'n'))
  rule := ruleOf "constant"

def numberToken : Token where
  pattern := numberPattern
  set := .union (.char '-') (.union (.char '0') (.range 49 57))
  rule := ruleOf "number"

def stringToken : Token where
  pattern := "\""
  set := .char '"'
  rule := ruleOf "string"

def arrayToken : Token where
  pattern := "\\["
  set := .char '['
  rule := ruleOf "array"

def objectToken : Token where
  pattern := "\\\x7b"
  set := .char '\x7b'
  rule := ruleOf "object"

def comments : List Token :=
  [⟨"/\\*", .char '/', childOf "comments" 0⟩, ⟨"(//).*$\\n?", .char '/', childOf "comments" 1⟩]

def values : List Token :=
  constantToken :: numberToken :: stringToken :: arrayToken :: objectToken :: comments

/-- What separates elements. -/
def separatorToken : Token where
  pattern := ","
  set := .char ','
  rule := childOf "array" 1

def nameToken : Token where
  pattern := "\""
  set := .char '"'
  rule := ruleOf "objectkey"

def memberToken : Token where
  pattern := ":"
  set := .char ':'
  rule := childOf "object" 2

/-- What stands behind a value and is not expected there. -/
def strayToken : Token where
  pattern := "[^\\s,]"
  set := otherThan ','
  rule := memberToken.rule.children.getD 1 {}

def escapeToken : Token where
  pattern := escapePattern
  set := .char '\\'
  rule := childOf "stringcontent" 0

/-- The rules that can be open. `member` is open from the colon to the end of the member. -/
inductive Kind where
  | root
  | array
  | object
  | member
  | name
  | string

namespace Kind

def tokens : Kind → List Token
  | root => values
  | array => values ++ [separatorToken, ⟨"[^\\s\\]]", otherThan ']', childOf "array" 2⟩]
  | object =>
    nameToken :: comments ++ [memberToken, ⟨"[^\\s\\\x7d]", otherThan '\x7d', childOf "object" 3⟩]
  | member => values ++ [strayToken]
  | name | string => [escapeToken, ⟨"\\\\.", .char '\\', childOf "stringcontent" 1⟩]

def rule : Kind → Rule
  | root => {}
  | array => arrayToken.rule
  | object => objectToken.rule
  | member => memberToken.rule
  | name => nameToken.rule
  | string => stringToken.rule

/-- The pattern that ends the rule, with the characters that its matches begin with. -/
def closing? : Kind → Option (String × CharSet)
  | root => none
  | array => some ("\\]", .char ']')
  | object => some ("\\\x7d", .char '\x7d')
  | member => some (closePattern, .union (.char ',') (.char '\x7d'))
  | name | string => some ("\"", .char '"')

def candidates (k : Kind) : List Candidate :=
  k.tokens.map Token.candidate

def compiled (k : Kind) : CompiledRule :=
  match k.closing? with
  | none => .root (.str "source.json") k.candidates
  | some (closing, _) => .span k.rule (.str closing) k.candidates

/-- All characters that matches can begin with. -/
def sets (k : Kind) : List CharSet :=
  (k.closing?.map (·.2)).toList ++ k.tokens.map (·.set)

/-- White space may stand in it. -/
def isLoose : Kind → Bool
  | root | array | object | member => true
  | name | string => false

end Kind

theorem compile_root : json.compile = .ok Kind.root.compiled := rfl

theorem compileRule_kind {k : Kind} {closing : String} {set : CharSet}
    (h : k.closing? = some (closing, set)) :
    json.compileRule k.rule = .ok (.span k.rule (.str closing) k.candidates) := by
  cases k with
  | root => cases h
  | array | object | member | name | string =>
    cases h
    rfl

/-- The tokens that match once. -/
theorem compileRule_token : ∀ t ∈ [constantToken, numberToken, separatorToken, strayToken,
    escapeToken], json.compileRule t.rule = .ok (.single t.rule) := by
  have hall : ∀ t ∈ [constantToken, numberToken, separatorToken, strayToken, escapeToken],
      (t.rule.reference.isNone && t.rule.single.isSome) = true := by
    decide +kernel
  intro t ht
  obtain ⟨href, hsingle⟩ := Bool.and_eq_true_iff.mp (hall t ht)
  obtain ⟨pattern, hpattern⟩ := Option.isSome_iff_exists.mp hsingle
  simp only [Grammar.compileRule, Option.isNone_iff_eq_none.mp href, hpattern]

theorem startsWith_token : ∀ k : Kind, ∀ t ∈ k.tokens,
    Pattern.startsWith t.pattern t.set = true := by
  intro k
  cases k <;> decide +kernel

theorem startsWith_closing (k : Kind) : ∀ e ∈ k.closing?, Pattern.startsWith e.1 e.2 = true := by
  cases k <;> decide +kernel

theorem begin_tokens {tokens : List Token}
    (h : ∀ t ∈ tokens, Pattern.startsWith t.pattern t.set = true) :
    Begin (tokens.map Token.candidate) (tokens.map (·.set)) := by
  rw [Begin, List.map_map]
  induction tokens with
  | nil => exact .nil
  | cons t tokens ih =>
    exact .cons (Pattern.starts_of_startsWith (h t List.mem_cons_self))
      (ih fun t' ht' => h t' (List.mem_cons_of_mem _ ht'))

/-! ## Choices -/

/-- The innermost rule. -/
structure In (k : Kind) (s : State) : Prop where
  rule : s.current.rule = k.compiled
  ending : s.current.ending = k.closing?.map (·.1.toList)

section
variable {k : Kind} {s : State} {before w y ahead : List Char} {c : Char}

theorem In.enter {closing : String} {set : CharSet} (h : k.closing? = some (closing, set)) :
    In k (s.enter k.rule closing k.candidates) := by
  refine ⟨?_, ?_⟩
  · rw [Kind.compiled, h]
    rfl
  · rw [h]
    rfl

theorem In.looks (H : In k s) : s.current.Looks k.candidates (k.closing?.map (·.2)) := by
  have hrule := H.rule
  have hending := H.ending
  cases hclosing : k.closing? with
  | none =>
    rw [Kind.compiled, hclosing] at hrule
    exact .root hrule
  | some e =>
    rw [Kind.compiled, hclosing] at hrule
    rw [hclosing] at hending
    refine .span hrule hending ?_
    rw [String.ofList_toList]
    exact Pattern.starts_of_startsWith (startsWith_closing k e hclosing)

theorem le_size_of_eq {text : Array Char} (h : text.toList = before ++ ahead) :
    before.length ≤ text.size := by
  rw [← Array.length_toList, h, List.length_append]
  exact Nat.le_add_right _ _

/-- A token comes next. -/
theorem In.candidate {t : Token} {pre post : List Token} (H : In k s)
    (htokens : k.tokens = pre ++ t :: post) (hw : Avoid k.sets w)
    (hy : (y ++ ahead).head? = some c) (hpre : Avoid (pre.map (·.set)) [c])
    (hending : Avoid (k.closing?.map (·.2)).toList [c] ∨ w ≠ [])
    (hhit : ∀ text : Array Char, text.toList = (before ++ w) ++ (y ++ ahead) →
      Hits t.pattern text (before ++ w).length y.length) :
    s.Chooses .standard before ((w ++ y) ++ ahead)
      (TakesCandidate t.rule (before ++ w).length (before.length + (w ++ y).length)) := by
  intro l anchor hE htext
  have hstarts := startsWith_token k
  rw [htokens] at hstarts
  have hlooks := H.looks
  rw [Kind.candidates, htokens, List.map_append, List.map_cons] at hlooks
  rw [Kind.sets, htokens, List.map_append, List.map_cons] at hw
  obtain ⟨rest, hrest⟩ := List.head?_eq_some_iff.mp hy
  have hdrop : l.text.toList.drop before.length = w ++ c :: rest := by
    rw [htext, List.drop_left, List.append_assoc, hrest]
  obtain ⟨groups, hmatch⟩ := hhit l.text (by rw [htext, List.append_assoc, List.append_assoc])
  rw [List.length_append] at hmatch
  rw [List.length_append, List.length_append, ← Nat.add_assoc]
  exact ⟨_, LineContext.choose_candidate hE hlooks
    (begin_tokens fun t ht => hstarts t (List.mem_append_left _ ht))
    (Pattern.starts_of_startsWith (hstarts t (List.mem_append_right _ List.mem_cons_self)))
    (begin_tokens fun t ht => hstarts t (List.mem_append_right _ (List.mem_cons_of_mem _ ht)))
    hw hpre hending (le_size_of_eq htext) hdrop (fun a matcher hready => hmatch a matcher hready _)
    rfl, _, rfl, rfl, rfl⟩

/-- The end of the rule comes next. -/
theorem In.closing {closing : String} {set : CharSet} (H : In k s)
    (hclosing : k.closing? = some (closing, set)) (hw : Avoid [set] w)
    (hy : (y ++ ahead).head? = some c) (hfree : w = [] ∨ Avoid (k.tokens.map (·.set)) (w ++ [c]))
    (hhit : ∀ text : Array Char, text.toList = (before ++ w) ++ (y ++ ahead) →
      Hits closing text (before ++ w).length y.length) :
    s.Chooses .standard before ((w ++ y) ++ ahead)
      (TakesClosing k.rule (before.length + (w ++ y).length)) := by
  intro l anchor hE htext
  have hrule := H.rule
  have hending := H.ending
  rw [Kind.compiled, hclosing] at hrule
  rw [hclosing] at hending
  have hstarts : Starts (.str (String.ofList closing.toList)) set := by
    rw [String.ofList_toList]
    exact Pattern.starts_of_startsWith (startsWith_closing k (closing, set) hclosing)
  obtain ⟨rest, hrest⟩ := List.head?_eq_some_iff.mp hy
  have hdrop : l.text.toList.drop before.length = w ++ c :: rest := by
    rw [htext, List.drop_left, List.append_assoc, hrest]
  obtain ⟨groups, hmatch⟩ := hhit l.text (by rw [htext, List.append_assoc, List.append_assoc])
  rw [List.length_append] at hmatch
  rw [List.length_append, ← Nat.add_assoc]
  refine ⟨_, LineContext.choose_closing_of (m := ⟨before.length + w.length, _, groups⟩) hE hrule
    hending hstarts (begin_tokens (startsWith_token k)) hw hfree (le_size_of_eq htext) hdrop ?_ rfl,
    _, rfl, rfl⟩
  intro a matcher hready
  rw [String.ofList_toList] at hready
  exact hmatch a matcher hready _

/-- Nothing comes next on the line. -/
theorem In.none (H : In k s) (hw : Avoid k.sets w) :
    s.Chooses .standard before w (· = Option.none) := by
  intro l anchor hE htext
  have hdrop : l.text.toList.drop before.length = w := by rw [htext, List.drop_left]
  exact ⟨_, LineContext.choose_none hE H.looks (begin_tokens (startsWith_token k)) hw hdrop, rfl⟩

end

end Rubric.JsonText
