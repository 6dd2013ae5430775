import Rubric.Bundle.JsonGrammar
import Rubric.Proofs.Json.Syntax
import Rubric.Proofs.Pattern.Hits

/-!
# The patterns of the JSON grammar

The expressions that the patterns for tokens are compiled to, and what they read in front of a valid
text: constants (`constant_hits`), numbers (`number_hits`), escapes (`escape_hits`), the end of a
member (`close_hits`), and single characters.
-/

namespace Rubric.JsonText

open Pattern (Compiles Hits Starts)
open Regex (CharSet Node Progress Subject)

/-! ## Expressions -/

/-- What may be left out. -/
def optional (node : Node) : Node :=
  .loop 0 (some 1) false [] node

def digitSet : CharSet :=
  .property (.category .nd)

/-- The characters one after another. -/
def wordNode : List Char → Node
  | [] => .empty
  | [c] => .one (.char c)
  | c :: rest => .seq (.one (.char c)) (wordNode rest)

def constantsNode : Node :=
  .alt (wordNode ['t', 'r', 'u', 'e'])
    (.alt (wordNode ['f', 'a', 'l', 's', 'e']) (wordNode ['n', 'u', 'l', 'l']))

def constantNode : Node :=
  .seq (.anchor .wordBoundary) (.seq constantsNode (.anchor .wordBoundary))

def wholeNode : Node :=
  .alt (.one (.char '0')) (.seq (.one (.range 49 57)) (.loop 0 none false [] (.one digitSet)))

def digitsNode : Node :=
  .loop 1 none false [] (.one digitSet)

def exponentNode : Node :=
  .seq (.one (.union (.char 'e') (.char 'E')))
    (.seq (optional (.one (.union (.char '+') (.char '-')))) digitsNode)

def numberNode : Node :=
  .seq (optional (.one (.char '-')))
    (.seq wholeNode
      (optional (.seq (optional (.seq (.one (.char '.')) digitsNode)) (optional exponentNode))))

def hexSet : CharSet :=
  .union (.union (.range 48 57) (.range 97 102)) (.range 65 70)

def escapableSet : CharSet :=
  .union (.union (.union (.union (.union (.union (.union (.char '"') (.char '\\')) (.char '/'))
    (.char 'b')) (.char 'f')) (.char 'n')) (.char 'r')) (.char 't')

def escapeNode : Node :=
  .seq (.one (.char '\\'))
    (.alt (.one escapableSet) (.seq (.one (.char 'u')) (.loop 4 (some 4) false [] (.one hexSet))))

/-- A comma, or a brace that stays. -/
def closeNode : Node :=
  .alt (.group 1 (.one (.char ','))) (.lookAhead false (.one (.char '\x7d')))

/-! ## Patterns -/

def constantPattern : String :=
  "\\b(?:true|false|null)\\b"

def numberPattern : String :=
  "-?(?:0|[1-9]\\d*)(?:(?:\\.\\d+)?(?:[eE][+-]?\\d+)?)?"

def escapePattern : String :=
  "\\\\(?:[\"\\\\/bfnrt]|u[0-9a-fA-F]\x7b4\x7d)"

def closePattern : String :=
  "(,)|(?=\\\x7d)"

/-- The patterns, with what they are compiled to. -/
def compilations : List (String × Node) :=
  [(constantPattern, constantNode), (numberPattern, numberNode), (escapePattern, escapeNode),
    (closePattern, closeNode)]

theorem compiles : ∀ e ∈ compilations, Compiles e.1 e.2 := by
  have hall : ∀ e ∈ compilations, Pattern.compilesTo e.1 e.2 = true := by
    decide +kernel
  exact fun e he => Pattern.compiles_of_compilesTo (hall e he)

theorem compiles_constant : Compiles constantPattern constantNode :=
  compiles (constantPattern, constantNode) (.head _)

theorem compiles_number : Compiles numberPattern numberNode :=
  compiles (numberPattern, numberNode) (.tail _ (.head _))

theorem compiles_escape : Compiles escapePattern escapeNode :=
  compiles (escapePattern, escapeNode) (.tail _ (.tail _ (.head _)))

theorem compiles_close : Compiles closePattern closeNode :=
  compiles (closePattern, closeNode) (.tail _ (.tail _ (.tail _ (.head _))))

/-- The patterns of single characters. -/
def singles : List (String × Char) :=
  [("\\[", '['), ("\\]", ']'), (",", ','), ("\\\x7b", '\x7b'), ("\\\x7d", '\x7d'), ("\"", '"'),
    (":", ':')]

theorem compiles_single : ∀ e ∈ singles, Compiles e.1 (.one (.char e.2)) := by
  have hall : ∀ e ∈ singles, Pattern.compilesTo e.1 (.one (.char e.2)) = true := by
    decide +kernel
  exact fun e he => Pattern.compiles_of_compilesTo (hall e he)

/-! ## What may follow -/

section
variable {cs rest : List Char} {set : CharSet}

/-- None of the characters is one of the set. -/
def lacks (set : CharSet) (cs : List Char) : Bool :=
  cs.all fun c => !set.contains c

theorem Ahead.contains_eq_false (h : Ahead cs rest) (hs : lacks set cs = true) :
    ∀ c, rest.head? = some c → set.contains c = false := by
  intro c hc
  exact Bool.not_eq_true' _ ▸ List.all_eq_true.mp hs c (h c hc)

theorem Ahead.balks (h : Ahead cs rest) (hs : lacks set cs = true) : (Node.one set).Balks rest :=
  .one (h.contains_eq_false hs)

theorem all_contains {all : List Char} (hs : (all.all fun c => set.contains c) = true)
    (cs : List (OneOf all)) : ∀ c ∈ chars cs, set.contains c = true := by
  intro c hc
  obtain ⟨d, _, rfl⟩ := List.mem_map.mp hc
  exact List.all_eq_true.mp hs d.val d.property

end

variable {text : Array Char} {position : Nat} {x rest : List Char}

/-! ## Constants -/

theorem wordNode_reads (x rest : List Char) : (wordNode x).Reads x rest := by
  match x with
  | [] => exact fun s call p hp k r hk => hk
  | [c] => exact .one (CharSet.contains_char c)
  | c :: d :: x =>
    exact Node.Reads.seq (x := [c]) (.one (CharSet.contains_char c)) (wordNode_reads (d :: x) rest)

theorem constantsNode_reads (c : Constant) : constantsNode.Reads c.chars rest := by
  cases c with
  | true => exact .alt_left (wordNode_reads _ _)
  | false =>
    refine .alt_right (.seq (.one ?_)) (.alt_left (wordNode_reads _ _))
    exact fun c hc => by cases hc; rfl
  | null =>
    refine .alt_right (.seq (.one ?_)) (.alt_right (.seq (.one ?_)) (wordNode_reads _ _))
    all_goals exact fun c hc => by cases hc; rfl

/-- A word character does not stand in front of the position. -/
def Parted (text : Array Char) (position : Nat) : Prop :=
  ∀ origin, Subject.wordBefore ⟨text, origin, []⟩ position = false

theorem wordAt_eq_false {s : Subject} (h : Ahead stops rest) (hp : s.ahead position = rest) :
    s.wordAt position = false := by
  have hstops : (stops.all fun c => !Regex.isWordChar c) = true := by decide
  have hget : s.text[position]? = rest.head? := by
    rw [← hp, Subject.ahead, List.head?_drop, Array.getElem?_toList]
  rw [Subject.wordAt, hget]
  cases hc : rest.head? with
  | none => rfl
  | some c => simpa using List.all_eq_true.mp hstops c (h c hc)

theorem constant_hits (c : Constant) (hbefore : Parted text position) (hrest : Ahead stops rest)
    (hp : text.toList.drop position = c.chars ++ rest) :
    Hits constantPattern text position c.chars.length := by
  obtain ⟨d, x, hcons, hhead⟩ : ∃ d x, c.chars = d :: x ∧
      Pattern.headTakes constantNode.head d = true := by
    cases c <;> exact ⟨_, _, rfl, by decide⟩
  have hword : ∀ d ∈ c.chars, Regex.isWordChar d = true :=
    List.all_eq_true.mp (by cases c <;> decide)
  have hpos : 0 < c.chars.length := by simp [hcons]
  have hp' : text.toList.drop position = d :: (x ++ rest) := by rw [hp, hcons, List.cons_append]
  refine compiles_constant.hits_of_prefers hhead hp' fun groups => ⟨groups, fun origin call => ?_⟩
  have hopens : Subject.holds ⟨text, origin, []⟩ position .wordBoundary = true := by
    have hat : Subject.wordAt ⟨text, origin, []⟩ position = true := by
      have hget : text[position]? = some d := by
        have := Pattern.getElem?_of_drop_cons (w := []) hp'
        simpa using this
      rw [Subject.wordAt, hget]
      exact hword d (by rw [hcons]; exact List.mem_cons_self)
    rw [Subject.holds, hbefore origin, hat]
    rfl
  have hcloses : Subject.holds ⟨text, origin, []⟩ (position + c.chars.length) .wordBoundary =
      true := by
    have hbefore : Subject.wordBefore ⟨text, origin, []⟩ (position + c.chars.length) = true := by
      have hlt : c.chars.length - 1 < c.chars.length := Nat.sub_lt hpos Nat.one_pos
      have hget := Pattern.getElem?_of_drop hp hlt
      rw [← Nat.add_sub_assoc hpos] at hget
      simp only [Subject.wordBefore, hget, Option.any_some, hword _ (List.getElem_mem hlt)]
      exact Bool.and_eq_true_iff.mpr ⟨decide_eq_true (by omega), rfl⟩
    have hahead : Subject.ahead ⟨text, origin, []⟩ (position + c.chars.length) = rest := by
      rw [Subject.ahead_add, Subject.ahead, hp, List.drop_left]
    rw [Subject.holds, hbefore, wordAt_eq_false hrest hahead]
    rfl
  intro k r hk
  have hbehind : (Node.anchor .wordBoundary).run ⟨text, origin, []⟩ call text.size
      ⟨position + c.chars.length, position, groups⟩ k = some r := (if_pos hcloses).trans hk
  exact (if_pos hopens).trans
    (constantsNode_reads c ⟨text, origin, []⟩ call ⟨position, position, groups⟩ hp _ r hbehind)

/-! ## Numbers -/

theorem digitSet_digits : (digits.all fun c => digitSet.contains c) = true := by
  decide +kernel

theorem digitSet_behindDigits : lacks digitSet behindDigits = true := by
  decide +kernel

theorem digitsNode_reads (d : Digits) (hrest : Ahead behindDigits rest) :
    digitsNode.Reads d.chars rest :=
  .many1 (List.all_eq_true.mp digitSet_digits _ d.first.property) (all_contains digitSet_digits _)
    (hrest.contains_eq_false digitSet_behindDigits)

theorem wholeNode_reads (w : Whole) (hrest : Ahead behindDigits rest) :
    wholeNode.Reads w.chars rest := by
  cases w with
  | zero => exact .alt_left (.one (by decide))
  | digits first more =>
    have hzero : lacks (.char '0') (digits.drop 1) = true := by decide
    have hrange : ((digits.drop 1).all fun c => (CharSet.range 49 57).contains c) = true := by
      decide
    refine .alt_right ((Ahead.cons first.property).balks hzero) ?_
    exact Node.Reads.seq (x := [first.val]) (.one (List.all_eq_true.mp hrange _ first.property))
      (.many (all_contains digitSet_digits _) (hrest.contains_eq_false digitSet_behindDigits))

theorem exponentNode_reads (e : Exponent) (hrest : Ahead stops rest) :
    exponentNode.Reads e.chars rest := by
  have hmark : (['e', 'E'].all fun c =>
      (CharSet.union (.char 'e') (.char 'E')).contains c) = true := by decide
  have hsign : (['+', '-'].all fun c =>
      (CharSet.union (.char '+') (.char '-')).contains c) = true := by decide
  have hdigits : lacks (.union (.char '+') (.char '-')) digits = true := by decide
  have hread := digitsNode_reads e.digits (hrest.mono (by decide : stops ⊆ behindDigits))
  apply Node.Reads.seq (x := [e.mark.val]) (.one (List.all_eq_true.mp hmark _ e.mark.property))
  refine Node.Reads.seq ?_ hread
  cases e.sign with
  | none => exact .missing ((Ahead.cons e.digits.first.property).balks hdigits)
  | some sign => exact .optional (.one (List.all_eq_true.mp hsign _ sign.property))

theorem fraction_reads (f : Option Digits) (e : Option Exponent) (hrest : Ahead stops rest) :
    (optional (.seq (.one (.char '.')) digitsNode)).Reads (fractionChars f)
      (exponentChars e ++ rest) := by
  have hahead := exponent_ahead e hrest
  cases f with
  | none => exact .missing (.seq (hahead.balks (by decide)))
  | some f =>
    refine .optional (Node.Reads.seq (x := ['.']) (.one (by decide)) ?_)
    exact digitsNode_reads f (hahead.mono (by decide))

theorem exponent_reads (e : Option Exponent) (hrest : Ahead stops rest) :
    (optional exponentNode).Reads (exponentChars e) rest := by
  cases e with
  | none => exact .missing (.seq (hrest.balks (by decide)))
  | some e => exact .optional (exponentNode_reads e hrest)

theorem numberNode_reads (n : Number) (hrest : Ahead stops rest) :
    numberNode.Reads n.chars rest := by
  have htail : Node.Reads _ (fractionChars n.fraction ++ exponentChars n.exponent) rest :=
    .optional (Node.Reads.seq (fraction_reads n.fraction n.exponent hrest)
      (exponent_reads n.exponent hrest))
  have hwhole : wholeNode.Reads n.whole.chars
      ((fractionChars n.fraction ++ exponentChars n.exponent) ++ rest) := by
    rw [List.append_assoc]
    exact wholeNode_reads n.whole (fraction_ahead n.fraction n.exponent hrest)
  refine Node.Reads.seq ?_ (Node.Reads.seq hwhole htail)
  split
  · exact .optional (.one (by decide))
  · rw [List.append_assoc]
    exact .missing ((whole_ahead n.whole).balks (by decide))

theorem number_hits (n : Number) (hrest : Ahead stops rest)
    (hp : text.toList.drop position = n.chars ++ rest) :
    Hits numberPattern text position n.chars.length := by
  have hhead : ∀ c ∈ '-' :: digits, Pattern.headTakes numberNode.head c = true :=
    List.all_eq_true.mp (by decide +kernel)
  exact compiles_number.hits (numberNode_reads n hrest)
    (fun c hc => hhead c (number_ahead n c hc)) (by simp [number_chars_ne_nil n]) hp

/-! ## Strings -/

/-- The escaped character. -/
inductive Item.Escaped : Item → Prop
  | escape : Escaped (.escape c)
  | code : Escaped (.code a b c d)

theorem escapeNode_reads {item : Item} (h : item.Escaped) :
    escapeNode.Reads item.chars rest := by
  have hescapable : (escapable.all fun c => escapableSet.contains c) = true := by decide
  have hhex : (hexDigits.all fun c => hexSet.contains c) = true := by decide
  cases h with
  | @escape c =>
    exact Node.Reads.seq (x := ['\\']) (.one (by decide))
      (.alt_left (.one (List.all_eq_true.mp hescapable _ c.property)))
  | @code a b c d =>
    refine Node.Reads.seq (x := ['\\']) (.one (by decide)) (.alt_right (.one ?_) ?_)
    · exact fun c hc => by cases hc; decide
    · apply Node.Reads.seq (x := ['u']) (.one (by decide))
      exact Node.Reads.times (x := chars [a, b, c, d]) (all_contains hhex _)

theorem escape_hits {item : Item} (h : item.Escaped)
    (hp : text.toList.drop position = item.chars ++ rest) :
    Hits escapePattern text position item.chars.length := by
  have hhead : Pattern.headTakes escapeNode.head '\\' = true := by decide
  refine compiles_escape.hits (escapeNode_reads h) (fun c hc => ?_) ?_ hp
  · cases h <;> cases hc <;> exact hhead
  · cases h <;> exact List.cons_ne_nil _ _

/-! ## The end of a member -/

theorem group_run {origin index : Nat} {body : Node} {call : Nat → (limit : Nat) → Regex.Step} :
    (Node.group index body).run ⟨text, origin, []⟩ call text.size =
      Regex.Step.captured index (body.run ⟨text, origin, []⟩ call text.size) := by
  funext p k
  rw [Node.run]
  exact if_neg (by simp)

theorem comma_hits (hp : text.toList.drop position = ',' :: rest) :
    Hits closePattern text position 1 := by
  refine compiles_close.hits_of_prefers (by decide) hp fun groups =>
    ⟨(groups.set 0 none).set 0 (some (position, position + 1)), fun origin call => ?_⟩
  have hone : (Node.one (.char ',')).Reads [','] rest := .one (by decide)
  intro k r hk
  have hcomma := hone ⟨text, origin, []⟩ call ⟨position, position, groups.set 0 none⟩ hp
    (fun q => k (q.withSpan 1 (some (position, q.position)))) r hk
  rw [closeNode, Node.run, group_run, Regex.Step.captured, Progress.withSpan, hcomma]
  rfl

theorem brace_hits (hp : text.toList.drop position = '\x7d' :: rest) :
    Hits closePattern text position 0 := by
  refine compiles_close.hits_of_prefers (by decide) hp fun groups => ⟨groups, fun origin call => ?_⟩
  have hcomma : (Node.one (.char ',')).Balks ('\x7d' :: rest) :=
    .one fun c hc => by cases hc; decide
  have hbrace : (Node.one (.char '\x7d')).Reads ['\x7d'] rest := .one (by decide)
  intro k r hk
  have hgroup := hcomma ⟨text, origin, []⟩ call ⟨position, position, groups.set 0 none⟩ hp
    (fun q => k (q.withSpan 1 (some (position, q.position))))
  have hlook := hbrace ⟨text, origin, []⟩ call ⟨position, position, groups⟩ hp some _ rfl
  rw [closeNode, Node.run, group_run, Regex.Step.captured, Progress.withSpan, hgroup]
  show Node.run _ _ _ _ _ _ = _
  rw [Node.run, hlook]
  exact hk

end Rubric.JsonText
