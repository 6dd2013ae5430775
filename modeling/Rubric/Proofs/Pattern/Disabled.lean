import Rubric.Pattern.Search
import Rubric.Proofs.Pattern.Disabling
import Rubric.Proofs.Pattern.Engines

/-!
# Anchors that may not match

A masked escape is the character that masks its letter. In a text without that character, a search
therefore finds what it would find if the anchors that may not match always failed
(`disabled_anchors`). In a text with it, a masked anchor matches the character, and in a class an
escape that is no anchor loses its letter (`masked_anchor_matches`).
-/

namespace Rubric

namespace Regex.Matcher

/-- In the text, the matchers find the same everywhere. -/
structure Agree (text : Array Char) (m m' : Matcher) : Prop where
  attempt : ∀ origin position, m.attempt text origin position = m'.attempt text origin position
  tryAt : ∀ origin position, m.tryAt text origin position = m'.tryAt text origin position

variable {text : Array Char} {m m' : Matcher} {ms ms' : List Matcher}

theorem Agree.refl (m : Matcher) : Agree text m m :=
  ⟨fun _ _ => rfl, fun _ _ => rfl⟩

theorem Agree.matchAt_eq (h : Agree text m m') (position : Nat) :
    m.matchAt text position = m'.matchAt text position :=
  h.attempt position position

theorem Agree.search_eq (h : Agree text m m') (position : Nat) :
    m.search text position = m'.search text position := by
  have hfrom (origin position tries : Nat) :
      m.searchFrom text origin position tries = m'.searchFrom text origin position tries := by
    induction tries generalizing position with
    | zero => rfl
    | succ tries ih => rw [searchFrom, searchFrom, h.tryAt, ih]
  exact hfrom _ _ _

theorem searchAny_eq (h : List.Forall₂ (Agree text) ms ms') (position : Nat) :
    searchAny ms text position = searchAny ms' text position := by
  have hfirst (origin position index : Nat) :
      firstOf text origin position index ms = firstOf text origin position index ms' := by
    induction h generalizing index with
    | nil => rfl
    | cons h _ ih => rw [firstOf, firstOf, h.tryAt, ih]
  have hfrom (origin position tries : Nat) : searchAnyFrom ms text origin position tries =
      searchAnyFrom ms' text origin position tries := by
    induction tries generalizing position with
    | zero => rfl
    | succ tries ih => rw [searchAnyFrom, searchAnyFrom, hfirst, ih]
  exact hfrom _ _ _

end Regex.Matcher

namespace Pattern

open Regex

/-- The pattern is read to the expression, and the anchors that may not match can be told from all
else in both: each escape that is masked is a part of the pattern, and how long something is does
not depend on them. -/
structure Anchoring.Separates (a : Anchoring) (pattern : List Char) (e : Expression) : Prop where
  laid : a.Laid pattern
  compiles : Expression.compile pattern = .ok e
  apart : e.isApart a.disables = true
  straight : e.isStraight = true

/-- The expression with something else in the place of the anchors that may not match, made ready.
-/
def Anchoring.instead (a : Anchoring) (x : Node) (e : Expression) : Matcher :=
  (e.barring a.disables x).matcher

namespace Anchoring.Separates
variable {a : Anchoring} {pattern : List Char} {e : Expression} {text : Array Char}

theorem called_eq (h : a.Separates pattern e) : e.called = [] :=
  (compile_anchored h.laid h.compiles h.apart).2

theorem ready_eq (h : a.Separates pattern e) :
    ready .standard (.str (String.ofList (anchored a pattern))) = .ok (a.instead mark e) := by
  have hcompile := (compile_anchored h.laid h.compiles h.apart).1
  simp only [ready, String.toList_ofList, Engine.standard, hcompile]
  rfl

theorem prepare_eq (h : a.Separates pattern e) :
    prepare .standard a (.str (String.ofList pattern)) = .ok (a.instead mark e) := by
  rw [prepare, Pattern.barred, ok_bind, String.toList_ofList]
  exact h.ready_eq

/-- Where the mark does not stand, it fails as an assertion does that always fails. -/
theorem agree (h : a.Separates pattern e) (htext : masked ∉ text) :
    (a.instead mark e).Agree text (a.instead .fail e) := by
  have hmark (c : Char) (hc : c ∈ text) : (CharSet.single masked.toNat).contains c = false := by
    have hne : c.toNat ≠ masked.toNat := fun hc' => htext (Char.toNat_inj.mp hc' ▸ hc)
    simp only [CharSet.single, CharSet.contains, Bool.and_eq_false_iff, decide_eq_false_iff_not]
    omega
  have hattempt (origin position : Nat) :
      (e.barring a.disables mark).attempt text origin position =
        (e.barring a.disables .fail).attempt text origin position :=
    Expression.attempt_barring e (Node.run_one_eq_fail hmark) position
  have htry {x : Node} (hx : x.allParts.all Node.isStraight = true) (origin position : Nat) :
      (a.instead x e).tryAt text origin position =
        (e.barring a.disables x).attempt text origin position :=
    Expression.tryAt_matcher (e := e.barring a.disables x) h.called_eq
      (Expression.isStraight_barring hx h.apart h.straight) text origin position
  refine ⟨hattempt, fun origin position => ?_⟩
  rw [htry rfl, htry rfl, hattempt]

end Anchoring.Separates

theorem prepareAll_eq {a : Anchoring} {patterns : List (List Char)} {es : List Expression}
    (h : List.Forall₂ a.Separates patterns es) :
    prepareAll .standard a (patterns.map fun p => .str (String.ofList p)) =
      .ok (es.map (a.instead mark)) := by
  have hbarred : (patterns.map fun p => Json.str (String.ofList p)).mapM (barred a) =
      .ok (patterns.map fun p => .str (String.ofList (anchored a p))) := by
    refine mapM_of_forall₂ ?_
    rw [List.forall₂_map_left_iff, List.forall₂_map_right_iff, List.forall₂_same]
    intro p _
    rw [barred, String.toList_ofList]
  rw [prepareAll, hbarred, ok_bind]
  refine mapM_of_forall₂ ?_
  rw [List.forall₂_map_left_iff, List.forall₂_map_right_iff]
  exact h.imp fun _ _ h => h.ready_eq

/-- With any engine that reads the patterns as they are read here, a search finds what it would find
with the mark in the place of the anchors that may not match, whatever the text, and so in a text
without the mark, what it would find if these always failed. -/
theorem disabled_anchors {engine : Engine} (a : Anchoring) {patterns : List (List Char)}
    {es : List Expression} (h : List.Forall₂ a.Separates patterns es)
    (hE : ∀ pattern ∈ patterns, Engine.standard.Agrees engine (.str (String.ofList pattern)))
    (text : Array Char) (position : Nat) {x : Node} (hx : x = mark ∨ x = .fail ∧ masked ∉ text) :
    findAny engine a (patterns.map fun p => .str (String.ofList p)) text position =
        .ok (Matcher.searchAny (es.map (a.instead x)) text position) ∧
      ∀ pattern e, (pattern, e) ∈ patterns.zip es →
        find engine a (.str (String.ofList pattern)) text position =
            .ok ((a.instead x e).search text position) ∧
          findAt engine a (.str (String.ofList pattern)) text position =
            .ok ((a.instead x e).matchAt text position) := by
  have hagree {pattern : List Char} {e : Expression} (h : a.Separates pattern e) :
      (a.instead mark e).Agree text (a.instead x e) := by
    obtain rfl | ⟨rfl, htext⟩ := hx
    · exact .refl _
    · exact h.agree htext
  constructor
  · have hall : List.Forall₂ (Matcher.Agree text) (es.map (a.instead mark))
        (es.map (a.instead x)) := by
      clear hE
      induction h with
      | nil => exact .nil
      | cons h _ ih => exact .cons (hagree h) ih
    rw [findAny_congr (List.forall_mem_map.mpr hE), findAny, prepareAll_eq h, ok_bind,
      Matcher.searchAny_eq hall]
    rfl
  · intro pattern e hmem
    have hseparates := List.forall₂_zip h hmem
    have hpattern := hE pattern (List.of_mem_zip hmem).1
    rw [find_congr hpattern, findAt_congr hpattern, find, findAt, hseparates.prepare_eq, ok_bind,
      ok_bind, (hagree hseparates).search_eq,
      (hagree hseparates).matchAt_eq]
    exact ⟨rfl, rfl⟩

/-- On a line that is not the first one, one pattern asks for the first line and another one lets it
be. -/
theorem disabled_anchors_inner :
    ∃ es, List.Forall₂ (Anchoring.Separates ⟨false, true⟩)
        ["\\Aab".toList, "(?:\\A|\\G)b".toList] es ∧
      masked ∉ #['a', 'b', 'b'] ∧
      findAny .standard ⟨false, true⟩ [.str "\\Aab", .str "(?:\\A|\\G)b"] #['a', 'b', 'b'] 0 =
        .ok none ∧
      findAny .standard ⟨false, true⟩ [.str "\\Aab", .str "(?:\\A|\\G)b"] #['a', 'b', 'b'] 1 =
        .ok (some (1, ⟨1, 2, []⟩)) := by
  let a : Anchoring := ⟨false, true⟩
  let patterns := ["\\Aab".toList, "(?:\\A|\\G)b".toList]
  have hletter {c : Char} {s : List Char} (hc : c ∈ ['a', 'b']) (hs : a.Laid s) :
      a.Laid (c :: s) := by
    have hplain : IsPart [c] ∧ c ≠ '\\' := by
      simp only [List.mem_cons, List.not_mem_nil, or_false] at hc
      obtain rfl | rfl := hc <;> exact ⟨isPart_plain (by decide) (by decide), by decide⟩
    exact .part hplain.1 (stays_plain (by simpa using hplain.2)) hs
  have hG : a.Laid ['\\', 'G', ')', 'b'] :=
    .part (isPart_pair (by decide) rfl) (stays_pair (by decide)) (.close (hletter (by decide) .nil))
  let e : Expression :=
    ⟨#[.seq (.anchor .textStart) (.seq (.one (.single 97)) (.one (.single 98)))], []⟩
  let e' : Expression :=
    ⟨#[.seq (.alt (.anchor .textStart) (.anchor .searchStart)) (.one (.single 98))], []⟩
  have hfirst : a.Separates "\\Aab".toList e :=
    { laid := .anchor (by decide) (hletter (by decide) (hletter (by decide) .nil))
      compiles := by decide +kernel
      apart := by decide
      straight := by decide }
  have hsecond : a.Separates "(?:\\A|\\G)b".toList e' :=
    { laid := .opening (isOpening_sign [':'] (by decide)) (keepsCase_sign (by decide))
        (stays_plain (by simp)) (.anchor (by decide) (.alternative hG))
      compiles := by decide +kernel
      apart := by decide
      straight := by decide }
  have hall : List.Forall₂ a.Separates patterns [e, e'] := .cons hfirst (.cons hsecond .nil)
  have hmasked : masked ∉ #['a', 'b', 'b'] := by simp [masked]
  have hfind (position : Nat) := (disabled_anchors a hall
    (fun _ _ => .refl _ _) _ position (.inr ⟨rfl, hmasked⟩)).1
  exact ⟨[e, e'], hall, hmasked, (hfind 0).trans (congrArg Except.ok (by decide +kernel)),
    (hfind 1).trans (congrArg Except.ok (by decide +kernel))⟩

/-- On a line that is not the first one, the anchor matches the character that masks its letter, and
a class loses the letter that is escaped in it. -/
theorem masked_anchor_matches :
    (Expression.compile "\\A".toList = .ok ⟨#[.anchor .textStart], []⟩ ∧
        (Anchoring.instead ⟨false, true⟩ .fail ⟨#[.anchor .textStart], []⟩).search #[masked] 0 =
          none ∧
        find .standard ⟨false, true⟩ (.str "\\A") #[masked] 0 = .ok (some ⟨0, 1, []⟩)) ∧
      Expression.compile "[\\A]".toList = .ok ⟨#[.one (.single 'A'.toNat)], []⟩ ∧
        (Expression.matcher ⟨#[.one (.single 'A'.toNat)], []⟩).search #['A'] 0 = some ⟨0, 1, []⟩ ∧
        find .standard ⟨false, true⟩ (.str "[\\A]") #['A'] 0 = .ok none := by
  refine ⟨⟨?_, ?_, ?_⟩, ?_, ?_, ?_⟩
  · decide +kernel
  · decide +kernel
  · exact toOption_eq_some.mp (by decide +kernel)
  · decide +kernel
  · decide +kernel
  · exact toOption_eq_some.mp (by decide +kernel)

end Pattern

end Rubric
