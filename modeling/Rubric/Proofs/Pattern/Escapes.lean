import Mathlib.Data.List.Infix
import Mathlib.Logic.ExistsUnique
import Rubric.Proofs.Pattern.Anchors

/-!
# Masking escape by escape

Read from left to right, a text consists of characters, of backslashes with what they escape, and
perhaps of one more backslash at its end (`Reads`). Masking changes the letters of escapes and
nothing else. A pass over the text that goes from one backslash to the next comes to its end and
writes the same (`Pass.run_eq`), also where no letter stands behind a backslash, so that the text is
left alone (`masked_escape_by_escape`).
-/

namespace Rubric.Pattern

/-- A part of a text in which backslashes escape what follows them. -/
inductive Token where
  /-- a character that is no backslash -/
  | plain (c : Char)
  /-- a backslash and what it escapes -/
  | pair (c : Char)
  /-- a backslash at the end -/
  | lone
deriving DecidableEq, Repr

namespace Token

/-- The token as it stands in the text. -/
def chars : Token → List Char
  | plain c => [c]
  | pair c => ['\\', c]
  | lone => ['\\']

/-- The token with the letter of an escape masked. -/
def masked (letters : List Char) : Token → Token
  | pair c => pair (if letters.contains c then Pattern.masked else c)
  | token => token

theorem masked_masked (letters : List Char) (t : Token) :
    (t.masked letters).masked letters = t.masked letters := by
  cases t with
  | plain | lone => rfl
  | pair c => by_cases hc : c ∈ letters <;> simp [masked, hc]

end Token

/-- The tokens of a text, read from left to right. -/
inductive Reads : List Token → List Char → Prop
  | nil : Reads [] []
  | plain : c ≠ '\\' → Reads ts s → Reads (.plain c :: ts) (c :: s)
  | pair : Reads ts s → Reads (.pair c :: ts) ('\\' :: c :: s)
  | lone : Reads [.lone] ['\\']

/-- A pass over a text: what it has written, and the place where it goes on. -/
structure Pass where
  written : List Char := []
  place : Nat := 0

/-- The place of the next backslash. -/
def slash? (s : List Char) (place : Nat) : Option Nat :=
  ((s.drop place).idxOf? '\\').map (place + ·)

/-- One round of a pass. What stands in front of the next backslash is copied, then the backslash
with the character behind it, if there is one. Without a further backslash the rest is copied. -/
def Pass.round (letters s : List Char) (p : Pass) : Pass :=
  match slash? s p.place with
  | none => ⟨p.written ++ s.drop p.place, s.length⟩
  | some place =>
    let written := p.written ++ s.extract p.place place ++ ['\\']
    match s[place + 1]? with
    | none => ⟨written, place + 1⟩
    | some c => ⟨written ++ [if letters.contains c then masked else c], place + 2⟩

/-- A pass up to the end of the text, in so many rounds at most. -/
def Pass.run (letters s : List Char) : (rounds : Nat) → Pass → Pass
  | 0, p => p
  | n + 1, p => if p.place < s.length then Pass.run letters s n (p.round letters s) else p

variable {letters s s' plain rest : List Char} {c : Char} {ts ts' : List Token} {p : Pass}

/-! ## Reading -/

theorem exists_reads (s : List Char) : ∃ ts, Reads ts s := by
  induction s using maskEach.induct with
  | case1 c rest ih =>
    obtain ⟨ts, h⟩ := ih
    exact ⟨_, .pair h⟩
  | case2 c rest hpair ih =>
    by_cases hc : c = '\\'
    -- nothing stands behind a backslash that is no part of a pair
    · cases rest with
      | nil => exact ⟨[.lone], hc ▸ .lone⟩
      | cons d rest => exact (hpair d rest hc rfl).elim
    · obtain ⟨ts, h⟩ := ih
      exact ⟨_, .plain hc h⟩
  | case3 => exact ⟨_, .nil⟩

theorem Reads.unique (h : Reads ts s) (h' : Reads ts' s) : ts' = ts := by
  induction h generalizing ts' with
  | nil =>
    cases h'
    rfl
  | plain hc _ ih =>
    cases h' with
    | plain _ h' => rw [ih h']
    | pair | lone => exact absurd rfl hc
  | pair _ ih =>
    cases h' with
    | plain hc => exact absurd rfl hc
    | pair h' => rw [ih h']
  | lone =>
    cases h' with
    | plain hc => exact absurd rfl hc
    | lone => rfl

/-- A masked text is read as the tokens of the text, masked. -/
theorem Reads.masked (h : Reads ts s) :
    Reads (ts.map (Token.masked letters)) (maskEach letters s) := by
  induction h with
  | nil => exact .nil
  | plain hc _ ih =>
    rw [maskEach_plain hc]
    exact .plain hc ih
  | pair _ ih =>
    rw [maskEach_pair]
    exact .pair ih
  | lone => exact .lone

theorem Reads.flatMap_chars (h : Reads ts s) : ts.flatMap Token.chars = s := by
  induction h with
  | nil | lone => rfl
  | plain _ _ ih | pair _ ih => rw [List.flatMap_cons, ih]; rfl

theorem maskEach_maskEach : maskEach letters (maskEach letters s) = maskEach letters s := by
  obtain ⟨ts, h⟩ := exists_reads s
  have hmasked : Reads (ts.map (Token.masked letters)) (maskEach letters s) := h.masked
  have hself : ts.map (Token.masked letters ∘ Token.masked letters) =
      ts.map (Token.masked letters) := congrArg (ts.map ·) (funext (Token.masked_masked letters))
  rw [← hmasked.masked.flatMap_chars, List.map_map, hself, hmasked.flatMap_chars]

/-! ## Passes -/

theorem maskEach_eq_self (hs : ∀ c ∈ s, c ≠ '\\') : maskEach letters s = s := by
  have h : maskEach letters (s ++ []) = s ++ maskEach letters [] := maskEach_append hs
  rwa [List.append_nil, maskEach, List.append_nil] at h

/-- What a pass has written is what becomes of the text in front of its place. -/
structure Pass.Follows (letters s : List Char) (p : Pass) : Prop where
  inside : p.place ≤ s.length
  written : p.written ++ maskEach letters (s.drop p.place) = maskEach letters s

theorem slash?_eq_none (h : '\\' ∉ s.drop p.place) : slash? s p.place = none := by
  rw [slash?, List.idxOf?_eq_none_iff.mpr h, Option.map_none]

theorem slash?_eq_some (h : s.drop p.place = plain ++ '\\' :: rest) (hplain : '\\' ∉ plain) :
    slash? s p.place = some (p.place + plain.length) := by
  have hindex : (plain ++ '\\' :: rest).idxOf? '\\' = some plain.length := by
    refine List.idxOf?_eq_some_iff.mpr ⟨by simp, by simp, fun j hj heq => hplain ?_⟩
    rw [List.getElem_append_left hj] at heq
    exact heq ▸ List.getElem_mem hj
  rw [slash?, h, hindex, Option.map_some]

/-- What stands at a place behind the place of a pass. -/
theorem drop_place (plain : List Char) {n : Nat} (h : s.drop p.place = plain ++ rest)
    (hn : n = plain.length) : s.drop (p.place + n) = rest := by
  rw [← List.drop_drop, h, hn, List.drop_left]

theorem length_place (hp : p.place ≤ s.length) (h : s.drop p.place = rest) :
    s.length = p.place + rest.length := by
  rw [← h, List.length_drop]
  omega

/-- A round copies the rest, if there is no further backslash. -/
theorem Pass.round_plain (h : '\\' ∉ s.drop p.place) :
    p.round letters s = ⟨p.written ++ s.drop p.place, s.length⟩ := by
  simp only [round, slash?_eq_none h]

/-- A round copies what stands in front of the next backslash. -/
theorem extract_place (h : s.drop p.place = plain ++ '\\' :: rest) :
    s.extract p.place (p.place + plain.length) = plain := by
  rw [List.extract_eq_take_drop, h, Nat.add_sub_cancel_left, List.take_left]

/-- What stands behind the next backslash. -/
theorem getElem?_place (h : s.drop p.place = plain ++ '\\' :: rest) :
    s[p.place + plain.length + 1]? = rest.head? := by
  have hbehind : s.drop (p.place + (plain.length + 1)) = rest :=
    drop_place (plain ++ ['\\']) (by rw [h]; simp) (by simp)
  rw [Nat.add_assoc, ← List.head?_drop, hbehind]

theorem Pass.round_lone (h : s.drop p.place = plain ++ ['\\']) (hplain : '\\' ∉ plain) :
    p.round letters s = ⟨p.written ++ plain ++ ['\\'], p.place + plain.length + 1⟩ := by
  simp only [round, slash?_eq_some h hplain, extract_place h, getElem?_place h, List.head?_nil]

theorem Pass.round_pair (h : s.drop p.place = plain ++ '\\' :: c :: rest)
    (hplain : '\\' ∉ plain) :
    p.round letters s =
      ⟨p.written ++ plain ++ ['\\'] ++ [if letters.contains c then masked else c],
        p.place + plain.length + 2⟩ := by
  simp only [round, slash?_eq_some h hplain, extract_place h, getElem?_place h, List.head?_cons]

/-- A round goes on, and what it writes is what becomes of what it goes past. -/
theorem Pass.Follows.round (H : p.Follows letters s) (hp : p.place < s.length) :
    (p.round letters s).Follows letters s ∧ p.place < (p.round letters s).place := by
  by_cases hslash : '\\' ∈ s.drop p.place
  -- masking goes past what stands in front of the backslash, and takes the escape like the round
  · obtain ⟨plain, rest, h, hplain⟩ := List.eq_append_cons_of_mem hslash
    have hkept : ∀ c ∈ plain, c ≠ '\\' := fun c hc heq => hplain (heq ▸ hc)
    have hlength := length_place H.inside h
    have hwritten := H.written
    rw [h, maskEach_append hkept] at hwritten
    cases rest with
    | nil =>
      rw [round_lone h hplain]
      simp only [List.length_append, List.length_cons, List.length_nil] at hlength
      refine ⟨⟨by simp only; omega, ?_⟩, by simp only; omega⟩
      rw [← hwritten, List.drop_eq_nil_of_le (by simp only; omega)]
      simp [maskEach]
    | cons c rest =>
      rw [round_pair h hplain]
      simp only [List.length_append, List.length_cons] at hlength
      refine ⟨⟨by simp only; omega, ?_⟩, by simp only; omega⟩
      have hdrop : s.drop (p.place + plain.length + 2) = rest := by
        rw [Nat.add_assoc]
        exact drop_place (plain ++ ['\\', c]) (by rw [h]; simp) (by simp)
      rw [← hwritten, hdrop, maskEach_pair]
      simp
  · have hkept : ∀ c ∈ s.drop p.place, c ≠ '\\' := fun c hc heq => hslash (heq ▸ hc)
    rw [round_plain hslash]
    refine ⟨⟨Nat.le_refl _, ?_⟩, hp⟩
    rw [← H.written, maskEach_eq_self hkept, List.drop_length, maskEach, List.append_nil]

/-- With as many rounds as there are characters left, a pass comes to the end of the text. -/
theorem Pass.Follows.run (H : p.Follows letters s) {n : Nat} (hn : s.length ≤ p.place + n) :
    p.run letters s n = ⟨maskEach letters s, s.length⟩ := by
  have hdone {p : Pass} (H : p.Follows letters s) (hp : s.length ≤ p.place) :
      p = ⟨maskEach letters s, s.length⟩ := by
    obtain ⟨written, place⟩ := p
    have hplace : place = s.length := Nat.le_antisymm H.inside hp
    have hwritten := H.written
    rw [hplace, List.drop_length, maskEach, List.append_nil] at hwritten
    rw [hplace, ← hwritten]
  induction n generalizing p with
  | zero => exact hdone H hn
  | succ n ih =>
    rw [Pass.run]
    split
    · next hp =>
      obtain ⟨hround, hlt⟩ := H.round hp
      exact ih hround (by omega)
    · next hp => exact hdone H (Nat.le_of_not_lt hp)

theorem Pass.run_eq {n : Nat} (hn : s.length ≤ n) :
    Pass.run letters s n {} = ⟨mask letters s, s.length⟩ := by
  rw [mask_eq_maskEach]
  exact Pass.Follows.run ⟨Nat.zero_le _, rfl⟩ (by simpa using hn)

/-! ## Texts that are left alone -/

theorem hasPair_iff {a b : Char} : hasPair a b s = true ↔ [a, b] <:+: s := by
  fun_induction hasPair a b s with
  | case1 => simp
  | case2 c => simp [List.infix_cons_iff, List.cons_prefix_cons]
  | case3 c d rest ih =>
    have hhere : [a, b] <+: c :: d :: rest ↔ c = a ∧ d = b := by
      simp [List.cons_prefix_cons, @eq_comm _ a, @eq_comm _ b]
    have hsplit : [a, b] <:+: c :: d :: rest ↔ (c = a ∧ d = b) ∨ [a, b] <:+: d :: rest := by
      rw [← hhere]
      exact List.infix_cons_iff
    rw [Bool.or_eq_true, ih, hsplit, Bool.and_eq_true, beq_iff_eq, beq_iff_eq]

/-- A text is read in one way, and masking it masks its tokens one by one. A pass that goes from
backslash to backslash comes to the end of the text, in no more rounds than the text has characters,
and writes the same. So it makes no difference that a text is left alone where no letter stands
behind a backslash, whether that escapes it or is escaped itself. Masking keeps the length, and
changes nothing when it is done again. -/
theorem masked_escape_by_escape (letters s : List Char) :
    (∃! ts, Reads ts s) ∧
      (∀ ts, Reads ts s → ts.flatMap Token.chars = s ∧
        mask letters s = ts.flatMap fun t => (t.masked letters).chars) ∧
      (∀ n, s.length ≤ n → Pass.run letters s n {} = ⟨mask letters s, s.length⟩) ∧
      ((∀ c ∈ letters, ¬ ['\\', c] <:+: s) →
        mask letters s = s ∧ maskEach letters s = s ∧
          (Pass.run letters s s.length {}).written = s) ∧
      (mask letters s).length = s.length ∧
      mask letters (mask letters s) = mask letters s := by
  refine ⟨?_, fun ts h => ⟨h.flatMap_chars, ?_⟩, fun n => Pass.run_eq, fun h => ?_, ?_, ?_⟩
  · obtain ⟨ts, h⟩ := exists_reads s
    exact ⟨ts, h, fun ts' => h.unique⟩
  · rw [mask_eq_maskEach, ← h.masked.flatMap_chars, List.flatMap_map]
  · have hmask : mask letters s = s := by
      rw [mask, if_neg]
      simpa [hasPair_iff] using h
    exact ⟨hmask, mask_eq_maskEach ▸ hmask, by rw [Pass.run_eq (Nat.le_refl _), hmask]⟩
  · rw [mask_eq_maskEach, length_maskEach]
  · rw [mask_eq_maskEach, mask_eq_maskEach, maskEach_maskEach]

/-- An escaped backslash in front of a letter, the escape of the letter, and a backslash at the end.
-/
theorem masked_escape_by_escape_slashes :
    Reads [.pair '\\', .plain 'A', .pair 'A', .lone] "\\\\A\\A\\".toList ∧
      mask ['A'] "\\\\A\\A\\".toList = ['\\', '\\', 'A', '\\', masked, '\\'] ∧
      Pass.run ['A'] "\\\\A\\A\\".toList 6 {} = ⟨['\\', '\\', 'A', '\\', masked, '\\'], 6⟩ ∧
      (∀ c ∈ ['G'], ¬ ['\\', c] <:+: "\\\\A\\A\\".toList) ∧
      (Pass.run ['G'] "\\\\A\\A\\".toList 6 {}).written = "\\\\A\\A\\".toList := by
  have hreads : Reads [.pair '\\', .plain 'A', .pair 'A', .lone] "\\\\A\\A\\".toList :=
    .pair (.plain (by decide) (.pair .lone))
  have hpair (c : Char) (hc : c ∈ ['G']) : ¬ ['\\', c] <:+: "\\\\A\\A\\".toList := by
    rw [List.mem_singleton.mp hc, ← hasPair_iff]
    exact Bool.false_ne_true
  obtain ⟨_, htokens, hruns, _⟩ := masked_escape_by_escape ['A'] "\\\\A\\A\\".toList
  obtain ⟨_, _, _, hleft, _⟩ := masked_escape_by_escape ['G'] "\\\\A\\A\\".toList
  have hmask := (htokens _ hreads).2
  refine ⟨hreads, hmask, ?_, hpair, (hleft hpair).2.2⟩
  rw [hruns 6 (by decide), hmask]
  rfl

end Rubric.Pattern
