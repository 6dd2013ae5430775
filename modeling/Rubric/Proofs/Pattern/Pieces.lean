import Rubric.Grammar.Check
import Rubric.Proofs.Pattern.Backreference
import Rubric.Proofs.Regex.Layout

/-!
# The references of a pattern

Read from left to right, a pattern consists of characters and of backslashes with what they escape,
and a backslash in front of digits is a reference with all of them (`pieces`). References are
replaced by runs of backslashes (`expandFrom`), or by a search for the leftmost even run of them
that no backslash stands in front of and a reference behind (`substitute`). Either way the pieces
are replaced one by one (`expandFrom_eq`, `substitute_eq`).
-/

namespace Rubric.Pattern

/-- What a pattern consists of. -/
inductive Piece where
  /-- a character that is no backslash -/
  | plain (c : Char)
  /-- a backslash and what it escapes, which is no digit -/
  | pair (c : Char)
  /-- a backslash at the end -/
  | lone
  /-- a backslash and digits -/
  | reference (digits : List Char)
deriving DecidableEq, Repr

/-- The pieces of a pattern, from left to right. -/
def pieces : List Char → List Piece
  | [] => []
  | c :: rest =>
    if c = '\\' then
      match rest with
      | [] => [.lone]
      | d :: rest =>
        if Text.isAsciiDigit d then
          .reference (d :: rest.takeWhile Text.isAsciiDigit) ::
            pieces (rest.dropWhile Text.isAsciiDigit)
        else .pair d :: pieces rest
    else .plain c :: pieces rest
termination_by s => s.length
decreasing_by
  · have := (List.dropWhile_suffix (l := rest) Text.isAsciiDigit).length_le
    simp only [List.length_cons]
    omega
  · simp only [List.length_cons]
    omega
  · exact Nat.lt_succ_self _

namespace Piece

/-- The piece as it stands in the pattern. -/
def chars : Piece → List Char
  | plain c => [c]
  | pair c => ['\\', c]
  | lone => ['\\']
  | reference digits => '\\' :: digits

/-- The piece with a text in place of a reference. -/
def replaced (text : List Char → List Char) : Piece → List Char
  | reference digits => text digits
  | piece => piece.chars

/-- A reference is replaced by the escaped text of its group, if its number is not too long. -/
def expanded (group : Nat → List Char) : Piece → Outcome (List Char)
  | reference digits => do return escaped (group (← referenceIndex digits.reverse))
  | piece => .ok piece.chars

def isReference : Piece → Bool
  | reference _ => true
  | _ => false

end Piece

/-- The pieces with their references replaced, one after another. -/
def expandPieces (group : Nat → List Char) : List Piece → Outcome (List Char)
  | [] => .ok []
  | piece :: rest => do return (← piece.expanded group) ++ (← expandPieces group rest)

/-- A backslash and all the digits behind it, if there are any, and what follows. -/
def reference? : List Char → Option (List Char × List Char)
  | [] => none
  | c :: rest =>
    if c = '\\' && (rest.head?).any Text.isAsciiDigit then
      some (rest.takeWhile Text.isAsciiDigit, rest.dropWhile Text.isAsciiDigit)
    else none

/-- A reference behind as many pairs of backslashes as there can be. -/
def pairsThenReference? : List Char → Option (Nat × List Char × List Char)
  | a :: b :: rest =>
    ((if a = '\\' && b = '\\' then pairsThenReference? rest else none).map fun found =>
      (found.1 + 1, found.2)).or ((reference? (a :: b :: rest)).map (0, ·))
  | s => (reference? s).map (0, ·)

theorem length_of_reference? {s rest ds : List Char} (h : reference? s = some (ds, rest)) :
    rest.length < s.length := by
  cases s with
  | nil => cases h
  | cons c s =>
    rw [reference?] at h
    split at h
    · cases h
      exact Nat.lt_succ_of_le (List.dropWhile_suffix _).length_le
    · cases h

theorem length_of_pairsThenReference? {s : List Char} {found : Nat × List Char × List Char}
    (h : pairsThenReference? s = some found) : found.2.2.length < s.length := by
  have hhere {s : List Char} {found : Nat × List Char × List Char}
      (h : (reference? s).map (0, ·) = some found) : found.2.2.length < s.length := by
    obtain ⟨_, hfound, rfl⟩ := Option.map_eq_some_iff.mp h
    exact length_of_reference? hfound
  induction s using pairsThenReference?.induct generalizing found with
  | case1 a b s ih =>
    rw [pairsThenReference?, Option.or_eq_some_iff] at h
    obtain h | ⟨-, h⟩ := h
    · obtain ⟨inner, hinner, rfl⟩ := Option.map_eq_some_iff.mp h
      split at hinner
      · have hlt := ih hinner
        simp only [List.length_cons]
        omega
      · cases hinner
    · exact hhere h
  | case2 s hs =>
    rw [pairsThenReference?.eq_2 s hs] at h
    exact hhere h

/-- The pattern after a search from left to right for references behind pairs of backslashes, which
are replaced. None is found right behind a backslash. -/
def substitute (group : Nat → List Char) : (escaping : Bool) → List Char → Outcome (List Char)
  | _, [] => .ok []
  | escaping, c :: rest =>
    match _h : if escaping then none else pairsThenReference? (c :: rest) with
    | some (k, digits, behind) => do
      let text := escaped (group (← referenceIndex digits.reverse))
      return List.replicate (2 * k) '\\' ++ text ++ (← substitute group false behind)
    | none => do return c :: (← substitute group (c = '\\') rest)
termination_by _ s => s.length
decreasing_by
  · split at _h
    · cases _h
    · exact length_of_pairsThenReference? _h
  · exact Nat.lt_succ_self _

variable {group : Nat → List Char} {c d : Char} {s rest ds : List Char} {ps : List Piece}

/-! ## Reading the pieces -/

@[simp] theorem pieces_nil : pieces [] = [] := by rw [pieces]

theorem pieces_plain (hc : c ≠ '\\') : pieces (c :: rest) = .plain c :: pieces rest := by
  rw [pieces.eq_def]
  simp [hc]

@[simp] theorem pieces_lone : pieces ['\\'] = [.lone] := by rw [pieces, if_pos rfl]

theorem pieces_pair (hd : Text.isAsciiDigit d = false) :
    pieces ('\\' :: d :: rest) = .pair d :: pieces rest := by
  rw [pieces.eq_def]
  simp [hd]

theorem pieces_digit (hd : Text.isAsciiDigit d = true) :
    pieces ('\\' :: d :: rest) =
      .reference (d :: rest.takeWhile Text.isAsciiDigit) ::
        pieces (rest.dropWhile Text.isAsciiDigit) := by
  rw [pieces.eq_def]
  simp [hd]

/-- A reference takes all the digits behind its backslash. -/
theorem pieces_reference (hne : ds ≠ []) (hds : ∀ d ∈ ds, Text.isAsciiDigit d = true)
    (hrest : ∀ d, rest.head? = some d → Text.isAsciiDigit d = false) :
    pieces ('\\' :: (ds ++ rest)) = .reference ds :: pieces rest := by
  obtain ⟨d, ds, rfl⟩ := List.exists_cons_of_ne_nil hne
  obtain ⟨hd, hds⟩ := List.forall_mem_cons.mp hds
  have hstop : rest.takeWhile Text.isAsciiDigit = [] ∧ rest.dropWhile Text.isAsciiDigit = rest := by
    cases rest with
    | nil => exact ⟨rfl, rfl⟩
    | cons e rest => simp [hrest e rfl]
  rw [List.cons_append, pieces_digit hd, List.takeWhile_append_of_pos hds,
    List.dropWhile_append_of_pos hds, hstop.1, hstop.2, List.append_nil]

/-- Backslashes in pairs escape each other. -/
theorem pieces_replicate (k : Nat) :
    pieces (List.replicate (2 * k) '\\' ++ s) = List.replicate k (.pair '\\') ++ pieces s := by
  induction k with
  | zero => simp
  | succ k ih =>
    rw [Nat.mul_succ, List.replicate_succ, List.replicate_succ, List.cons_append, List.cons_append,
      pieces_pair rfl, ih, List.replicate_succ, List.cons_append]

/-- The pieces make up the pattern. -/
theorem flatMap_chars_pieces (s : List Char) : (pieces s).flatMap Piece.chars = s := by
  fun_induction pieces s with
  | case1 => rfl
  | case2 => rfl
  | case3 d rest hd ih => simp [Piece.chars, ih, List.takeWhile_append_dropWhile]
  | case4 d rest hd ih => simp [Piece.chars, ih]
  | case5 c rest hc ih => simp [Piece.chars, ih]

/-! ## Replacing by runs of backslashes -/

@[simp] theorem expandPieces_nil : expandPieces group [] = .ok [] := rfl

theorem expandPieces_reference :
    expandPieces group (.reference ds :: ps) =
      (do return escaped (group (← referenceIndex ds.reverse)) ++ (← expandPieces group ps)) := by
  rw [expandPieces, Piece.expanded]
  simp only [bind_assoc, pure_bind]

@[simp] theorem expandPieces_lone : expandPieces group [.lone] = .ok ['\\'] := rfl

@[simp] theorem expandPieces_plain :
    expandPieces group (.plain c :: ps) = (do return c :: (← expandPieces group ps)) := rfl

@[simp] theorem expandPieces_pair :
    expandPieces group (.pair c :: ps) = (do return '\\' :: c :: (← expandPieces group ps)) := rfl

theorem expandPieces_replicate (k : Nat) :
    expandPieces group (List.replicate k (.pair '\\') ++ ps) =
      (do return List.replicate (2 * k) '\\' ++ (← expandPieces group ps)) := by
  induction k with
  | zero => simp
  | succ k ih =>
    rw [List.replicate_succ, List.cons_append, expandPieces_pair, ih, Nat.mul_succ,
      List.replicate_succ, List.replicate_succ]
    simp only [bind_assoc, pure_bind, List.cons_append]

/-- Backslashes in pairs stay. -/
theorem expandPieces_even (k : Nat) :
    expandPieces group (pieces (List.replicate (2 * k) '\\' ++ s)) =
      (do return List.replicate (2 * k) '\\' ++ (← expandPieces group (pieces s))) := by
  rw [pieces_replicate, expandPieces_replicate]

/-- Of an odd number of backslashes, the last one belongs to what follows. -/
theorem expandPieces_odd (k : Nat) :
    expandPieces group (pieces (List.replicate (2 * k + 1) '\\' ++ s)) =
      (do return List.replicate (2 * k) '\\' ++ (← expandPieces group (pieces ('\\' :: s)))) := by
  rw [List.replicate_succ', List.append_assoc, expandPieces_even, List.singleton_append]

/-- Runs of backslashes and references that are read in part stand for what has been read of them.
-/
theorem expandFrom_eq (s : List Char) :
    expandFrom group .plain s = expandPieces group (pieces s) ∧
      (∀ n, expandFrom group (.slashes n) s =
        expandPieces group (pieces (List.replicate n '\\' ++ s))) ∧
      ∀ ds, ds ≠ [] → (∀ d ∈ ds, Text.isAsciiDigit d = true) →
        expandFrom group (.digits ds) s =
          expandPieces group (pieces ('\\' :: (ds.reverse ++ s))) := by
  have hreference {ds s : List Char} (hne : ds ≠ []) (hds : ∀ d ∈ ds, Text.isAsciiDigit d = true)
      (hs : ∀ d, s.head? = some d → Text.isAsciiDigit d = false) :
      expandPieces group (pieces ('\\' :: (ds.reverse ++ s))) =
        (do return escaped (group (← referenceIndex ds)) ++ (← expandPieces group (pieces s))) := by
    rw [pieces_reference (by simpa using hne) (by simpa using hds) hs, expandPieces_reference,
      List.reverse_reverse]
  induction s with
  | nil =>
    refine ⟨by simp [expandFrom], fun n => ?_, fun ds hne hds => ?_⟩
    · obtain ⟨k, rfl | rfl⟩ : ∃ k, n = 2 * k ∨ n = 2 * k + 1 := ⟨n / 2, by omega⟩
      · rw [expandPieces_even, pieces_nil]
        simp [expandFrom]
      · rw [expandPieces_odd, pieces_lone, expandPieces_lone, expandFrom, List.replicate_succ']
        rfl
    · rw [hreference hne hds (by simp), pieces_nil, expandFrom]
      simp only [expandPieces_nil, ok_bind, List.append_nil]
  | cons c rest ih =>
    obtain ⟨hplain, hslashes, hdigits⟩ := ih
    by_cases hc : c = '\\'
    · subst hc
      refine ⟨?_, fun n => ?_, fun ds hne hds => ?_⟩
      · rw [expandFrom, if_pos rfl, hslashes]
        rfl
      · rw [expandFrom, if_pos rfl, hslashes, List.replicate_succ', List.append_assoc,
          List.singleton_append]
      · rw [hreference hne hds (by rintro _ ⟨⟩; rfl), expandFrom, if_neg (by decide)]
        simp [hslashes 1]
    · refine ⟨?_, fun n => ?_, fun ds hne hds => ?_⟩
      · rw [expandFrom, if_neg hc, hplain, pieces_plain hc, expandPieces_plain]
      · rw [expandFrom, if_neg hc]
        obtain ⟨k, rfl | rfl⟩ : ∃ k, n = 2 * k ∨ n = 2 * k + 1 := ⟨n / 2, by omega⟩
        · simp [expandPieces_even, pieces_plain hc, hplain]
        · cases hd : Text.isAsciiDigit c with
          | true =>
            simp [expandPieces_odd, hdigits [c] (by simp) (by simpa using hd), Nat.add_mod]
          | false =>
            rw [expandPieces_odd, pieces_pair hd, expandPieces_pair, hplain, List.replicate_succ']
            simp
      · rw [expandFrom]
        cases hd : Text.isAsciiDigit c with
        | true =>
          rw [if_pos rfl, hdigits (c :: ds) (by simp) (List.forall_mem_cons.mpr ⟨hd, hds⟩)]
          simp
        | false =>
          rw [hreference hne hds (by rintro _ ⟨⟩; exact hd)]
          simp [hc, hplain, pieces_plain hc]

/-! ## Replacing by search -/

theorem reference?_of_ne (hs : s.head? ≠ some '\\') : reference? s = none := by
  cases s with
  | nil => rfl
  | cons c rest =>
    have hc : c ≠ '\\' := fun h => hs (by rw [h]; rfl)
    simp [reference?, hc]

theorem pairsThenReference?_of_ne (hs : s.head? ≠ some '\\') : pairsThenReference? s = none := by
  rw [pairsThenReference?.eq_def]
  split
  · next a b rest =>
    have ha : a ≠ '\\' := fun h => hs (by rw [h]; rfl)
    simp [ha, reference?_of_ne hs]
  · rw [reference?_of_ne hs]
    rfl

theorem pairsThenReference?_one (hs : s.head? ≠ some '\\') :
    pairsThenReference? ('\\' :: s) = (reference? ('\\' :: s)).map (0, ·) := by
  cases s with
  | nil => rfl
  | cons c rest =>
    have hc : c ≠ '\\' := fun h => hs (by rw [h]; rfl)
    simp [pairsThenReference?, hc]

theorem pairsThenReference?_even (hs : s.head? ≠ some '\\') (k : Nat) :
    pairsThenReference? (List.replicate (2 * k) '\\' ++ s) = none := by
  induction k with
  | zero => simpa using pairsThenReference?_of_ne hs
  | succ k ih =>
    rw [Nat.mul_succ, List.replicate_succ, List.replicate_succ, List.cons_append, List.cons_append,
      pairsThenReference?, ih]
    rfl

theorem pairsThenReference?_odd (hs : s.head? ≠ some '\\') (k : Nat) :
    pairsThenReference? (List.replicate (2 * k + 1) '\\' ++ s) =
      (reference? ('\\' :: s)).map (k, ·) := by
  induction k with
  | zero => exact pairsThenReference?_one hs
  | succ k ih =>
    rw [show 2 * (k + 1) + 1 = 2 * k + 1 + 1 + 1 by omega, List.replicate_succ, List.replicate_succ,
      List.cons_append, List.cons_append, pairsThenReference?, ih]
    cases reference? ('\\' :: s) <;> rfl

theorem substitute_found {k : Nat} (hne : s ≠ [])
    (h : pairsThenReference? s = some (k, ds, rest)) :
    substitute group false s = (do
      let text := escaped (group (← referenceIndex ds.reverse))
      return List.replicate (2 * k) '\\' ++ text ++ (← substitute group false rest)) := by
  obtain ⟨c, s, rfl⟩ := List.exists_cons_of_ne_nil hne
  rw [substitute]
  split
  · next heq =>
    rw [if_neg Bool.false_ne_true, h] at heq
    cases heq
    rfl
  · next heq =>
    rw [if_neg Bool.false_ne_true, h] at heq
    cases heq

theorem substitute_missed {escaping : Bool}
    (h : escaping = true ∨ pairsThenReference? (c :: s) = none) :
    substitute group escaping (c :: s) = (do return c :: (← substitute group (c = '\\') s)) := by
  have hnone : (if escaping then none else pairsThenReference? (c :: s)) = none := by
    obtain rfl | h := h
    · rfl
    · rw [h, ite_self]
  rw [substitute]
  split
  · next heq =>
    rw [hnone] at heq
    cases heq
  · rfl

/-- Nothing is found in a run of backslashes that one more stands in front of. -/
theorem substitute_replicate (n : Nat) :
    substitute group true (List.replicate n '\\' ++ s) =
      (do return List.replicate n '\\' ++ (← substitute group true s)) := by
  induction n with
  | zero => simp
  | succ n ih =>
    rw [List.replicate_succ, List.cons_append, substitute_missed (.inl rfl)]
    simp [ih]

/-- A run of backslashes in which nothing is found stays. -/
theorem substitute_run {escaping : Bool} {n : Nat} (hs : s.head? ≠ some '\\')
    (h : escaping = true ∨ pairsThenReference? (List.replicate n '\\' ++ s) = none) :
    substitute group escaping (List.replicate n '\\' ++ s) =
      (do return List.replicate n '\\' ++ (← substitute group false s)) := by
  have hplain {escaping : Bool} : substitute group escaping s = substitute group false s := by
    cases s with
    | nil => simp only [substitute]
    | cons c s =>
      have hnone := pairsThenReference?_of_ne hs
      rw [substitute_missed (.inr hnone), substitute_missed (.inr hnone)]
  cases n with
  | zero => simpa using hplain
  | succ n =>
    rw [List.replicate_succ, List.cons_append] at h ⊢
    rw [substitute_missed h]
    simp [substitute_replicate, hplain]

theorem exists_run (s : List Char) :
    ∃ n t, s = List.replicate n '\\' ++ t ∧ t.head? ≠ some '\\' := by
  induction s with
  | nil => exact ⟨0, [], rfl, by simp⟩
  | cons c s ih =>
    by_cases hc : c = '\\'
    · obtain ⟨n, t, rfl, ht⟩ := ih
      exact ⟨n + 1, t, by rw [hc]; rfl, ht⟩
    · exact ⟨0, c :: s, rfl, by simpa using hc⟩

theorem reference?_digit (hd : Text.isAsciiDigit d = true) :
    reference? ('\\' :: d :: s) =
      some (d :: s.takeWhile Text.isAsciiDigit, s.dropWhile Text.isAsciiDigit) := by
  simp [reference?, hd]

theorem reference?_of_isAsciiDigit_eq_false (hd : Text.isAsciiDigit d = false) :
    reference? ('\\' :: d :: s) = none := by
  simp [reference?, hd]

/-- The search replaces the pieces. -/
theorem substitute_eq (s : List Char) :
    substitute group false s = expandPieces group (pieces s) := by
  induction hlength : s.length using Nat.strongRecOn generalizing s with | _ _ ih
  obtain ⟨n, t, rfl, ht⟩ := exists_run s
  rw [List.length_append, List.length_replicate] at hlength
  have hplain : substitute group false t = expandPieces group (pieces t) := by
    cases t with
    | nil => simp [substitute]
    | cons c t =>
      have hc : c ≠ '\\' := fun h => ht (by rw [h]; rfl)
      rw [substitute_missed (.inr (pairsThenReference?_of_ne ht)), pieces_plain hc,
        expandPieces_plain, decide_eq_false hc, ih t.length (by simp at hlength; omega) t rfl]
  obtain ⟨k, rfl | rfl⟩ : ∃ k, n = 2 * k ∨ n = 2 * k + 1 := ⟨n / 2, by omega⟩
  · rw [substitute_run ht (.inr (pairsThenReference?_even ht k)), hplain, expandPieces_even]
  have hodd := pairsThenReference?_odd ht k
  rw [expandPieces_odd]
  cases t with
  | nil =>
    rw [substitute_run ht (.inr hodd), hplain, pieces_nil, pieces_lone, List.replicate_succ']
    simp only [expandPieces_nil, expandPieces_lone, ok_bind, List.append_nil]
  | cons c t =>
    have hc : c ≠ '\\' := fun h => ht (by rw [h]; rfl)
    cases hd : Text.isAsciiDigit c with
    | true =>
      have hlt := (List.dropWhile_suffix (l := t) Text.isAsciiDigit).length_le
      rw [reference?_digit hd] at hodd
      rw [substitute_found (by simp) hodd, ih _ (by simp at hlength; omega) (t.dropWhile _) rfl,
        pieces_digit hd, expandPieces_reference]
      simp
    | false =>
      rw [reference?_of_isAsciiDigit_eq_false hd] at hodd
      rw [substitute_run ht (.inr hodd), hplain, pieces_plain hc, pieces_pair hd,
        List.replicate_succ']
      simp

/-! ## The references of a pattern -/

theorem expandPieces_eq_ok (h : ∀ ds, .reference ds ∈ ps → ds.length ≤ Json.digitLimit) :
    expandPieces group ps =
      .ok (ps.flatMap (Piece.replaced fun ds => escaped (group (Text.digitsValue ds)))) := by
  induction ps with
  | nil => rfl
  | cons piece ps ih =>
    have hpiece : piece.expanded group =
        .ok (piece.replaced fun ds => escaped (group (Text.digitsValue ds))) := by
      cases piece with
      | plain | pair | lone => rfl
      | reference ds =>
        have hds : ¬ Json.digitLimit < ds.length := Nat.not_lt.mpr (h ds List.mem_cons_self)
        simp [Piece.expanded, Piece.replaced, referenceIndex, hds]
    rw [expandPieces, hpiece, ih fun ds hds => h ds (List.mem_cons_of_mem _ hds)]
    rfl

theorem refersFrom_eq (n : Nat) (s : List Char) :
    refersFrom n s = (pieces (List.replicate n '\\' ++ s)).any Piece.isReference := by
  induction s generalizing n with
  | nil =>
    obtain ⟨k, rfl | rfl⟩ : ∃ k, n = 2 * k ∨ n = 2 * k + 1 := ⟨n / 2, by omega⟩
    · rw [pieces_replicate]
      simp [refersFrom, Piece.isReference]
    · rw [List.replicate_succ', List.append_assoc, pieces_replicate]
      simp [refersFrom, Piece.isReference]
  | cons c rest ih =>
    by_cases hc : c = '\\'
    · rw [refersFrom, if_pos hc, ih, List.replicate_succ', List.append_assoc, hc]
      rfl
    · rw [refersFrom, if_neg hc, ih]
      obtain ⟨k, rfl | rfl⟩ : ∃ k, n = 2 * k ∨ n = 2 * k + 1 := ⟨n / 2, by omega⟩
      · rw [pieces_replicate, pieces_plain hc]
        simp [Piece.isReference]
      · rw [List.replicate_succ', List.append_assoc, pieces_replicate]
        cases hd : Text.isAsciiDigit c with
        | true => simp [pieces_digit hd, Piece.isReference, Nat.add_mod]
        | false => simp [pieces_pair hd, Piece.isReference]

theorem refers_iff : refers s = true ↔ ∃ ds, Piece.reference ds ∈ pieces s := by
  rw [refers, refersFrom_eq, List.replicate_zero, List.nil_append, List.any_eq_true]
  constructor
  · rintro ⟨piece, hmem, h⟩
    cases piece with
    | reference ds => exact ⟨ds, hmem⟩
    | plain | pair | lone => cases h
  · rintro ⟨ds, hmem⟩
    exact ⟨_, hmem, rfl⟩

/-! ## The search for references -/

/-- A search from left to right finds a reference behind pairs of backslashes, and not right behind
a backslash. -/
def FoundIn (s : List Char) : Prop :=
  ∃ front rest, s = front ++ rest ∧ front.getLast? ≠ some '\\' ∧
    (pairsThenReference? rest).isSome = true

theorem not_foundIn_replicate (n : Nat) : ¬ FoundIn (List.replicate n '\\') := by
  rintro ⟨front, rest, heq, hlast, hsome⟩
  obtain ⟨-, hfront, hrest⟩ := List.append_eq_replicate_iff.mp heq.symm
  have hnone : front = [] := by
    rw [hfront] at hlast
    cases front with
    | nil => rfl
    | cons c front => simp [List.replicate_succ'] at hlast
  rw [hrest, ← List.append_nil (List.replicate _ _)] at hsome
  obtain ⟨k, hk | hk⟩ : ∃ k, rest.length = 2 * k ∨ rest.length = 2 * k + 1 :=
    ⟨rest.length / 2, by omega⟩
  · rw [hk, pairsThenReference?_even (by simp)] at hsome
    cases hsome
  · rw [hk, pairsThenReference?_odd (by simp)] at hsome
    cases hsome

/-- It finds one at a run of backslashes, or behind the character that ends the run. -/
theorem foundIn_run {n : Nat} (hc : c ≠ '\\') : FoundIn (List.replicate n '\\' ++ c :: s) ↔
    (pairsThenReference? (List.replicate n '\\' ++ c :: s)).isSome = true ∨ FoundIn s := by
  have hlast (front : List Char) : (List.replicate n '\\' ++ c :: front).getLast? ≠ some '\\' ↔
      front.getLast? ≠ some '\\' := by
    rw [List.getLast?_append, List.getLast?_cons, Option.some_or]
    cases front.getLast? <;> simp [hc]
  constructor
  · rintro ⟨front, rest, heq, hbehind, hsome⟩
    obtain ⟨inner, rfl, htail⟩ | ⟨inner, hrun, rfl⟩ := List.append_eq_append_iff.mp heq
    · cases inner with
      | nil =>
        rw [List.nil_append] at htail
        rw [← htail, pairsThenReference?_of_ne (by simpa using hc)] at hsome
        cases hsome
      | cons d inner =>
        obtain ⟨rfl, rfl⟩ := List.cons.inj htail
        exact .inr ⟨inner, rest, rfl, (hlast inner).mp hbehind, hsome⟩
    · cases front with
      | nil =>
        rw [hrun]
        exact .inl hsome
      | cons d front =>
        obtain ⟨-, hfront, -⟩ := List.append_eq_replicate_iff.mp hrun.symm
        rw [hfront] at hbehind
        simp [List.replicate_succ'] at hbehind
  · rintro (hsome | ⟨front, rest, rfl, hbehind, hsome⟩)
    · exact ⟨[], _, rfl, by simp, hsome⟩
    · exact ⟨List.replicate n '\\' ++ c :: front, rest, by simp, (hlast front).mpr hbehind, hsome⟩

/-- The runs of backslashes tell what the search finds. -/
theorem refers_iff_foundIn : refers s = true ↔ FoundIn s := by
  induction hlength : s.length using Nat.strongRecOn generalizing s with | _ _ ih
  obtain ⟨n, t, rfl, ht⟩ := exists_run s
  rw [refers, refersFrom_eq, List.replicate_zero, List.nil_append, ← refersFrom_eq]
  cases t with
  | nil => simp [refersFrom, not_foundIn_replicate]
  | cons c t =>
    have hc : c ≠ '\\' := fun h => ht (by rw [h]; rfl)
    have hrest := ih t.length (by simp at hlength; omega) rfl
    rw [refersFrom, if_neg hc, foundIn_run hc, Bool.or_eq_true, ← hrest]
    refine or_congr ?_ Iff.rfl
    obtain ⟨k, rfl | rfl⟩ : ∃ k, n = 2 * k ∨ n = 2 * k + 1 := ⟨n / 2, by omega⟩
    · simp [pairsThenReference?_even ht]
    · rw [pairsThenReference?_odd ht]
      cases hd : Text.isAsciiDigit c with
      | true => simp [reference?_digit hd, Nat.add_mod]
      | false => simp [reference?_of_isAsciiDigit_eq_false hd]

/-- The text of the group that the digits name, empty if it took no part or does not exist. -/
def captured (text : Array Char) (m : Regex.Match) (digits : List Char) : List Char :=
  ((m.span? (Text.digitsValue digits)).map (slice text)).getD []

theorem groupText_eq (text : Array Char) (m : Regex.Match) (digits : List Char) :
    groupText text m (Text.digitsValue digits) = captured text m digits := by
  have hspan (index : Nat) :
      groupSpan? m index = (some (m.start, m.stop) :: m.groups)[index]? := by
    simp [groupSpan?]
  rw [groupText, hspan, captured, Regex.Match.span?]
  rcases (some (m.start, m.stop) :: m.groups)[Text.digitsValue digits]? with _ | _ | span <;> rfl

theorem expandWith_eq (text : Array Char) (m : Regex.Match) (pattern : List Char) :
    expandWith text m pattern = expandPieces (groupText text m) (pieces pattern) :=
  (expandFrom_eq pattern).1

theorem expandWith_eq_ok {text : Array Char} {m : Regex.Match} {pattern : List Char}
    (hdigits : ∀ ds, .reference ds ∈ pieces pattern → ds.length ≤ Json.digitLimit) :
    expandWith text m pattern =
      .ok ((pieces pattern).flatMap (Piece.replaced fun ds => escaped (captured text m ds))) := by
  rw [expandWith_eq, expandPieces_eq_ok hdigits]
  simp only [groupText_eq]

/-- The pieces make up the pattern, and what ends a rule is what they become when each reference is
replaced by the escaped text of its group. The search for references replaces the same. Some
reference stands in the pattern if and only if `refers` says so, and that is what the search finds.
A pattern that is checked before its first use stays as it is. -/
theorem references_replaced (text : Array Char) (m : Regex.Match) (pattern : List Char)
    (hdigits : ∀ ds, .reference ds ∈ pieces pattern → ds.length ≤ Json.digitLimit) :
    (pieces pattern).flatMap Piece.chars = pattern ∧
      expandWith text m pattern =
        .ok ((pieces pattern).flatMap (Piece.replaced fun ds => escaped (captured text m ds))) ∧
      substitute (groupText text m) false pattern = expandWith text m pattern ∧
      (refers pattern = true ↔ ∃ ds, Piece.reference ds ∈ pieces pattern) ∧
      (refers pattern = true ↔ FoundIn pattern) ∧
      (withoutReferences (some (.str (String.ofList pattern))) ≠ [] →
        expandWith text m pattern = .ok pattern) := by
  refine ⟨flatMap_chars_pieces pattern, expandWith_eq_ok hdigits, ?_, refers_iff,
    refers_iff_foundIn, fun h => ?_⟩
  · rw [expandWith_eq, substitute_eq]
  · refine expand_eq_self (Bool.eq_false_iff.mpr fun hrefers => h ?_)
    rw [withoutReferences, String.toList_ofList, if_pos hrefers]

/-- An escaped backslash in front of a digit, a reference behind one, and a reference to a group
that does not exist. -/
theorem references_replaced_star :
    (∀ ds, .reference ds ∈ pieces "\\\\1\\\\\\1(\\2)".toList → ds.length ≤ Json.digitLimit) ∧
      expandWith #['x', '*'] ⟨1, 2, [some (1, 2)]⟩ "\\\\1\\\\\\1(\\2)".toList =
        .ok "\\\\1\\\\\\*()".toList := by
  have hpieces : pieces "\\\\1\\\\\\1(\\2)".toList =
      [.pair '\\', .plain '1', .pair '\\', .reference ['1'], .plain '(', .reference ['2'],
        .plain ')'] := by
    simp [pieces, Text.isAsciiDigit]
  have hdigits (ds : List Char) (h : .reference ds ∈ pieces "\\\\1\\\\\\1(\\2)".toList) :
      ds.length ≤ Json.digitLimit := by
    rw [hpieces] at h
    have hds : ds = ['1'] ∨ ds = ['2'] := by simpa using h
    obtain rfl | rfl := hds <;> decide
  refine ⟨hdigits, ?_⟩
  rw [(references_replaced #['x', '*'] ⟨1, 2, [some (1, 2)]⟩ _ hdigits).2.1, hpieces]
  rfl

end Rubric.Pattern
