import Rubric.Proofs.Pattern.Expansion

/-!
# Masking and expanding

The anchors of a pattern may be masked before its references are replaced or after that
(`masking_commutes`): a text that replaces a reference is escaped, so no letter of it can become
part of an escape that is masked, and the escapes of the pattern around it stay as they were.
-/

namespace Rubric.Pattern

variable {letters s rest : List Char} {group : Nat → List Char}

/-- Masking goes past what stands in front of a text, if it goes past it in front of any text. -/
theorem map_maskEach_append {pre pre' : List Char} {x : Outcome (List Char)}
    (h : ∀ rest, maskEach letters (pre ++ rest) = pre' ++ maskEach letters rest) :
    (do return pre ++ (← x)).map (maskEach letters) =
      (do return pre' ++ (← x.map (maskEach letters))) := by
  cases x with
  | error e => rfl
  | ok rest => exact congrArg Except.ok (h rest)

/-- The pieces of a pattern are masked one by one, the texts of references not at all. -/
theorem map_maskEach_expandPieces (hletters : ∀ c ∈ letters, c ∉ special) (s : List Char) :
    (expandPieces group (pieces s)).map (maskEach letters) =
      expandPieces group ((pieces s).map (Piece.masked letters)) := by
  fun_induction pieces s with
  | case1 => rfl
  | case2 => rfl
  | case3 d rest hd ih =>
    have hmasked (ds : List Char) : (Piece.reference ds).masked letters = .reference ds := rfl
    rw [List.map_cons, hmasked, expandPieces_reference, expandPieces_reference, ← ih]
    cases referenceIndex _ with
    | error e => rfl
    | ok index => exact map_maskEach_append fun rest => maskEach_escaped hletters
  | case4 d rest hd ih =>
    rw [List.map_cons, Piece.masked, expandPieces_pair, expandPieces_pair, ← ih]
    have hpair (rest : List Char) : maskEach letters (['\\', d] ++ rest) =
        ['\\', if letters.contains d then masked else d] ++ maskEach letters rest := maskEach_pair
    exact map_maskEach_append hpair
  | case5 c rest hc ih =>
    have hplain (rest : List Char) :
        maskEach letters ([c] ++ rest) = [c] ++ maskEach letters rest := maskEach_plain hc
    have hmasked : (Piece.plain c).masked letters = .plain c := rfl
    rw [List.map_cons, hmasked, expandPieces_plain, expandPieces_plain, ← ih]
    exact map_maskEach_append hplain

theorem eq_of_expandPieces {ps : List Piece} {expanded : List Char}
    (h : expandPieces group ps = .ok expanded) :
    expanded = ps.flatMap (Piece.replaced fun ds => escaped (group (Text.digitsValue ds))) := by
  induction ps generalizing expanded with
  | nil => exact (Except.ok.inj h).symm
  | cons piece ps ih =>
    obtain ⟨chars, hpiece, h⟩ := bind_eq_ok.mp h
    obtain ⟨more, hmore, h⟩ := bind_eq_ok.mp h
    cases pure_eq_ok.mp h
    rw [List.flatMap_cons, ← ih hmore]
    congr 1
    cases piece with
    | plain | pair | lone => exact (Except.ok.inj hpiece).symm
    | reference ds =>
      obtain ⟨index, hindex, hpiece⟩ := bind_eq_ok.mp hpiece
      cases pure_eq_ok.mp hpiece
      unfold referenceIndex at hindex
      split at hindex
      · cases hindex
      · cases hindex
        rw [List.reverse_reverse]
        rfl

/-- It makes no difference whether anchors are masked before references are replaced or after that,
also where the pattern is refused. What is masked are the escapes of the pattern itself, whatever
the texts of the references: such a text stays as it is wherever it stands. -/
theorem masking_commutes (text : Array Char) (m : Regex.Match) (a : Anchoring)
    (pattern : List Char) :
    (expandWith text m pattern).map (anchored a) = expandWith text m (anchored a pattern) ∧
      (expandWith text m pattern).map (anchored a) =
        (expandWith text m pattern).map (fun _ => (pieces pattern).flatMap fun piece =>
          (piece.masked a.barred).replaced fun ds => escaped (captured text m ds)) ∧
      ∀ ds rest, anchored a (escaped (captured text m ds) ++ rest) =
        escaped (captured text m ds) ++ anchored a rest := by
  have hdigit (c : Char) (hc : c ∈ a.barred) := (mem_barred hc).1
  have hspecial (c : Char) (hc : c ∈ a.barred) := (mem_barred hc).2
  have hanchored : anchored a = maskEach a.barred := funext fun _ => mask_eq_maskEach
  have hcommutes : (expandWith text m pattern).map (anchored a) =
      expandWith text m (anchored a pattern) := by
    rw [hanchored, expandWith_eq, expandWith_eq, pieces_maskEach hdigit]
    exact map_maskEach_expandPieces hspecial pattern
  refine ⟨hcommutes, ?_, fun ds rest => ?_⟩
  · cases h : expandWith text m pattern with
    | error e => rfl
    | ok expanded =>
      rw [h, hanchored] at hcommutes
      have hmasked := hcommutes.symm
      rw [expandWith_eq, pieces_maskEach hdigit] at hmasked
      refine congrArg Except.ok ?_
      rw [hanchored, eq_of_expandPieces hmasked, List.flatMap_map]
      simp only [groupText_eq]
  · rw [hanchored]
    exact maskEach_escaped hspecial

/-- The text of the group is that of an anchor, and stays as it is behind a masked one. -/
example : ((expandWith #['\\', 'A'] ⟨0, 2, [some (0, 2)]⟩ "\\A\\1".toList).map
    (anchored ⟨false, true⟩)).toOption = some ['\\', masked, '\\', '\\', 'A'] := by
  decide

end Rubric.Pattern
