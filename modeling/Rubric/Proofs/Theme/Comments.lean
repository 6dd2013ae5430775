import Rubric.Proofs.Json.Meaning
import Rubric.Theme.Reader

/-!
# Comments in theme files

A JSON text may have lines of comment between its lines (`Commented`). Its lines hold its tokens,
each on one line (`Laid`), and none of them begins like a comment, so that what is left without the
comments is woven from the same tokens (`Laid.uncomment`). The theme is that of the text without
comments (`comments_invisible`).
-/

namespace Rubric

open JsonText (IsToken Value Woven blanks)

/-- The line has two slashes behind white space at its start. -/
def IsComment (line : List Char) : Prop :=
  ∃ indent rest, line = indent ++ '/' :: '/' :: rest ∧ ∀ c ∈ indent, Text.isBlank c = true

/-- The lines, and these lines with lines of comment between them, in front of them or behind them.
-/
inductive Commented : (lines commented : List (List Char)) → Prop
  | nil : Commented [] []
  | line : Commented lines commented → Commented (line :: lines) (line :: commented)
  | comment : IsComment line → Commented lines commented → Commented lines (line :: commented)

/-- The lines of the text of a file, with line ends of any kind. -/
def fileLines (text : List Char) : List (List Char) :=
  Text.splitAt '\n' (Text.unifyNewlines text)

/-- The lines hold the tokens, each on one line, and some lines may hold a comment instead. -/
inductive Laid : (tokens lines : List (List Char)) → Prop
  | nil : Laid [] []
  | line : Woven ts line → Laid us lines → Laid (ts ++ us) (line :: lines)
  | comment : IsComment line → Laid ts lines → Laid ts (line :: lines)

/-! ## The lines of a text -/

theorem JsonText.IsToken.flat {t : List Char} (h : IsToken t) : '\n' ∉ t :=
  h.printable.flat

/-- A woven text behind what was read of its first line. -/
theorem Laid.splitFrom {ts us : List (List Char)} {text piece : List Char} (h : Woven us text)
    (hpiece : Woven ts piece.reverse) : Laid (ts ++ us) (Text.splitFrom '\n' piece text) := by
  induction h generalizing ts piece with
  | nil => exact .line hpiece .nil
  | @blank c us text hc _ ih =>
    rw [Text.splitFrom]
    split
    · exact .line hpiece (@ih [] [] .nil)
    · refine ih ?_
      have h := hpiece.append (.blank hc .nil)
      rwa [List.append_nil, ← List.reverse_cons] at h
  | token ht _ ih =>
    rw [Text.splitFrom_append ht.flat, List.append_cons]
    refine ih ?_
    rw [List.reverse_append, List.reverse_reverse]
    exact hpiece.append (.singleton ht)

theorem Laid.of_woven {ts : List (List Char)} {text : List Char} (h : Woven ts text) :
    Laid ts (fileLines text) :=
  @Laid.splitFrom [] _ _ [] h.unifyNewlines .nil

/-- Comments do not matter to the tokens that lines hold. -/
theorem Laid.commented {ts lines commented : List (List Char)} (h : Laid ts lines)
    (hc : Commented lines commented) : Laid ts commented := by
  induction hc generalizing ts with
  | nil => exact h
  | line _ ih =>
    cases h with
    | line hline hrest => exact .line hline (ih hrest)
    | comment hline hrest => exact .comment hline (ih hrest)
  | comment hline _ ih => exact .comment hline (ih h)

/-! ## What is left without comments -/

theorem uncomment_inLine_cons (c : Char) (rest : List Char) : uncomment .inLine (c :: rest) =
    c :: if c = '\n' then uncomment (.lineStart []) rest else uncomment .inLine rest := rfl

theorem uncomment_inComment_cons (c : Char) (rest : List Char) :
    uncomment .inComment (c :: rest) =
      if c = '\n' then c :: uncomment (.lineStart []) rest else uncomment .inComment rest := rfl

theorem uncomment_blank {c : Char} (hc : Text.isBlank c = true) (before rest : List Char) :
    uncomment (.lineStart before) (c :: rest) = uncomment (.lineStart (c :: before)) rest := by
  rw [uncomment, if_pos hc]
  rintro _ rfl
  exact absurd hc (by decide)

theorem uncomment_slashes (before rest : List Char) :
    uncomment (.lineStart before) ('/' :: '/' :: rest) = uncomment .inComment rest := rfl

/-- A line that does not begin like a comment. -/
theorem uncomment_plain {c : Char} {rest : List Char} (hc : Text.isBlank c = false)
    (hslash : c = '/' → rest.head? ≠ some '/') (before : List Char) :
    uncomment (.lineStart before) (c :: rest) = before.reverse ++ c :: uncomment .inLine rest := by
  rw [uncomment, if_neg (by simp [hc])]
  rintro _ rfl rfl
  exact hslash rfl rfl

theorem uncomment_inLine {line : List Char} (h : '\n' ∉ line) (rest : List Char) :
    uncomment .inLine (line ++ '\n' :: rest) = line ++ '\n' :: uncomment (.lineStart []) rest := by
  induction line with
  | nil => rfl
  | cons c line ih =>
    simp only [List.mem_cons, not_or] at h
    rw [List.cons_append, uncomment_inLine_cons, if_neg (Ne.symm h.1), ih h.2, List.cons_append]

theorem uncomment_inComment {line : List Char} (h : '\n' ∉ line) (rest : List Char) :
    uncomment .inComment (line ++ '\n' :: rest) = '\n' :: uncomment (.lineStart []) rest := by
  induction line with
  | nil => rfl
  | cons c line ih =>
    simp only [List.mem_cons, not_or] at h
    rw [List.cons_append, uncomment_inComment_cons, if_neg (Ne.symm h.1), ih h.2]

/-- A comment goes, with all white space in front of it, up to the end of its line. -/
theorem uncomment_comment {line : List Char} (h : IsComment line) (hflat : '\n' ∉ line)
    (before rest : List Char) : uncomment (.lineStart before) (line ++ '\n' :: rest) =
      '\n' :: uncomment (.lineStart []) rest := by
  obtain ⟨indent, comment, rfl, hindent⟩ := h
  induction indent generalizing before with
  | nil =>
    simp only [List.nil_append, List.mem_cons, not_or] at hflat
    rw [List.nil_append, List.cons_append, List.cons_append, uncomment_slashes]
    exact uncomment_inComment hflat.2.2 rest
  | cons c indent ih =>
    obtain ⟨hc, hindent⟩ := List.forall_mem_cons.mp hindent
    simp only [List.cons_append, List.mem_cons, not_or] at hflat
    rw [List.cons_append, List.cons_append, uncomment_blank hc]
    exact ih (c :: before) hindent hflat.2

/-- What is left of a line without a comment holds its tokens, if what is left behind it holds its
own, whatever white space comes before that. -/
theorem uncomment_woven {ts us : List (List Char)} {line rest before : List Char}
    (h : Woven ts line) (hflat : '\n' ∉ line)
    (hrest : ∀ before ⊆ blanks, Woven us (uncomment (.lineStart before) rest))
    (hbefore : before ⊆ blanks) :
    Woven (ts ++ us) (uncomment (.lineStart before) (line ++ '\n' :: rest)) := by
  have hblanks : ∀ c ∈ blanks, Text.isBlank c = true := List.all_iff_forall_prop.mp (by decide)
  induction h generalizing before with
  | nil =>
    rw [List.nil_append, List.nil_append, uncomment_blank (by decide)]
    exact hrest _ (List.cons_subset.mpr ⟨by decide, hbefore⟩)
  | blank hc _ ih =>
    simp only [List.mem_cons, not_or] at hflat
    rw [List.cons_append, uncomment_blank (hblanks _ hc)]
    exact ih hflat.2 (List.cons_subset.mpr ⟨hc, hbefore⟩)
  | @token t ts text ht htext =>
    obtain ⟨c, more, rfl, hc⟩ := ht.starts
    have hstarts : ∀ c ∈ JsonText.tokenStarts, Text.isBlank c = false ∧ c ≠ '/' :=
      List.all_iff_forall_prop.mp (by decide)
    obtain ⟨hblank, hslash⟩ := hstarts c hc
    simp only [List.cons_append, List.mem_cons, not_or] at hflat
    have hleft : uncomment (.lineStart before) ((c :: more) ++ text ++ '\n' :: rest) =
        before.reverse ++ ((c :: more) ++ (text ++ '\n' :: uncomment (.lineStart []) rest)) := by
      rw [List.cons_append, List.cons_append, uncomment_plain hblank (absurd · hslash),
        uncomment_inLine hflat.2, List.append_assoc, List.cons_append]
    rw [hleft]
    have hgap : Woven [] before.reverse :=
      .of_blanks fun c hc => hbefore (List.mem_reverse.mp hc)
    refine hgap.append (.token ht (htext.append ?_))
    exact .blank (by decide) (hrest [] (List.nil_subset _))

/-- What is left of lines holds their tokens. -/
theorem Laid.uncomment {ts lines : List (List Char)} {before : List Char} (h : Laid ts lines)
    (hflat : ∀ line ∈ lines, '\n' ∉ line) (hbefore : before ⊆ blanks) :
    Woven ts (uncomment (.lineStart before) (lines.flatMap (· ++ ['\n']))) := by
  induction h generalizing before with
  | nil => exact .of_blanks fun c hc => hbefore (List.mem_reverse.mp hc)
  | line hline _ ih =>
    obtain ⟨hflat, hlines⟩ := List.forall_mem_cons.mp hflat
    rw [List.flatMap_cons, List.append_assoc]
    exact uncomment_woven hline hflat (fun _ hbefore => ih hlines hbefore) hbefore
  | comment hline _ ih =>
    obtain ⟨hflat, hlines⟩ := List.forall_mem_cons.mp hflat
    rw [List.flatMap_cons, List.append_assoc, List.singleton_append,
      uncomment_comment hline hflat]
    exact .blank (by decide) (ih hlines (List.nil_subset _))

/-- A newline at the end stays. -/
theorem uncomment_concat (place : CommentPlace) (text : List Char) :
    uncomment place (text ++ ['\n']) = uncomment place text ++ ['\n'] := by
  fun_induction Rubric.uncomment place text with
  | case1 before =>
    rw [List.nil_append, uncomment_blank (by decide)]
    exact List.reverse_cons
  | case2 before c rest hc ih => rw [List.cons_append, uncomment_blank hc, ih]
  | case3 before rest hslash ih =>
    rw [List.cons_append, List.cons_append, uncomment_slashes, ih]
  | case4 before c rest hcomment hc ih =>
    rw [List.cons_append, uncomment_plain (by simpa using hc), ih, List.append_assoc,
      List.cons_append]
    intro hslash hhead
    cases rest with
    | nil => cases hhead
    | cons d rest => exact hcomment rest hslash (by rw [Option.some.inj hhead])
  | case5 => rfl
  | case6 c rest ihLine ih =>
    rw [List.cons_append, uncomment_inLine_cons, ihLine, ih]
    split <;> rfl
  | case7 => rfl
  | case8 rest ih =>
    rw [List.cons_append, uncomment_inComment_cons, if_pos rfl, ih, List.cons_append]
  | case9 c rest hc ih => rw [List.cons_append, uncomment_inComment_cons, if_neg hc, ih]

/-- White space at the end is no part of a token. -/
theorem JsonText.Woven.of_concat {ts : List (List Char)} {text : List Char}
    (h : Woven ts (text ++ ['\n'])) : Woven ts text := by
  generalize hall : text ++ ['\n'] = all at h
  induction h generalizing text with
  | nil => exact absurd hall (by simp)
  | @blank c ts rest hc h ih =>
    cases text with
    | nil =>
      obtain ⟨_, rfl⟩ := List.cons.inj hall
      exact h
    | cons d text =>
      obtain ⟨rfl, hrest⟩ := List.cons.inj hall
      exact .blank hc (ih hrest)
  | @token t ts rest ht h ih =>
    rcases List.eq_nil_or_concat rest with rfl | ⟨front, last, rfl⟩
    · rw [List.append_nil] at hall
      exact absurd (hall ▸ List.mem_append_right text (List.mem_singleton_self _)) ht.flat
    · rw [List.concat_eq_append, ← List.append_assoc] at hall
      obtain ⟨rfl, hlast⟩ := List.append_inj' hall rfl
      cases hlast
      exact .token ht (ih (List.concat_eq_append ..).symm)

/-! ## Themes -/

/-- What is left of a JSON text with comments holds its tokens. -/
theorem uncomment_commented {d : JsonText.Document} {commented : List Char}
    (h : Commented (fileLines d.chars) (fileLines commented)) :
    Woven d.value.tokens (uncomment (.lineStart []) (Text.unifyNewlines commented)) := by
  have hlaid := (Laid.of_woven d.woven).commented h
  have hflat : ∀ line ∈ fileLines commented, '\n' ∉ line := fun _ hline =>
    Text.not_mem_of_mem_splitFrom List.not_mem_nil hline
  have hleft := hlaid.uncomment hflat (List.nil_subset _)
  rw [fileLines, Text.flatMap_splitAt, uncomment_concat] at hleft
  exact hleft.of_concat

theorem Theme.ofBytes_eq (name : Json) {bytes : List UInt8} {text : List Char}
    (h : Text.ofBytes bytes = .ok text) : Theme.ofBytes name bytes = (do
      let v ← (Json.parse (uncomment (.lineStart []) (Text.unifyNewlines text))).mapError .document
      (Theme.ofJson name v).mapError .misuse) := by
  rw [Theme.ofBytes, h]
  rfl

/-- **Lines of comment do not matter to a theme.** If lines of comment stand between the lines of a
JSON text, what is left without the comments is woven from the tokens of the text, its strings with
all their slashes among them, and means what the text means. The theme of the file is read from just
that, so it is the theme of the text without comments. -/
theorem comments_invisible (name : Json) {d : JsonText.Document} {bytes commentedBytes : List UInt8}
    {commented : List Char} (h : Text.ofBytes bytes = .ok d.chars)
    (hcommented : Text.ofBytes commentedBytes = .ok commented)
    (hc : Commented (fileLines d.chars) (fileLines commented)) :
    Theme.ofBytes name commentedBytes = Theme.ofBytes name bytes ∧
      Woven d.value.tokens (uncomment (.lineStart []) (Text.unifyNewlines commented)) ∧
      Json.parse (uncomment (.lineStart []) (Text.unifyNewlines commented)) =
        d.value.meaning ∧
      Theme.ofBytes name commentedBytes = (do
        let v ← (Json.parse
          (uncomment (.lineStart []) (Text.unifyNewlines commented))).mapError .document
        (Theme.ofJson name v).mapError .misuse) := by
  have hself : ∀ lines, Commented lines lines := fun lines => by
    induction lines with
    | nil => exact .nil
    | cons line lines ih => exact .line ih
  have hwoven := uncomment_commented hc
  have hparse := JsonText.parse_woven d.value hwoven
  refine ⟨?_, hwoven, hparse, Theme.ofBytes_eq name hcommented⟩
  rw [Theme.ofBytes_eq name h, Theme.ofBytes_eq name hcommented, hparse,
    JsonText.parse_woven d.value (uncomment_commented (hself _))]

/-- A theme with two slashes in a text. -/
def slashedTheme : JsonText.Document where
  before := []
  value := .object (.last [JsonText.newline]
    [.plain ⟨'t', by decide⟩, .plain ⟨'y', by decide⟩, .plain ⟨'p', by decide⟩,
      .plain ⟨'e', by decide⟩] [] []
    (.string [.plain ⟨'/', by decide⟩, .plain ⟨'/', by decide⟩]) [JsonText.newline])
  behind := []

/-- The same theme with comments. -/
def slashedLines : List Char :=
  "\t// \x7b\n\x7b\n//\n\"type\":\"//\"\n\x7d\n  // ,".toList

theorem comments_invisible_slashed :
    ∃ bytes commentedBytes, Text.ofBytes bytes = .ok slashedTheme.chars ∧
      Text.ofBytes commentedBytes = .ok slashedLines ∧
      Commented (fileLines slashedTheme.chars) (fileLines slashedLines) ∧
      Theme.ofBytes .null commentedBytes = Theme.ofBytes .null bytes := by
  have hbytes : Text.ofBytes (slashedTheme.chars.map (·.toNat.toUInt8)) = .ok slashedTheme.chars :=
    toOption_eq_some.mp (by decide +kernel)
  have hcommented : Text.ofBytes (slashedLines.map (·.toNat.toUInt8)) = .ok slashedLines :=
    toOption_eq_some.mp (by decide +kernel)
  have hlines : fileLines slashedTheme.chars =
      ["\x7b".toList, "\"type\":\"//\"".toList, "\x7d".toList] := by decide +kernel
  have hall : fileLines slashedLines = ["\t// \x7b".toList, "\x7b".toList, "//".toList,
      "\"type\":\"//\"".toList, "\x7d".toList, "  // ,".toList] := by decide +kernel
  have hc : Commented (fileLines slashedTheme.chars) (fileLines slashedLines) := by
    have htab : IsComment "\t// \x7b".toList :=
      ⟨['\t'], _, rfl, List.all_iff_forall_prop.mp (by decide)⟩
    have hspaces : IsComment "  // ,".toList :=
      ⟨[' ', ' '], _, rfl, List.all_iff_forall_prop.mp (by decide)⟩
    rw [hlines, hall]
    exact .comment htab (.line (.comment ⟨[], _, rfl, nofun⟩
      (.line (.line (.comment hspaces .nil)))))
  exact ⟨_, _, hbytes, hcommented, hc, (comments_invisible .null hbytes hcommented hc).1⟩

end Rubric
