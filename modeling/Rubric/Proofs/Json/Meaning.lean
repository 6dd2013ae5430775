import Mathlib.Data.List.TakeDrop
import Rubric.Proofs.Json.Spacing
import Rubric.Proofs.Outcome

/-!
# What JSON texts mean

The value that a JSON text stands for (`Value.found`), which the reader finds whatever the white
space around its tokens (`parse_woven`). Strings (`stringFrom_items`) and numbers (`number_chars`)
are read as a whole in front of anything that can stand behind them; for values the proof follows
the syntax, with the reader's fuel measured in tokens.
-/

namespace Rubric.JsonText

open Json (Cursor PartString ReadError StepError)
variable {strict : Bool}

/-! ## Strings -/

/-- The string so far with one more character of it. -/
def Item.push (s : PartString) : Item → PartString
  | plain c => s.push c.val
  | escape c => s.push ((Json.shortEscape? c.val).getD c.val)
  | code a b c d => s.pushUnit ((Json.hexUnit? a.val b.val c.val d.val).getD 0)

/-- The string that the characters write. Halves of pairs in it are refused or left out. -/
def itemsText (strict : Bool) (items : List Item) : Except ReadError String :=
  let s := (items.foldl Item.push {}).settled
  if strict && s.unpaired then .error .unpaired else .ok (String.ofList s.chars.reverse)

theorem exists_hexValue {c : Char} (h : c ∈ hexDigits) : ∃ n, Json.hexValue? c = some n := by
  have hall : ∀ c ∈ hexDigits, (Json.hexValue? c).isSome = true :=
    List.all_iff_forall_prop.mp (by decide)
  exact Option.isSome_iff_exists.mp (hall c h)

theorem exists_hexUnit (a b c d : OneOf hexDigits) :
    ∃ unit, Json.hexUnit? a.val b.val c.val d.val = some unit := by
  obtain ⟨m, hm⟩ := exists_hexValue a.property
  obtain ⟨n, hn⟩ := exists_hexValue b.property
  obtain ⟨p, hp⟩ := exists_hexValue c.property
  obtain ⟨q, hq⟩ := exists_hexValue d.property
  simp [Json.hexUnit?, hm, hn, hp, hq]

/-- A character of a string is read as a whole. -/
theorem stringFrom_item (item : Item) (opened position : Nat) (s : PartString) {text : List Char}
    (htext : text ≠ []) : ∃ next, Json.stringFrom strict opened position s (item.chars ++ text) =
      Json.stringFrom strict opened next (item.push s) text := by
  cases item with
  | plain c =>
    obtain ⟨hprint, hquote, hslash⟩ := c.property
    refine ⟨position + 1, ?_⟩
    simp [Item.chars, Item.push, Json.stringFrom, Nat.not_lt.mpr hprint]
  | escape c =>
    have hshort : ∀ c ∈ escapable, (Json.shortEscape? c).isSome = true ∧ c ≠ 'u' :=
      List.all_iff_forall_prop.mp (by decide)
    obtain ⟨hsome, hu⟩ := hshort c.val c.property
    obtain ⟨d, hd⟩ := Option.isSome_iff_exists.mp hsome
    refine ⟨position + 2, ?_⟩
    simp [Item.chars, Item.push, Json.stringFrom, hd]
  | code a b c d =>
    obtain ⟨unit, hunit⟩ := exists_hexUnit a b c d
    refine ⟨position + 6, ?_⟩
    simp [Item.chars, Item.push, Json.stringFrom, hunit, htext]

theorem stringFrom_items (strict : Bool) (items : List Item) (opened position : Nat)
    (s : PartString)
    (rest : List Char) : ∃ next,
    Json.stringFrom strict opened position s (itemsChars items ++ '"' :: rest) =
      ((items.foldl Item.push s).finish strict).map fun text => (text, ⟨next, rest⟩) := by
  induction items generalizing position s with
  | nil =>
    refine ⟨position + 1, ?_⟩
    rw [itemsChars, List.flatMap_nil, List.nil_append, List.foldl_nil, Json.stringFrom]
    cases s.finish strict <;> rfl
  | cons item items ih =>
    have hne : itemsChars items ++ '"' :: rest ≠ [] := by simp
    obtain ⟨next, hitem⟩ := stringFrom_item item opened position s hne
    obtain ⟨last, hlast⟩ := ih next (item.push s)
    refine ⟨last, ?_⟩
    rw [itemsChars, List.flatMap_cons, List.append_assoc]
    exact hitem.trans hlast

/-! ## Numbers -/

def fractionDigits : Option Digits → List Char
  | none => []
  | some d => d.chars

def Exponent.isNegative (e : Exponent) : Bool :=
  e.sign.any (·.val == '-')

/-- The power of ten. -/
def Exponent.value (e : Exponent) : Int :=
  let value : Int := Text.digitsValue e.digits.chars
  if e.isNegative then -value else value

/-- The number, if it does not have too many digits. -/
def Number.meaning (n : Number) : Except ReadError Json :=
  if n.fraction.isNone && n.exponent.isNone then
    if Json.digitLimit < n.whole.chars.length then .error (.tooManyDigits n.whole.chars.length)
    else
      let value : Int := Text.digitsValue n.whole.chars
      .ok (.int (if n.negative then -value else value))
  else
    let fraction := fractionDigits n.fraction
    let exponent := (n.exponent.map Exponent.value).getD 0
    let x := Rubric.Number.Binary.ofDecimal (Text.digitsValue (n.whole.chars ++ fraction))
      (exponent - fraction.length)
    .ok (.real (x.signed n.negative))

/-- Digits are read as far as they go. -/
theorem spanDigits_append {ds rest : List Char} (hds : ds ⊆ digits)
    (hrest : Ahead behindDigits rest) : Json.spanDigits (ds ++ rest) = (ds, rest) := by
  have hall : ∀ c ∈ digits, Text.isAsciiDigit c = true := List.all_iff_forall_prop.mp (by decide)
  have hdigits : ∀ c ∈ ds, Text.isAsciiDigit c = true := fun c hc => hall c (hds hc)
  have hbehind : ∀ c ∈ behindDigits, Text.isAsciiDigit c = false :=
    List.all_iff_forall_prop.mp (by decide)
  rw [Json.spanDigits, List.span_eq_takeWhile_dropWhile, List.takeWhile_append_of_pos hdigits,
    List.dropWhile_append_of_pos hdigits]
  cases rest with
  | nil => simp
  | cons c rest => simp [hbehind c (hrest c rfl)]

theorem spanDigits_chars (d : Digits) {rest : List Char} (hrest : Ahead behindDigits rest) :
    Json.spanDigits (d.chars ++ rest) = (d.chars, rest) :=
  spanDigits_append d.chars_subset hrest

theorem wholePart_chars (w : Whole) {rest : List Char} (hrest : Ahead behindDigits rest) :
    Json.wholePart (w.chars ++ rest) = some (w.chars, rest) := by
  cases w with
  | zero => rfl
  | digits first more =>
    have hspan := spanDigits_append (Whole.digits first more).chars_subset hrest
    have hzero : first.val ≠ '0' := ne_of_mem_of_not_mem first.property (by decide)
    unfold Json.wholePart
    split
    · next heq => exact absurd (List.cons.inj heq).1 hzero
    · rw [hspan]
      rfl

theorem fractionPart_chars (f : Option Digits) (e : Option Exponent) {rest : List Char}
    (hrest : Ahead stops rest) :
    Json.fractionPart (fractionChars f ++ (exponentChars e ++ rest)) =
      (fractionDigits f, exponentChars e ++ rest) := by
  have hahead := exponent_ahead e hrest
  cases f with
  | none =>
    have hpoint : ∀ more, exponentChars e ++ rest ≠ '.' :: more := by
      intro more heq
      exact absurd (hahead '.' (by rw [heq]; rfl)) (by decide)
    simp [Json.fractionPart, fractionChars, fractionDigits]
  | some d =>
    simp only [Json.fractionPart, fractionChars, List.cons_append,
      spanDigits_chars d (hahead.mono (by decide))]
    rfl

/-- The exponent as the reader gives it. -/
def exponentRead (e : Option Exponent) (rest : List Char) :
    Option (Bool × List Char × List Char) :=
  e.map fun e => (e.isNegative, e.digits.chars, rest)

theorem exponentPart_chars (e : Option Exponent) {rest : List Char} (hrest : Ahead stops rest) :
    Json.exponentPart (exponentChars e ++ rest) = exponentRead e rest := by
  cases e with
  | none =>
    cases rest with
    | nil => rfl
    | cons c rest =>
      have hmark : ∀ c ∈ stops, c ≠ 'e' ∧ c ≠ 'E' := List.all_iff_forall_prop.mp (by decide)
      obtain ⟨he, hE⟩ := hmark c (hrest c rfl)
      simp [exponentChars, exponentRead, Json.exponentPart, he, hE]
  | some e =>
    obtain ⟨mark, sign, ⟨first, more⟩⟩ := e
    have hspan := spanDigits_chars ⟨first, more⟩ (hrest.mono (by decide : stops ⊆ behindDigits))
    have hmark : (decide (mark.val = 'e') || decide (mark.val = 'E')) = true := by
      simpa using mark.property
    simp only [Digits.chars, List.cons_append] at hspan
    cases sign with
    | none =>
      have hsign : ∀ c ∈ digits, c ≠ '-' ∧ c ≠ '+' := List.all_iff_forall_prop.mp (by decide)
      obtain ⟨hminus, hplus⟩ := hsign _ first.property
      simp [exponentChars, Exponent.chars, Digits.chars, Json.exponentPart, exponentRead, hmark,
        hspan, hminus, hplus, Exponent.isNegative]
    | some sign =>
      have hsign : sign.val = '+' ∨ sign.val = '-' := by simpa using sign.property
      rcases hsign with h | h <;>
        simp [exponentChars, Exponent.chars, Digits.chars, Json.exponentPart, exponentRead, hmark,
          hspan, h, Exponent.isNegative]

/-- What was read is what is meant, and in front of the reader stands a text woven from the tokens.
-/
inductive Finds {α : Type} (ts : List (List Char)) :
    Except StepError (α × Cursor) → Except ReadError α → Prop
  | ok {a : α} {next : Cursor} : Woven ts next.rest → Finds ts (.ok (a, next)) (.ok a)
  | tooManyDigits : Finds ts (.error (.tooManyDigits n)) (.error (.tooManyDigits n))
  | unpaired : Finds ts (.error .unpaired) (.error .unpaired)

/-- A string is read up to its closing quote. -/
theorem string_finds (items : List Item) (opened position : Nat) {ts : List (List Char)}
    {rest : List Char} (h : Woven ts rest) :
    Finds ts (Json.stringFrom strict opened position {} (itemsChars items ++ '"' :: rest))
      (itemsText strict items) := by
  obtain ⟨next, hnext⟩ := stringFrom_items strict items opened position {} rest
  rw [hnext, PartString.finish, itemsText]
  cases hlone : strict && (items.foldl Item.push {}).settled.unpaired with
  | true =>
    simp only [if_true]
    exact .unpaired
  | false =>
    simp only [Bool.false_eq_true, if_false]
    exact .ok h

/-- A number is read as a whole. -/
theorem number_finds (n : Number) (position : Nat) {ts : List (List Char)} {rest : List Char}
    (h : Woven ts rest) (hrest : Ahead stops rest) :
    Finds ts (Json.number ⟨position, n.chars ++ rest⟩) n.meaning := by
  obtain ⟨negative, whole, fraction, exponent⟩ := n
  have hwhole := wholePart_chars whole (fraction_ahead fraction exponent hrest)
  have hfraction := fractionPart_chars fraction exponent hrest
  have hexponent := exponentPart_chars exponent hrest
  have hminus : ∀ more, whole.chars ++ (fractionChars fraction ++
      (exponentChars exponent ++ rest)) = '-' :: more → False := by
    intro more heq
    exact absurd (whole_ahead whole '-' (by rw [heq]; rfl)) (by decide)
  have hnumber : Finds ts (Json.number ⟨position, (if negative then ['-'] else []) ++
      (whole.chars ++ (fractionChars fraction ++ (exponentChars exponent ++ rest)))⟩)
      (Number.meaning ⟨negative, whole, fraction, exponent⟩) := by
    cases negative <;>
      simp only [Json.number, if_true, Bool.false_eq_true, if_false, List.cons_append,
        List.nil_append, hwhole, hfraction, hexponent]
    all_goals
      rcases exponent with _ | e
      · rcases fraction with _ | f
        · by_cases hlong : Json.digitLimit < whole.chars.length
          · simp only [Number.meaning, if_pos hlong]
            exact .tooManyDigits
          · simp only [Number.meaning, if_neg hlong]
            exact .ok h
        · exact .ok h
      · cases he : e.isNegative <;> rcases fraction with _ | f <;>
          simp only [exponentRead, Number.meaning, Option.map_some, Exponent.value, he] <;>
          exact .ok h
  simpa [Number.chars] using hnumber

/-! ## Constants -/

def Constant.meaning : Constant → Json
  | true => .bool Bool.true
  | false => .bool Bool.false
  | null => .null

theorem constant_finds (c : Constant) (position : Nat) {ts : List (List Char)} {rest : List Char}
    (h : Woven ts rest) :
    Finds ts (Json.wordOrNumber ⟨position, c.chars ++ rest⟩) (.ok c.meaning) := by
  cases c <;> exact .ok h

/-- No number begins like a word that is a value. -/
theorem wordOrNumber_chars (n : Number) (position : Nat) (rest : List Char) :
    Json.wordOrNumber ⟨position, n.chars ++ rest⟩ = Json.number ⟨position, n.chars ++ rest⟩ := by
  have hfirst : ∀ d ∈ digits, d ≠ 'n' ∧ d ≠ 't' ∧ d ≠ 'f' ∧ d ≠ 'N' ∧ d ≠ 'I' ∧ d ≠ '-' :=
    List.all_iff_forall_prop.mp (by decide)
  obtain ⟨negative, whole, fraction, exponent⟩ := n
  obtain ⟨d, more, hd, heq⟩ : ∃ d more, d ∈ digits ∧
      whole.chars ++ (fractionChars fraction ++ exponentChars exponent) = d :: more := by
    cases whole with
    | zero => exact ⟨_, _, by decide, rfl⟩
    | digits first more => exact ⟨_, _, List.mem_of_mem_drop first.property, rfl⟩
  obtain ⟨hn, ht, hf, hN, hI, hminus⟩ := hfirst d hd
  cases negative <;>
    simp [Number.chars, heq, Json.wordOrNumber, Json.wordValues, Json.afterWord?, hn.symm, ht.symm,
      hf.symm, hN.symm, hI.symm, hminus.symm]

/-! ## Values -/

mutual

/-- The value that is written, if it is one that is read. -/
def Value.found (strict : Bool) : Value → Except ReadError Json
  | .constant c => .ok c.meaning
  | .number n => n.meaning
  | .string items => do return .str (← itemsText strict items)
  | .emptyArray _ => .ok (.arr [])
  | .array elements => do return .arr (← elements.found strict)
  | .emptyObject _ => .ok (.obj [])
  | .object members => do return .obj (← members.found strict [])

def Elements.found (strict : Bool) : Elements → Except ReadError (List Json)
  | .last _ value _ => do return [← value.found strict]
  | .more _ value _ rest => do
    let first ← value.found strict
    return first :: (← rest.found strict)

/-- The members behind those that are there already. -/
def Members.found (strict : Bool) (read : List (String × Json)) :
    Members → Except ReadError (List (String × Json))
  | .last _ name _ _ value _ => do
    let name ← itemsText strict name
    return Json.put read name (← value.found strict)
  | .more _ name _ _ value _ rest => do
    let name ← itemsText strict name
    let value ← value.found strict
    rest.found strict (Json.put read name value)

end

theorem Finds.bind {α β : Type} {ts us : List (List Char)} {x : Except StepError (α × Cursor)}
    {m : Except ReadError α} {f : α × Cursor → Except StepError (β × Cursor)}
    {g : α → Except ReadError β}
    (h : Finds ts x m) (H : ∀ a next, Woven ts next.rest → Finds us (f (a, next)) (g a)) :
    Finds us (x >>= f) (m >>= g) := by
  cases h with
  | ok hnext => exact H _ _ hnext
  | tooManyDigits => exact .tooManyDigits
  | unpaired => exact .unpaired

/-- A value can end in front of the tokens. -/
def Closed (ts : List (List Char)) : Prop :=
  ∀ t, ts.head? = some t → t ∈ [[','], [']'], ['\x7d']]

theorem Closed.singleton {c : Char} {ts : List (List Char)} (h : [c] ∈ [[','], [']'], ['\x7d']]) :
    Closed ([c] :: ts) := by
  intro t ht
  cases ht
  exact h

theorem Woven.ahead_stops {ts : List (List Char)} {text : List Char} (h : Woven ts text)
    (hts : Closed ts) : Ahead stops text := by
  cases h with
  | nil => exact fun _ h => nomatch h
  | blank hc => exact .cons (List.mem_append_left _ hc)
  | token =>
    have ht := hts _ rfl
    simp only [List.mem_cons, List.not_mem_nil, or_false] at ht
    rcases ht with rfl | rfl | rfl <;> exact .cons (by decide)

theorem Elements.exists_tokens (elements : Elements) :
    ∃ c more tail, elements.tokens = (c :: more) :: tail ∧ c ∈ valueStarts := by
  cases elements with
  | last _ value _ => exact value.exists_tokens
  | more _ value _ rest =>
    obtain ⟨c, more, tail, heq, hc⟩ := value.exists_tokens
    exact ⟨c, more, _, by rw [Elements.tokens, heq, List.cons_append], hc⟩

theorem Members.exists_tokens (members : Members) :
    ∃ name tail, members.tokens = quotedChars name :: tail := by
  cases members <;> exact ⟨_, _, rfl⟩

/-- What begins neither like a string nor like an object nor like an array is a word or a number. -/
theorem value_plain {fuel position : Nat} {c : Char} {more : List Char}
    (hc : c ∉ ['"', '\x7b', '[']) :
    Json.value strict (fuel + 1) ⟨position, c :: more⟩ =
      Json.wordOrNumber ⟨position, c :: more⟩ := by
  simp only [List.mem_cons, List.not_mem_nil, or_false, not_or] at hc
  simp [Json.value, hc]

theorem value_quoted (items : List Item) (fuel position : Nat) {ts : List (List Char)}
    {rest : List Char} (h : Woven ts rest) :
    Finds ts (Json.value strict (fuel + 1) ⟨position, quotedChars items ++ rest⟩)
      ((Value.string items).found strict) := by
  rw [quotedChars, List.cons_append, List.append_assoc, Json.value]
  exact (string_finds items position (position + 1) h).bind fun text next hnext => .ok hnext

/-- The name of a member is read up to its value. -/
theorem members_name (name : List Item) {ts us : List (List Char)} {text : List Char}
    (fuel : Nat) (read : List (String × Json)) (position : Nat)
    (h : Woven (quotedChars name :: [':'] :: us) text) {m : String → Except ReadError Json}
    (H : ∀ name place rest, Woven us rest → Finds ts
      (Json.value strict fuel (Json.skipBlank place rest) >>= fun found =>
        match found.2.skipBlank.rest with
        | '\x7d' :: rest =>
          .ok (.obj (Json.put read name found.1), ⟨found.2.skipBlank.position + 1, rest⟩)
        | ',' :: rest =>
          Json.members strict fuel (Json.put read name found.1)
            (Json.skipBlank (found.2.skipBlank.position + 1) rest)
        | _ => .error (.fault .comma found.2.skipBlank.position)) (m name)) :
    Finds ts (Json.members strict (fuel + 1) read (Json.skipBlank position text))
      (itemsText strict name >>= m) := by
  obtain ⟨first, behindName, hname, _, hskip⟩ := Woven.skipBlank_cons position h
  rw [hskip, quotedChars, List.cons_append, List.append_assoc, Json.members]
  refine (string_finds name first (first + 1) hname).bind fun name next hnext => ?_
  obtain ⟨colonAt, behindColon, hvalue, _, hskip'⟩ := Woven.skipBlank_cons next.position hnext
  simp only [Json.Cursor.skipBlank, hskip']
  exact H name (colonAt + 1) behindColon hvalue

-- Twice as much fuel as there are tokens is enough: each step of the reader takes a token, or leads
-- into a value that does.
mutual

theorem value_finds : ∀ (value : Value) {ts : List (List Char)} {text : List Char}
    (fuel position : Nat), Woven (value.tokens ++ ts) text → Closed ts →
    2 * value.tokens.length ≤ fuel + 1 →
    Finds ts (Json.value strict (fuel + 1) (Json.skipBlank position text)) (value.found strict)
  | .constant c, ts, text, fuel, position, h, hts, hfuel => by
    obtain ⟨next, rest, hrest, _, hskip⟩ := Woven.skipBlank_cons position h
    have hplain : Json.value strict (fuel + 1) ⟨next, c.chars ++ rest⟩ =
        Json.wordOrNumber ⟨next, c.chars ++ rest⟩ := by
      cases c <;> exact value_plain (by decide)
    rw [hskip, hplain]
    exact constant_finds c next hrest
  | .number n, ts, text, fuel, position, h, hts, hfuel => by
    obtain ⟨next, rest, hrest, _, hskip⟩ := Woven.skipBlank_cons position h
    obtain ⟨c, more, heq, hc⟩ := n.exists_chars
    have hplain : Json.value strict (fuel + 1) ⟨next, n.chars ++ rest⟩ =
        Json.wordOrNumber ⟨next, n.chars ++ rest⟩ := by
      have hmarks : ∀ c ∈ '-' :: digits, c ∉ ['"', '\x7b', '['] :=
        List.all_iff_forall_prop.mp (by decide)
      rw [heq]
      exact value_plain (hmarks c hc)
    rw [hskip, hplain, wordOrNumber_chars]
    exact number_finds n next hrest (hrest.ahead_stops hts)
  | .string items, ts, text, fuel, position, h, hts, hfuel => by
    obtain ⟨next, rest, hrest, _, hskip⟩ := Woven.skipBlank_cons position h
    rw [hskip]
    exact value_quoted items fuel next hrest
  | .emptyArray gap, ts, text, fuel, position, h, hts, hfuel => by
    obtain ⟨next, rest, hrest, _, hskip⟩ := Woven.skipBlank_cons position h
    obtain ⟨last, more, hmore, _, hskip'⟩ := Woven.skipBlank_cons (next + 1) hrest
    rw [hskip, List.singleton_append, Json.value]
    simp only [Json.Cursor.skipBlank, hskip', List.singleton_append]
    exact .ok hmore
  | .array elements, ts, text, fuel, position, h, hts, hfuel => by
    rw [Value.tokens, List.cons_append, List.append_assoc] at h
    obtain ⟨next, rest, hrest, _, hskip⟩ := Woven.skipBlank_cons position h
    obtain ⟨c, more, tail, heq, hc⟩ := elements.exists_tokens
    have hbegins : Woven ((c :: more) :: (tail ++ ([']'] :: ts))) rest := by
      rwa [← List.cons_append, ← heq]
    obtain ⟨last, behind, _, _, hskip'⟩ := hbegins.skipBlank_cons (next + 1)
    have hne : c ≠ ']' := ne_of_mem_of_not_mem hc (by decide)
    simp only [Value.tokens, List.length_cons, List.length_append, List.length_nil] at hfuel
    obtain ⟨fuel, rfl⟩ : ∃ n, fuel = n + 2 := ⟨fuel - 2, by omega⟩
    have helements := elements_find elements fuel [] (next + 1) hrest (by omega)
    rw [hskip, List.singleton_append, Json.value]
    simp only [Json.Cursor.skipBlank, hskip', List.cons_append] at helements ⊢
    simpa [hne, Value.found] using helements
  | .emptyObject gap, ts, text, fuel, position, h, hts, hfuel => by
    obtain ⟨next, rest, hrest, _, hskip⟩ := Woven.skipBlank_cons position h
    obtain ⟨last, more, hmore, _, hskip'⟩ := Woven.skipBlank_cons (next + 1) hrest
    rw [hskip, List.singleton_append, Json.value]
    simp only [Json.Cursor.skipBlank, hskip', List.singleton_append]
    exact .ok hmore
  | .object members, ts, text, fuel, position, h, hts, hfuel => by
    rw [Value.tokens, List.cons_append, List.append_assoc] at h
    obtain ⟨next, rest, hrest, _, hskip⟩ := Woven.skipBlank_cons position h
    obtain ⟨name, tail, heq⟩ := members.exists_tokens
    have hbegins : Woven (quotedChars name :: (tail ++ (['\x7d'] :: ts))) rest := by
      rwa [← List.cons_append, ← heq]
    obtain ⟨last, behind, _, _, hskip'⟩ := hbegins.skipBlank_cons (next + 1)
    simp only [Value.tokens, List.length_cons, List.length_append, List.length_nil] at hfuel
    obtain ⟨fuel, rfl⟩ : ∃ n, fuel = n + 2 := ⟨fuel - 2, by omega⟩
    have hmembers := members_find members fuel [] (next + 1) hrest (by omega)
    rw [hskip, List.singleton_append, Json.value]
    simp only [Json.Cursor.skipBlank, hskip', quotedChars, List.cons_append] at hmembers ⊢
    exact hmembers

theorem elements_find : ∀ (elements : Elements) {ts : List (List Char)} {text : List Char}
    (fuel : Nat) (read : List Json) (position : Nat),
    Woven (elements.tokens ++ ([']'] :: ts)) text → 2 * elements.tokens.length ≤ fuel + 1 →
    Finds ts (Json.items strict (fuel + 2) read (Json.skipBlank position text))
      (do return .arr (read.reverse ++ (← elements.found strict)))
  | .last before value behind, ts, text, fuel, read, position, h, hfuel => by
    rw [Json.items]
    have hbind := value_finds value fuel position h (.singleton (by decide)) hfuel
    simp only [Elements.found, bind_assoc, pure_bind]
    refine hbind.bind fun item next hnext => ?_
    obtain ⟨last, more, hmore, _, hskip⟩ := Woven.skipBlank_cons next.position hnext
    simp only [Json.Cursor.skipBlank, hskip, List.singleton_append, List.reverse_cons]
    exact .ok hmore
  | .more before value behind rest, ts, text, fuel, read, position, h, hfuel => by
    rw [Json.items]
    simp only [Elements.tokens, List.length_append, List.length_cons] at hfuel
    rw [Elements.tokens, List.append_assoc, List.cons_append] at h
    have hbind := value_finds value fuel position h (.singleton (by decide)) (by omega)
    simp only [Elements.found, bind_assoc, pure_bind]
    refine hbind.bind fun item next hnext => ?_
    obtain ⟨last, more, hmore, _, hskip⟩ := Woven.skipBlank_cons next.position hnext
    obtain ⟨fuel, rfl⟩ : ∃ n, fuel = n + 1 := ⟨fuel - 1, by omega⟩
    have hrest := elements_find rest fuel (item :: read) (last + 1) hmore (by omega)
    simp only [Json.Cursor.skipBlank, hskip, List.singleton_append]
    simpa using hrest

theorem members_find : ∀ (members : Members) {ts : List (List Char)} {text : List Char}
    (fuel : Nat) (read : List (String × Json)) (position : Nat),
    Woven (members.tokens ++ (['\x7d'] :: ts)) text → 2 * members.tokens.length ≤ fuel + 1 →
    Finds ts (Json.members strict (fuel + 2) read (Json.skipBlank position text))
      (do return .obj (← members.found strict read))
  | .last before name colon inner value behind, ts, text, fuel, read, position, h, hfuel => by
    simp only [Members.tokens, List.length_cons] at hfuel
    simp only [Members.found, bind_assoc, pure_bind]
    refine members_name name (fuel + 1) read position h fun name place rest hvalue => ?_
    have hbind := value_finds value fuel place hvalue (.singleton (by decide)) (by omega)
    refine hbind.bind fun item next hnext => ?_
    obtain ⟨last, more, hmore, _, hskip⟩ := Woven.skipBlank_cons next.position hnext
    simp only [Json.Cursor.skipBlank, hskip, List.singleton_append]
    exact .ok hmore
  | .more before name colon inner value behind rest, ts, text, fuel, read, position, h, hfuel => by
    simp only [Members.tokens, List.length_cons, List.length_append] at hfuel
    rw [Members.tokens, List.cons_append, List.cons_append, List.append_assoc, List.cons_append]
      at h
    simp only [Members.found, bind_assoc]
    refine members_name name (fuel + 1) read position h fun name place _ hvalue => ?_
    have hbind := value_finds value fuel place hvalue (.singleton (by decide)) (by omega)
    refine hbind.bind fun item next hnext => ?_
    obtain ⟨last, more, hmore, _, hskip⟩ := Woven.skipBlank_cons next.position hnext
    obtain ⟨fuel, rfl⟩ : ∃ n, fuel = n + 1 := ⟨fuel - 1, by omega⟩
    simp only [Json.Cursor.skipBlank, hskip, List.singleton_append]
    exact members_find rest fuel _ (last + 1) hmore (by omega)

end

/-- The value that is written. Faults other than halves of pairs come first. -/
def Value.meaning (value : Value) : Except ReadError Json := do
  let _ ← value.found false
  value.found true

/-- What is written in a JSON text is found there, whatever the white space around its tokens. -/
theorem readDocument_woven (strict : Bool) (value : Value) {text : List Char}
    (h : Woven value.tokens text) :
    (Json.readDocument strict text).mapError (StepError.inDocument text) = value.found strict := by
  have hlength := h.length_le
  have hfind : Finds [] (Json.value strict (2 * text.length + 2) (Json.skipBlank 0 text))
      (value.found strict) :=
    value_finds value _ 0 (by rwa [List.append_nil]) (fun _ h => nomatch h) (by omega)
  have hmark : ∀ more, text ≠ '\uFEFF' :: more := by
    rintro more rfl
    exact absurd (h.ahead _ rfl) (by decide)
  have hread : Json.readDocument strict text =
      Json.value strict (2 * text.length + 2) (Json.skipBlank 0 text) >>= fun found =>
        if found.2.skipBlank.rest.isEmpty then .ok found.1
        else .error (.fault .extraData found.2.skipBlank.position) := by
    unfold Json.readDocument
    split
    · exact absurd rfl (hmark _)
    · rfl
  rw [hread]
  generalize Json.value _ _ _ = x, value.found strict = m at hfind
  cases hfind with
  | ok hnext =>
    rw [ok_bind]
    simp only [Json.Cursor.skipBlank, hnext.skipBlank_nil, List.isEmpty_nil, if_true]
    rfl
  | tooManyDigits | unpaired => rfl

/-- **The reader finds what a JSON text means**, whatever the white space around its tokens. -/
theorem parse_woven (value : Value) {text : List Char} (h : Woven value.tokens text) :
    Json.parse text = value.meaning := by
  rw [Json.parse, mapError_bind, readDocument_woven false value h]
  simp only [readDocument_woven true value h]
  rfl

end Rubric.JsonText
