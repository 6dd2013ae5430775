import Rubric.Regex.Compile

/-! Matching by backtracking. A node gets what is to be matched behind it as a function, and gives
the first result of that function in the order of its own preferences. -/

namespace Rubric.Regex

/-- A part of a text, from `start` up to `stop`. -/
abbrev Span := Nat × Nat

/-- What a match does not change: the text, where the search for the match began, and the groups
that are called. -/
structure Subject where
  text : Array Char
  origin : Nat
  called : List Nat

/-- How far a match has come. -/
structure Progress where
  position : Nat
  /-- where the match is taken to begin -/
  start : Nat
  /-- the span of each group, from group 1 on -/
  groups : List (Option Span)
deriving DecidableEq, Repr

/-- What is still to be matched. -/
abbrev Onward := Progress → Option Progress

/-- A way to match, given what is to be matched behind it. -/
abbrev Step := Progress → Onward → Option Progress

/-- The first result, or else the second. -/
@[inline] def orElse (a : Option Progress) (b : Unit → Option Progress) : Option Progress :=
  match a with
  | some p => some p
  | none => b ()

namespace Subject

/-- The character at a position, if it lies in front of the limit. -/
@[inline] def char? (s : Subject) (limit position : Nat) : Option Char :=
  if position < limit then s.text[position]? else none

/-- The character in front of a position is a word character. -/
def wordBefore (s : Subject) (position : Nat) : Bool :=
  position ≠ 0 && (s.text[position - 1]?).any isWordChar

/-- The character at a position is a word character. -/
def wordAt (s : Subject) (position : Nat) : Bool :=
  (s.text[position]?).any isWordChar

/-- The assertion holds at the position. A line never begins at the end of a text that is not
empty. -/
def holds (s : Subject) (position : Nat) : Anchor → Bool
  | .lineStart =>
    position = 0 || (position < s.text.size && s.text[position - 1]? == some '\n')
  | .lineEnd => position = s.text.size || s.text[position]? == some '\n'
  | .textStart => position = 0
  | .textEnd => position = s.text.size
  | .lastLineEnd =>
    position = s.text.size ||
      (position + 1 = s.text.size && s.text[position]? == some '\n')
  | .searchStart => position = s.origin
  | .wordBoundary => s.wordBefore position != s.wordAt position
  | .noWordBoundary => s.wordBefore position == s.wordAt position

/-- The end of a line break at a position. -/
def lineBreakEnd? (s : Subject) (limit position : Nat) : Option Nat :=
  match s.char? limit position with
  | some '\r' =>
    if s.char? limit (position + 1) == some '\n' then some (position + 2) else some (position + 1)
  | some c => if CharSet.lineEnds.contains c then some (position + 1) else none
  | none => none

/-- The end of these letters, in any case, at a position. -/
def lettersEnd? (s : Subject) (limit : Nat) : (position : Nat) → List Nat → Option Nat
  | position, [] => some position
  | position, letter :: letters =>
    match s.char? limit position with
    | some c =>
      if Text.sameLetter c.toNat letter then s.lettersEnd? limit (position + 1) letters else none
    | none => none

/-- The end of a part of a text that is compared without regard to case: for a spelling, the
letter that is spelled so will do. -/
def partEnd? (s : Subject) (limit position : Nat) (part : List Nat) : Option Nat :=
  match s.char? limit position with
  | some c =>
    if part.length ≠ 1 && 0xDF ≤ c.toNat && (Text.spelledLetters part).contains c.toNat then
      some (position + 1)
    else s.lettersEnd? limit position part
  | none => none

/-- The end of a text that is compared without regard to case. -/
def foldedEnd? (s : Subject) (limit : Nat) : (position : Nat) → List (List Nat) → Option Nat
  | position, [] => some position
  | position, part :: parts =>
    (s.partEnd? limit position part).bind fun position => s.foldedEnd? limit position parts

/-- The characters are the same, or differ in case only if that is allowed. -/
def sameChar (ignoreCase : Bool) (a b : Char) : Bool :=
  a == b || (ignoreCase && (Text.caseVariants a).contains b)

/-- How many bytes the characters of a span have in their encoded form. -/
def size (s : Subject) (span : Span) : Nat :=
  (s.text.extract span.1 span.2).foldl (fun bytes c => bytes + c.utf8Size) 0

/-- At least so many bytes stand from a position up to the limit, in no more than `chars`
characters. -/
def hasBytes (s : Subject) (limit : Nat) : (chars bytes position : Nat) → Bool
  | 0, bytes, _ => bytes == 0
  | chars + 1, bytes, position =>
    bytes == 0 ||
      match s.char? limit position with
      | some c => s.hasBytes limit chars (bytes - c.utf8Size) (position + 1)
      | none => false

/-- The end of a repetition of the span at a position. It has no more bytes than the span. -/
def repetitionEnd? (s : Subject) (ignoreCase : Bool) (limit stop : Nat) :
    (left bytes : Nat) → (position : Nat) → Option Nat
  | 0, _, position => some position
  | left + 1, bytes, position =>
    match s.text[stop - (left + 1)]?, s.char? limit position with
    | some a, some b =>
      if b.utf8Size ≤ bytes && sameChar ignoreCase a b then
        s.repetitionEnd? ignoreCase limit stop left (bytes - b.utf8Size) (position + 1)
      else none
    | _, _ => none

/-- The end of a repetition of the first span that is repeated at the position. The search ends at
a span for which there is no room. -/
def backrefEnd? (s : Subject) (ignoreCase : Bool) (limit position : Nat) :
    List (Option Span) → Option Nat
  | [] => none
  | none :: spans => s.backrefEnd? ignoreCase limit position spans
  | some span :: spans =>
    let bytes := s.size span
    if !s.hasBytes limit bytes bytes position then none
    else
      match s.repetitionEnd? ignoreCase limit span.2 (span.2 - span.1) bytes position with
      | some stop => some stop
      | none => s.backrefEnd? ignoreCase limit position spans

end Subject

/-- The span of a group, if it took part. -/
def Progress.span? (p : Progress) (index : Nat) : Option Span :=
  (p.groups[index - 1]?).join

/-- The progress with another span for a group. -/
def Progress.withSpan (p : Progress) (index : Nat) (span : Option Span) : Progress :=
  { p with groups := p.groups.set (index - 1) span }

/-- Matches a group. As long as it is open it has no span. -/
def Step.captured (index : Nat) (step : Step) : Step :=
  fun p k => step (p.withSpan index none) fun q =>
    k (q.withSpan index (some (p.position, q.position)))

/-- An iteration from `p` to `q` ends its loop: it consumed nothing, and left the spans of the
watched groups as they were. -/
def isIdle (watched : List Nat) (p q : Progress) : Bool :=
  q.position == p.position && watched.all fun index => q.span? index == p.span? index

/-- Repeats a step at most `more` times, as long as no iteration is idle. -/
def iterateUpTo (step : Step) (lazy : Bool) (watched : List Nat) : (more : Nat) → Step
  | 0, p, k => k p
  | more + 1, p, k =>
    let again (_ : Unit) : Option Progress :=
      step p fun q => if isIdle watched p q then k q else iterateUpTo step lazy watched more q k
    if lazy then orElse (k p) again else orElse (again ()) fun _ => k p

/-- Repeats a step `min` times, then at most `more` times, as long as no iteration is idle. -/
def iterate (step : Step) (lazy : Bool) (watched : List Nat) : (min more : Nat) → Step
  | 0, more, p, k => iterateUpTo step lazy watched more p k
  | min + 1, more, p, k =>
    step p fun q => if isIdle watched p q then k q else iterate step lazy watched min more q k

/-- Matches up to the position, beginning `distance` in front of it, and then further and further
away. -/
def lookBack (step : Step) (p : Progress) : (distance tries : Nat) → Option Progress
  | _, 0 => none
  | distance, tries + 1 =>
    orElse
      (step { p with position := p.position - distance } fun q =>
        if q.position = p.position then some q else none)
      fun _ => lookBack step p (distance + 1) tries

/-- Matches a body behind the position. A body of one length begins that far in front of it and may
end anywhere. Else the nearest beginning is preferred, and the body ends at the position, which it
cannot pass. -/
def Extent.behind (extent : Extent) (step : (limit : Nat) → Step) (limit : Nat) (p : Progress) :
    Option Progress :=
  if extent.most = some extent.least then
    if p.position < extent.least then none
    else step limit { p with position := p.position - extent.least } some
  else
    let farthest :=
      match extent.most with
      | some most => min most p.position
      | none => p.position
    lookBack (step p.position) p extent.least (farthest + 1 - extent.least)

/-- Matches a node and what follows it. Nothing at the limit or behind it is consumed. `call`
matches a group by its number. -/
def Node.run (s : Subject) (call : Nat → (limit : Nat) → Step) : Node → (limit : Nat) → Step
  | empty, _, p, k => k p
  | one set, limit, p, k =>
    match s.char? limit p.position with
    | some c => if set.contains c then k { p with position := p.position + 1 } else none
    | none => none
  | folded parts, limit, p, k =>
    match s.foldedEnd? limit p.position parts with
    | some stop => k { p with position := stop }
    | none => none
  | lineBreak, limit, p, k =>
    match s.lineBreakEnd? limit p.position with
    | some stop => k { p with position := stop }
    | none => none
  | anchor a, _, p, k => if s.holds p.position a then k p else none
  | keep, _, p, k => k { p with start := p.position }
  | seq a b, limit, p, k => a.run s call limit p fun q => b.run s call limit q k
  | alt a b, limit, p, k => orElse (a.run s call limit p k) fun _ => b.run s call limit p k
  | group index body, limit, p, k =>
    if s.called.contains index then call index limit p k
    else Step.captured index (body.run s call limit) p k
  | enclosed body, limit, p, k => body.run s call limit p k
  | atomic body, limit, p, k =>
    match body.run s call limit p some with
    | some q => k q
    | none => none
  | lookAhead negative body, limit, p, k =>
    match body.run s call limit p some with
    | some q => if negative then none else k { q with position := p.position }
    | none => if negative then k p else none
  | lookBehind negative extent body, limit, p, k =>
    match extent.behind (body.run s call) limit p with
    | some q => if negative then none else k q
    | none => if negative then k p else none
  | loop min max lazy watched body, limit, p, k =>
    let more :=
      match max with
      | some max => max - min
      | none => (watched.length + 1) * (limit - p.position + 1)
    iterate (body.run s call limit) lazy watched min more p k
  | backref indices ignoreCase, limit, p, k =>
    match s.backrefEnd? ignoreCase limit p.position (indices.reverse.map p.span?) with
    | some stop => k { p with position := stop }
    | none => none
  | Node.call index, limit, p, k => call index limit p k

/-- How deep calls may be nested. The place where a called group is defined counts as a call. -/
def callDepth : Nat :=
  20

/-- Matches a group by its number. -/
def Expression.enter (r : Expression) (s : Subject) : (depth : Nat) → Nat → (limit : Nat) → Step
  | 0, _, _, _, _ => none
  | depth + 1, index, limit, p, k =>
    let step := (r.bodies.getD index .empty).run s (r.enter s depth) limit
    if index = 0 then step p k else Step.captured index step p k

/-- A match: its span, and the spans of the groups that took part, from group 1 on. -/
structure Match where
  start : Nat
  stop : Nat
  groups : List (Option Span) := []
deriving DecidableEq, Repr

/-- The match at a position. `origin` is where the search for it began. A match does not end in
front of the position, and does not begin behind its end. -/
def Expression.attempt (r : Expression) (text : Array Char) (origin position : Nat) :
    Option Match :=
  let s : Subject := ⟨text, origin, r.called⟩
  let p : Progress := ⟨position, position, List.replicate r.groups none⟩
  let step :=
    if r.called.contains 0 then r.enter s callDepth 0 text.size
    else r.root.run s (r.enter s callDepth) text.size
  match step p some with
  | some q =>
    if q.position < position then none
    else some ⟨min q.start q.position, q.position, q.groups⟩
  | none => none

end Rubric.Regex
