import Rubric.Regex.Class
import Rubric.Regex.Name
import Rubric.Regex.Syntax
import Rubric.Text.Folding

/-! Reading a pattern. Groups are numbered in the order of their opening parentheses. When a
pattern names a group, only the named groups capture, and they are numbered anew. -/

namespace Rubric.Regex

/-- The options that hold for a part of a pattern. -/
structure Options where
  ignoreCase : Bool := false
  extended : Bool := false
  /-- the dot matches newlines as well -/
  dotAll : Bool := false
  /-- in a look-behind, where letters do not stand for their spellings -/
  behind : Bool := false
deriving DecidableEq, Repr

/-- What the reader of a pattern knows. -/
structure Reading where
  rest : List Char
  /-- how many groups were opened -/
  groups : Nat := 0
  /-- the named groups in the order of their definition -/
  names : List (List Char × Nat) := []
  /-- some back-reference goes by number -/
  numbered : Bool := false
  /-- the calls of groups in the order of their places, with their spelling -/
  calls : List (Reference × List Char) := []
  /-- some code outside of classes is beyond what can be encoded -/
  unencodable : Bool := false
deriving Repr

/-- A step of the reader. -/
abbrev Reads := StateT Reading (Except Error)

/-- The characters that are left. -/
def ahead : Reads (List Char) := do
  return (← get).rest

/-- Goes on with these characters. -/
def goOn (rest : List Char) : Reads Unit :=
  modify fun r => { r with rest }

/-- A step that looks at the characters alone. -/
def reading {α : Type} (f : List Char → Except Error (α × List Char)) : Reads α := do
  let (a, rest) ← f (← ahead)
  goOn rest
  return a

/-- Opens the next group. -/
def openGroup (name : Option (List Char)) : Reads Nat := do
  let index := (← get).groups + 1
  modify fun r => { r with
    groups := index
    names := match name with
      | some name => r.names ++ [(name, index)]
      | none => r.names }
  return index

/-- Closes what an opening parenthesis began. -/
def closeGroup : Reads Unit := do
  match ← ahead with
  | ')' :: rest => goOn rest
  | _ => throw .unmatchedOpen

/-- The largest code that has an encoded form, whether or not a character has it. -/
def lastEncodable : Nat :=
  0x13FFFF

/-- One character, in either case if so asked. In a look-behind a letter with a spelling stands for
itself alone. -/
def Options.literal (o : Options) (n : Nat) : Reads Node := do
  if lastEncodable < n then modify fun r => { r with unencodable := true }
  if !o.ignoreCase then return .one (.single n)
  else if o.behind then
    return .one (if (Text.spelling? n).isSome then .single n else .anyCase (.single n))
  else return .folded [[n]]

/-- The letters of a spelling, each in any case. -/
def Node.ofSpelling : List Nat → Node
  | [] => .empty
  | [n] => .one (.anyCase (.single n))
  | n :: ns => .seq (.one (.anyCase (.single n))) (ofSpelling ns)

/-- The spellings of the letters in a set, the shorter ones first. -/
def CharSet.spellings (set : CharSet) : List (List Nat) :=
  let found := Text.foldings.filterMap fun (spelling, letters) =>
    if letters.any fun n => set.contains (Char.ofNat n) then some spelling else none
  found.filter (·.length == 2) ++ found.filter (·.length != 2)

/-- A character of a set, in either case if so asked. Then a set of one character is that character,
and a set stands for the spellings of its letters as well, unless it is given by what it leaves
out. -/
def Options.member (o : Options) (set : CharSet) : Reads Node :=
  match set.only?, set with
  | some n, _ => o.literal n
  | none, .compl a => return .one (.compl (if o.ignoreCase then .anyCase a else a))
  | none, set =>
    if o.ignoreCase then
      return set.spellings.foldl (fun node spelling => .alt node (.ofSpelling spelling))
        (.one (.anyCase set))
    else return .one set

/-- Sequence. Texts to be compared without regard to case become one. -/
def Node.before (a b : Node) : Node :=
  match a, b with
  | .folded s, .folded t => .folded (s ++ t)
  | .folded s, .seq (.folded t) rest => .seq (.folded (s ++ t)) rest
  | a, b => .seq a b

/-- Sequence, of which the parts of the first node become parts. -/
def Node.followedBy (a b : Node) : Node :=
  match a with
  | .seq first rest => first.before (rest.followedBy b)
  | a => a.before b

/-- No quantifier can stand behind the node: it consumes nothing by its nature, or is a choice with
such an alternative. -/
def Node.unrepeatable : Node → Bool
  | .anchor _ | .keep | .lookAhead _ _ | .lookBehind _ _ _ => true
  | .alt a b => a.unrepeatable || b.unrepeatable
  | _ => false

/-- A part with its quantifier. Once is the part itself, and a quantifier behind another one is
combined with it where that changes nothing. -/
def Quantifier.apply (q : Quantifier) (body : Node) : Node :=
  if q.possessive then .atomic (.loop q.min q.max false [] body)
  else if q.min = 1 && q.max = some 1 then body
  else
    match body with
    | .loop min max lazy _ inner =>
      match q.combined ⟨min, max, lazy, false⟩ with
      | some (first, none) => .loop first.min first.max first.lazy [] inner
      | some (first, some second) =>
        .loop second.min second.max second.lazy [] (.loop first.min first.max first.lazy [] inner)
      | none => .loop q.min q.max q.lazy [] body
    | body => .loop q.min q.max q.lazy [] body

/-- The assertions of a single letter behind a backslash. -/
def anchorEscape? (c : Char) : Option Anchor :=
  if c = 'A' then some .textStart
  else if c = 'z' then some .textEnd
  else if c = 'Z' then some .lastLineEnd
  else if c = 'G' then some .searchStart
  else if c = 'b' then some .wordBoundary
  else if c = 'B' then some .noWordBoundary
  else none

/-- The number that a relative reference means, counted from the group opened last. One step back
too many is the whole expression. -/
def absolute? (groups : Nat) : (back : Bool) → Nat → Option Nat
  | true, n => if n ≤ groups + 1 then some (groups + 1 - n) else none
  | false, n => some (groups + n)

/-- A back-reference by name or number. -/
def referTo (o : Options) : Reference → List Char → Reads Node
  | .number 0, _ => throw .badReference
  | .number n, _ => do
    modify fun r => { r with numbered := true }
    return .backref [n] o.ignoreCase
  | .relative back n, _ => do
    match absolute? (← get).groups back n with
    | some (n + 1) =>
      modify fun r => { r with numbered := true }
      return .backref [n + 1] o.ignoreCase
    | _ => throw .badReference
  | .name name, shown => do
    match (← get).names.filter (·.1 == name) with
    | [] => throw (.unknownName (String.ofList shown))
    | groups => return .backref (groups.map (·.2)) o.ignoreCase

/-- A call of a group. Its target is looked up when all groups are known; until then the node holds
the place of the call among all calls. -/
def callTo (target : Reference) (shown : List Char) : Reads Node := do
  let target ← match target with
    | .relative back n =>
      match absolute? (← get).groups back n with
      | some n => pure (.number n)
      | none => throw (.unknownGroup (String.ofList shown))
    | target => pure target
  let place := (← get).calls.length
  modify fun r => { r with calls := r.calls ++ [(target, shown)] }
  return .call place

/-- The number of a reference behind a backslash, with what follows it: `\1` to `\9` always, larger
numbers if so many groups were opened. -/
def digitReference? (groups : Nat) (s : List Char) : Option (Nat × List Char) :=
  match readNumber s with
  | (some n, rest) => if n ≤ 1000 && (n ≤ 9 || n ≤ groups) then some (n, rest) else none
  | (none, _) => none

/-- The byte that an escape names here. -/
def byteHere? (groups : Nat) : List Char → Except Error (Option (Nat × List Char))
  | '\\' :: [] => .error .endAtEscape
  | '\\' :: c :: rest =>
    let code? : Except Error (Option (Code × List Char)) :=
      if c = 'x' then codeEscape? .outside c rest
      else if '0' ≤ c && c ≤ '7' then
        if c ≠ '0' && (digitReference? groups (c :: rest)).isSome then .ok none
        else .ok (some (octalEscape (c :: rest)))
      else .ok none
    code?.map fun
      | some (.byte _ n, rest) => some (n, rest)
      | _ => none
  | _ => .ok none

/-- The bytes that complete an encoded character. Comments and ignored blanks may stand between. -/
def readBytes (o : Options) : (count : Nat) → Reads (List Nat)
  | 0 => return []
  | count + 1 => do
    match ← byteHere? (← get).groups (← skipIgnored o.extended .nothing (← ahead)) with
    | some (n, rest) =>
      goOn rest
      return n :: (← readBytes o count)
    | none => throw .shortByteSequence

/-- The character that an escape names, which may be the first byte of it. -/
def Code.read (o : Options) : Code → Reads Node
  | .point n => o.literal n
  | .byte _ lead => do
    let more ← readBytes o (encodedLength lead - 1)
    o.literal (← decodeBytes (lead :: more))

/-- A digit behind a backslash: a reference, an octal code, or the digit 8 or 9 itself. -/
def digitEscape (o : Options) (c : Char) (rest : List Char) : Reads Node := do
  let groups := (← get).groups
  match if c = '0' then none else digitReference? groups (c :: rest) with
  | some (n, after) =>
    goOn after
    referTo o (.number n) []
  | none =>
    if c = '8' || c = '9' then
      goOn rest
      o.literal c.toNat
    else
      let (code, after) := octalEscape (c :: rest)
      goOn after
      code.read o

/-- A reference behind `\k` or `\g`, whose name stands between two marks. `none` if there is no
mark. -/
def referenceEscape? (o : Options) (c : Char) (rest : List Char) : Reads (Option Node) := do
  match rest with
  | mark :: inner =>
    if mark = '<' || mark = '\'' then
      let close := if mark = '<' then '>' else '\''
      let (target, shown, after) ←
        if c = 'k' then referredName close inner else calledName close inner
      goOn after
      if c = 'k' then return some (← referTo o target shown)
      else return some (← callTo target shown)
    else return none
  | [] => return none

/-- What a backslash and the character behind it begin. -/
def escaped (o : Options) (c : Char) (rest : List Char) : Reads Node := do
  match anchorEscape? c, classEscape? c with
  | some a, _ =>
    goOn rest
    return .anchor a
  | none, some set =>
    goOn rest
    return .one set
  | none, none =>
    if c = 'K' then
      goOn rest
      return .keep
    else if c = 'R' then
      goOn rest
      return .lineBreak
    else if c = 'N' then
      goOn rest
      return .one (.compl (.single 0x0A))
    else if c = 'O' then
      goOn rest
      return .one (.compl .empty)
    else if '0' ≤ c && c ≤ '9' then digitEscape o c rest
    else if c = 'k' || c = 'g' then
      match ← referenceEscape? o c rest with
      | some node => return node
      | none =>
        goOn rest
        o.literal c.toNat
    else if c = 'p' || c = 'P' then
      match ← propertyEscape? (c == 'P') rest with
      | some (set, after) =>
        goOn after
        return .one set
      | none =>
        goOn rest
        o.literal c.toNat
    else
      let (code, after) := (← codeEscape? .outside c rest).getD (.ofChar c, rest)
      goOn after
      code.read o

/-- The letters of an option group: the options that they give, and whether the group ends behind
them, without a body. -/
def optionLetters (off : Bool) (o : Options) : List Char → Except Error (Options × Bool × List Char)
  | [] => .error .endInGroup
  | ')' :: rest => .ok (o, true, rest)
  | ':' :: rest => .ok (o, false, rest)
  | '-' :: rest => optionLetters true o rest
  | 'i' :: rest => optionLetters off { o with ignoreCase := !off } rest
  | 'x' :: rest => optionLetters off { o with extended := !off } rest
  | 'm' :: rest => optionLetters off { o with dotAll := !off } rest
  | _ => .error .unknownOption

/-- The name of a callout: letters, digits and low lines of the first 128 characters, of which the
first is no digit. -/
def isCalloutName (name : List Char) : Bool :=
  name.all (fun c => isWordChar c && c.toNat < 128) &&
    match name with
    | c :: _ => !isDigit c
    | [] => false

/-- What `(*` begins: a name, a tag in brackets and arguments in braces. No such name is known. -/
def callout (s : List Char) : Error :=
  let (name, after) := s.span fun c => c != ')' && c != '[' && c != '\x7b'
  match after with
  | [] => .badCallout
  | c :: rest =>
    if !isCalloutName name then .badCalloutName
    else if c = '[' then
      let (tag, after) := rest.span (· != ']')
      if after.isEmpty then .badCallout
      else if !isCalloutName tag then .badCalloutTag
      else if after.tail.isEmpty then .badCallout
      else .unknownCallout
    else if c = '\x7b' && !rest.contains '\x7d' then .badCallout
    else .unknownCallout

/-- How a group begins, read off the characters behind its parenthesis. -/
inductive Opening where
  | capture (name : Option (List Char))
  /-- wraps what it holds, which is read with these options -/
  | plain (o : Options) (wrap : Node → Node)
  /-- options for what it holds -/
  | options (o : Options)
  /-- options for all that follows in the group around it -/
  | optionsOnward (o : Options)

/-- How a group begins, with what follows its beginning. -/
def opening (o : Options) : List Char → Except Error (Opening × List Char)
  | [] => .error .unmatchedOpen
  | '*' :: rest => .error (callout rest)
  | '?' :: rest =>
    match rest with
    | [] => .error .endInGroup
    | ':' :: rest => .ok (.plain o id, rest)
    | '=' :: rest => .ok (.plain o (.lookAhead false), rest)
    | '!' :: rest => .ok (.plain o (.lookAhead true), rest)
    | '>' :: rest => .ok (.plain o .atomic, rest)
    | '<' :: [] => .error .unmatchedOpen
    | '<' :: '=' :: rest =>
      .ok (.plain { o with behind := true } (.lookBehind false ⟨0, some 0⟩), rest)
    | '<' :: '!' :: rest =>
      .ok (.plain { o with behind := true } (.lookBehind true ⟨0, some 0⟩), rest)
    | '<' :: rest => do
      let (name, rest) ← definedName '>' rest
      return (.capture (some name), rest)
    | '\'' :: rest => do
      let (name, rest) ← definedName '\'' rest
      return (.capture (some name), rest)
    | ')' :: _ => .error .unknownOption
    | rest => do
      let (o, onward, rest) ← optionLetters false o rest
      return (if onward then .optionsOnward o else .options o, rest)
  | rest => .ok (.capture none, rest)

/-- Quantifiers behind a part, as many as stand there. -/
def quantified (o : Options) : (fuel : Nat) → (depth : Nat) → Node → Reads Node
  | 0, _, node => return node
  | fuel + 1, depth, node => do
    let rest ← skipIgnored o.extended .nothing (← ahead)
    goOn rest
    match ← quantifier? rest with
    | some (q, rest) =>
      goOn rest
      if node.unrepeatable then throw .unrepeatable
      if depthLimit ≤ depth then throw .tooDeep
      quantified o fuel (depth + 1) (q.apply node)
    | none => return node

/-- A part that is no group. -/
def part (o : Options) (depth : Nat) (c : Char) (rest : List Char) : Reads Node := do
  if c = '\\' then
    match rest with
    | [] => throw .endAtEscape
    | c :: rest => escaped o c rest
  else if c = '[' then
    let (set, after) ← bracketClass (rest.length + 1) depth rest
    goOn after
    o.member set
  else if c = '.' then
    goOn rest
    return .one (if o.dotAll then .compl .empty else .compl (.single 0x0A))
  else if c = '^' then
    goOn rest
    return .anchor .lineStart
  else if c = '$' then
    goOn rest
    return .anchor .lineEnd
  else
    match ← quantifier? (c :: rest) with
    | some _ => throw .nothingToRepeat
    | none =>
      goOn rest
      o.literal c.toNat

mutual

/-- Alternatives up to the end of the group, whose parenthesis is left alone. `depth` counts what
they stand in. -/
def alternatives : (fuel : Nat) → (depth : Nat) → Options → Reads Node
  | 0, _, _ => throw .endInGroup
  | fuel + 1, depth, o => do
    if depthLimit ≤ depth + 1 then throw .tooDeep
    let first := (← branch fuel (depth + 2) o true).getD .empty
    match ← ahead with
    | '|' :: rest =>
      goOn rest
      return .alt first (← alternatives fuel depth o)
    | _ => return first

/-- The parts of one alternative up to its end, `none` if there are none. `first` holds in front of
the first part. -/
def branch : (fuel : Nat) → (depth : Nat) → Options → (first : Bool) → Reads (Option Node)
  | 0, _, _, _ => throw .endInGroup
  | fuel + 1, depth, o, first => do
    let rest ← skipIgnored o.extended .nothing (← ahead)
    goOn rest
    match rest with
    | [] => return none
    | c :: rest =>
      if c = '|' || c = ')' then return none
      else if c = '(' then
        match ← reading fun _ => opening o rest with
        | .optionsOnward inner => return some (.enclosed (← alternatives fuel depth inner))
        | .options inner =>
          let body ← alternatives fuel depth inner
          closeGroup
          next fuel depth o first (.enclosed body)
        | .plain inner wrap =>
          let body ← alternatives fuel depth inner
          closeGroup
          next fuel depth o first (wrap body)
        | .capture name =>
          let index ← openGroup name
          let body ← alternatives fuel depth o
          closeGroup
          next fuel depth o first (.group index body)
      else next fuel depth o first (← part o depth c rest)

/-- The quantifiers of a part, and the parts that follow. A group that is a sequence becomes part of
the sequence that it stands in, unless it is first. -/
def next : (fuel : Nat) → (depth : Nat) → Options → (first : Bool) → Node → Reads (Option Node)
  | 0, _, _, _, _ => throw .endInGroup
  | fuel + 1, depth, o, first, node => do
    let node ← quantified o fuel depth node
    match ← branch fuel depth o false with
    | none => return some node
    | some rest => return some (if first then node.before rest else node.followedBy rest)

end

end Rubric.Regex
