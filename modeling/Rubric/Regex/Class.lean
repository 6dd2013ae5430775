import Rubric.Regex.Escape

/-! Bracket classes: single characters, ranges, escapes, names between `[:` and `:]`, classes
inside classes, and intersection by `&&`. -/

namespace Rubric.Regex

/-- A code that a class names: a character, or a byte that is none. -/
structure ClassCode where
  value : Nat
  stray : Bool := false
deriving DecidableEq, Repr

namespace ClassCode

/-- The code has one byte. -/
def single (c : ClassCode) : Bool :=
  c.stray || c.value < 0x80

/-- The characters that have the code. -/
def set (c : ClassCode) : CharSet :=
  if c.stray then .empty else .single c.value

/-- The characters from one code to another. Between codes of one byte these have one byte as
well. -/
def rangeTo (first last : ClassCode) : CharSet :=
  if first.single && last.single then .range first.value (min last.value 0x7F)
  else .range first.value last.value

end ClassCode

/-- What can stand in a class besides its punctuation. -/
inductive ClassItem where
  | code (c : ClassCode)
  | set (s : CharSet)
deriving Repr

/-- The character or byte that an escape in a class names, given the character behind the
backslash. -/
def classCode (place : Place) (c : Char) (rest : List Char) : Except Error (Code × List Char) :=
  if c = 'b' then .ok (.point 0x08, rest)
  else if '0' ≤ c && c ≤ '7' then .ok (octalEscape (c :: rest))
  else (codeEscape? place c rest).map fun found => found.getD (.ofChar c, rest)

/-- The bytes that complete an encoded character, each an escape in the same base. -/
def furtherBytes (base : Nat) : (count : Nat) → List Char → Except Error (List Nat × List Char)
  | 0, s => .ok ([], s)
  | _ + 1, '\\' :: [] => .error .endAtEscape
  | count + 1, '\\' :: c :: rest => do
    match ← classCode .inClass c rest with
    | (.byte other n, rest) =>
      if other = base then
        let (more, rest) ← furtherBytes base count rest
        return (n :: more, rest)
      else throw .shortByteSequence
    | _ => throw .shortByteSequence
  | _, _ => .error .shortByteSequence

/-- The escape of a class, given the character behind the backslash. -/
def classEscape (place : Place) (c : Char) (rest : List Char) :
    Except Error (ClassItem × List Char) := do
  match classEscape? c with
  | some s => return (.set s, rest)
  | none =>
    if c = 'p' || c = 'P' then
      match ← propertyEscape? (c == 'P') rest with
      | some (s, rest) => return (.set s, rest)
      | none => return (.code ⟨c.toNat, false⟩, rest)
    else
      match ← classCode place c rest with
      | (.point n, rest) => return (.code ⟨n, false⟩, rest)
      | (.byte base lead, rest) =>
        if encodedLength lead = 1 then return (.code ⟨lead, 0x80 ≤ lead⟩, rest)
        else
          let (more, rest) ← furtherBytes base (encodedLength lead - 1) rest
          return (.code ⟨← decodeBytes (lead :: more), false⟩, rest)

/-- Behind `[:` stands a name with its end: letters, of which a caret may be the first, and `:]`. -/
def beginsName (s : List Char) : Bool :=
  let letters :=
    match s with
    | '^' :: rest => rest
    | _ => s
  match s, letters.dropWhile isAlphabetic with
  | ':' :: _, _ => false
  | _, ':' :: ']' :: _ => true
  | _, _ => false

/-- The set named between `[:` and `:]`, with what follows it. -/
def bracketName (s : List Char) : Except Error (CharSet × List Char) :=
  let (negated, s) :=
    match s with
    | '^' :: rest => (true, rest)
    | _ => (false, s)
  let (name, after) := s.span (· != ':')
  match CharSet.bracketed.lookup (String.ofList name) with
  | some set => .ok (.withSense negated set, after.drop 2)
  | none => .error .posixBracket

/-- What stands directly in front of the reader of a class. -/
inductive Before where
  /-- nothing that a hyphen could join -/
  | nothing
  /-- a range or a class -/
  | closed
  /-- a set named by an escape or between `[:` and `:]` -/
  | named
  /-- a code, which may begin a range -/
  | code (c : ClassCode)
  /-- the beginning of a range with its hyphen -/
  | rangeFrom (c : ClassCode)
deriving DecidableEq, Repr

namespace Before

/-- The characters of a code that begins no range after all. -/
def set : Before → CharSet
  | code c => c.set
  | _ => .empty

/-- Where an escape behind it stands. -/
def place : Before → Place
  | rangeFrom _ => .atRangeEnd
  | _ => .inClass

/-- Reads a code: the characters that are certain then, and what stands in front of what follows. -/
def thenCode (before : Before) (c : ClassCode) : Except Error (CharSet × Before) :=
  match before with
  | rangeFrom first =>
    if c.value < first.value then .error .emptyRange else .ok (first.rangeTo c, closed)
  | before => .ok (before.set, code c)

/-- Reads a set. -/
def thenSet (before : Before) (s : CharSet) : Except Error (CharSet × Before) :=
  match before with
  | rangeFrom _ => .error .classAtRangeEnd
  | before => .ok (before.set.join s, named)

/-- Reads a hyphen, of which `rest` is what follows. It stands for itself where no range can begin,
and in front of the closing bracket and of `&&`. Behind a named set it has to stand there. -/
def thenHyphen (before : Before) (rest : List Char) : Except Error (CharSet × Before) :=
  let itself := before.thenCode ⟨'-'.toNat, false⟩
  match before, rest with
  | nothing, _ | closed, _ | rangeFrom _, _ => itself
  | _, ']' :: _ | _, '&' :: '&' :: _ => itself
  | code c, _ => .ok (.empty, rangeFrom c)
  | named, '\\' :: [] => .error .endAtEscape
  | named, '\\' :: c :: rest =>
    if c = 'p' || c = 'P' then .error .strayRange
    else (classEscape .atRangeEnd c rest).bind fun _ => .error .strayRange
  | named, _ => .error .strayRange

end Before

/-- How deep the parts of a pattern may be nested. -/
def depthLimit : Nat :=
  4096

mutual

/-- The class behind an opening bracket, with what follows its closing one. `depth` counts what it
stands in. -/
def bracketClass : (fuel : Nat) → (depth : Nat) → List Char → Except Error (CharSet × List Char)
  | 0, _, _ => .error .unterminatedClass
  | fuel + 1, depth, s => do
    if depthLimit ≤ depth then throw .tooDeep
    let (negated, s) :=
      match s with
      | '^' :: rest => (true, rest)
      | _ => (false, s)
    let (set, rest) ←
      match s with
      | ']' :: rest =>
        if rest.contains ']' then
          classItems fuel (depth + 1) none .empty (.code ⟨']'.toNat, false⟩) rest
        else throw .emptyClass
      | _ => classItems fuel (depth + 1) none .empty .nothing s
    return (.withSense negated set, rest)

/-- The members of a class up to the closing bracket. `sofar` is the intersection of the parts
before the last `&&`, `set` the union of the members since. -/
def classItems : (fuel : Nat) → (depth : Nat) → (sofar : Option CharSet) → (set : CharSet) →
    (before : Before) → List Char → Except Error (CharSet × List Char)
  | 0, _, _, _, _, _ => .error .unterminatedClass
  | fuel + 1, depth, sofar, set, before, s =>
    let all :=
      match sofar with
      | some others => CharSet.inter others (set.join before.set)
      | none => set.join before.set
    match s with
    | [] => .error .unterminatedClass
    | ']' :: rest => .ok (all, rest)
    | '&' :: '&' :: rest => classItems fuel depth (some all) .empty .nothing rest
    | '-' :: rest => do
      let (added, before) ← before.thenHyphen rest
      classItems fuel depth sofar (set.join added) before rest
    | '[' :: rest => do
      if rest.head? == some ':' && beginsName rest.tail then
        let (named, rest) ← bracketName rest.tail
        let (added, before) ← before.thenSet named
        classItems fuel depth sofar (set.join added) before rest
      else
        let (inner, rest) ← bracketClass fuel depth rest
        classItems fuel depth sofar ((set.join before.set).join inner) .closed rest
    | '\\' :: [] => .error .endAtEscape
    | '\\' :: c :: rest => do
      let (item, rest) ← classEscape before.place c rest
      let (added, before) ←
        match item with
        | .code c => before.thenCode c
        | .set s => before.thenSet s
      classItems fuel depth sofar (set.join added) before rest
    | c :: rest => do
      let (added, before) ← before.thenCode ⟨c.toNat, false⟩
      classItems fuel depth sofar (set.join added) before rest

end

end Rubric.Regex
