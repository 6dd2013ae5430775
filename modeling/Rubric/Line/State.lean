import Rubric.Grammar.Compiled

/-! What is open at some place of a document: a stack of rules, the grammar itself at its bottom. -/

namespace Rubric

/-- A rule that is open. -/
structure Entry where
  /-- the scopes of what is matched inside -/
  scope : Scope
  rule : CompiledRule
  /-- the pattern that closes the rule or keeps it open, its references replaced. The entry at the
  bottom has none. -/
  ending : Option (List Char) := none
  /-- the match that opened the rule ran to the end of its line -/
  boundary : Bool := false
deriving Repr

/-- The scopes around the content of the entry, without those of the content alone. -/
def Entry.scopeAround (entry : Entry) (rule : Rule) : Scope :=
  entry.scope.take (entry.scope.length - rule.contentScopes.length)

/-- The stack of open rules. -/
structure State where
  /-- the innermost rule -/
  current : Entry
  /-- the rules around it, from the inside out -/
  below : List Entry := []
  /-- the open rules that each line has to continue, from the outside in, with the height of the
  stack that ends with them -/
  blocks : List (CompiledRule × Nat) := []
deriving Repr

namespace State

/-- The height of the stack. -/
def height (s : State) : Nat :=
  s.below.length + 1

/-- The open rules from the outside in. -/
def entries (s : State) : List Entry :=
  (s.current :: s.below).reverse

/-- Opens a rule. -/
def push (s : State) (entry : Entry) : State :=
  { s with current := entry, below := s.current :: s.below }

/-- Closes the innermost rule. The bottom of the stack stays. -/
def pop (s : State) : State :=
  match s.below with
  | [] => s
  | entry :: below => { s with current := entry, below }

/-- Opens a rule that each line has to continue. -/
def pushBlock (s : State) (entry : Entry) : State :=
  { s.push entry with blocks := s.blocks ++ [(entry.rule, s.height + 1)] }

/-- The lowest `height` entries of the stack. -/
def cut (s : State) (height : Nat) : State :=
  match (s.current :: s.below).drop (s.height - height) with
  | [] => s
  | entry :: below => { s with current := entry, below }

/-- The lowest `height` entries of the stack, with these blocks open. -/
def resume (s : State) (height : Nat) (blocks : List (CompiledRule × Nat)) : State :=
  { s.cut height with blocks }

/-- Closes the innermost rule together with its place among the blocks. -/
def popBlock (s : State) : State :=
  { s.pop with blocks := s.blocks.dropLast }

/-- Two states at one position are alike if their stacks are of one height and their innermost rules
come from one rule. -/
abbrev Key := Nat × Option Rule

def key (s : State) : Key :=
  (s.height, s.current.rule.source?)

end State

/-- The state at the start of a document, or of a text that a capture takes for itself. -/
def CompiledRule.start (rule : CompiledRule) (scope : Scope) : State where
  current := { scope := scope ++ rule.scopes, rule }

/-- A part of a line, from `start` up to `stop`, with its scopes. -/
structure Region where
  start : Nat
  stop : Nat
  scope : Scope
deriving Repr

/-- The region moved to the right. -/
def Region.shift (n : Nat) (r : Region) : Region :=
  { r with start := r.start + n, stop := r.stop + n }

end Rubric
