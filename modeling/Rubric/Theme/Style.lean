import Rubric.Theme.Basic
import Rubric.Line.State

/-! Which style a stack of scopes gets. Of the rules whose selectors match it, the one with the most
specific selector wins, of equally specific ones the last. Color and font style have winners of
their own, among the rules that set them. -/

namespace Rubric

/-- A color and a font style. -/
structure Style where
  color : Json
  fontStyle : FontStyle := {}
deriving BEq, Repr

/-- The rank of a rule: how specific its selector is, then its place in the theme. -/
abbrev Rank := Nat × Nat

/-- The rank of a selector at a place. -/
def rank (selector : Selector) (index : Nat) : Except Misuse Rank := do
  return (← selector.specificity, index)

/-- The first rank is the greater one. -/
def Rank.outranks (a b : Rank) : Bool :=
  b.1 < a.1 || (a.1 == b.1 && b.2 < a.2)

/-- The better of a value held so far and another one, if there is another one. -/
def better (held : Option (Rank × α)) (rank : Rank) : Option α → Option (Rank × α)
  | none => held
  | some value =>
    match held with
    | none => some (rank, value)
    | some (old, kept) => if rank.outranks old then some (rank, value) else some (old, kept)

/-- The best color and the best font style among the rules from a place on. -/
def bestOf (stack : List Segments) : (index : Nat) → List ThemeRule →
    Option (Rank × Json) → Option (Rank × FontStyle) →
    Except Misuse (Option (Rank × Json) × Option (Rank × FontStyle))
  | _, [], color, fontStyle => .ok (color, fontStyle)
  | index, rule :: rest, color, fontStyle =>
    if rule.selector.matchesStack stack then do
      let rank ← rank rule.selector index
      bestOf stack (index + 1) rest (better color rank rule.foreground)
        (better fontStyle rank rule.fontStyle)
    else bestOf stack (index + 1) rest color fontStyle

/-- The style of a stack of scopes given by their segments, the outermost first. -/
def Theme.styleOf (theme : Theme) (stack : List Segments) : Except Misuse Style := do
  let (color, fontStyle) ← bestOf stack 0 theme.rules none none
  return {
    color := (color.map (·.2)).getD theme.foreground
    fontStyle := (fontStyle.map (·.2)).getD {} }

/-- The segments of a scope, which has to be a text. -/
def scopeSegments : Json → Except Misuse Segments
  | .str s => .ok (Text.split '.' s)
  | v => .error (.lacks v "split")

/-- The style of a stack of scopes, the innermost first. -/
def Theme.resolve (theme : Theme) (scopes : List Json) : Except Misuse Style := do
  theme.styleOf (← scopes.reverse.mapM scopeSegments)

/-- The styles that a theme has been asked for. -/
structure StyleCache where
  theme : Theme
  styles : List (List Json × Style) := []
deriving Repr

namespace StyleCache

/-- How many styles are held. -/
def size (cache : StyleCache) : Nat :=
  cache.styles.length

/-- The style of a stack of scopes, the innermost first, and the cache that holds it. -/
def get (cache : StyleCache) (scopes : List Json) : Except Misuse (Style × StyleCache) := do
  let scopes ← scopes.mapM Json.asKey
  match cache.styles.find? fun (known, _) => Json.sameItems known scopes with
  | some (_, style) => return (style, cache)
  | none =>
    let style ← cache.theme.resolve scopes
    return (style, { cache with styles := cache.styles ++ [(scopes, style)] })

end StyleCache

end Rubric
