import Rubric.Number.Binary

/-! JSON values. Grammars and themes arrive as such values, and a member that the library only
passes on stays one. An object keeps its members in the order in which their names first
appeared; a name written again keeps its place and takes the later value. -/

namespace Rubric

/-- A JSON value. Numbers written without point and exponent are exact integers, the others
binary64. -/
inductive Json where
  | null
  | bool (b : Bool)
  | int (n : Int)
  | real (x : Number.Binary)
  | str (s : String)
  | arr (items : List Json)
  | obj (members : List (String × Json))
deriving Repr, Inhabited

namespace Json

mutual

/-- The two values are one, written in one way. -/
def beq : Json → Json → Bool
  | null, null => true
  | bool a, bool b => a == b
  | int m, int n => m == n
  | real x, real y => x == y
  | str s, str t => s == t
  | arr xs, arr ys => beqItems xs ys
  | obj xs, obj ys => beqMembers xs ys
  | _, _ => false

def beqItems : List Json → List Json → Bool
  | [], [] => true
  | x :: xs, y :: ys => beq x y && beqItems xs ys
  | _, _ => false

def beqMembers : List (String × Json) → List (String × Json) → Bool
  | [], [] => true
  | (a, x) :: xs, (b, y) :: ys => a == b && beq x y && beqMembers xs ys
  | _, _ => false

end

instance : BEq Json := ⟨beq⟩

mutual

theorem beq_iff : ∀ {a b : Json}, beq a b = true ↔ a = b
  | null, b | bool _, b | int _, b | real _, b | str _, b => by cases b <;> simp [beq]
  | arr xs, b => by cases b <;> simp [beq, beqItems_iff]
  | obj xs, b => by cases b <;> simp [beq, beqMembers_iff]

theorem beqItems_iff : ∀ {xs ys : List Json}, beqItems xs ys = true ↔ xs = ys
  | [], ys => by cases ys <;> simp [beqItems]
  | x :: xs, ys => by cases ys <;> simp [beqItems, beq_iff, beqItems_iff]

theorem beqMembers_iff : ∀ {xs ys : List (String × Json)}, beqMembers xs ys = true ↔ xs = ys
  | [], ys => by cases ys <;> simp [beqMembers]
  | (a, x) :: xs, ys => by
    cases ys with
    | nil => simp [beqMembers]
    | cons y ys => simp [beqMembers, beq_iff, beqMembers_iff, Prod.ext_iff]

end

instance : LawfulBEq Json where
  eq_of_beq := beq_iff.mp
  rfl := beq_iff.mpr rfl

/-- Writes a member: in place if the name is there already, else at the end. -/
def put (members : List (String × α)) (name : String) (value : α) : List (String × α) :=
  if members.any (·.1 == name) then
    members.map fun (other, old) => if other == name then (other, value) else (other, old)
  else members ++ [(name, value)]

/-- The value of a member. -/
def member? (members : List (String × α)) (name : String) : Option α :=
  (members.find? (·.1 == name)).map (·.2)

/-- A value that counts as set: not null, false, zero or empty. -/
def isSet : Json → Bool
  | null => false
  | bool b => b
  | int n => n != 0
  | real x => !x.isZero
  | str s => s != ""
  | arr items => !items.isEmpty
  | obj members => !members.isEmpty

def isNull : Json → Bool
  | null => true
  | _ => false

@[simp] theorem isNull_iff {v : Json} : v.isNull = true ↔ v = null := by
  cases v <;> simp [isNull]

/-- The word for the kind of a value in messages. -/
def kind : Json → String
  | null => "NoneType"
  | bool _ => "bool"
  | int _ => "int"
  | real _ => "float"
  | str _ => "str"
  | arr _ => "list"
  | obj _ => "dict"

/-- A value that can be the key of a table: anything but a list or an object. -/
def isKey : Json → Bool
  | arr _ | obj _ => false
  | _ => true

/-- The integer that a number or a truth value stands for. -/
def toInt? : Json → Option Int
  | bool b => some (if b then 1 else 0)
  | int n => some n
  | real x => x.toInt?
  | _ => none

/-- Two numbers are the same if their values are, however they are written: a truth value counts
as 0 or 1, the two zeros are one number, and no number differs from itself. -/
def sameNumber (a b : Json) : Bool :=
  match a, b with
  | real x, real y => !x.isNaN && (x == y || (x.isZero && y.isZero))
  | a, b =>
    match a.toInt?, b.toInt? with
    | some m, some n => m == n
    | _, _ => false

mutual

/-- Equality of values. Numbers compare by value, objects by their members in any order. -/
def same : Json → Json → Bool
  | null, null => true
  | str s, str t => s == t
  | arr xs, arr ys => sameItems xs ys
  | obj xs, obj ys => xs.length == ys.length && sameMembers xs ys
  | a, b => sameNumber a b

/-- Item by item. -/
def sameItems : List Json → List Json → Bool
  | [], [] => true
  | x :: xs, y :: ys => same x y && sameItems xs ys
  | _, _ => false

/-- Each member of the first object stands in the second with the same value. -/
def sameMembers : List (String × Json) → List (String × Json) → Bool
  | [], _ => true
  | (name, x) :: xs, ys =>
    (match member? ys name with
      | some y => same x y
      | none => false) && sameMembers xs ys

end

/-- Only the text itself is equal to a text. -/
@[simp] theorem same_str {s : String} {v : Json} : same (str s) v = true ↔ v = str s := by
  cases v with
  | str t => simp [same, @eq_comm _ s t]
  | _ => simp [same, sameNumber, toInt?]

end Json

end Rubric
