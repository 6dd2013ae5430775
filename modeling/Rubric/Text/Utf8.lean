import Rubric.Text.Quoted

/-! Reading bytes as UTF-8. A failure says where the ill-formed stretch lies and what is wrong
with it: a byte that starts nothing, a sequence broken by a byte that cannot continue it, or a
sequence cut short by the end of the bytes. -/

namespace Rubric.Text

/-- What is wrong with an ill-formed stretch of bytes. -/
inductive Utf8Fault where
  /-- the byte begins no sequence -/
  | start
  /-- the byte after the stretch does not continue it -/
  | continuation
  /-- the bytes end inside a sequence -/
  | truncated
deriving DecidableEq, Repr

/-- An ill-formed stretch: its first byte, where it begins and how many bytes it has. -/
structure Utf8Error where
  fault : Utf8Fault
  byte : UInt8
  position : Nat
  length : Nat
deriving DecidableEq, Repr

/-- The wording of a fault. -/
def Utf8Fault.text : Utf8Fault → String
  | .start => "invalid start byte"
  | .continuation => "invalid continuation byte"
  | .truncated => "unexpected end of data"

/-- The message of an ill-formed stretch; a single byte is shown, a longer one is given by its
positions. -/
def Utf8Error.message (e : Utf8Error) : String :=
  if e.length = 1 then
    "'utf-8' codec can't decode byte 0x" ++ String.ofList (hexDigits 2 e.byte.toNat) ++
      " in position " ++ toString e.position ++ ": " ++ e.fault.text
  else
    "'utf-8' codec can't decode bytes in position " ++ toString e.position ++ "-" ++
      toString (e.position + e.length - 1) ++ ": " ++ e.fault.text

/-- A byte that can stand second or later in a sequence. -/
def isContinuation (b : UInt8) : Bool :=
  0x80 ≤ b.toNat && b.toNat < 0xC0

/-- A byte that can stand second after the lead byte `lead`: overlong forms, surrogates and code
points above the last are refused here. -/
def isSecond (lead b : UInt8) : Bool :=
  isContinuation b &&
    !(lead == 0xE0 && b.toNat < 0xA0) && !(lead == 0xED && 0xA0 ≤ b.toNat) &&
    !(lead == 0xF0 && b.toNat < 0x90) && !(lead == 0xF4 && 0x90 ≤ b.toNat)

/-- The six payload bits of a continuation byte. -/
def payload (b : UInt8) : Nat :=
  b.toNat % 64

/-- The characters of a run of bytes that starts at `position`. -/
def utf8From (position : Nat) : List UInt8 → Except Utf8Error (List Char)
  | [] => .ok []
  | a :: rest =>
    let bad (fault : Utf8Fault) (length : Nat) : Except Utf8Error (List Char) :=
      .error ⟨fault, a, position, length⟩
    if a.toNat < 0x80 then
      (utf8From (position + 1) rest).map (Char.ofNat a.toNat :: ·)
    else if a.toNat < 0xC2 || 0xF5 ≤ a.toNat then bad .start 1
    else
      match rest with
      | [] => bad .truncated 1
      | b :: rest =>
        if !isSecond a b then bad .continuation 1
        else if a.toNat < 0xE0 then
          (utf8From (position + 2) rest).map (Char.ofNat (a.toNat % 32 * 64 + payload b) :: ·)
        else
          match rest with
          | [] => bad .truncated 2
          | c :: rest =>
            if !isContinuation c then bad .continuation 2
            else if a.toNat < 0xF0 then
              (utf8From (position + 3) rest).map
                (Char.ofNat ((a.toNat % 16 * 64 + payload b) * 64 + payload c) :: ·)
            else
              match rest with
              | [] => bad .truncated 3
              | d :: rest =>
                if !isContinuation d then bad .continuation 3
                else
                  (utf8From (position + 4) rest).map
                    (Char.ofNat
                      (((a.toNat % 8 * 64 + payload b) * 64 + payload c) * 64 + payload d) :: ·)

/-- The text that bytes hold. -/
def ofBytes (bytes : List UInt8) : Except Utf8Error (List Char) :=
  utf8From 0 bytes

end Rubric.Text
