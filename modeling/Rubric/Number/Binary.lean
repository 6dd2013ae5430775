/-! Binary64 numbers by their bits. A finite value is m · 2^q with a natural m below 2^53; reading
a decimal gives the nearest such value, halves going to the even one, and a value too large for
the format is infinite. -/

namespace Rubric.Number

/-- The power of a base with a natural exponent; one for a negative exponent. -/
def power (base : Nat) (exponent : Int) : Nat :=
  Nat.pow base exponent.toNat

/-- The natural number nearest to a fraction, the even one if there are two. -/
def nearestEven (num den : Nat) : Nat :=
  let whole := num / den
  match compare (2 * (num % den)) den with
  | .lt => whole
  | .gt => whole + 1
  | .eq => if whole % 2 = 0 then whole else whole + 1

/-- A binary64 value, held as its 64 bits. -/
structure Binary where
  bits : UInt64
deriving DecidableEq, Repr, Inhabited

namespace Binary

/-- The sign bit: set for negative values, the negative zero among them. -/
def isNegative (x : Binary) : Bool :=
  x.bits >>> 63 == 1

/-- The eleven bits of the exponent. -/
def exponentField (x : Binary) : Nat :=
  (x.bits >>> 52).toNat % 2048

/-- The fifty-two bits of the fraction. -/
def fractionField (x : Binary) : Nat :=
  x.bits.toNat % 0x10000000000000

/-- A value that is neither infinite nor no number. -/
def isFinite (x : Binary) : Bool :=
  x.exponentField != 2047

def isNaN (x : Binary) : Bool :=
  !x.isFinite && x.fractionField != 0

/-- The m of m · 2^q. -/
def mantissa (x : Binary) : Nat :=
  if x.exponentField = 0 then x.fractionField else 0x10000000000000 + x.fractionField

/-- The q of m · 2^q. -/
def exponent (x : Binary) : Int :=
  if x.exponentField = 0 then -1074 else (x.exponentField : Int) - 1075

/-- The gap to the value below is half the gap to the value above. -/
def narrowBelow (x : Binary) : Bool :=
  x.fractionField == 0 && 1 < x.exponentField

def isZero (x : Binary) : Bool :=
  x.isFinite && x.mantissa == 0

/-- The value with its sign bit set if `negative`. -/
def signed (negative : Bool) (x : Binary) : Binary :=
  if negative then ⟨x.bits ||| 0x8000000000000000⟩ else x

def infinity : Binary := ⟨0x7FF0000000000000⟩

/-- The value that stands for no number. -/
def notANumber : Binary := ⟨0x7FF8000000000000⟩

/-- The value nearest to num / den, halves going to the even mantissa. The scale is the least that
keeps the mantissa within 53 bits, and no less than that of the subnormal values. Rounding up to
2^53 carries into the exponent field, as the next value has it. -/
def ofFraction (num den : Nat) : Binary :=
  let scaled (q : Int) : Nat × Nat := (num * power 2 (-q), den * power 2 q)
  let bound : Int := max (-1074) ((num.log2 : Int) - den.log2 - 53)
  let (high, low) := scaled bound
  let q := if high / low < 0x20000000000000 then bound else bound + 1
  let (high, low) := scaled q
  let bits := (q + 1074).toNat * 0x10000000000000 + nearestEven high low
  if bits < 0x7FF0000000000000 then ⟨UInt64.ofNat bits⟩ else infinity

/-- The value nearest to digits · 10^exponent. Exponents far outside the format's reach are settled
by the number of digits alone. -/
def ofDecimal (digits : Nat) (exponent : Int) : Binary :=
  let reach : Int := (Nat.toDigits 10 digits).length + exponent
  if digits = 0 || reach < -330 then ⟨0⟩
  else if 320 < reach then infinity
  else ofFraction (digits * power 10 exponent) (power 10 (-exponent))

/-- The integer that the value is, if it is one. -/
def toInt? (x : Binary) : Option Int :=
  if !x.isFinite then none
  else
    let magnitude? : Option Nat :=
      if 0 ≤ x.exponent then some (x.mantissa * power 2 x.exponent)
      else
        let unit := power 2 (-x.exponent)
        if x.mantissa % unit = 0 then some (x.mantissa / unit) else none
    magnitude?.map fun n => if x.isNegative then -(n : Int) else n

end Binary

end Rubric.Number
