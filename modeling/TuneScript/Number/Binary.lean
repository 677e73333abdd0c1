/-!
Binary floating point as exact numbers. A finite `Float` is a sign, a whole
coefficient and a power of two; `nearest` goes the other way and picks the float
closest to a fraction. Everything here is `Nat` arithmetic on the bit pattern.
-/

namespace TuneScript

/-- The whole number nearest to `num / den`; a half goes to the even neighbour. -/
def roundHalfEven (num den : Nat) : Nat :=
  let q := num / den
  let r := num % den
  if 2 * r < den then q
  else if den < 2 * r then q + 1
  else q + q % 2

/-- What a `Float` stands for. -/
inductive Binary where
  | nan
  | infinite (negative : Bool)
  | finite (negative : Bool) (coefficient : Nat) (exponent : Int)
  deriving DecidableEq

namespace Binary

def fractionBits : Nat := 52

/-- The exponent of the least positive float. -/
def minExponent : Int := -1074

def ofFloat (x : Float) : Binary :=
  let bits := x.toBits.toNat
  let negative := decide (Nat.pow 2 63 ≤ bits)
  let biased := bits / Nat.pow 2 fractionBits % 2048
  let fraction := bits % Nat.pow 2 fractionBits
  if biased = 2047 then
    if fraction = 0 then infinite negative else nan
  else if biased = 0 then finite negative fraction minExponent
  else finite negative (fraction + Nat.pow 2 fractionBits) (minExponent + (biased - 1 : Nat))

/-- `num / den` times `2 ^ (-e)`, as a numerator and a denominator. -/
def scale (num den : Nat) (e : Int) : Nat × Nat :=
  if e < 0 then (num * Nat.pow 2 (-e).toNat, den) else (num, den * Nat.pow 2 e.toNat)

/-- The exponent of the leading bit of a positive fraction. -/
def leadingExponent (num den : Nat) : Int :=
  let guess : Int := (num.log2 : Int) - (den.log2 : Int)
  let (n, d) := scale num den guess
  if n < d then guess - 1 else guess

/-- The float nearest to `num / den`, a half going to the even coefficient; beyond the
largest float it is infinite. The exponent field and the coefficient are added as one
number, so a coefficient that rounds up to the next power of two carries by itself. -/
def nearest (negative : Bool) (num den : Nat) : Float :=
  let sign : Nat := if negative then Nat.pow 2 63 else 0
  if num = 0 then Float.ofBits (UInt64.ofNat sign)
  else
    let e := max (leadingExponent num den - fractionBits) minExponent
    let (n, d) := scale num den e
    let bits := (e - minExponent).toNat * Nat.pow 2 fractionBits + roundHalfEven n d
    Float.ofBits (UInt64.ofNat (sign + min bits (2047 * Nat.pow 2 fractionBits)))

/-- The float nearest to a whole number, unless it would be infinite. -/
def ofInt? (n : Int) : Option Float :=
  let x := nearest (n < 0) n.natAbs 1
  if x.isInf then none else some x

/-- The whole part of a finite float, the fraction cut off. -/
def truncate (negative : Bool) (coefficient : Nat) (exponent : Int) : Int :=
  let size := if exponent < 0 then coefficient / Nat.pow 2 (-exponent).toNat
    else coefficient * Nat.pow 2 exponent.toNat
  if negative then -size else size

/-- The order of a finite float and a whole number, both taken exactly. -/
def compareInt (negative : Bool) (coefficient : Nat) (exponent : Int) (n : Int) : Ordering :=
  let signed : Int := if negative then -coefficient else coefficient
  if exponent < 0 then compare signed (n * Nat.pow 2 (-exponent).toNat)
  else compare (signed * Nat.pow 2 exponent.toNat) n

end Binary
end TuneScript
