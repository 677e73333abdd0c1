import TuneScript.Number.Binary

/-!
The decimal text of a float: the fewest digits that read back as the same float, and
among those the ones nearest to it.
-/

namespace TuneScript

/-- A positive decimal `0.d₁d₂… · 10 ^ point`, its digits read as one whole number. -/
structure Decimal where
  digits : Nat
  point : Int
  deriving DecidableEq

namespace Decimal

def digitChars (n : Nat) : List Char := Nat.toDigits 10 n

/-- The number of digits of `n`. -/
def width (n : Nat) : Nat := (digitChars n).length

/-- How many zeros follow the point of `num / den` before its first digit, when the
fraction is less than one. A float has at most 323 of them. -/
def leadingZeros (num den : Nat) : Nat → Nat
  | 0 => 0
  | fuel + 1 => if den ≤ num * 10 then 0 else leadingZeros (num * 10) den fuel + 1

/-- The place of the point of a positive fraction: `10 ^ (point - 1) ≤ num / den < 10 ^ point`. -/
def pointOf (num den : Nat) : Int :=
  if den ≤ num then width (num / den) else -(leadingZeros num den 400 : Int)

/-- The fraction `num / den` in units of `10 ^ e`. -/
def scale (num den : Nat) (e : Int) : Nat × Nat :=
  if e < 0 then (num * Nat.pow 10 (-e).toNat, den) else (num, den * Nat.pow 10 e.toNat)

/-- The float nearest to `c · 10 ^ e`. -/
def read (c : Nat) (e : Int) : Float :=
  if e < 0 then Binary.nearest false c (Nat.pow 10 (-e).toNat)
  else Binary.nearest false (c * Nat.pow 10 e.toNat) 1

/-- The decimal on the grid of `count` digits that reads back as `x`, the nearer one first. -/
def onGrid? (x : Float) (num den : Nat) (point : Int) (count : Nat) : Option Decimal :=
  let e := point - count
  let (n, d) := scale num den e
  let near := roundHalfEven n d
  let far := if near * d ≤ n then near + 1 else near - 1
  if read near e == x then some ⟨near, width near + e⟩
  else if read far e == x then some ⟨far, width far + e⟩
  else none

/-- The first grid of at least `count` digits with a decimal that reads back as `x`. -/
def search (x : Float) (num den : Nat) (point : Int) (count : Nat) : Nat → Decimal
  | 0 => let (n, d) := scale num den (point - count); ⟨roundHalfEven n d, point⟩
  | fuel + 1 =>
    match onGrid? x num den point count with
    | some decimal => decimal
    | none => search x num den point (count + 1) fuel

/-- Trailing zeros carry nothing once the point is fixed. -/
def stripZeros (n : Nat) : Nat → Nat
  | 0 => n
  | fuel + 1 => if n % 10 = 0 ∧ n ≠ 0 then stripZeros (n / 10) fuel else n

/-- The shortest decimal of a positive finite float; seventeen digits always suffice. -/
def shortest (coefficient : Nat) (exponent : Int) : Decimal :=
  let (num, den) := Binary.scale coefficient 1 (-exponent)
  let decimal := search (Binary.nearest false num den) num den (pointOf num den) 1 16
  { decimal with digits := stripZeros decimal.digits 20 }

end Decimal

namespace FloatText

/-- Positions of the point that are written out; beyond them an exponent is written. -/
def leastPoint : Int := -3
def greatestPoint : Int := 16

def zeros (n : Nat) : List Char := List.replicate n '0'

/-- A whole number keeps `.0`. -/
def positional (digits : List Char) (point : Int) : List Char :=
  if point ≤ 0 then '0' :: '.' :: zeros (-point).toNat ++ digits
  else
    let p := point.toNat
    if digits.length ≤ p then digits ++ zeros (p - digits.length) ++ ['.', '0']
    else digits.take p ++ '.' :: digits.drop p

/-- The exponent has a sign and at least two digits. -/
def scientific (digits : List Char) (point : Int) : List Char :=
  let power := point - 1
  let size := Decimal.digitChars power.natAbs
  let head := match digits with
    | [] => []
    | [d] => [d]
    | d :: rest => d :: '.' :: rest
  head ++ 'e' :: (if power < 0 then '-' else '+') ::
    (if size.length < 2 then '0' :: size else size)

def magnitude (coefficient : Nat) (exponent : Int) : List Char :=
  if coefficient = 0 then ['0', '.', '0']
  else
    let decimal := Decimal.shortest coefficient exponent
    let digits := Decimal.digitChars decimal.digits
    if leastPoint ≤ decimal.point ∧ decimal.point ≤ greatestPoint then
      positional digits decimal.point
    else scientific digits decimal.point

def undefined : String := "nan"

/-- The text of a float: the fewest digits that read back the same. -/
def render (x : Float) : String :=
  match Binary.ofFloat x with
  | .nan => undefined
  | .infinite negative => if negative then "-inf" else "inf"
  | .finite negative coefficient exponent =>
    let body := magnitude coefficient exponent
    String.ofList (if negative then '-' :: body else body)

/-- A float with one digit after the point, the exact value rounded half to even. -/
def tenths (x : Float) : String :=
  match Binary.ofFloat x with
  | .nan => undefined
  | .infinite negative => if negative then "-inf" else "inf"
  | .finite negative coefficient exponent =>
    let (num, den) := Binary.scale (10 * coefficient) 1 (-exponent)
    let t := roundHalfEven num den
    let body := Decimal.digitChars (t / 10) ++ '.' :: Decimal.digitChars (t % 10)
    String.ofList (if negative then '-' :: body else body)

end FloatText
end TuneScript
