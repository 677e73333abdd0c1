import TuneScript.Failure
import TuneScript.Number.Reading

/-!
Numbers among the values. A truth value counts as 0 or 1. Whole numbers are exact; as
soon as one operand is a float the other is made one too.
-/

namespace TuneScript

inductive Number where
  | int (n : Int)
  | float (x : Float)

namespace Number

def kind : Number → Kind
  | int _ => .int
  | float _ => .float

/-- What an undefined operation gives. -/
def undefined : Number := float (0.0 / 0.0)

def toValue : Number → Value
  | int n => .int n
  | float x => .float x

/-- A whole number beyond the largest float has no float. -/
def toFloat : Number → Result Float
  | int n =>
    match Binary.ofInt? n with
    | some x => .ok x
    | none => .error .intTooLarge
  | float x => .ok x

/-- The whole part, the fraction cut off. -/
def toInt : Number → Result Int
  | int n => .ok n
  | float x =>
    match Binary.ofFloat x with
    | .nan => .error .nanToInteger
    | .infinite _ => .error .infinityToInteger
    | .finite negative c e => .ok (Binary.truncate negative c e)

def compareFloatInt? (x : Float) (n : Int) : Option Ordering :=
  match Binary.ofFloat x with
  | .nan => none
  | .infinite negative => some (if negative then .lt else .gt)
  | .finite negative c e => some (Binary.compareInt negative c e n)

/-- The order of two numbers as exact quantities; nothing when one is not a number. -/
def compare? : Number → Number → Option Ordering
  | int a, int b => some (compare a b)
  | float x, int b => compareFloatInt? x b
  | int a, float y => (compareFloatInt? y a).map Ordering.swap
  | float x, float y =>
    if x < y then some .lt else if x == y then some .eq else if x > y then some .gt else none

/-- One operation on whole numbers and one on floats. -/
def combine (onInts : Int → Int → Int) (onFloats : Float → Float → Float) :
    Number → Number → Result Number
  | int a, int b => .ok (int (onInts a b))
  | a, b => do
    let x ← a.toFloat
    let y ← b.toFloat
    return float (onFloats x y)

def add : Number → Number → Result Number := combine (· + ·) (· + ·)
def sub : Number → Number → Result Number := combine (· - ·) (· - ·)
def mul : Number → Number → Result Number := combine (· * ·) (· * ·)

/-- The quotient is a float; that of two whole numbers is the float nearest to it. -/
def div : Number → Number → Result Number
  | int a, int b =>
    if b = 0 then .error (.divisionByZero .int)
    else
      let q := Binary.nearest (decide (a < 0) != decide (b < 0)) a.natAbs b.natAbs
      if q.isInf then .error .quotientTooLarge else .ok (float q)
  | a, b => do
    let x ← a.toFloat
    let y ← b.toFloat
    if y == 0.0 then throw (.divisionByZero .float)
    return float (x / y)

end Number

namespace Value

def number? : Value → Option Number
  | bool b => some (.int (if b then 1 else 0))
  | int n => some (.int n)
  | float x => some (.float x)
  | nan _ => some .undefined
  | _ => none

/-- The whole number of a value: a number loses its fraction, a text is read. -/
def toInt : Value → Result Int
  | text s => Reading.int s
  | v =>
    match v.number? with
    | some n => n.toInt
    | none => .error (.notANumber v.kind)

end Value
end TuneScript
