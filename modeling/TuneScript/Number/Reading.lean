import TuneScript.Failure
import TuneScript.Number.Shortest
import TuneScript.Text.Blank
import TuneScript.Text.Digit

/-!
Numbers read from text. White space may surround the number, digits may be of any
script, and a single `_` may stand between two digits.
-/

namespace TuneScript.Reading

/-- The digits of a grouped digit string up to the first character that is neither a digit
nor `_`, with the rest; nothing when a `_` does not stand between two digits. -/
def groupedDigits? : List Char → Option (List Char × List Char)
  | [] => none
  | [c] => if (Text.digitValue? c).isSome then some ([c], []) else none
  | c :: d :: rest =>
    if (Text.digitValue? c).isNone then none
    else if d = '_' then (groupedDigits? rest).map fun (ds, rest) => (c :: ds, rest)
    else if (Text.digitValue? d).isSome then
      (groupedDigits? (d :: rest)).map fun (ds, rest) => (c :: ds, rest)
    else some ([c], d :: rest)

/-- The sign in front of a number, true for a minus. -/
def splitSign : List Char → Bool × List Char
  | '-' :: rest => (true, rest)
  | '+' :: rest => (false, rest)
  | cs => (false, cs)

/-- The limit on the number of digits is checked before what follows the digits. -/
def int (source : String) : Result Int :=
  let (negative, body) := splitSign (Text.trimBy Text.isNumberBlank source.toList)
  match groupedDigits? body with
  | none => .error (.invalidInteger source)
  | some (digits, rest) =>
    if digitLimit < digits.length then .error (.numeralTooLong digits.length)
    else if !rest.isEmpty then .error (.invalidInteger source)
    else
      let n : Int := Text.natOfDigits digits
      .ok (if negative then -n else n)

/-- The float nearest to the digits, read as a whole number, times `10 ^ exponent`. Beyond
these exponents the answer is infinite or zero whatever the digits are. -/
def nearest (negative : Bool) (digits : List Char) (exponent : Int) : Float :=
  let c := Text.natOfDigits digits
  let point := (Decimal.width c : Int) + exponent
  if c = 0 ∨ point < -400 then Binary.nearest negative 0 1
  else if 400 < point then Binary.nearest negative (Nat.pow 10 400) 1
  else if exponent < 0 then Binary.nearest negative c (Nat.pow 10 (-exponent).toNat)
  else Binary.nearest negative (c * Nat.pow 10 exponent.toNat) 1

/-- Digits, then a point with more digits; one of the two digit strings may be empty. -/
def mantissa? (cs : List Char) : Option (List Char × Nat × List Char) :=
  let isDigit := fun c => (Text.digitValue? c).isSome
  let whole := cs.takeWhile isDigit
  match cs.dropWhile isDigit with
  | '.' :: rest =>
    let fraction := rest.takeWhile isDigit
    if whole.isEmpty && fraction.isEmpty then none
    else some (whole ++ fraction, fraction.length, rest.dropWhile isDigit)
  | rest => if whole.isEmpty then none else some (whole, 0, rest)

/-- The exponent at the end of a number, zero when there is none. -/
def exponent? : List Char → Option Int
  | [] => some 0
  | e :: rest =>
    if e = 'e' || e = 'E' then
      let (negative, digits) := splitSign rest
      if digits.isEmpty || !digits.all (fun c => (Text.digitValue? c).isSome) then none
      else
        let n : Int := Text.natOfDigits digits
        some (if negative then -n else n)
    else none

/-- The text without the `_` between digits; nothing when one stands elsewhere. -/
def ungroup? (previous : Bool) : List Char → Option (List Char)
  | [] => some []
  | '_' :: c :: rest =>
    if previous && (Text.digitValue? c).isSome then (ungroup? true rest).map (c :: ·) else none
  | c :: rest =>
    if c = '_' then none else (ungroup? (Text.digitValue? c).isSome rest).map (c :: ·)

def float (source : String) : Result Float :=
  let invalid : Result Float := .error (.invalidFloat source)
  match ungroup? false (Text.trimBy Text.isNumberBlank source.toList) with
  | none => invalid
  | some cs =>
    let (negative, body) := splitSign cs
    let word := String.ofList (body.map Char.toLower)
    if word = "inf" ∨ word = "infinity" then .ok (Binary.nearest negative (Nat.pow 10 400) 1)
    else if word = "nan" then .ok (0.0 / 0.0)
    else
      match mantissa? body with
      | none => invalid
      | some (digits, places, rest) =>
        match exponent? rest with
        | none => invalid
        | some e => .ok (nearest negative digits (e - places))

end TuneScript.Reading
