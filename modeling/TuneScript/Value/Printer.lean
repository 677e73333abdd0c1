import TuneScript.Value.Number

/-!
The text of a value. `display` writes a text as it is; `literal`, which is also used for
everything inside a list or record, quotes it.
-/

namespace TuneScript.Value

/-- A whole number in decimal, if it has at most `digitLimit` digits. -/
def intText (n : Int) : Result String :=
  if digitLimit < Decimal.width n.natAbs then .error .integerTextTooLong else .ok (toString n)

def boolText (b : Bool) : String := if b then "True" else "False"

mutual

def literal : Value → Result String
  | null => .ok "None"
  | bool b => .ok (boolText b)
  | int n => intText n
  | float x => .ok (FloatText.render x)
  | nan _ => .ok FloatText.undefined
  | text s => .ok (Text.quoted s)
  | list items => do
    let parts ← literalItems items
    return "[" ++ ", ".intercalate parts ++ "]"
  | record fields => do
    let parts ← literalFields fields
    return "\x7b" ++ ", ".intercalate parts ++ "\x7d"

def literalItems : List Value → Result (List String)
  | [] => .ok []
  | v :: rest => do
    let head ← literal v
    let tail ← literalItems rest
    return head :: tail

def literalFields : List (String × Value) → Result (List String)
  | [] => .ok []
  | (key, v) :: rest => do
    let head ← literal v
    let tail ← literalFields rest
    return (Text.quoted key ++ ": " ++ head) :: tail

end

def display : Value → Result String
  | text s => .ok s
  | v => literal v

/-- A number with one digit after the point. -/
def tenths : Value → Result String
  | text _ => .error .unknownFormatCode
  | v =>
    match v.number? with
    | some n => n.toFloat.map FloatText.tenths
    | none => .error (.unsupportedFormat v.kind)

end TuneScript.Value
