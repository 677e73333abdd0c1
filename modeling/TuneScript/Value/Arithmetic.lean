import TuneScript.Value.Number

/-!
The four operators on values. Besides numbers, texts and lists can be joined with their
own kind and repeated a whole number of times.
-/

namespace TuneScript

inductive Operator where
  | add | sub | mul | div
  deriving DecidableEq

def Operator.symbol : Operator → String
  | add => "+"
  | sub => "-"
  | mul => "*"
  | div => "/"

namespace Value

def isSequence : Value → Bool
  | text _ | list _ => true
  | _ => false

/-- Counts that no machine index holds are refused. -/
def repeatCount (count : Value) : Result Nat :=
  match count.number? with
  | some (.int n) =>
    if -9223372036854775808 ≤ n ∧ n < 9223372036854775808 then .ok n.toNat
    else .error .repeatTooLarge
  | _ => .error (.cannotRepeat count.kind)

/-- Texts and lists of more items are not held in memory. -/
def itemCapacity : Nat := 68719476736

def repeatText (s : String) (n : Nat) : Result String :=
  if s.isEmpty then .ok ""
  else if 1 < n ∧ 9223372036854775807 / n < s.length then .error .repeatedTooLong
  else if itemCapacity < n * s.length then .error .noMemory
  else .ok (String.join (List.replicate n s))

def repeatItems (items : List Value) (n : Nat) : Result (List Value) :=
  if items.isEmpty then .ok []
  else if itemCapacity < n * items.length then .error .noMemory
  else .ok (List.replicate n items).flatten

/-- A sequence repeated; a value that is no sequence is not touched. -/
def repeated (sequence count : Value) : Result Value := do
  let n ← repeatCount count
  match sequence with
  | text s => return text (← repeatText s n)
  | list items => return list (← repeatItems items n)
  | other => return other

def onNumbers (op : Number → Number → Result Number) (symbol : String) (a b : Value) :
    Result Value :=
  match a.number?, b.number? with
  | some m, some n => (op m n).map Number.toValue
  | _, _ => .error (.unsupportedOperands symbol a.kind b.kind)

def add : Value → Value → Result Value
  | text a, text b => .ok (text (a ++ b))
  | text _, b => .error (.cannotConcatenate .text b.kind)
  | list a, list b => .ok (list (a ++ b))
  | list _, b => .error (.cannotConcatenate .list b.kind)
  | a, b => onNumbers Number.add Operator.add.symbol a b

def sub : Value → Value → Result Value := onNumbers Number.sub Operator.sub.symbol

def mul (a b : Value) : Result Value :=
  if a.isSequence then repeated a b
  else if b.isSequence then repeated b a
  else onNumbers Number.mul Operator.mul.symbol a b

def div : Value → Value → Result Value := onNumbers Number.div Operator.div.symbol

end Value

def Operator.apply : Operator → Value → Value → Result Value
  | add => Value.add
  | sub => Value.sub
  | mul => Value.mul
  | div => Value.div

end TuneScript
