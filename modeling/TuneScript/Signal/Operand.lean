import TuneScript.Signal.Wave
import TuneScript.Value.Arithmetic

/-!
Values among the samples of a wave. A number goes with every sample, a list with as many
samples as it has items, and lists inside a list go with the samples one by one. A text
and any other value fail, each in a way that depends on what is done with it.
-/

namespace TuneScript

/-- What an operand is made of, list after list. -/
inductive Entries where
  | numbers (xs : List Float)
  | texts (width : Nat)
  | others (items : List Value)

/-- The shape gives the lengths of nested lists, the outermost first; a value that is no
list has the empty shape. -/
structure Operand where
  shape : List Nat
  entries : Entries

namespace Operand

/-- The lengths with which both shapes begin. -/
def sharedLengths : List Nat → List Nat → List Nat
  | m :: ms, n :: ns => if m = n then m :: sharedLengths ms ns else []
  | _, _ => []

mutual

/-- The shape on which the parts of a value agree, and whether they agree to the end. -/
def form : Value → List Nat × Bool
  | .list items =>
    let (inner, even) := formOfItems items
    (items.length :: inner, even)
  | _ => ([], true)

def formOfItems : List Value → List Nat × Bool
  | [] => ([], true)
  | v :: rest =>
    let (first, even) := form v
    if rest.isEmpty then (first, even)
    else
      let (others, alsoEven) := formOfItems rest
      let shared := sharedLengths first others
      (shared, even && alsoEven && shared == first && shared == others)

end

mutual

/-- What is left of a value without its lists. -/
def leaves : Value → List Value
  | .list items => leavesOfItems items
  | v => [v]

def leavesOfItems : List Value → List Value
  | [] => []
  | v :: rest => leaves v ++ leavesOfItems rest

end

/-- Whole numbers that a machine word holds, with a sign or without. -/
def isWord (n : Int) : Bool := -9223372036854775808 ≤ n && n < 18446744073709551616

def isWide : Value → Bool
  | .int n => !isWord n
  | _ => false

def entry? (v : Value) : Option Float :=
  if isWide v then none else v.number?.bind fun n => n.toFloat.toOption

/-- The characters that a value takes up among texts. -/
def width? : Value → Option Nat
  | .text s => some s.length
  | .bool _ => some 5
  | .int n => if isWord n then some (if n < 9223372036854775808 then 21 else 20) else none
  | .float _ | .nan _ => some 32
  | _ => none

/-- Numbers if all items are numbers, texts if the rest are texts. -/
def entriesOf (items : List Value) : Entries :=
  match items.mapM entry? with
  | some xs => .numbers xs
  | none =>
    match items.mapM width? with
    | some widths => .texts (widths.foldl max 1)
    | none => .others items

def ofValue (v : Value) : Result Operand :=
  match v with
  | .list _ =>
    let (shape, even) := form v
    if even then .ok ⟨shape, entriesOf (leaves v)⟩ else .error (.unevenLists shape)
  | .text s => .ok ⟨[], .texts (max 1 s.length)⟩
  | v =>
    match v.number? with
    | some n => do return ⟨[], .numbers [← n.toFloat]⟩
    | none => .ok ⟨[], .others [v]⟩

/-- The entries as numbers, as far as they are numbers. -/
def values (o : Operand) : List Float :=
  match o.entries with
  | .numbers xs => xs
  | .texts _ => []
  | .others items => items.map fun v => (v.number?.bind fun n => n.toFloat.toOption).getD 0.0

/-- The length of two rows side by side: a row of one item goes with every other. -/
def commonLength? (m n : Nat) : Option Nat :=
  if m = n then some n else if m = 1 then some n else if n = 1 then some m else none

/-- The shape of an operand beside `n` samples. -/
def shapeBeside? (shape : List Nat) (n : Nat) : Option (List Nat) :=
  match shape.getLast? with
  | none => some [n]
  | some m => (commonLength? m n).map fun k => shape.dropLast ++ [k]

/-- The shape of the product with `n` samples; `first` says whether the operand stands
before them. Items that are no numbers fail when they meet a sample. -/
def productShape (o : Operand) (first : Bool) (n : Nat) : Result (List Nat) := do
  if let .texts width := o.entries then
    throw (.textOperand "multiply" width first)
  match shapeBeside? o.shape n with
  | none => throw (.shapesDiffer (if first then [o.shape, [n]] else [[n], o.shape]))
  | some shape =>
    if let .others items := o.entries then
      if shape.all (0 < ·) then
        items.forM fun v => do
          let _ ← if first then v.mul (.float 0.0) else (Value.float 0.0).mul v
    return shape

/-- One item for all of `k` places, or an item for each. -/
def stretch {α : Type} (k : Nat) : List α → List α
  | [x] => List.replicate k x
  | xs => xs

/-- The innermost lists of an operand. -/
def rows {α : Type} (shape : List Nat) (items : List α) : List (List α) :=
  let width := shape.getLast?.getD 1
  (List.range (shape.dropLast.foldl (· * ·) 1)).map fun i => (items.drop (i * width)).take width

/-- The samples times the operand, and the shape of the result. -/
def product (o : Operand) (xs : List Float) : Result (List Nat × List Float) := do
  let shape ← o.productShape false xs.length
  let k := shape.getLast?.getD 1
  return (shape, (rows o.shape o.values).flatMap fun row =>
    List.zipWith (· * ·) (stretch k xs) (stretch k row))

/-- The number that goes with each sample. -/
def each (o : Operand) : Nat → Float :=
  let xs := o.values.toArray
  if xs.size = 1 then fun _ => xs[0]?.getD 0.0 else fun k => xs[k]?.getD 0.0

/-- The strength at which something is mixed into `n` samples by an operation: it is
multiplied with a wave first, and the result has to fit the samples. -/
def strength (operation : String) (n : Nat) (v : Value) : Result (Nat → Float) := do
  let o ← ofValue v
  let shape ← o.productShape true n
  if let .others _ := o.entries then
    throw (.resultNotNumbers operation)
  if shape = [n] then return o.each else throw (.resultShape [n] shape)

/-- The factor by which each of `n` samples is changed in place. -/
def factor (n : Nat) (v : Value) : Result (Nat → Float) := do
  let o ← ofValue v
  match o.entries with
  | .texts width => throw (.textOperand "multiply" width false)
  | .others _ => throw (.resultNotNumbers "multiply")
  | .numbers _ =>
    match shapeBeside? o.shape n with
    | none => throw (.shapesDiffer [[n], o.shape, [n]])
    | some shape => if shape = [n] then return o.each else throw (.resultShape [n] shape)

/-- A result as one row, to be laid over a stretch of `n` samples; lists of one item around
it do not count. -/
def row (shape : List Nat) (xs : List Float) (n : Nat) : Result (List Float) :=
  if shape.dropLast.all (· == 1) then .ok xs else .error (.shapeMismatch shape n)

/-- A ramp of `n` points between a whole number and a value; `first` says whether it starts
at the value. -/
def ramp (v : Value) (first : Bool) (other : Int) (n : Nat) : Result (List Float) := do
  if isWide v then throw (.wideEnd (if first then 1 else 0))
  let o ← ofValue v
  let curve := fun x =>
    if first then Wave.ramp x (Float.ofInt other) n else Wave.ramp (Float.ofInt other) x n
  match o.entries with
  | .texts _ => throw (.textEnd first)
  | .others items =>
    items.forM fun item => do
      let _ ← if first then (Value.int other).sub item else item.sub (.int other)
    row (n :: o.shape) [] n
  | .numbers xs =>
    if o.shape.isEmpty then return xs.flatMap curve
    else row (n :: o.shape) (xs.flatMap curve) n

/-- The number of seconds over which `n` samples are spread. -/
def span (n : Int) (duration : Value) : Result Float := do
  if n < 0 then throw (.negativeSampleCount n)
  if isWide duration then throw (.wideEnd 0)
  if let .text _ := duration then throw (.textEnd false)
  Wave.allot "size" n.toNat
  match duration.number? with
  | some d => d.toFloat
  | none => throw (.notAFloat duration.kind)

/-- A value written into one place of a wave; nothing is written as an undefined number. -/
def sample : Value → Result Float
  | .null => .ok (0.0 / 0.0)
  | .text s => Reading.float s
  | v =>
    match v.number? with
    | some n => n.toFloat
    | none => .error (.notAFloat v.kind)

/-- A value written into a stretch of a wave: a list gives a sample for each place, any
other value one for all. -/
def written : Value → Result (List Float)
  | .list items =>
    if items.any (·.kind = .list) then .error .nestedTooFar else items.mapM sample
  | v => do return [← sample v]

end Operand
end TuneScript
