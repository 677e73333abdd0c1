import TuneScript.Engine.State
import TuneScript.Program.Node
import TuneScript.Program.Tree

/-!
The values of expression nodes. A node that is not understood has the default value, and
a condition that is not understood is false; a failure comes only from the values.
-/

namespace TuneScript

def Operator.ofSymbol? (s : String) : Option Operator :=
  [add, sub, mul, div].find? fun o => o.symbol == s

def Relation.ofSymbol? (s : String) : Option Relation :=
  [eq, ne, lt, gt, le, ge].find? fun r => r.symbol == s

def Connective.ofSymbol? (s : String) : Option Connective :=
  [and, or].find? fun c => c.symbol == s

def Connective.apply : Connective → Bool → Bool → Bool
  | and => Bool.and
  | or => Bool.or

namespace Node

/-- The type of a record; other values, and records without a textual type, have none. -/
def typeName (v : Value) : String :=
  match v.field? "type" with
  | some (.text t) => t
  | _ => ""

/-- The operator of a record, `default` if it has none. -/
def symbol (v : Value) (default : String) : String :=
  match v.field? "op" with
  | some (.text s) => s
  | some _ => ""
  | none => default

/-- A field of a record, or the empty record. -/
def child (v : Value) (key : String) : Value := (v.field? key).getD (.record [])

/-- The name in a node: that of a record, or else the text of the value. -/
def nameOf (v : Value) : Result Value :=
  match v with
  | .record _ => .ok ((v.field? "name").getD (.text ""))
  | v => v.display.map .text

/-- The note in a node: the value of a record, or else the text of the value. -/
def noteOf (v : Value) : Result Value :=
  match v with
  | .record _ => .ok ((v.field? "value").getD (.text "C4"))
  | v => v.display.map .text

end Node

namespace Engine

/-- The value of a variable, `default` if it was never set. -/
def lookup (e : Engine) (name default : Value) : Result Value :=
  match e.store with
  | none => .error (e.missing "variables")
  | some table => do
    name.requireKey
    return (table.find? name).getD default

/-- An operator applied to two values; a quotient by zero is its dividend. -/
def operate (o : Operator) (left right : Value) : Result Value :=
  match o with
  | .div => if right.equal (.int 0) then .ok left else left.div right
  | o => o.apply left right

/-- The value of an expression node. -/
def valueOf (e : Engine) (node default : Value) : Result Value :=
  match Node.typeName node with
  | "number" => .ok ((node.field? "value").getD default)
  | "identifier" => e.lookup ((node.field? "name").getD (.text "")) default
  | "binop" => do
    let left ← match _h : node.field? "left" with
      | some l => e.valueOf l (.int 0)
      | none => pure (.int 0)
    let right ← match _h : node.field? "right" with
      | some r => e.valueOf r (.int 0)
      | none => pure (.int 0)
    match Operator.ofSymbol? (Node.symbol node "+") with
    | some o => operate o left right
    | none => return default
  | _ => .ok default
termination_by sizeOf node
decreasing_by all_goals exact Value.sizeOf_field_lt _h

/-- Whether a condition node holds. Both sides of a connective are always evaluated. -/
def holds (e : Engine) (node : Value) : Result Bool :=
  match Node.typeName node with
  | "comparison" => do
    let left ← e.valueOf (Node.child node "left") (.int 0)
    let right ← e.valueOf (Node.child node "right") (.int 0)
    match Relation.ofSymbol? (Node.symbol node "==") with
    | some r => left.compare r right
    | none => return false
  | "logical_op" => do
    let left ← match _h : node.field? "left" with
      | some l => e.holds l
      | none => pure false
    let right ← match _h : node.field? "right" with
      | some r => e.holds r
      | none => pure false
    match Connective.ofSymbol? (Node.symbol node "and") with
    | some c => return c.apply left right
    | none => return false
  | "unary_op" => do
    let operand ← match _h : node.field? "operand" with
      | some o => e.holds o
      | none => pure false
    return Node.symbol node "not" == "not" && !operand
  | "number" => .ok (!((node.field? "value").getD (.int 0)).equal (.int 0))
  | "identifier" => do
    let v ← e.lookup ((node.field? "name").getD (.text "")) (.int 0)
    return !v.equal (.int 0)
  | _ => .ok false
termination_by sizeOf node
decreasing_by all_goals exact Value.sizeOf_field_lt _h

end Engine

namespace Perform

def valueOf (node default : Value) : Perform Value := do lift ((← get).valueOf node default)

def holds (node : Value) : Perform Bool := do lift ((← get).holds node)

end Perform
end TuneScript
