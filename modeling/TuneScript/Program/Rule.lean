import TuneScript.Grammar.Lexeme
import TuneScript.Program.Node

/-!
Grammar rules by name, each with the record that it makes of its parts. The parts may be
any values: a missing part is a failure, a part too many is ignored.
-/

namespace TuneScript

inductive Rule where
  | program | parameters | arguments
  | note | noteArray | chord | rest | tempo | volume | instrument
  | loop | whileLoop | forLoop | range
  | branch | elseifClause | elseClause
  | define | call | assign
  | noteLiteral | chordLiteral | notes | identifier | refIdentifier | number
  | binary (o : Operator)
  | compare (r : Relation)
  | connect (c : Connective)
  | negation
  /-- A rule that stands for its only part. -/
  | single
  deriving DecidableEq

namespace Rule

def names : List (String × Rule) := [
  ("start", program), ("parameter_list", parameters), ("argument_list", arguments),
  ("note_stmt", note), ("note_value", single), ("note_array", noteArray), ("chord_stmt", chord),
  ("rest_stmt", rest), ("tempo_stmt", tempo), ("volume_stmt", volume),
  ("instrument_stmt", instrument), ("loop_stmt", loop), ("while_stmt", whileLoop),
  ("for_stmt", forLoop), ("range_expr", range), ("if_stmt", branch),
  ("elseif_clause", elseifClause), ("else_clause", elseClause), ("fn_stmt", define),
  ("fn_call_stmt", call), ("assignment", assign), ("note_literal", noteLiteral),
  ("chord_literal", chordLiteral), ("note_list", notes), ("identifier", identifier),
  ("ref_identifier", refIdentifier), ("number", number), ("duration", single),
  ("add", binary .add), ("sub", binary .sub), ("mul", binary .mul), ("div", binary .div),
  ("or_expr", connect .or), ("and_expr", connect .and), ("not_expr", negation),
  ("eq", compare .eq), ("neq", compare .ne), ("lt", compare .lt), ("gt", compare .gt),
  ("lte", compare .le), ("gte", compare .ge), ("logical_primary", single)]

/-- The rule of this name; the dialect without rests has no rule for them. -/
def ofName? (dialect : Dialect) (name : String) : Option Rule :=
  match names.lookup name with
  | some rest => if dialect.has .rest then some rest else none
  | other => other

def part (parts : List Value) (i : Nat) : Result Value := Value.nthItem .list parts i

def optionalPart (parts : List Value) (i : Nat) (default : Value) : Value :=
  (parts[i]?).getD default

/-- The text of the first part. -/
def spelling (parts : List Value) : Result String := do (← part parts 0).display

def twoParts (build : Value → Value → Value) (parts : List Value) : Result Value := do
  return build (← part parts 0) (← part parts 1)

/-- The name by which a call is made: that of a record, or else the text of the value. -/
def calledName (v : Value) : Result Value :=
  match v with
  | .record _ => v.get "name" (.text "")
  | v => v.display.map .text

/-- A call belongs to the language when its name starts so. -/
def isRefCall (v : Value) : Result Bool := do
  match ← calledName v with
  | .text name => return Node.refMark.toList.isPrefixOf name.toList
  | other => throw (.noAttribute other.kind.name "startswith")

/-- A list after the name of a function holds its parameters. -/
def definition (name : Value) : List Value → Value
  | .list xs :: body => Node.functionDef name (.list xs) body
  | body => Node.functionDef name (.list []) body

/-- Lists among the notes are spliced in. -/
def spliced (parts : List Value) : List Value :=
  parts.flatMap fun
    | .list items => items
    | v => [v]

/-- A number with a point is a float, any other is whole. -/
def numberOf (s : String) : Result Value :=
  if s.toList.contains '.' then (Reading.float s).map .float else (Reading.int s).map .int

/-- The record, or other value, that a rule makes of its parts. -/
def build (rule : Rule) (parts : List Value) : Result Value :=
  match rule with
  | program => .ok (Node.program parts)
  | parameters | arguments => .ok (.list parts)
  | note => do return Node.note (← part parts 0) (optionalPart parts 1 .null)
  | noteArray => do return Node.noteArray (← part parts 0)
  | chord => do return Node.chord (← part parts 0) (optionalPart parts 1 .null)
  | rest => do return Node.rest (← part parts 0)
  | tempo => do return Node.tempo (← part parts 0)
  | volume => do return Node.volume (← part parts 0)
  | instrument => do return Node.instrument (← spelling parts)
  | loop => do return Node.loop (← part parts 0) (parts.drop 1)
  | whileLoop => do return Node.whileLoop (← part parts 0) (parts.drop 1)
  | forLoop => twoParts (fun counter range => Node.forLoop counter range (parts.drop 2)) parts
  | range => twoParts Node.range parts
  | branch => do return Node.branch (← part parts 0) (parts.drop 1)
  | elseifClause => do return Node.elseifClause (← part parts 0) (parts.drop 1)
  | elseClause => .ok (Node.elseClause parts)
  | define => do return definition (← part parts 0) (parts.drop 1)
  | call => do
    let name ← part parts 0
    return Node.call (← isRefCall name) name (optionalPart parts 1 (.list []))
  | assign => twoParts Node.assign parts
  | noteLiteral => do return Node.noteLiteral (← spelling parts)
  | chordLiteral => do return Node.chordLiteral (← part parts 0)
  | notes => .ok (.list (spliced parts))
  | identifier => do return Node.identifier (← spelling parts)
  | refIdentifier => do return Node.refIdentifier (← spelling parts)
  | number => do return Node.number (← numberOf (← spelling parts))
  | binary o => twoParts (Node.infixed "binop" o.symbol) parts
  | compare r => twoParts (Node.infixed "comparison" r.symbol) parts
  | connect c => twoParts (Node.infixed "logical_op" c.symbol) parts
  | negation => do return Node.negation (← part parts 0)
  | single => part parts 0

end Rule
end TuneScript
