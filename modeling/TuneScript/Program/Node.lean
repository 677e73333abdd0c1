import TuneScript.Value.Access

/-!
The records that stand for the parts of a program, one function for each type of record.
-/

namespace TuneScript.Node

def node (type : String) (fields : List (String × Value)) : Value :=
  .record (("type", .text type) :: fields)

def program (body : List Value) : Value := node "program" [("body", .list body)]

def note (pitch duration : Value) : Value :=
  node "note" [("note_value", pitch), ("duration", duration)]

def noteArray (notes : Value) : Value := node "note_array" [("notes", notes)]

def chord (notes duration : Value) : Value :=
  node "chord" [("chord", notes), ("duration", duration)]

def rest (duration : Value) : Value := node "rest" [("duration", duration)]

def tempo (bpm : Value) : Value := node "tempo" [("bpm", bpm)]

def volume (level : Value) : Value := node "volume" [("volume", level)]

def instrument (name : String) : Value :=
  node "instrument" [("instrument", node "instrument_name" [("name", .text name)])]

def loop (count : Value) (body : List Value) : Value :=
  node "loop" [("count", count), ("body", .list body)]

def whileLoop (condition : Value) (body : List Value) : Value :=
  node "while" [("condition", condition), ("body", .list body)]

def forLoop (counter range : Value) (body : List Value) : Value :=
  node "for" [("variable", counter), ("range", range), ("body", .list body)]

def range (start stop : Value) : Value := node "range" [("start", start), ("end", stop)]

def elseifClause (condition : Value) (body : List Value) : Value :=
  node "elseif_clause" [("condition", condition), ("body", .list body)]

def elseClause (body : List Value) : Value := node "else_clause" [("body", .list body)]

def hasType (type : String) (v : Value) : Bool :=
  match v.field? "type" with
  | some (.text t) => t == type
  | _ => false

/-- The last clause that is an `else_clause` gives the body. -/
def otherwise (clauses : List Value) : Value :=
  match (clauses.filter (hasType "else_clause")).getLast? with
  | some clause => (clause.field? "body").getD (.list [])
  | none => .list []

/-- A conditional from the parts after its condition: the parts before the first record
are its first body, and of the records only the two kinds of clauses are kept. -/
def branch (condition : Value) (parts : List Value) : Value :=
  let clauses := parts.dropWhile fun v => !v.isRecord
  node "if" [
    ("condition", condition),
    ("then_body", .list (parts.takeWhile fun v => !v.isRecord)),
    ("elseif_clauses", .list (clauses.filter (hasType "elseif_clause"))),
    ("else_body", otherwise clauses)]

def functionDef (name parameters : Value) (body : List Value) : Value :=
  node "function_def" [("name", name), ("params", parameters), ("body", .list body)]

/-- Functions whose name starts so belong to the language. -/
def refMark : String := "ref"

def call (isRef : Bool) (name arguments : Value) : Value :=
  node (if isRef then "ref_call" else "function_call") [("name", name), ("args", arguments)]

def assign (name value : Value) : Value := node "assign" [("var", name), ("value", value)]

def noteLiteral (note : String) : Value := node "note_literal" [("value", .text note)]

def chordLiteral (notes : Value) : Value := node "chord_literal" [("notes", notes)]

def identifier (name : String) : Value := node "identifier" [("name", .text name)]

def refIdentifier (name : String) : Value := node "ref_identifier" [("name", .text name)]

def number (value : Value) : Value := node "number" [("value", value)]

/-- An operator between two operands: `binop`, `comparison` or `logical_op`. -/
def infixed (type symbol : String) (left right : Value) : Value :=
  node type [("op", .text symbol), ("left", left), ("right", right)]

def negation (operand : Value) : Value :=
  node "unary_op" [("op", .text "not"), ("operand", operand)]

end TuneScript.Node
