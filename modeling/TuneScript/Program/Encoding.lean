import TuneScript.Program.Node
import TuneScript.Program.Tree

/-!
The record of each part of a program. A program of exactly one statement is the record of
that statement; any other program is a `program` record.
-/

namespace TuneScript

def Numeral.toNode (n : Numeral) : Value := Node.number n.value

def durationNode : Option Numeral → Value
  | none => .null
  | some n => n.toNode

def Arith.toNode : Arith → Value
  | number n => n.toNode
  | name x => Node.identifier x
  | binary op l r => Node.infixed "binop" op.symbol l.toNode r.toNode

def Logic.toNode : Logic → Value
  | arith a => a.toNode
  | compare r a b => Node.infixed "comparison" r.symbol a.toNode b.toNode
  | negation e => Node.negation e.toNode
  | connect c l r => Node.infixed "logical_op" c.symbol l.toNode r.toNode

def Notes.toNode (notes : Notes) : Value := .list (notes.toList.map Node.noteLiteral)

def Expr.toNode : Expr → Value
  | logic e => e.toNode
  | chord notes => Node.chordLiteral notes.toNode

def Pitch.toNode : Pitch → Value
  | single note => Node.noteLiteral note
  | several notes => Node.noteArray notes.toNode

/-- Whether a call of this name is a call of the language's own. -/
def isRefName (name : String) : Bool := Node.refMark.toList.isPrefixOf name.toList

namespace Stmt

mutual

def toNode : Stmt → Value
  | note pitch duration => Node.note pitch.toNode (durationNode duration)
  | chord notes duration => Node.chord (Node.chordLiteral notes.toNode) (durationNode duration)
  | rest length => Node.rest length.toNode
  | tempo bpm => Node.tempo bpm.toNode
  | volume level => Node.volume level.toNode
  | instrument name => Node.instrument name
  | loop count body => Node.loop count.toNode (toNodes body)
  | whileLoop condition body => Node.whileLoop condition.toNode (toNodes body)
  | forLoop counter start stop body =>
    Node.forLoop (Node.identifier counter) (Node.range start.toNode stop.toNode) (toNodes body)
  | branch condition body alternatives otherwise =>
    Node.branch condition.toNode
      (toNodes body ++ alternativeNodes alternatives ++ otherwiseNodes otherwise)
  | define name parameters body =>
    Node.functionDef (Node.identifier name) (.list (parameters.map Node.identifier)) (toNodes body)
  | call name arguments =>
    Node.call (isRefName name) (Node.identifier name) (.list (arguments.map Expr.toNode))
  | assign name value => Node.assign (Node.identifier name) value.toNode
  | eval e => e.toNode

def toNodes : List Stmt → List Value
  | [] => []
  | s :: more => s.toNode :: toNodes more

def alternativeNodes : List (Logic × List Stmt) → List Value
  | [] => []
  | (condition, body) :: more =>
    Node.elseifClause condition.toNode (toNodes body) :: alternativeNodes more

def otherwiseNodes : Option (List Stmt) → List Value
  | none => []
  | some body => [Node.elseClause (toNodes body)]

end

end Stmt

def Program.toNode : Program → Value
  | [s] => s.toNode
  | body => Node.program (Stmt.toNodes body)

end TuneScript
