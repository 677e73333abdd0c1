import TuneScript.Value.Arithmetic
import TuneScript.Value.Order

/-!
Programs as trees. The types follow the nesting of the grammar: sums and products below
comparisons, comparisons below the logical connectives, and chords only where a whole
expression may stand.
-/

namespace TuneScript

/-- A numeral as it is written: its digits and, after a point, the digits of its fraction. -/
structure Numeral where
  whole : List Char
  fraction : Option (List Char)
  deriving DecidableEq

namespace Numeral

def chars (n : Numeral) : List Char :=
  match n.fraction with
  | none => n.whole
  | some digits => n.whole ++ '.' :: digits

/-- A numeral without a point is a whole number; with one it is the nearest float. -/
def value (n : Numeral) : Value :=
  match n.fraction with
  | none => .int (Text.natOfDigits n.whole)
  | some digits => .float (Reading.nearest false (n.whole ++ digits) (-(digits.length : Int)))

/-- The number of digits of a whole number that is too long to be read. -/
def overlong? (n : Numeral) : Option Nat :=
  if n.fraction.isNone && decide (digitLimit < n.whole.length) then some n.whole.length else none

end Numeral

inductive Connective where
  | and | or
  deriving DecidableEq

def Connective.symbol : Connective → String
  | and => "and"
  | or => "or"

inductive Arith where
  | number (n : Numeral)
  | name (x : String)
  | binary (op : Operator) (left right : Arith)
  deriving DecidableEq

inductive Logic where
  | arith (a : Arith)
  | compare (r : Relation) (left right : Arith)
  | negation (e : Logic)
  | connect (c : Connective) (left right : Logic)
  deriving DecidableEq

/-- The notes of a chord or of a note array, the first apart since there always is one. -/
structure Notes where
  first : String
  others : List String
  deriving DecidableEq

def Notes.toList (notes : Notes) : List String := notes.first :: notes.others

inductive Expr where
  | logic (e : Logic)
  | chord (notes : Notes)
  deriving DecidableEq

inductive Pitch where
  | single (note : String)
  | several (notes : Notes)
  deriving DecidableEq

inductive Stmt where
  | note (pitch : Pitch) (duration : Option Numeral)
  | chord (notes : Notes) (duration : Option Numeral)
  | rest (length : Expr)
  | tempo (bpm : Numeral)
  | volume (level : Numeral)
  | instrument (name : String)
  | loop (count : Numeral) (body : List Stmt)
  | whileLoop (condition : Logic) (body : List Stmt)
  | forLoop (counter : String) (start stop : Numeral) (body : List Stmt)
  | branch (condition : Logic) (body : List Stmt) (alternatives : List (Logic × List Stmt))
      (otherwise : Option (List Stmt))
  | define (name : String) (parameters : List String) (body : List Stmt)
  | call (name : String) (arguments : List Expr)
  | assign (name : String) (value : Expr)
  | eval (e : Expr)

abbrev Program := List Stmt

end TuneScript
