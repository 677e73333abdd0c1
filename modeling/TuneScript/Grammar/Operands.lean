import TuneScript.Grammar.Follow

/-!
Reading an expression one word at a time. A `Group` holds, for one level of parentheses,
the operators whose right side is still to come; each is given its right side as soon as
a word shows that the right side has ended. Products bind tighter than sums, sums than
comparisons, comparisons than `and`, and `and` than `or`; operators of one strength group
to the left, except that comparisons do not chain.
-/

namespace TuneScript

/-- What waits for a sum: the left side of a comparison, or a negation. -/
inductive Pending where
  | negation
  | comparison (left : Arith) (r : Relation)
  deriving DecidableEq

structure Group where
  /-- Whether more than arithmetic may stand in this group. -/
  logical : Bool
  disjunct : Option Logic := none
  conjunct : Option Logic := none
  pending : Option Pending := none
  sum : Option (Arith × Operator) := none
  product : Option (Arith × Operator) := none
  deriving DecidableEq

namespace Group

def applyPending : Option (Arith × Operator) → Arith → Arith
  | none, a => a
  | some (left, op), a => .binary op left a

/-- The product that ends with this factor. -/
def term (g : Group) (a : Arith) : Arith := applyPending g.product a

/-- The sum that ends with this factor. -/
def total (g : Group) (a : Arith) : Arith := applyPending g.sum (g.term a)

/-- The comparison or negation that ends with this sum. -/
def related (g : Group) (a : Arith) : Logic :=
  match g.pending with
  | none => .arith a
  | some .negation => .negation (.arith a)
  | some (.comparison left r) => .compare r left a

/-- The negation that ends with this logical group. -/
def negated (g : Group) (e : Logic) : Logic :=
  match g.pending with
  | some .negation => .negation e
  | _ => e

def connected (c : Connective) : Option Logic → Logic → Logic
  | none, e => e
  | some left, e => .connect c left e

def conjunction (g : Group) (e : Logic) : Logic := connected .and g.conjunct e

def disjunction (g : Group) (e : Logic) : Logic := connected .or g.disjunct (g.conjunction e)

/-- Whether the group holds nothing but arithmetic so far. -/
def isArith (g : Group) : Bool :=
  g.disjunct.isNone && g.conjunct.isNone && g.pending.isNone

/-- Whether the next operand may be a logical group. -/
def admitsLogic (g : Group) : Bool :=
  g.logical && g.sum.isNone && g.product.isNone &&
    (match g.pending with
    | some (.comparison _ _) => false
    | _ => true)

end Group

/-- An expression that has been read up to some word. -/
inductive Operands where
  /-- An operand has to follow. -/
  | awaiting (group : Group) (outer : List Group)
  | arith (group : Group) (outer : List Group) (a : Arith)
  | logic (group : Group) (outer : List Group) (e : Logic)
  deriving DecidableEq

namespace Operands

def outermost : Group := { logical := true }

def empty : Operands := awaiting outermost []

def ofArith (a : Arith) : Operands := arith outermost [] a

/-- The group after a connective, where a new comparison starts. -/
def connect (g : Group) (e : Logic) : Connective → Group
  | .and => { logical := true, disjunct := g.disjunct, conjunct := some (g.conjunction e) }
  | .or => { logical := true, disjunct := some (g.disjunction e) }

def afterConnective (g : Group) (outer : List Group) (e : Logic) (c : Connective) :
    Option (Operands × Follow) :=
  if g.logical then some (awaiting (connect g e c) outer, .operand true) else none

/-- Closes the innermost group; one that holds only arithmetic is again an operand of
arithmetic. -/
def closeGroup : Operands → Option (Operands × Follow)
  | arith g (parent :: outer) a =>
    if g.isArith then some (arith parent outer (g.total a), .arithGroup)
    else some (logic parent outer (g.disjunction (g.related (g.total a))), .logicGroup)
  | logic g (parent :: outer) e =>
    some (logic parent outer (g.disjunction (g.negated e)), .logicGroup)
  | _ => none

def afterOperator (g : Group) (outer : List Group) (a : Arith) (o : Operator) : Operands :=
  match o with
  | .mul | .div => awaiting { g with product := some (g.term a, o) } outer
  | .add | .sub => awaiting { g with product := none, sum := some (g.total a, o) } outer

/-- One more word of the expression; nothing when the word does not continue it. -/
def step : Operands → Lexeme → Option (Operands × Follow)
  | awaiting g outer, .name x => some (arith g outer (.name x), .name)
  | awaiting g outer, .numeral n => some (arith g outer (.number n), .numeral)
  | awaiting g outer, .mark .openParen =>
    some (awaiting { logical := g.admitsLogic } (g :: outer), .operand g.admitsLogic)
  | awaiting g outer, .keyword .not =>
    if g.admitsLogic && g.pending.isNone then
      some (awaiting { g with pending := some .negation } outer, .operand false)
    else none
  | arith g outer a, .mark (.operator o) => some (afterOperator g outer a o, .operand false)
  | arith g outer a, .mark (.relation r) =>
    if g.logical && g.pending.isNone then
      some (awaiting { g with pending := some (.comparison (g.total a) r), sum := none, product := none }
        outer, .operand false)
    else none
  | arith g outer a, .keyword .and => afterConnective g outer (g.related (g.total a)) .and
  | arith g outer a, .keyword .or => afterConnective g outer (g.related (g.total a)) .or
  | logic g outer e, .keyword .and => afterConnective g outer (g.negated e) .and
  | logic g outer e, .keyword .or => afterConnective g outer (g.negated e) .or
  | s, .mark .closeParen => closeGroup s
  | _, _ => none

/-- The whole expression, if it may end here. -/
def finish? : Operands → Option Logic
  | arith g [] a => some (g.disjunction (g.related (g.total a)))
  | logic g [] e => some (g.disjunction (g.negated e))
  | _ => none

end Operands
end TuneScript
