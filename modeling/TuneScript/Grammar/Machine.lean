import TuneScript.Grammar.Operands

/-!
Reading a program one word at a time. The machine holds the bodies that are open, the
statements read so far in the innermost one, and how far the statement at hand has come.
A statement that may end before a word is ended by any word that does not continue it.
-/

namespace TuneScript

/-- The branches of a conditional read so far, the alternatives last first. -/
structure Branches where
  condition : Logic
  body : List Stmt
  alternatives : List (Logic × List Stmt)

def Branches.toStmt (b : Branches) (otherwise : Option (List Stmt)) : Stmt :=
  .branch b.condition b.body b.alternatives.reverse otherwise

/-- What stands before the body in braces. -/
inductive Header where
  | loop (count : Numeral)
  | whileLoop (condition : Logic)
  | forLoop (counter : String) (start stop : Numeral)
  | define (name : String) (parameters : List String)
  | branch (condition : Logic)
  | alternative (before : Branches) (condition : Logic)
  | otherwise (before : Branches)

/-- What a condition in parentheses is read for. -/
inductive Clause where
  | whileLoop
  | branch
  | alternative (before : Branches)

def Clause.header : Clause → Logic → Header
  | whileLoop, e => .whileLoop e
  | branch, e => .branch e
  | alternative before, e => .alternative before e

/-- What an expression is read for; arguments before this one stand last first. -/
inductive Goal where
  | rest
  | assign (name : String)
  | argument (function : String) (before : List Expr)
  | eval
  | condition (clause : Clause)

/-- What a bracketed list of notes is read for. -/
inductive Bracket where
  | noteArray
  | chord
  | expression (goal : Goal)

/-- A note statement or a chord statement without its duration. -/
inductive Playing where
  | note (pitch : Pitch)
  | chord (notes : Notes)

def Playing.toStmt : Playing → Option Numeral → Stmt
  | note pitch, duration => .note pitch duration
  | chord notes, duration => .chord notes duration

/-- How far the statement at hand has come. Names and notes of a list stand last first. -/
inductive Phase where
  | start
  | noteHead
  | chordHead
  | notesOpen (bracket : Bracket)
  | notesNext (bracket : Bracket) (first : String) (others : List String)
  | notesComma (bracket : Bracket) (first : String) (others : List String)
  | played (what : Playing)
  | duration (what : Playing)
  | tempo
  | volume
  | instrument
  | instrumentName
  | loopHead
  | loopCount (count : Numeral)
  | clauseHead (clause : Clause)
  | clauseEnd (clause : Clause) (condition : Logic)
  | forHead
  | forOpen
  | forName (counter : String)
  | forComma (counter : String)
  | forStart (counter : String) (start : Numeral)
  | forColon (counter : String) (start : Numeral)
  | forStop (counter : String) (start stop : Numeral)
  | forEnd (counter : String) (start stop : Numeral)
  | defineHead
  | defineName (name : String)
  | parametersOpen (name : String)
  | parametersNext (name : String) (parameters : List String)
  | parametersComma (name : String) (parameters : List String)
  | parametersEnd (name : String) (parameters : List String)
  | branches (b : Branches)
  | otherwiseHead (b : Branches)
  | name (x : String)
  | argumentsOpen (function : String)
  | expression (goal : Goal) (operands : Operands)
  | chordExpression (goal : Goal) (notes : Notes)

/-- What a word does to the statement at hand. -/
inductive Move where
  | go (phase : Phase) (follow : Follow)
  | finish (s : Stmt) (follow : Follow)
  | enter (header : Header)

namespace Phase

def wantMark (m : Mark) : Follow := .only [.mark m]

def wantNumeral : Follow := .only [.numeral]

def wantName : Follow := .only [.name]

def wantNote : Follow := .only [.note]

def openNotes (bracket : Bracket) : Move := .go (notesOpen bracket) wantNote

/-- The first word of an expression. -/
def expressionStart (goal : Goal) : Lexeme → Option Move
  | .mark .openBracket => some (openNotes (.expression goal))
  | l => (Operands.empty.step l).map fun (s, follow) => .go (expression goal s) follow

def closeNotes (notes : Notes) : Bracket → Move
  | .noteArray => .go (played (.note (.several notes))) .noteArray
  | .chord => .go (played (.chord notes)) .chord
  | .expression goal => .go (chordExpression goal notes) .chord

/-- The word that ends an expression where one is required. -/
def expressionEnd (goal : Goal) (e : Expr) (l : Lexeme) : Option Move :=
  match goal, l, e with
  | .eval, .mark .semicolon, e => some (.finish (.eval e) .statement)
  | .argument f before, .mark .comma, e =>
    some (.go (expression (.argument f (e :: before)) Operands.empty) .expression)
  | .argument f before, .mark .closeParen, e =>
    some (.finish (.call f (e :: before).reverse) .statement)
  | .condition clause, .mark .closeParen, .logic e =>
    some (.go (clauseEnd clause e) (wantMark .openBrace))
  | _, _, _ => none

/-- One more word of an expression, or the word that ends it. -/
def expressionStep (goal : Goal) (s : Operands) (l : Lexeme) : Option Move :=
  match s.step l with
  | some (s, follow) => some (.go (expression goal s) follow)
  | none => s.finish?.bind fun e => expressionEnd goal (.logic e) l

/-- The first word of a statement. -/
def starting : Lexeme → Option Move
  | .keyword .note => some (.go noteHead (.only [.note, .mark .openBracket]))
  | .keyword .chord => some (.go chordHead (wantMark .openBracket))
  | .keyword .rest => some (.go (expression .rest Operands.empty) .expression)
  | .keyword .tempo => some (.go tempo wantNumeral)
  | .keyword .volume => some (.go volume wantNumeral)
  | .keyword .refinst => some (.go instrument (wantMark .equals))
  | .keyword .loop => some (.go loopHead wantNumeral)
  | .keyword .whileLoop => some (.go (clauseHead .whileLoop) (wantMark .openParen))
  | .keyword .forLoop => some (.go forHead (wantMark .openParen))
  | .keyword .branch => some (.go (clauseHead .branch) (wantMark .openParen))
  | .keyword .define => some (.go defineHead wantName)
  | .name x => some (.go (name x) .name)
  | l => expressionStart .eval l

/-- Whether the operands are still empty, so that a chord may stand instead. -/
def admitsChord (goal : Goal) (s : Operands) : Bool :=
  s == Operands.empty &&
    (match goal with
    | .condition _ => false
    | _ => true)

/-- A word that continues the statement at hand. -/
def advance : Phase → Lexeme → Option Move
  | noteHead, .note p => some (.go (played (.note (.single p))) .note)
  | noteHead, .mark .openBracket => some (openNotes .noteArray)
  | chordHead, .mark .openBracket => some (openNotes .chord)
  | notesOpen bracket, .note p => some (.go (notesNext bracket p []) .note)
  | notesNext bracket first others, .mark .comma =>
    some (.go (notesComma bracket first others) wantNote)
  | notesNext bracket first others, .mark .closeBracket =>
    some (closeNotes ⟨first, others.reverse⟩ bracket)
  | notesComma bracket first others, .note p =>
    some (.go (notesNext bracket first (p :: others)) .note)
  | played what, .mark .comma => some (.go (duration what) wantNumeral)
  | duration what, .numeral n => some (.finish (what.toStmt (some n)) .numeral)
  | tempo, .numeral n => some (.finish (.tempo n) .numeral)
  | volume, .numeral n => some (.finish (.volume n) .numeral)
  | instrument, .mark .equals => some (.go instrumentName wantName)
  | instrumentName, .name x => some (.finish (.instrument x) .statement)
  | loopHead, .numeral n => some (.go (loopCount n) .numeral)
  | loopCount n, .mark .openBrace => some (.enter (.loop n))
  | clauseHead clause, .mark .openParen =>
    some (.go (expression (.condition clause) Operands.empty) (.operand true))
  | clauseEnd clause e, .mark .openBrace => some (.enter (clause.header e))
  | forHead, .mark .openParen => some (.go forOpen wantName)
  | forOpen, .name x => some (.go (forName x) .name)
  | forName x, .mark .comma => some (.go (forComma x) wantNumeral)
  | forComma x, .numeral n => some (.go (forStart x n) .numeral)
  | forStart x a, .mark .colon => some (.go (forColon x a) wantNumeral)
  | forColon x a, .numeral n => some (.go (forStop x a n) .numeral)
  | forStop x a b, .mark .closeParen => some (.go (forEnd x a b) (wantMark .openBrace))
  | forEnd x a b, .mark .openBrace => some (.enter (.forLoop x a b))
  | defineHead, .name f => some (.go (defineName f) .name)
  | defineName f, .mark .openParen =>
    some (.go (parametersOpen f) (.only [.name, .mark .closeParen]))
  | parametersOpen f, .name x => some (.go (parametersNext f [x]) .name)
  | parametersOpen f, .mark .closeParen => some (.go (parametersEnd f []) (wantMark .openBrace))
  | parametersNext f xs, .mark .comma => some (.go (parametersComma f xs) wantName)
  | parametersNext f xs, .mark .closeParen =>
    some (.go (parametersEnd f xs.reverse) (wantMark .openBrace))
  | parametersComma f xs, .name x => some (.go (parametersNext f (x :: xs)) .name)
  | parametersEnd f xs, .mark .openBrace => some (.enter (.define f xs))
  | branches b, .keyword .alternative =>
    some (.go (clauseHead (.alternative b)) (wantMark .openParen))
  | branches b, .keyword .otherwise => some (.go (otherwiseHead b) (wantMark .openBrace))
  | otherwiseHead b, .mark .openBrace => some (.enter (.otherwise b))
  | name x, .mark .equals => some (.go (expression (.assign x) Operands.empty) .expression)
  | name f, .mark .openParen => some (.go (argumentsOpen f) .arguments)
  | name x, l => expressionStep .eval (Operands.ofArith (.name x)) l
  | argumentsOpen f, .mark .closeParen => some (.finish (.call f []) .statement)
  | argumentsOpen f, l => expressionStart (.argument f []) l
  | expression goal s, .mark .openBracket =>
    if admitsChord goal s then some (openNotes (.expression goal))
    else expressionStep goal s (.mark .openBracket)
  | expression goal s, l => expressionStep goal s l
  | chordExpression goal notes, l => expressionEnd goal (.chord notes) l
  | _, _ => none

/-- The statement of an expression that may end without a word of its own. -/
def goalEnd? : Goal → Expr → Option Stmt
  | .rest, e => some (.rest e)
  | .assign x, e => some (.assign x e)
  | _, _ => none

/-- The statement at hand, none or one, if it may end here. -/
def ended? : Phase → Option (List Stmt)
  | start => some []
  | played what => some [what.toStmt none]
  | branches b => some [b.toStmt none]
  | expression goal s => (s.finish?.bind fun e => goalEnd? goal (.logic e)).map ([·])
  | chordExpression goal notes => (goalEnd? goal (.chord notes)).map ([·])
  | _ => none

end Phase

/-- An open body: its header and the statements before it, last first. -/
structure Block where
  header : Header
  before : List Stmt

structure Machine where
  blocks : List Block
  /-- The statements of the innermost body, last first. -/
  done : List Stmt
  phase : Phase
  follow : Follow

namespace Machine

def initial : Machine := ⟨[], [], .start, .statement⟩

def apply (m : Machine) : Move → Machine
  | .go phase follow => { m with phase, follow }
  | .finish s follow => { m with done := s :: m.done, phase := .start, follow }
  | .enter header => ⟨⟨header, m.done⟩ :: m.blocks, [], .start, .statement⟩

/-- Ends the innermost body. -/
def close? (m : Machine) : Option Machine :=
  match m.blocks with
  | [] => none
  | ⟨header, before⟩ :: blocks =>
    let body := m.done.reverse
    let ended := fun s => some ⟨blocks, s :: before, .start, .statement⟩
    let further := fun b => some ⟨blocks, before, .branches b, .branch⟩
    match header with
    | .loop n => ended (.loop n body)
    | .whileLoop e => ended (.whileLoop e body)
    | .forLoop x a b => ended (.forLoop x a b body)
    | .define f xs => ended (.define f xs body)
    | .branch e => further ⟨e, body, []⟩
    | .alternative b e => further { b with alternatives := (e, body) :: b.alternatives }
    | .otherwise b => ended (b.toStmt (some body))

/-- Ends the statement at hand, if it may end. -/
def settle? (m : Machine) : Option Machine :=
  m.phase.ended?.map fun ended => { m with done := ended ++ m.done, phase := .start }

/-- Reads one word; nothing when no program goes on so. -/
def step (m : Machine) (l : Lexeme) : Option Machine :=
  match m.phase.advance l with
  | some move => some (m.apply move)
  | none =>
    match m.settle? with
    | none => none
    | some m =>
      match Phase.starting l with
      | some move => some (m.apply move)
      | none => if l = .mark .closeBrace then m.close? else none

/-- The program, if it may end here. -/
def finish? (m : Machine) : Option Program :=
  match m.settle? with
  | some ⟨[], done, _, _⟩ => some done.reverse
  | _ => none

end Machine
end TuneScript
