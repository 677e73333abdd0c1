import TuneScript.Grammar.Lexeme

/-!
Which words are looked for after a word has been read. The sets say what may come after
such a word anywhere in a program, so they can be wider than what the place at hand
allows; a word that is found and does not fit is then refused.
-/

namespace TuneScript

/-- What was read last. -/
inductive Follow where
  /-- Nothing, a finished statement or an opening brace. -/
  | statement
  /-- The brace that ends a branch, after which another branch may come. -/
  | branch
  /-- The bracket that ends the notes of a note statement. -/
  | noteArray
  /-- The bracket that ends a chord. -/
  | chord
  | note
  | name
  | numeral
  /-- The parenthesis that ends an arithmetic group. -/
  | arithGroup
  /-- The parenthesis that ends a logical group. -/
  | logicGroup
  /-- A place for an operand, `logical` where a negation may stand. -/
  | operand (logical : Bool)
  /-- A place for a whole expression. -/
  | expression
  /-- The parenthesis that opens the arguments of a call. -/
  | arguments
  /-- A place for just these. -/
  | only (terminals : List Terminal)
  deriving DecidableEq

namespace Follow

def relations : List Terminal :=
  [.eq, .ne, .lt, .gt, .le, .ge].map fun r => .mark (.relation r)

def operators : List Terminal := [.add, .sub, .mul, .div].map fun o => .mark (.operator o)

def connectives : List Terminal := [.keyword .and, .keyword .or]

def operandStarts : List Terminal := [.name, .numeral, .mark .openParen]

def expressionStarts : List Terminal :=
  operandStarts ++ [.keyword .not, .note, .mark .openBracket]

def statementKeywords : List Terminal :=
  [.note, .chord, .rest, .tempo, .volume, .refinst, .loop, .whileLoop, .forLoop, .branch,
    .define].map .keyword

/-- The words that start a statement, and the brace that ends a body. -/
def statementStarts : List Terminal :=
  expressionStarts ++ statementKeywords ++ [.mark .closeBrace]

/-- What may come after any operand. -/
def afterOperand : List Terminal :=
  statementStarts ++ connectives ++ [.mark .comma, .mark .closeParen, .mark .semicolon]

def terminals : Follow → List Terminal
  | statement => statementStarts
  | branch => statementStarts ++ [.keyword .alternative, .keyword .otherwise]
  | noteArray => statementStarts ++ [.mark .comma]
  | chord => statementStarts ++ [.mark .comma, .mark .closeParen, .mark .semicolon]
  | note =>
    statementStarts ++ [.mark .comma, .mark .closeParen, .mark .closeBracket, .mark .semicolon]
  | name => afterOperand ++ relations ++ operators ++ [.mark .equals]
  | numeral => afterOperand ++ relations ++ operators ++ [.mark .colon, .mark .openBrace]
  | arithGroup => afterOperand ++ relations ++ operators
  | logicGroup => afterOperand
  | operand logical => if logical then .keyword .not :: operandStarts else operandStarts
  | expression => expressionStarts
  | arguments => expressionStarts ++ [.mark .closeParen]
  | only terminals => terminals

/-- Whether a class of words is looked for. -/
def admits (dialect : Dialect) (f : Follow) : Terminal → Bool
  | .keyword k => dialect.has k && f.terminals.contains (.keyword k)
  | t => f.terminals.contains t

/-- Whether a class of words belongs to the dialect at all. -/
def known (dialect : Dialect) : Terminal → Bool
  | .keyword k => dialect.has k
  | _ => true

end Follow
end TuneScript
