import TuneScript.Program.Tree

/-!
The words of the language. `Terminal` is the class of a word, `Lexeme` the word itself.
-/

namespace TuneScript

/-- The language comes in two forms; the second has no rests. -/
inductive Dialect where
  | full | restless
  deriving DecidableEq

inductive Keyword where
  | note | chord | rest | tempo | volume | refinst
  | loop | whileLoop | forLoop | branch | alternative | otherwise | define
  | or | and | not
  deriving DecidableEq

namespace Keyword

def text : Keyword → String
  | note => "note"
  | chord => "chord"
  | rest => "rest"
  | tempo => "tempo"
  | volume => "volume"
  | refinst => "refinst"
  | loop => "loop"
  | whileLoop => "while"
  | forLoop => "for"
  | branch => "if"
  | alternative => "elseif"
  | otherwise => "else"
  | define => "fn"
  | or => "or"
  | and => "and"
  | not => "not"

def all : List Keyword :=
  [note, chord, rest, tempo, volume, refinst, loop, whileLoop, forLoop, branch, alternative,
    otherwise, define, or, and, not]

def ofText? (s : String) : Option Keyword := all.find? fun k => k.text == s

end Keyword

def Dialect.has : Dialect → Keyword → Bool
  | restless, .rest => false
  | _, _ => true

inductive Mark where
  | semicolon | comma | colon | equals
  | openBracket | closeBracket | openBrace | closeBrace | openParen | closeParen
  | relation (r : Relation)
  | operator (o : Operator)
  deriving DecidableEq

namespace Mark

def text : Mark → String
  | semicolon => ";"
  | comma => ","
  | colon => ":"
  | equals => "="
  | openBracket => "["
  | closeBracket => "]"
  | openBrace => "\x7b"
  | closeBrace => "\x7d"
  | openParen => "("
  | closeParen => ")"
  | relation r => r.symbol
  | operator o => o.symbol

/-- Marks of two characters come before those of one. -/
def all : List Mark :=
  [relation .eq, relation .ne, relation .le, relation .ge,
    openParen, closeParen, operator .mul, operator .add, comma, operator .sub, operator .div, colon,
    semicolon, relation .lt, equals, relation .gt, openBracket, closeBracket, openBrace, closeBrace]

/-- How messages call a mark. -/
def className : Mark → String
  | semicolon => "SEMICOLON"
  | comma => "COMMA"
  | colon => "COLON"
  | equals => "EQUAL"
  | openBracket => "LSQB"
  | closeBracket => "RSQB"
  | openBrace => "LBRACE"
  | closeBrace => "RBRACE"
  | openParen => "LPAR"
  | closeParen => "RPAR"
  | relation .eq => "__ANON_0"
  | relation .ne => "__ANON_1"
  | relation .le => "__ANON_2"
  | relation .ge => "__ANON_3"
  | relation .lt => "LESSTHAN"
  | relation .gt => "MORETHAN"
  | operator .add => "PLUS"
  | operator .sub => "MINUS"
  | operator .mul => "STAR"
  | operator .div => "SLASH"

end Mark

inductive Terminal where
  | name | numeral | note
  | keyword (k : Keyword)
  | mark (m : Mark)
  deriving DecidableEq

inductive Lexeme where
  | name (x : String)
  | numeral (n : Numeral)
  | note (pitch : String)
  | keyword (k : Keyword)
  | mark (m : Mark)
  deriving DecidableEq

namespace Lexeme

def terminal : Lexeme → Terminal
  | name _ => .name
  | numeral _ => .numeral
  | note _ => .note
  | keyword k => .keyword k
  | mark m => .mark m

def chars : Lexeme → List Char
  | name x => x.toList
  | numeral n => n.chars
  | note p => p.toList
  | keyword k => k.text.toList
  | mark m => m.text.toList

/-- How messages call a word. -/
def className : Lexeme → String
  | name _ => "IDENTIFIER"
  | numeral _ => "NUMBER"
  | note _ => "SIMPLE_NOTE"
  | keyword k => k.text.toUpper
  | mark m => m.className

end Lexeme

/-- A place in a text; lines and columns count from one, and only a line feed ends a line. -/
structure Place where
  line : Nat
  column : Nat
  deriving DecidableEq

namespace Place

def first : Place := ⟨1, 1⟩

def next (p : Place) (c : Char) : Place :=
  if c = '\n' then ⟨p.line + 1, 1⟩ else ⟨p.line, p.column + 1⟩

def after (p : Place) (cs : List Char) : Place := cs.foldl next p

end Place

structure Token where
  lexeme : Lexeme
  place : Place
  deriving DecidableEq

end TuneScript
