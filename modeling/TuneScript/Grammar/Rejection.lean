import TuneScript.Failure
import TuneScript.Grammar.Lexeme

/-!
Why a text is not a program, and how that is told.
-/

namespace TuneScript

inductive Rejection where
  /-- A word that no program has there; nothing stands for the end of the text. -/
  | unexpectedToken (place : Place) (lexeme : Option Lexeme)
  /-- A character that starts no word, with what stands before and after it. -/
  | unexpectedCharacter (place : Place) (c : Char) (before after : List Char)
  | numeralTooLong (digits : Nat)
  deriving DecidableEq

namespace Rejection

def endName : String := "$END"

def className : Option Lexeme → String
  | none => endName
  | some l => l.className

def lexemeText : Option Lexeme → String
  | none => ""
  | some l => String.ofList l.chars

/-- Up to this many characters on each side are shown. -/
def span : Nat := 40

def takeLast (n : Nat) (cs : List Char) : List Char := cs.drop (cs.length - n)

/-- What is shown before a place: the end of its line. -/
def lineBefore (before : List Char) : List Char :=
  ((takeLast span before).reverse.takeWhile (· ≠ '\n')).reverse

/-- What is shown from a place on: the rest of its line. -/
def lineAfter (rest : List Char) : List Char := (rest.take span).takeWhile (· ≠ '\n')

/-- The width of a line whose tabs go to multiples of eight; a carriage return starts anew. -/
def expandedWidth (cs : List Char) : Nat :=
  (cs.foldl (fun (total, column) c =>
    if c = '\t' then (total + (8 - column % 8), column + (8 - column % 8))
    else if c = '\r' || c = '\n' then (total + 1, 0)
    else (total + 1, column + 1)) (0, 0)).1

def message : Rejection → String
  | unexpectedToken place l =>
    "Unexpected token Token(" ++ Text.quoted (className l) ++ ", " ++ Text.quoted (lexemeText l) ++
      ") at line " ++ toString place.line ++ ", column " ++ toString place.column ++ ".\n"
  | unexpectedCharacter place c before after =>
    "No terminal matches '" ++ String.singleton c ++
      "' in the current parser context, at line " ++ toString place.line ++ " col " ++
      toString place.column ++ "\n\n" ++ String.ofList (before ++ after) ++ "\n" ++
      String.ofList (List.replicate (expandedWidth before) ' ') ++ "^\n"
  | numeralTooLong digits => (Failure.numeralTooLong digits).message

end Rejection
end TuneScript
