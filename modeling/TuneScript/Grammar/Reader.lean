import TuneScript.Grammar.Machine
import TuneScript.Grammar.Rejection
import TuneScript.Grammar.Scan

/-!
Reading a text as a program: words are cut from the text one by one, each looked for only
among what may follow the word before it.
-/

namespace TuneScript.Reader

/-- The rejection at a place where no word that is looked for stands: a word of another
class if there is one, else the character. -/
def misplaced (dialect : Dialect) (source : List Char) (place : Place) (c : Char)
    (cs : List Char) : Rejection :=
  match Scan.lexeme? (Follow.known dialect) (c :: cs) with
  | some (l, _) => .unexpectedToken place (some l)
  | none =>
    let before := source.take (source.length - (cs.length + 1))
    .unexpectedCharacter place c (Rejection.lineBefore before) (Rejection.lineAfter (c :: cs))

/-- The number of digits of the last word, if it is a whole number that is too long. -/
def overlong? (last : Option Token) : Option Nat :=
  match last with
  | some ⟨.numeral n, _⟩ => n.overlong?
  | _ => none

/-- The place of a rejection at the end of the text: where the last word starts. -/
def endPlace : Option Token → Place
  | some token => token.place
  | none => .first

/-- Reads on from a place. A whole number that is too long is refused when the word after
it has been found. -/
def readFrom (dialect : Dialect) (source : List Char) (m : Machine) (last : Option Token)
    (start : Place) (text : List Char) : Except Rejection Program :=
  match _hs : Scan.skip false start text with
  | (_, []) =>
    match overlong? last with
    | some digits => .error (.numeralTooLong digits)
    | none =>
      match m.finish? with
      | some program => .ok program
      | none => .error (.unexpectedToken (endPlace last) none)
  | (place, c :: cs) =>
    match _hl : Scan.lexeme? (m.follow.admits dialect) (c :: cs) with
    | none => .error (misplaced dialect source place c cs)
    | some (l, rest) =>
      match overlong? last with
      | some digits => .error (.numeralTooLong digits)
      | none =>
        match m.step l with
        | none => .error (.unexpectedToken place (some l))
        | some m => readFrom dialect source m (some ⟨l, place⟩) (place.after l.chars) rest
termination_by text.length
decreasing_by exact Scan.length_rest_lt _hs _hl

/-- The program that a text spells. -/
def read (dialect : Dialect) (text : String) : Except Rejection Program :=
  readFrom dialect text.toList Machine.initial none .first text.toList

end TuneScript.Reader
