import TuneScript.Value.Access

/-!
The frequency of a note. A note is a name and one digit for the octave; unknown names
sound as A, and so does a note too short to have an octave.
-/

namespace TuneScript.Pitch

def standard : Float := 440.0

/-- The frequencies of the fourth octave. -/
def names : List (String × Float) := [
  ("C", 261.63), ("C#", 277.18), ("Db", 277.18), ("D", 293.66), ("D#", 311.13), ("Eb", 311.13),
  ("E", 329.63), ("F", 349.23), ("F#", 369.99), ("Gb", 369.99), ("G", 392.00), ("G#", 415.30),
  ("Ab", 415.30), ("A", 440.00), ("A#", 466.16), ("Bb", 466.16), ("B", 493.88)]

/-- A frequency moved by whole octaves. -/
def shift (frequency : Float) (octaves : Int) : Float :=
  if 0 ≤ octaves then frequency * (Nat.pow 2 octaves.toNat).toFloat
  else frequency * (1.0 / (Nat.pow 2 (-octaves).toNat).toFloat)

/-- Only texts are notes; of other values the failure depends on what they can be asked. -/
def frequency (note : Value) : Result Float := do
  if (← note.length) < 2 then return standard
  match note with
  | .text s =>
    let octave ← (Value.text (String.ofList (s.toList.drop (s.length - 1)))).toInt
    let base := (names.lookup (String.ofList (s.toList.take (s.length - 1)))).getD standard
    return shift base (octave - 4)
  | .list items =>
    let _ ← (items.getLast?.getD .null).toInt
    throw (.unhashable Kind.list.name)
  | _ => throw (.unhashable "slice")

end TuneScript.Pitch
