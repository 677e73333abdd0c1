import TuneScript.Value.Access

/-!
The voices of the second synthesizer, which knows exactly ten of them.
-/

namespace TuneScript

/-- How the wave of a voice is made. -/
inductive Timbre where
  | piano | bowed | plucked | drum | flute | brass | softSquare | organ | reed | square
  deriving DecidableEq

def Timbre.name : Timbre → String
  | piano => "complex"
  | bowed => "sawtooth_filtered"
  | plucked => "plucked"
  | drum => "noise"
  | flute => "sine_pure"
  | brass => "brass"
  | softSquare => "square_soft"
  | organ => "organ_complex"
  | reed => "reed"
  | square => "square"

/-- Whether a voice adds tones at the multiples of its frequency. -/
def Timbre.hasTones : Timbre → Bool
  | piano | flute | brass | organ | reed => true
  | _ => false

inductive Voice where
  | piano | violin | guitar | drums | flute | trumpet
  | bass | organ | saxophone | synth
  deriving DecidableEq

/-- The stages of a voice in seconds, the level that it sustains, and its overtones. -/
structure VoicePreset where
  attack : Float
  decay : Float
  sustain : Float
  release : Float
  overtones : List Float
  timbre : Timbre

namespace Voice

def name : Voice → String
  | piano => "piano"
  | violin => "violin"
  | guitar => "guitar"
  | drums => "drums"
  | flute => "flute"
  | trumpet => "trumpet"
  | bass => "bass"
  | organ => "organ"
  | saxophone => "saxophone"
  | synth => "synth"

def all : List Voice :=
  [piano, violin, guitar, drums, flute, trumpet, bass, organ, saxophone, synth]

/-- Names are told apart without regard to case. No letter outside ASCII has a small form
that occurs in one of these names. -/
def ofName? (s : String) : Option Voice :=
  let small := String.ofList (s.toList.map Char.toLower)
  all.find? fun v => v.name == small

def preset : Voice → VoicePreset
  | piano =>
    ⟨0.01, 0.3, 0.4, 1.2, [1.0, 0.8, 0.6, 0.4, 0.25, 0.15, 0.1], .piano⟩
  | violin =>
    ⟨0.1, 0.1, 0.8, 0.4, [1.0, 0.6, 0.8, 0.5, 0.4, 0.3], .bowed⟩
  | guitar =>
    ⟨0.01, 0.2, 0.6, 1.5, [1.0, 0.7, 0.5, 0.3, 0.2], .plucked⟩
  | drums =>
    ⟨0.001, 0.05, 0.0, 0.1, [1.0], .drum⟩
  | flute =>
    ⟨0.1, 0.1, 0.9, 0.3, [1.0, 0.2, 0.1, 0.05], .flute⟩
  | trumpet =>
    ⟨0.05, 0.1, 0.8, 0.2, [1.0, 0.8, 0.6, 0.4, 0.3, 0.2], .brass⟩
  | bass =>
    ⟨0.02, 0.1, 0.7, 0.5, [1.0, 0.8, 0.3, 0.1], .softSquare⟩
  | organ =>
    ⟨0.0, 0.0, 1.0, 0.1, [1.0, 0.5, 0.8, 0.3, 0.6, 0.2, 0.4], .organ⟩
  | saxophone =>
    ⟨0.08, 0.2, 0.7, 0.4, [1.0, 0.9, 0.7, 0.5, 0.3], .reed⟩
  | synth =>
    ⟨0.01, 0.2, 0.6, 0.8, [1.0, 0.5, 0.3, 0.2, 0.1], .square⟩

end Voice

/-- The settings of a voice as a record. -/
def VoicePreset.toValue (p : VoicePreset) : Value := .record [
  ("attack", .float p.attack), ("decay", .float p.decay), ("sustain", .float p.sustain),
  ("release", .float p.release), ("harmonics", .list (p.overtones.map .float)),
  ("wave_type", .text p.timbre.name)]

namespace Voice

/-- The frequencies of each note in the octaves from 0 to 8. -/
def noteTable : List (String × List Float) := [
  ("C", [16.35, 32.7, 65.41, 130.81, 261.63, 523.25, 1046.5, 2093.0, 4186.01]),
  ("C#", [17.32, 34.65, 69.3, 138.59, 277.18, 554.37, 1108.73, 2217.46, 4434.92]),
  ("Db", [17.32, 34.65, 69.3, 138.59, 277.18, 554.37, 1108.73, 2217.46, 4434.92]),
  ("D", [18.35, 36.71, 73.42, 146.83, 293.66, 587.33, 1174.66, 2349.32, 4698.64]),
  ("D#", [19.45, 38.89, 77.78, 155.56, 311.13, 622.25, 1244.51, 2489.02, 4978.03]),
  ("Eb", [19.45, 38.89, 77.78, 155.56, 311.13, 622.25, 1244.51, 2489.02, 4978.03]),
  ("E", [20.6, 41.2, 82.41, 164.81, 329.63, 659.26, 1318.51, 2637.02, 5274.04]),
  ("F", [21.83, 43.65, 87.31, 174.61, 349.23, 698.46, 1396.91, 2793.83, 5587.65]),
  ("F#", [23.12, 46.25, 92.5, 185.0, 369.99, 739.99, 1479.98, 2959.96, 5919.91]),
  ("Gb", [23.12, 46.25, 92.5, 185.0, 369.99, 739.99, 1479.98, 2959.96, 5919.91]),
  ("G", [24.5, 49.0, 98.0, 196.0, 392.0, 783.99, 1567.98, 3135.96, 6271.93]),
  ("G#", [25.96, 51.91, 103.83, 207.65, 415.3, 830.61, 1661.22, 3322.44, 6644.88]),
  ("Ab", [25.96, 51.91, 103.83, 207.65, 415.3, 830.61, 1661.22, 3322.44, 6644.88]),
  ("A", [27.5, 55.0, 110.0, 220.0, 440.0, 880.0, 1760.0, 3520.0, 7040.0]),
  ("A#", [29.14, 58.27, 116.54, 233.08, 466.16, 932.33, 1864.66, 3729.31, 7458.62]),
  ("Bb", [29.14, 58.27, 116.54, 233.08, 466.16, 932.33, 1864.66, 3729.31, 7458.62]),
  ("B", [30.87, 61.74, 123.47, 246.94, 493.88, 987.77, 1975.53, 3951.07, 7902.13])]

/-- The frequency of a note, if there is one. The name of the note is turned to capitals
before it is looked for; no letter outside ASCII has a capital form among them. -/
def frequency? (note : Value) : Result (Option Float) := do
  if (← note.length) < 2 then return none
  match note with
  | .text s =>
    let name := String.ofList ((s.toList.take (s.length - 1)).map Char.toUpper)
    match Reading.int (String.ofList (s.toList.drop (s.length - 1))), noteTable.lookup name with
    | .ok octave, some row => return if octave < 0 then none else row[octave.toNat]?
    | _, _ => return none
  | .list _ => throw (.noAttribute Kind.list.name "upper")
  | _ => throw (.unhashable "slice")

end Voice
end TuneScript
