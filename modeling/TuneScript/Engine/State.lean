import TuneScript.Engine.Table
import TuneScript.Signal.Effect
import TuneScript.Synth.Synthesizer

/-!
The state of an engine and what it does to the outside: it prints, plays sounds and
waits. Effects are only ever added to the log, so a failure keeps those before it.
-/

namespace TuneScript

/-- The sound device: what it says of its format, or why it does not work. -/
inductive Device where
  | working (format : Option (List Value))
  | broken (reason : String)

namespace Device

def standardFormat : List Value := [.int 44100, .int (-16), .int 2]

def standard : Device := working (some standardFormat)

def format : Device → Option (List Value)
  | working format => format
  | broken _ => some standardFormat

end Device

/-- What a track keeps of a note or a rest; the plain palette does not say which it was. -/
inductive TrackEvent where
  | note (pitch duration : Value)
  | rest (duration : Value)
  | plain (pitch duration : Value)

namespace TrackEvent

def isNote : TrackEvent → Bool
  | note _ _ => true
  | _ => false

def isRest : TrackEvent → Bool
  | rest _ => true
  | _ => false

end TrackEvent

abbrev Tracks := Table (List TrackEvent)

/-- An engine whose device failed while it was built lacks all parts, except that tempo
and volume can still be set. -/
structure Engine where
  palette : Palette
  device : Device
  synthesizer : Option Synthesizer := none
  tempo : Option Value := none
  volume : Option Float := none
  instrument : Option Value := none
  tracks : Option Tracks := none
  store : Option (Table Value) := none
  log : Array Effect := #[]

/-- How messages call an engine. -/
def Palette.engineName : Palette → String
  | soft => "AudioEngine"
  | plain => "MultiInstrumentAudioEngine"

/-- A performance changes an engine and may fail; a failure keeps the changes. -/
abbrev Perform := ExceptT Failure (StateM Engine)

namespace Engine

/-- A fresh engine on a device that works. -/
def fresh (palette : Palette) (device : Device) (rate : Int) : Engine where
  palette := palette
  device := device
  synthesizer := some (Synthesizer.ofPalette palette rate)
  tempo := some (.int 120)
  volume := some 0.8
  instrument := some (.text Synthesizer.fallback)
  tracks := some []
  store := some []

def missing (e : Engine) (part : String) : Failure := .noAttribute e.palette.engineName part

end Engine

namespace Perform

def emit (effect : Effect) : Perform Unit := modify fun e => { e with log := e.log.push effect }

/-- Prints a text without ending the line. -/
def print (s : String) : Perform Unit := emit (.text s)

/-- Prints a line. -/
def say (s : String) : Perform Unit := print (s ++ "\n")

def lift {α : Type} : Result α → Perform α
  | .ok a => pure a
  | .error f => throw f

/-- A part of the engine that has to be there. -/
def part {α : Type} (name : String) (read : Engine → Option α) : Perform α := do
  let e ← get
  match read e with
  | some a => pure a
  | none => throw (e.missing name)

def tempo : Perform Value := part "current_tempo" Engine.tempo

def volume : Perform Float := part "current_volume" Engine.volume

def instrument : Perform Value := part "current_instrument" Engine.instrument

def synthesizer : Perform Synthesizer := part "synthesizer" Engine.synthesizer

def tracks : Perform Tracks := part "tracks" Engine.tracks

def store : Perform (Table Value) := part "variables" Engine.store

/-- Adds an event to the track of the current instrument. -/
def record (event : TrackEvent) : Perform Unit := do
  let table ← tracks
  let instrument ← instrument
  lift instrument.requireKey
  modify fun e =>
    { e with tracks := some (table.update instrument fun events => events.getD [] ++ [event]) }

def setVariable (name value : Value) : Perform Unit := do
  let table ← store
  lift name.requireKey
  modify fun e => { e with store := some (table.insert name value) }

/-- Waits for a number of seconds that is neither negative nor too long. -/
def sleep (duration : Value) : Perform Unit := do
  match duration.number? with
  | none => throw (.sleepNotInteger duration.kind)
  | some (.float x) =>
    if x.isNaN then throw .sleepNotANumber
    if x > 9e9 || x == -1.0 / 0.0 then throw .sleepOutOfRange
    if x < 0.0 then throw .sleepNegative
  | some (.int n) =>
    if n > 9000000000 then throw .sleepTooLong
    if n < 0 then throw .sleepNegative
  emit (.sleep duration)

end Perform
end TuneScript
