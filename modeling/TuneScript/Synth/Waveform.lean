import TuneScript.Signal.Wave

/-!
The basic waveforms of the instruments, sample by sample.
-/

namespace TuneScript

/-- There are two sets of instruments: the soft one, with damped overtones, and the plain
one. -/
inductive Palette where
  | soft | plain
  deriving DecidableEq

/-- An overtone: how loud it is, and its frequency as a multiple of the tone's. -/
structure Overtone where
  loudness : Float
  multiple : Float

inductive Waveform where
  | tone (overtones : List Overtone)
  | sawtooth
  | square
  | triangle
  /-- A tone with overtones that dies away at some rate. -/
  | pluckedTone (overtones : List Overtone) (decay : Float)
  | pluckedSawtooth
  | drum
  | softDrum
  | reed
  | softReed

namespace Waveform

def pure : Waveform := tone []

/-- The waveforms that both palettes know. -/
def named : List (String × Waveform) := [
  ("sine", pure),
  ("sawtooth", sawtooth),
  ("square", square),
  ("triangle", triangle),
  ("complex_piano", tone [⟨0.1, 2⟩, ⟨0.05, 3⟩, ⟨0.02, 7⟩]),
  ("plucked", pluckedSawtooth),
  ("noise", drum),
  ("brass", tone [⟨0.8, 2⟩, ⟨0.6, 3⟩, ⟨0.4, 4⟩]),
  ("reed", reed),
  ("sine_rich", tone [⟨0.8, 0.5⟩, ⟨0.3, 2⟩]),
  ("organ", tone [⟨0.5, 2⟩, ⟨1.0, 3⟩, ⟨0.3, 4⟩, ⟨0.8, 6⟩])]

/-- The waveforms of the soft palette alone. -/
def softNamed : List (String × Waveform) := [
  ("soft_sine", tone [⟨0.03, 2⟩]),
  ("soft_violin", tone [⟨0.15, 2⟩, ⟨0.08, 3⟩, ⟨0.04, 4⟩]),
  ("soft_cello", tone [⟨0.3, 2⟩, ⟨0.15, 3⟩, ⟨0.1, 0.5⟩]),
  ("soft_piano", tone [⟨0.08, 2⟩, ⟨0.03, 3⟩, ⟨0.01, 5⟩, ⟨0.05, 0.5⟩]),
  ("soft_plucked", pluckedTone [⟨0.12, 2⟩, ⟨0.06, 3⟩] 1.5),
  ("soft_percussion", softDrum),
  ("soft_brass", tone [⟨0.3, 2⟩, ⟨0.15, 3⟩, ⟨0.08, 4⟩]),
  ("soft_reed", softReed),
  ("soft_bass", tone [⟨0.4, 0.5⟩, ⟨0.2, 2⟩, ⟨0.1, 3⟩]),
  ("soft_organ", tone [⟨0.2, 2⟩, ⟨0.3, 3⟩, ⟨0.1, 4⟩, ⟨0.25, 6⟩])]

/-- An unknown name stands for the pure tone. -/
def ofName (palette : Palette) (name : String) : Waveform :=
  let known := match palette with
    | .soft => named ++ softNamed
    | .plain => named
  (known.lookup name).getD pure

/-- A tone with overtones, added one after the other; `omega` is the frequency times 2π. -/
def toneAt (overtones : List Overtone) (omega time : Float) : Float :=
  overtones.foldl (fun x o => x + o.loudness * (omega * o.multiple * time).sin) (omega * time).sin

def sawtoothAt (frequency time : Float) : Float := 2.0 * Wave.fraction (time * frequency) - 1.0

/-- The value of a waveform at a moment. -/
def valueAt (w : Waveform) (frequency : Float) (m : Wave.Moment) : Float :=
  let t := m.time
  let omega := 2.0 * Wave.pi * frequency
  match w with
  | tone overtones => toneAt overtones omega t
  | sawtooth => sawtoothAt frequency t
  | square => Wave.sign (omega * t).sin
  | triangle => 2.0 * (omega * t).sin.asin / Wave.pi
  | pluckedTone overtones decay => toneAt overtones omega t * (-t * decay).exp
  | pluckedSawtooth => sawtoothAt frequency t * (-t * 3.0).exp
  | drum =>
    (0.7 * Wave.noise 1.0 m.index + 0.3 * (2.0 * Wave.pi * (frequency * 0.5) * t).sin) *
      (-t * 8.0).exp
  | softDrum =>
    (0.4 * Wave.noise 0.15 m.index + 0.6 * (0.6 * (omega * t).sin)) * (-t * 12.0).exp
  | reed => 0.6 * Wave.sign (omega * t).sin + 0.4 * (omega * t).sin
  | softReed => 0.8 * (omega * t).sin + 0.2 * (0.2 * Wave.sign (omega * t).sin)

end Waveform
end TuneScript
