import TuneScript.Signal.Envelope
import TuneScript.Signal.Operand
import TuneScript.Synth.Pitch
import TuneScript.Synth.Presets
import TuneScript.Value.Order

/-!
The synthesizer of the engines: instruments by name, and the wave of a note on one of
them. Configurations are values, so each part of one is looked up when it is needed.
-/

namespace TuneScript

structure Synthesizer where
  palette : Palette
  rate : Int
  presets : List (String × Value)

namespace Synthesizer

def standardRate : Int := 44100

def ofPalette (palette : Palette) (rate : Int) : Synthesizer :=
  ⟨palette, rate, Presets.ofPalette palette⟩

/-- Adds an instrument, or replaces the one of that name. -/
def addPreset (s : Synthesizer) (name : String) (config : Value) : Synthesizer :=
  if s.presets.any (·.1 == name) then
    { s with presets := s.presets.map fun p => if p.1 == name then (name, config) else p }
  else { s with presets := s.presets ++ [(name, config)] }

def instruments (s : Synthesizer) : List String := s.presets.map (·.1)

def fallback : String := "piano"

/-- The configuration of an instrument that has to be known. -/
def preset (s : Synthesizer) (instrument : Value) : Result Value := do
  instrument.requireKey
  let known := match instrument with
    | .text name => s.presets.lookup name
    | _ => none
  match known with
  | some config => return config
  | none => throw (.missingKey (← instrument.literal))

/-- The configuration of an instrument; an unknown one plays as the piano does. -/
def config (s : Synthesizer) (instrument : Value) : Result Value := do
  instrument.requireKey
  let piano := (s.presets.lookup fallback).getD .null
  match instrument with
  | .text name => return (s.presets.lookup name).getD piano
  | _ => return piano

/-- A number among the samples of a wave. -/
def amount (v : Value) : Result Float :=
  match v.number? with
  | some n => n.toFloat
  | none => .error (.unsupportedOperands Operator.mul.symbol .float v.kind)

/-- The soft palette takes only a share of what a configuration asks for. -/
def softened (palette : Palette) (share : Float) (v : Value) : Result Value :=
  match palette with
  | .soft => v.mul (.float share)
  | .plain => .ok v

/-- The items of a list from the second one on. -/
def laterItems : Value → Result (List Value)
  | .list items => .ok (items.drop 1)
  | .text s => (Value.text s).elements.map (·.drop 1)
  | .record _ => .error (.unhashable "slice")
  | v => .error (.notSubscriptable v.kind)

/-- A frequency times 2π. -/
def angular (frequency : Value) : Result Value := (Value.float (2.0 * Wave.pi)).mul frequency

/-- The overtones of a configuration; those that are not above zero are left out. -/
def overtonesFrom (palette : Palette) (frequency : Value) (multiple : Nat) :
    List Value → Result (List Overtone)
  | [] => .ok []
  | v :: rest => do
    if ← Value.related .gt v (.int 0) then
      let loudness ← softened palette 0.3 v
      let _ ← angular frequency
      let overtone : Overtone := ⟨← amount loudness, multiple.toFloat⟩
      return overtone :: (← overtonesFrom palette frequency (multiple + 1) rest)
    else overtonesFrom palette frequency (multiple + 1) rest

def overtones (palette : Palette) (frequency config : Value) : Result (List Overtone) :=
  match config.field? "harmonics" with
  | none => .ok []
  | some harmonics => do overtonesFrom palette frequency 2 (← laterItems harmonics)

/-- The depth may differ from sample to sample. -/
structure Vibrato where
  /-- The rate times 2π. -/
  omega : Float
  depth : Nat → Float

def vibrato? (palette : Palette) (n : Nat) (config : Value) : Result (Option Vibrato) :=
  match config.field? "vibrato" with
  | none => .ok none
  | some v => do
    let rate ← v.item "rate"
    let depth ← softened palette 0.7 (← v.item "depth")
    let omega ← amount (← angular rate)
    return some ⟨omega, ← Operand.strength "multiply" n depth⟩

def breath? (palette : Palette) (n : Nat) (config : Value) : Result (Option (Nat → Float)) :=
  match config.field? "breath" with
  | none => .ok none
  | some b => do
    return some (← Operand.strength "add" n (← softened palette 0.5 (← b.item "noise")))

def breathSpread : Palette → Float
  | .soft => 0.05
  | .plain => 0.1

/-- The level at the end; the plain palette has none. -/
def level (palette : Palette) (n : Nat) (config : Value) : Result (Nat → Float) :=
  match palette with
  | .soft => Operand.factor n ((config.field? "volume_scale").getD (.float 0.5))
  | .plain => .ok fun _ => 1.0

/-- The number of samples that a share of `n` samples makes. -/
def share (n : Int) (config : Value) (key : String) : Result Int := do
  (← (Value.int n).mul (← config.item key)).toInt

/-- The stages of the soft palette are curved, those of the plain one straight. -/
def stages (palette : Palette) (config : Value) : Stages Float :=
  let sustain := config.item "sustain"
  match palette with
  | .soft => {
      peak := 1.0
      attack := fun n => (Wave.ramp 0.0 1.0 n).map Float.sqrt
      decay := fun n => do
        let drop ← amount (← (Value.int 1).sub (← sustain))
        let s ← amount (← sustain)
        return (Wave.ramp 0.0 (-2.0) n).map fun x => x.exp * drop + s
      sustain := do Operand.written (← sustain)
      release := fun n => do
        let o ← Operand.ofValue (← sustain)
        let (shape, xs) ← o.product ((Wave.ramp 0.0 (-4.0) n).map Float.exp)
        Operand.row shape xs n }
  | .plain => {
      peak := 1.0
      attack := Wave.ramp 0.0 1.0
      decay := fun n => do Operand.ramp (← sustain) false 1 n
      sustain := do Operand.written (← sustain)
      release := fun n => do Operand.ramp (← sustain) true 0 n }

/-- The envelope of `n` samples. -/
def envelope (palette : Palette) (n : Int) (config : Value) : Result (List Float) := do
  let a ← share n config "attack"
  let d ← share n config "decay"
  let r ← share n config "release"
  if 0 ≤ n then
    Wave.allot "dimension" n.toNat
    [a, d, r].forM fun k => Wave.allot "size" k.toNat
  (stages palette config).layout n a d r

/-- What is added to the basic waveform and what it is multiplied with, before the
envelope. -/
def coloured (palette : Palette) (overtones : List Overtone) (vibrato : Option Vibrato)
    (breath : Option (Nat → Float)) (frequency : Float) (m : Wave.Moment) (x : Float) : Float :=
  let omega := 2.0 * Wave.pi * frequency
  let x := overtones.foldl (fun x o => x + o.loudness * (omega * o.multiple * m.time).sin) x
  let x := match vibrato with
    | some v => x * (1.0 + v.depth m.index * (v.omega * m.time).sin)
    | none => x
  match breath with
  | some b => x + b m.index * Wave.noise (breathSpread palette) m.index
  | none => x

/-- The frequency at each of `n` samples. What a waveform does first with a frequency
decides how one that is no number fails: only the sawtooth takes a list. -/
def tuned (form : Waveform) (n : Nat) (frequency : Value) : Result (Nat → Float) := do
  match form with
  | .sawtooth | .pluckedSawtooth =>
    let o ← Operand.ofValue frequency
    let shape ← o.productShape false n
    if shape = [n] then return o.each else throw (.resultShape [n] shape)
  | .drum => let _ ← frequency.mul (.float 0.5)
  | _ => let _ ← angular frequency
  let f ← amount frequency
  return fun _ => f

/-- The wave of a note. -/
def wave (s : Synthesizer) (frequency duration instrument : Value) : Result Wave := do
  let config ← s.config instrument
  let n ← (← (Value.int s.rate).mul duration).toInt
  let length ← Operand.span n duration
  let n := n.toNat
  let form := match ← config.item "waveform" with
    | .text name => Waveform.ofName s.palette name
    | _ => Waveform.pure
  let f ← tuned form n frequency
  let overtones ← overtones s.palette frequency config
  let vibrato ← vibrato? s.palette n config
  let breath ← breath? s.palette n config
  let envelope ← envelope s.palette n config
  let level ← level s.palette n config
  let body := Wave.sample length n fun m =>
    let f := f m.index
    coloured s.palette overtones vibrato breath f m (form.valueAt f m)
  return (Array.zipWith (· * ·) body envelope.toArray).mapIdx fun k x => x * level k

end Synthesizer
end TuneScript
