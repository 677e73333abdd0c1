import TuneScript.Signal.Envelope
import TuneScript.Signal.Filter
import TuneScript.Synth.Synthesizer
import TuneScript.Voice.Basic

/-!
The waves of the voices and their envelopes. The stages of an envelope have fixed lengths
in seconds, whatever the length of the note.
-/

namespace TuneScript.Voice

def twoPi : Float := 2.0 * Wave.pi

/-- The weight that the low-pass filter gives to the signal at a sample rate. -/
def filterWeight (rate : Int) (cutoff : Value) : Result Float := do
  let corner ← (Value.int rate).div (.float twoPi)
  Synthesizer.amount (← cutoff.div (← cutoff.add corner))

def lowpass (rate : Int) (signal : List Float) (cutoff : Value) : Result (List Float) := do
  return Filter.smooth (← filterWeight rate cutoff) signal

/-- A tone of a voice: how loud it is, and its frequency times 2π. -/
structure Tone where
  loudness : Float
  omega : Float

/-- The tones of a voice at the multiples of a frequency, the `i`-th of which comes first.
The multiples of a whole number are exact. -/
def tones (frequency : Value) (i : Nat) : List Float → Result (List Tone)
  | [] => .ok []
  | loudness :: rest => do
    let omega ← Synthesizer.amount (← Synthesizer.angular (← frequency.mul (.int i)))
    return ⟨loudness, omega⟩ :: (← tones frequency (i + 1) rest)

/-- The tones of a voice, each with its own phase, added one after the other. -/
def tonesAt (phase time : Float) (i : Nat) (x : Float) : List Tone → Float
  | [] => x
  | tone :: rest =>
    let angle := tone.omega * time
    let y := tone.loudness * (if phase == 0.0 then angle else angle + i.toFloat * phase).sin
    tonesAt phase time (i + 1) (x + y) rest

/-- The noise of a plucked string lasts this many samples. -/
def pluckLength : Nat := 100

/-- The wave of a timbre before filters, sample by sample; `n` is the number of samples. -/
def timbreAt (timbre : Timbre) (tones : List Tone) (frequency : Float) (n : Nat)
    (m : Wave.Moment) : Float :=
  let t := m.time
  let count := tones.length.toFloat
  let tone := fun phase => tonesAt phase t 0 0.0 tones
  let sine := (twoPi * frequency * t).sin
  match timbre with
  | .piano => tone 0.0 * (1.0 + 0.02 * (twoPi * 5.0 * t).sin) / count
  | .bowed =>
    2.0 * (t * frequency - (t * frequency + 0.5).floor) + 0.02 * Wave.noise 1.0 m.index
  | .plucked =>
    let mix := (-t * 3.0).exp
    let x := sine * (1.0 - mix) + Wave.sign sine * mix * 0.3
    if m.index < pluckLength then x + Wave.noise 0.1 m.index else x
  | .drum =>
    if frequency < 80.0 then sine * 0.7 + Wave.noise 0.3 m.index * 0.3
    else if frequency < 200.0 then Wave.noise 1.0 m.index * 0.8 + sine * 0.2
    else
      let metal := sine + 0.5 * (twoPi * frequency * 1.6 * t).sin
      metal * 0.6 + Wave.noise 0.4 m.index * 0.4
  | .flute => (tone 0.0 + 0.01 * Wave.noise 1.0 m.index) / count
  | .brass =>
    let x := tone 0.2
    let buzz := if m.index < (n.toFloat * 0.1).toUInt64.toNat then
        x + 0.1 * Wave.noise 1.0 m.index else x
    buzz / count
  | .softSquare | .square => Wave.sign sine
  | .organ => tone 0.0 / count
  | .reed => tone 0.0 * (1.0 + 0.05 * (twoPi * 8.0 * t).sin) / count

/-- How many times the frequency of the tone a filtered timbre lets through. -/
def cutoffMultiple? : Timbre → Option Int
  | .bowed => some 8
  | .softSquare => some 4
  | _ => none

/-- The number of samples of a duration. -/
def sampleCount (rate : Int) (duration : Value) : Result Int := do
  (← (Value.int rate).mul duration).toInt

/-- The frequency at each of `n` samples. The first thing that is done with it shows whether
it is a number. -/
def tuned (timbre : Timbre) (n : Nat) (frequency : Value) : Result (Nat → Float) := do
  match timbre with
  | .bowed =>
    let o ← Operand.ofValue frequency
    let _ ← o.productShape false n
    return o.each
  | _ => let _ ← Synthesizer.angular frequency
  let f ← Synthesizer.amount frequency
  return fun _ => f

def timbreWave (rate : Int) (timbre : Timbre) (overtones : List Float)
    (frequency duration : Value) : Result (List Float) := do
  let n ← sampleCount rate duration
  if timbre = .drum then
    let _ ← frequency.related .lt (.int 80)
  let length ← Operand.span n duration
  let n := n.toNat
  let tones ← if timbre.hasTones then tones frequency 1 overtones else pure []
  let f ← tuned timbre n frequency
  let raw := (Wave.sample length n fun m => timbreAt timbre tones (f m.index) n m).toList
  match cutoffMultiple? timbre with
  | some k => lowpass rate raw (← frequency.mul (.int k))
  | none => return raw

def stages (config : Value) : Stages Float :=
  let sustain := config.item "sustain"
  { peak := 1.0
    attack := Wave.ramp 0.0 1.0
    decay := fun n => do Operand.ramp (← sustain) false 1 n
    sustain := do Operand.written (← sustain)
    release := fun n => do Operand.ramp (← sustain) true 0 n }

/-- The number of samples of a stage. -/
def stageLength (rate : Int) (config : Value) (key : String) : Result Int := do
  (← (← config.item key).mul (.int rate)).toInt

def envelope (rate : Int) (duration config : Value) : Result (List Float) := do
  let n ← sampleCount rate duration
  if n < 0 then throw .negativeDimension
  Wave.allot "dimension" n.toNat
  let a ← stageLength rate config "attack"
  let d ← stageLength rate config "decay"
  let r ← stageLength rate config "release"
  (stages config).layoutWithin n.toNat a d r

/-- The wave of a note on a voice. -/
def wave (voice : Voice) (rate : Int) (frequency duration amplitude : Value) :
    Result Wave := do
  let preset := voice.preset
  let body ← timbreWave rate preset.timbre preset.overtones frequency duration
  let shape ← envelope rate duration preset.toValue
  let o ← Operand.ofValue amplitude
  return (← o.product (List.zipWith (· * ·) body shape)).2.toArray

end TuneScript.Voice
