import TuneScript.Signal.Effect
import TuneScript.Voice.Wave

/-!
A player of voices: it keeps the current voice and plays notes on it.
-/

namespace TuneScript

structure Player where
  rate : Int
  voice : Voice := .piano
  log : Array Effect := #[]

/-- Playing changes the player and may fail; a failure keeps the changes. -/
abbrev Play := ExceptT Failure (StateM Player)

namespace Play

def emit (effect : Effect) : Play Unit := modify fun p => { p with log := p.log.push effect }

def say (s : String) : Play Unit := emit (.text (s ++ "\n"))

def lift {α : Type} : Result α → Play α
  | .ok a => pure a
  | .error f => throw f

/-- An unknown name is reported and changes nothing. -/
def setVoice (name : Value) : Play Unit := do
  match name with
  | .text s =>
    match Voice.ofName? s with
    | some voice =>
      modify fun p => { p with voice }
      say ("🎼 切換音色為: " ++ voice.name)
    | none =>
      say ("❌ 未知音色: " ++ s)
      say ("🎼 可用音色: " ++ ", ".intercalate (Voice.all.map Voice.name))
  | v => throw (.noAttribute v.kind.name "lower")

/-- Plays a wave and waits until it has ended. -/
def playWave (wave : Wave) : Play Unit := do
  let samples := Sound.quantize 1.0 32767.0 wave
  emit (.sound ⟨samples, true⟩)
  let seconds ← lift ((Value.int samples.size).div (.int (← get).rate))
  emit (.wait (← lift (← lift (seconds.mul (.int 1000))).toInt))

/-- A note that has no frequency is passed over. -/
def playNote (note duration volume : Value) : Play Unit := do
  match ← lift (Voice.frequency? note) with
  | some f =>
    let p ← get
    playWave (← lift (p.voice.wave p.rate (.float f) duration volume))
  | none => pure ()

end Play
end TuneScript
