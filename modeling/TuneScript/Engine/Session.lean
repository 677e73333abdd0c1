import TuneScript.Engine.Execution
import TuneScript.Grammar.Reader
import TuneScript.Program.Encoding

/-!
Sessions: commands given to one engine after the other. Each command changes the engine
and answers with a value, a failure, or the rejection of a program text.
-/

namespace TuneScript

inductive Command where
  | run (dialect : Dialect) (code : String)
  | execute (program : Value)
  | node (statement : Value)
  | setTempo (bpm : Value)
  | setVolume (level : Value)
  | setInstrument (name : Value)
  | playNote (pitch duration : Value)
  | playChord (notes duration : Value)
  | playRest (duration : Value)
  | value (expression default : Value)
  | condition (expression : Value)
  | name (expression : Value)
  | noteText (expression : Value)
  | summary
  | stop
  | supported

inductive Outcome where
  | returned (v : Value)
  | failed (f : Failure)
  | rejected (r : Rejection)

namespace Command

/-- The full language reports a rejected text before it refuses it. -/
def announce (dialect : Dialect) (r : Rejection) : Perform Unit :=
  match dialect with
  | .full => Perform.say ("❌ 語法錯誤: " ++ r.message)
  | .restless => pure ()

/-- The method that a command stands for, if only the soft palette has it. -/
def softMethod? : Command → Option String
  | setTempo _ => some "set_tempo"
  | setVolume _ => some "set_volume"
  | setInstrument _ => some "set_instrument"
  | playNote _ _ => some "play_note"
  | playChord _ _ => some "play_chord"
  | playRest _ => some "play_rest"
  | _ => none

def done (action : Perform Unit) : Perform Value := do
  action
  return .null

/-- What a command other than `run` does. -/
def action : Command → Perform Value
  | run _ _ => pure .null
  | execute program => done (Perform.execute program)
  | node statement => done (Perform.node statement)
  | setTempo bpm => done (Perform.setTempo false bpm)
  | setVolume level => done (Perform.setVolume false level)
  | setInstrument choice => done (Perform.setInstrument false choice)
  | playNote pitch duration => done (Perform.playNote pitch duration)
  | playChord notes duration => done (Perform.playChord notes duration)
  | playRest duration => done (Perform.playRest duration)
  | value expression default => Perform.valueOf expression default
  | condition expression => do return .bool (← Perform.holds expression)
  | name expression => Perform.lift (Node.nameOf expression)
  | noteText expression => Perform.lift (Node.noteOf expression)
  | summary => done Perform.summary
  | stop => done Perform.stop
  | supported => do return .list ((← Perform.supported).map .text)

def outcome : Except Failure Value → Outcome
  | .ok v => .returned v
  | .error f => .failed f

/-- Gives a command to an engine. -/
def respond (command : Command) (e : Engine) : Outcome × Engine :=
  match command with
  | run dialect code =>
    match Reader.read dialect code with
    | .ok program =>
      let (result, e) := (done (Perform.execute program.toNode)).run.run e
      (outcome result, e)
    | .error r => (.rejected r, ((announce dialect r).run.run e).2)
  | command =>
    match softMethod? command, e.palette with
    | some method, .plain => (.failed (e.missing method), e)
    | _, _ =>
      let (result, e) := command.action.run.run e
      (outcome result, e)

end Command
end TuneScript
