import TuneScript.Shell.Launch

/-!
The program itself. What the shell does is computed first and then shown: texts are
printed and waits are waited for. There is no sound device, so sounds stay silent.
-/

namespace TuneScript.Main

def milliseconds (duration : Value) : UInt32 :=
  match duration.number? with
  | some n =>
    match n.toFloat with
    | .ok seconds => (seconds * 1000.0).toUInt32
    | .error _ => 0
  | none => 0

def present (output : IO.FS.Stream) : Effect → IO Unit
  | .text s => do
    output.putStr s
    output.flush
  | .sleep duration => IO.sleep (milliseconds duration)
  | .wait duration => IO.sleep (UInt32.ofNat duration.toNat)
  | .sound _ | .halt => pure ()

/-- Shows what an action of the shell does and gives its result, if it had one. -/
def act {α : Type} (action : Shell α) (console : Console) : IO (Option α × Console) := do
  let (result, after) := action.run.run console
  let output ← IO.getStdout
  after.log.forM (present output)
  let console := { after with log := #[] }
  match result with
  | .ok a => return (some a, console)
  | .error t =>
    (← IO.getStderr).putStrLn t.message
    return (none, console)

/-- A line without the line feed at its end; nothing at the end of the input. -/
def nextLine : IO (Option String) := do
  let line ← (← IO.getStdin).getLine
  return if line.isEmpty then none
    else some (String.ofList (line.toList.takeWhile (· != '\n')))

/-- Turns of a dialogue until the user leaves. -/
partial def talk (console : Console) (e : Engine) : IO Unit := do
  let (_, console) ← act (Shell.print Shell.prompt) console
  let (next, console) ← act (Shell.turn e (← nextLine)) console
  match next with
  | some (some e) => talk console e
  | _ => pure ()

/-- The file that a job needs. -/
def load : Job → IO Folder
  | .file path => do
    try
      let content ← IO.FS.readBinFile path
      return ⟨[(path, content.toList)]⟩
    catch _ => return {}
  | _ => return {}

def console (folder : Folder) : Console where
  installation := ⟨".", "1.0"⟩
  folder := folder
  device := .standard
  rate := Synthesizer.standardRate

def run (job : Job) : IO Unit := do
  let start := console (← load job)
  match job with
  | .dialogue =>
    let (engine, console) ← act Shell.greet start
    match engine with
    | some e => talk console e
    | none => pure ()
  | job => discard (act (Shell.runJob Shell.programName [] job) start)

end TuneScript.Main

def main (words : List String) : IO UInt32 := do
  match TuneScript.Options.read words with
  | .ok options =>
    TuneScript.Main.run options.job
    return 0
  | .error .help =>
    IO.print (TuneScript.Usage.long TuneScript.Shell.programName)
    return 0
  | .error (.refused r) =>
    (← IO.getStderr).putStr (TuneScript.Usage.complaint TuneScript.Shell.programName r)
    return 2
