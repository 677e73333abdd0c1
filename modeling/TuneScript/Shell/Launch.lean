import TuneScript.Shell.Dialogue
import TuneScript.Shell.Usage

/-!
The command line: its options choose one thing to do.
-/

namespace TuneScript

/-- What a command line asks to be done. -/
inductive Job where
  | status
  | selfTest
  | demo
  | dialogue
  | code (text : String)
  | file (path : String)
  | nothing

/-- Of several wishes the first of this order counts; empty texts are none. -/
def Options.job (o : Options) : Job :=
  if o.status then .status
  else if o.selfTest then .selfTest
  else if o.demo then .demo
  else if o.interactive then .dialogue
  else
    match o.code.getD "", o.file.getD "" with
    | "", "" => .nothing
    | "", path => .file path
    | text, _ => .code text

/-- How a command line ends: with its job done, or early with an exit code and what was
written to the error output. -/
inductive Ending where
  | done
  | exited (code : Nat) (errors : String)

namespace Shell

/-- The name that the usage gives to the program. -/
def programName : String := "main.py"

def demoProgram : String := "\n".intercalate [
  "",
  "        tempo 120",
  "        refinst = piano",
  "        ",
  "        note C4, 0.5",
  "        rest 0.5",
  "        note E4, 0.5",
  "        rest 0.5",
  "        note G4, 1.0",
  "        rest 1.0",
  "        ",
  "        chord [C4, E4, G4], 2.0",
  "        rest 2.0",
  "        ",
  "        fn melody_with_rests() \x7b",
  "            note C4, 0.25",
  "            rest 0.25",
  "            note D4, 0.25",
  "            rest 0.25",
  "            note E4, 0.25",
  "            rest 0.25",
  "            note F4, 0.25",
  "            rest 0.25",
  "        \x7d",
  "        ",
  "        melody_with_rests()",
  "        "]

/-- Does a job; `program` is the name that the usage shows. -/
def runJob (program : String) (input : Input) : Job → Shell Unit
  | .status => do
    announceParts
    showStatus engineKind true
  | .selfTest => do
    say "🔧 執行音訊系統測試..."
    say ("[system] python " ++ (← get).installation.home ++ "/music_lang/test_audio_setup.py")
  | .demo => do
    say "🔇 休止符功能演示..."
    playCode demoProgram
  | .dialogue => dialogue input
  | .code text => playCode text
  | .file path => playFile path
  | .nothing => do
    say "❌ 請指定要執行的檔案或使用 --help 查看說明"
    showExamples
    print (Usage.long program)

/-- Reads a command line and does what it asks for. -/
def launch (program : String) (words : List String) (input : Input) : Shell Ending := do
  match Options.read words with
  | .ok options =>
    runJob program input options.job
    return .done
  | .error .help =>
    print (Usage.long program)
    return .exited 0 ""
  | .error (.refused r) => return .exited 2 (Usage.complaint program r)

end Shell
end TuneScript
