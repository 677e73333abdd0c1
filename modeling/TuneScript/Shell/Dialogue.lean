import TuneScript.Shell.Playback

/-!
Dialogues: the shell asks for a line and answers it, again and again. An input is a list
of lines, in which `none` stands for an end of input; after the last one the user has
broken off.
-/

namespace TuneScript.Shell

abbrev Input := List (Option String)

/-- Answers the lines of an input in turn. A turn gives the state for the next one, or
nothing when the dialogue is over; `brokenOff` follows when the lines are used up. -/
def converse {σ : Type} (prompt : String) (turn : σ → Option String → Shell (Option σ))
    (brokenOff : Shell Unit) : Input → σ → Shell Unit
  | [], _ => do
    print prompt
    brokenOff
  | line :: rest, state => do
    print prompt
    match ← turn state line with
    | some state => converse prompt turn brokenOff rest state
    | none => pure ()

/-- A line in lower case, as far as commands are concerned: those are ASCII words. -/
def lowered (line : String) : String := String.ofList (line.toList.map Char.toLower)

def isBlankLine (line : String) : Bool := line.toList.all Text.isBlank

/-- Notes, rests and a chord. -/
def restTest : Perform Unit := do
  Perform.say "播放音符 C4"
  Perform.playNote (.text "C4") (.float 0.5)
  Perform.say "休止符 1 秒"
  Perform.playRest (.float 1.0)
  Perform.say "播放音符 E4"
  Perform.playNote (.text "E4") (.float 0.5)
  Perform.say "休止符 0.5 秒"
  Perform.playRest (.float 0.5)
  Perform.say "播放和弦 [C4, E4, G4]"
  Perform.playChord (.list [.text "C4", .text "E4", .text "G4"]) (.float 1.0)
  Perform.say "✅ 休止符功能測試完成！"

def testRests (e : Engine) : Shell Engine := do
  say "\n🎵 測試休止符功能..."
  let (result, e) ← conduct e restTest
  match result with
  | .ok () => pure ()
  | .error f => say ("❌ 休止符測試失敗: " ++ f.message)
  return e

/-- Reads a line as a program and lets the engine perform it; trouble is reported. -/
def performLine (e : Engine) (line : String) : Shell Engine := do
  let program ← attempt (some <$> readProgram line) fun t => do
    say ("❌ 錯誤: " ++ t.message)
    return none
  match program with
  | none => return e
  | some program =>
    let (result, e) ← conduct e (Perform.execute program)
    match result with
    | .ok () => pure ()
    | .error f => say ("❌ 錯誤: " ++ f.message)
    return e

/-- One turn: a command of the shell or a program for the engine. -/
def turn (e : Engine) : Option String → Shell (Option Engine)
  | none => do
    say ("❌ 錯誤: " ++ Failure.endOfInput.message)
    return some e
  | some line => do
    match lowered line with
    | "exit" | "quit" => return none
    | "help" =>
      showHelp true
      return some e
    | "examples" =>
      showExamples
      return some e
    | "status" =>
      showStatus engineKind true
      return some e
    | "test-rest" => return some (← testRests e)
    | _ => if isBlankLine line then return some e else return some (← performLine e line)

/-- Greets and builds the engine of the dialogue. -/
def greet : Shell Engine := do
  say "🎹 PyTune 互動模式"
  say "輸入 'exit' 或 'quit' 離開"
  say "輸入 'help' 查看說明"
  say "輸入 'examples' 查看範例檔案"
  say "輸入 'status' 查看系統狀態"
  say "輸入 'test-rest' 測試休止符功能"
  announceParts
  let e ← newEngine .soft
  readerReady
  say "🎼 系統狀態: 音色支援 ✅, 休止符支援 ✅"
  return e

def prompt : String := "PyTune>>> "

def breakOff : Shell Unit := say "\n👋 再見！"

def dialogue (input : Input) : Shell Unit := do
  converse prompt turn breakOff input (← greet)

end TuneScript.Shell
