import TuneScript.Shell.Playback
import TuneScript.Voice.Player

/-!
Demonstrations of the two readers, of the engines of both palettes and of the voices. A
failure in one of them ends it.
-/

namespace TuneScript.Shell

def restText : String := "\n".intercalate [
  "",
  "    tempo 120",
  "    volume 0.8",
  "    ",
  "    refinst = piano",
  "    note C4, 0.5",
  "    rest 0.5",
  "    note D4, 0.5",
  "    rest 1.0",
  "    ",
  "    chord [C4, E4, G4], 1.0",
  "    rest 2.0",
  "    ",
  "    fn melody_with_rests() \x7b",
  "        note C4, 0.5",
  "        rest 0.25",
  "        note E4, 0.5",
  "        rest 0.25",
  "        note G4, 1.0",
  "    \x7d",
  "    ",
  "    melody_with_rests()",
  "    ",
  "    for (i, 0:3) \x7b",
  "        note C4, 0.3",
  "        rest 0.2",
  "    \x7d",
  "    "]

/-- Reads a text with rests and shows what it stands for. -/
def demoReader : Shell Value := do
  readerReady
  attempt
    (do
      let program ← readProgram restText
      say "✅ 解析成功（包含休止符）！"
      say ("AST: " ++ (← lift program.display))
      return program)
    fun t => do
      say ("❌ 解析失敗: " ++ t.message)
      return .null

def restlessText : String := "\n".intercalate [
  "",
  "    tempo 120",
  "    volume 0.8",
  "    ",
  "    refinst = piano",
  "    note [C4, D4, E4], 0.5",
  "    ",
  "    refinst = violin",
  "    note G4, 1.0",
  "    "]

/-- Reads a text of the dialect without rests and shows what it stands for. -/
def demoRestless : Shell Unit :=
  match Reader.read .restless restlessText with
  | .error r => say ("❌ 解析失敗: " ++ r.message)
  | .ok program =>
    attempt
      (do
        say "✅ 樂器語法解析成功！"
        say ("AST: " ++ (← lift program.toNode.display)))
      fun t => say ("❌ 解析失敗: " ++ t.message)

def texts (names : List String) : Value := .list (names.map .text)

def softDemo : Perform Unit := do
  Perform.say "\n🎼 測試不同樂器和休止符..."
  Perform.setInstrument false (.text "piano")
  Perform.playNote (.text "C4") (.float 1.0)
  Perform.playRest (.float 0.5)
  Perform.playNote (.text "D4") (.float 1.0)
  Perform.setInstrument false (.text "violin")
  Perform.playNote (.text "G4") (.float 1.0)
  Perform.playRest (.float 1.0)
  Perform.setInstrument false (.text "organ")
  Perform.playChord (texts ["C4", "E4", "G4"]) (.float 2.0)
  Perform.playRest (.float 1.5)
  Perform.playChord (texts ["F4", "A4", "C5"]) (.float 2.0)
  Perform.say "🎵 測試完成（包含休止符）！"

def demoSoft : Shell Unit := do
  let e ← newEngine .soft
  let _ ← perform e softDemo

/-- Plays a note on an instrument that is chosen silently. -/
def noteOn (instrument pitch : String) (duration : Float) : Perform Unit := do
  modify fun e => { e with instrument := some (.text instrument) }
  Perform.note (.text pitch) (.float duration)

def plainDemo : Perform Unit := do
  Perform.say "\n🎼 測試不同樂器..."
  noteOn "piano" "C4" 1.0
  noteOn "violin" "G4" 1.0
  noteOn "guitar" "E4" 1.0
  noteOn "drums" "C2" 0.5
  Perform.say "🎵 測試完成！"

def demoPlain : Shell Unit := do
  let e ← newEngine .plain
  let _ ← perform e plainDemo

/-- The notes that a voice is shown with. -/
def shownNotes : Voice → List (String × Float)
  | .drums => [("C2", 0.5), ("D3", 0.3), ("F#4", 0.2)]
  | _ => ["C4", "D4", "E4", "F4", "G4"].map fun pitch => (pitch, 0.5)

def voiceDemo : Play Unit :=
  [Voice.piano, .violin, .guitar, .drums, .flute].forM fun voice => do
    Play.say ("\n🎼 測試音色: " ++ voice.name)
    Play.setVoice (.text voice.name)
    (shownNotes voice).forM fun (pitch, duration) =>
      Play.playNote (.text pitch) (.float duration) (.float 0.7)

def demoVoices : Shell Unit := do
  let c ← get
  match c.device with
  | .broken reason => throw (.failure (.device reason))
  | .working _ =>
    let (result, after) := voiceDemo.run.run { rate := c.rate }
    modify fun c => { c with log := c.log ++ after.log }
    lift result

end TuneScript.Shell
