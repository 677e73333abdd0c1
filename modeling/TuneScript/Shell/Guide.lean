import TuneScript.Shell.Console

/-!
What the shell tells about itself: the language, the examples and its own state.
-/

namespace TuneScript.Shell

def basics : List String := [
  "",
  "🎵 PyTune 音樂程式語言說明",
  "",
  "基本語法：",
  "  note C4, 1.0              # 播放音符",
  "  note [C4, D4, E4], 0.5    # 播放音符陣列",
  "  chord [C4, E4, G4], 2.0   # 播放和弦",
  "  rest 1.0                  # 休止符（靜默1秒）",
  "  rest 0.5                  # 短休止符",
  "  tempo 120                 # 設定速度",
  "  volume 0.8                # 設定音量"]

def instrumentBasics : List String := [
  "  refinst = piano           # 設定音色（鋼琴）",
  "  refinst = violin          # 設定音色（小提琴）"]

def constructs : List String := [
  "",
  "休止符用法：",
  "  rest 1.0                  # 1秒休止符",
  "  rest 0.25                 # 0.25秒休止符",
  "  note C4, 0.5; rest 0.5    # 音符後接休止符",
  "  ",
  "控制流：",
  "  for (i, 0:5) \x7b ... \x7d      # for 迴圈",
  "  while (condition) \x7b ... \x7d # while 迴圈",
  "  if (condition) \x7b ... \x7d    # 條件判斷",
  "  loop 3 \x7b ... \x7d            # 固定次數迴圈",
  "",
  "函式：",
  "  fn melody() \x7b ... \x7d       # 定義函式",
  "  melody()                  # 呼叫函式",
  "  refVolume(0.8)           # ref 函式"]

def instrumentCalls : List String := [
  "  refInst(piano)           # 設定音色"]

def sampleProgram : List String := [
  "",
  "範例程式：",
  "  // 簡單旋律與休止符",
  "  tempo 120",
  "  refinst = piano",
  "  note C4, 0.5",
  "  rest 0.25",
  "  note E4, 0.5  ",
  "  rest 0.25",
  "  note G4, 1.0",
  "",
  "  // 節奏模式",
  "  fn rhythm_pattern() \x7b",
  "      note C4, 0.25",
  "      rest 0.25",
  "      note E4, 0.25",
  "      rest 0.25",
  "  \x7d",
  "  ",
  "  loop 4 \x7b",
  "      rhythm_pattern()",
  "  \x7d",
  "",
  "檔案格式：",
  "  • PyTune 程式檔案使用 .ptm 副檔名",
  "  • 也支援 .ml 副檔名",
  "  • 支援 UTF-8 編碼",
  "  • 支援 // 單行註解",
  "",
  "指令：",
  "  status                    # 查看系統狀態",
  "  examples                  # 查看範例檔案",
  "  test-rest                 # 測試休止符功能",
  "  help                      # 顯示此說明",
  ""]

/-- Explains the language; what concerns instruments only if asked for. -/
def showHelp (instruments : Bool) : Shell Unit := do
  let whenAsked (lines : List String) : List String := if instruments then lines else []
  let lines := basics ++ whenAsked instrumentBasics ++ constructs ++ whenAsked instrumentCalls ++
    sampleProgram
  lines.forM say

/-- The programs that come with the shell. -/
def exampleNames : List String := [
  "canon.ptm",
  "demo.ptm",
  "instrument_demo.ptm",
  "little_Star_Pro.ptm",
  "little_Star_for_sample.ptm",
  "logic_samle.ptm",
  "ruby.ptm",
  "test_program.ptm",
  "twinkle_star.ptm"]

def showExamples : Shell Unit := do
  say "\n📁 可用的範例檔案："
  exampleNames.forM fun name => say ("   • " ++ name)
  say "\n💡 使用方式: python main.py examples/檔案名.ptm"
  say "\n🔇 休止符範例："
  say "   note C4, 1.0; rest 0.5; note E4, 1.0"
  say "   chord [C4, E4, G4], 2.0; rest 1.0; note C5, 1.0"

def showStatus (engine : String) (instruments : Bool) : Shell Unit := do
  let version := (← get).installation.version
  say "\n🔧 PyTune 系統狀態:"
  say ("   音訊引擎: " ++ engine)
  say ("   音色支援: " ++ if instruments then "✅ 已啟用" else "❌ 未支援")
  say "   休止符支援: ✅ 已啟用"
  say ("   Python 版本: " ++ version)
  say ("   Pygame: ✅ " ++ version)
  say ("   NumPy: ✅ " ++ version)
  say ("   Lark: ✅ " ++ version)

end TuneScript.Shell
