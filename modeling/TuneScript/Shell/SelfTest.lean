import TuneScript.Shell.Checks

/-!
The shell's test of itself: its parts, the reader of programs and the sound engine. Each
test tells whether it passed.
-/

namespace TuneScript.Shell

def testParts : Shell Bool := do
  say "🔍 檢查套件安裝狀態..."
  say "✅ NumPy 已安裝"
  say "✅ Pygame 已安裝"
  say "✅ Lark 已安裝"
  return true

def readerTestText : String := "\n".intercalate [
  "",
  "        tempo 120",
  "        note \"C4\", 1.0",
  "        chord [\"C4\", \"E4\", \"G4\"]",
  "        "]

def testReader : Shell Bool := do
  say "\n📝 測試解析器..."
  say "✅ 解析器模組載入成功"
  readerReady
  attempt
    (do
      let program ← readProgram readerTestText
      say "✅ 程式碼解析成功"
      let statements ← lift ((program.field? "body").getD (.list [])).length
      say ("📊 AST 節點數: " ++ toString statements)
      return true)
    fun t => do
      say ("❌ 解析器測試失敗: " ++ t.message)
      return false

/-- The sound engine lacks the interpreter that its test asks for. -/
def testSound : Shell Bool := do
  say "\n🎵 測試音訊引擎..."
  say ("❌ 音訊引擎載入失敗: " ++ (← lacking "MusicInterpreter"))
  return false

/-- All tests in turn, up to the first that does not pass. -/
def testAll : Shell Bool := do
  say "🧪 pyTune 音訊系統測試"
  say (rule '=' 50)
  if !(← testParts) then
    say "\n❌ 請先安裝必要套件"
    return false
  if !(← testReader) then
    say "\n❌ 解析器測試失敗"
    return false
  if !(← testSound) then
    say "\n❌ 音訊引擎測試失敗"
    return false
  say ("\n" ++ rule '=' 50)
  say "🎉 所有測試通過！您的 pyTune 系統已準備就緒"
  say "\n💡 現在您可以執行:"
  say "   python music_lang/main.py --test"
  say "   python music_lang/main.py examples/test_program.mus"
  return true

end TuneScript.Shell
