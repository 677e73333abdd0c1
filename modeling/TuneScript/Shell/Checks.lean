import TuneScript.Shell.Dialogue
import TuneScript.Shell.Outline

/-!
Checking program texts: a text or a file is read and its outline shown.
-/

namespace TuneScript.Shell

def rule (c : Char) (width : Nat) : String := String.ofList (List.replicate width c)

/-- Reads a program text and shows its full outline. -/
def checkCode (code description : String) : Shell Unit := do
  say ("\n" ++ rule '=' 50)
  if description != "" then say ("測試: " ++ description)
  say "程式碼:"
  say code
  say (rule '-' 30)
  attempt
    (do
      readerReady
      let program ← readProgram code
      say "✅ 解析成功!"
      say "AST結構:"
      outline 0 program)
    fun t => say ("❌ 解析失敗: " ++ t.message)

/-- Texts to check and what they show. -/
def checkedTexts : List (String × String) := [
  ("note \"C4\"", "基本音符"),
  ("note \"A4\", 1.5", "帶時間的音符"),
  ("chord [\"C4\", \"E4\", \"G4\"]", "基本和弦"),
  ("tempo 120", "設定速度"),
  ("loop 2 \x7b note \"C4\" \x7d", "簡單迴圈"),
  ("melody = \"G4\"", "變數賦值"),
  ("tempo 60 + 60", "數學運算"),
  ("\n".intercalate [
    "tempo 120",
    "note \"C4\", 1.0",
    "chord [\"C4\", \"E4\", \"G4\"]",
    "loop 2 \x7b",
    "    note \"A4\"",
    "    note \"B4\"",
    "\x7d"], "複合程式"),
  ("note", "錯誤語法測試")]

def checkTexts : Shell Unit := do
  say "🎵 音樂程式語言解析器測試"
  say (rule '=' 50)
  checkedTexts.forM fun (code, description) => checkCode code description
  say ("\n" ++ rule '=' 50)
  say "🎯 測試完成!"

/-- One turn of checking: a line that asks to leave, or a program text. -/
def checkTurn (_ : Unit) : Option String → Shell (Option Unit)
  | none => do
    say ("❌ 錯誤: " ++ Failure.endOfInput.message)
    return some ()
  | some line => do
    let code := Text.trim line
    match lowered code with
    | "quit" | "exit" | "q" => return none
    | "" => return some ()
    | _ =>
      attempt
        (do
          let program ← readProgram code
          say "✅ 解析成功!"
          outline 0 program)
        fun t => say ("❌ 錯誤: " ++ t.message)
      return some ()

def checkDialogue (input : Input) : Shell Unit := do
  readerReady
  say "🎵 互動式測試模式"
  say "輸入程式碼來測試，輸入 'quit' 結束"
  say (rule '=' 40)
  converse "\n請輸入程式碼: " checkTurn (pure ()) input ()
  say "\n👋 再見!"

/-- Checks the texts above, or those of a dialogue if the first word asks for one. -/
def checkLaunch (words : List String) (input : Input) : Shell Unit :=
  if words.head? == some "-i" then checkDialogue input else checkTexts

/-- Reads a program file and shows its brief outline; tells whether it could be read. -/
def checkFile (path : String) : Shell Bool := do
  if (← get).folder.holds path then
    say ("🎵 測試檔案: " ++ path)
    say (rule '=' 50)
    attempt
      (do
        let code ← fileText path
        say "📄 檔案內容:"
        say (rule '-' 30)
        say code
        say (rule '-' 30)
        readerReady
        let program ← readProgram code
        say "✅ 解析成功!"
        say "\n🌳 AST結構:"
        brief 0 program
        return true)
      fun t => do
        say ("❌ 解析失敗: " ++ t.message)
        return false
  else
    say ("❌ 檔案不存在: " ++ path)
    return false

def sampleName : String := "sample.ptm"

def sampleText : String := "\n".intercalate [
  "// 簡單的音樂程式範例",
  "tempo 120",
  "",
  "// 播放音階",
  "note \"C4\", 0.5",
  "note \"D4\", 0.5  ",
  "note \"E4\", 0.5",
  "note \"F4\", 0.5",
  "note \"G4\", 1.0",
  "",
  "// 播放和弦",
  "chord [\"C4\", \"E4\", \"G4\"], 2.0",
  "",
  "// 重複旋律",
  "loop 2 \x7b",
  "    note \"A4\", 0.5",
  "    note \"B4\", 0.5",
  "    note \"C5\", 1.0",
  "\x7d",
  ""]

/-- Writes the sample file and gives its name. -/
def writeSample : Shell String := do
  modify fun c => { c with folder := c.folder.write sampleName sampleText }
  say ("✅ 已創建範例檔案: " ++ sampleName)
  return sampleName

/-- Checks the file that the first word names, or else the sample. -/
def checkFileLaunch (words : List String) : Shell Unit := do
  match words with
  | path :: _ =>
    if !path.endsWith ".ptm" then say "⚠️  建議使用 .ptm 副檔名"
    let _ ← checkFile path
  | [] =>
    say "🎯 沒有指定檔案，將創建並測試範例檔案"
    let name ← writeSample
    say ""
    let _ ← checkFile name

end TuneScript.Shell
