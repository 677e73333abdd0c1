import TuneScript.Shell.Guide

/-!
Playing a program, given as a text or as a file.
-/

namespace TuneScript.Shell

/-- The engine that status reports name. -/
def engineKind : String := "original"

/-- What the sound engine lacks, in the words of a message. -/
def lacking (part : String) : Shell String := do
  return "cannot import name '" ++ part ++ "' from 'audio.audio_engine' (" ++
    (← get).installation.home ++ "/music_lang/audio/audio_engine.py)"

/-- Says which engine and which reader are used. -/
def announceParts : Shell Unit := do
  say ("⚠️  增強音訊引擎載入失敗: " ++ (← lacking "EnhancedAudioEngine"))
  say "✅ 載入原始音訊引擎（支援休止符）"
  say "✅ 成功載入支援音色與休止符的解析器"

/-- Reads a program and plays it on a new engine. `ready` is said before it starts. -/
def play (ready : Shell Unit) (code : String) : Shell Unit := do
  announceParts
  say "🔍 解析程式碼..."
  readerReady
  let program ← readProgram code
  say "✅ 解析成功！"
  say "🎵 初始化音訊系統..."
  let e ← newEngine .soft
  ready
  say "🎵 開始播放音樂..."
  let _ ← perform e (Perform.execute program)
  say "🎵 音樂播放完成！"

def playCode (code : String) : Shell Unit :=
  attempt (play (pure ()) code) fun
    | .rejection r => say ("❌ 語法錯誤: " ++ (Trouble.rejection r).message)
    | .failure f => say ("❌ 執行錯誤: " ++ f.message)

def hasKnownEnding (path : String) : Bool := path.endsWith ".ptm" || path.endsWith ".ml"

def playFile (path : String) : Shell Unit := do
  if (← get).folder.holds path then
    attempt
      (do
        if !hasKnownEnding path then say "⚠️  建議使用 .ptm 或 .ml 副檔名"
        let code ← fileText path
        say ("📁 讀取檔案: " ++ path)
        play (say "🎼 音色與休止符功能已啟用") code)
      fun
        | .rejection r => do
          say ("❌ 語法錯誤: " ++ (Trouble.rejection r).message)
          say "   請檢查 .ptm 檔案的語法"
        | .failure f => say ("❌ 執行錯誤: " ++ f.message)
  else say ("❌ 找不到檔案: " ++ path)

end TuneScript.Shell
