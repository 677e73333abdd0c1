import TuneScript.Shell.Options

/-!
How the command line is to be used: the short form that stands before an error, and the
long one with a line for each option. Lines of the short form have at most 78 characters.
-/

namespace TuneScript.Usage

def lineWidth : Nat := 78

/-- The options in brackets, each by its first name. -/
def optionParts : List String :=
  Setting.all.map fun s =>
    let name := s.names.headD ""
    match s.argument? with
    | some argument => "[" ++ name ++ " " ++ argument ++ "]"
    | none => "[" ++ name ++ "]"

def operandPart : String := "[file]"

/-- Fills lines with parts; the lines after the first are indented by `margin`. -/
def fillIndented (margin : Nat) (start : String) : List String → List String
  | [] => [start]
  | part :: rest =>
    if start.length + 1 + part.length ≤ lineWidth then
      fillIndented margin (start ++ " " ++ part) rest
    else start :: fillIndented margin (String.ofList (List.replicate margin ' ') ++ part) rest

/-- The short form. The operand stands on a line of its own. -/
def short (program : String) : String :=
  let start := "usage: " ++ program
  let margin := start.length + 1
  let lines := fillIndented margin start optionParts ++
    [String.ofList (List.replicate margin ' ') ++ operandPart]
  "\n".intercalate lines ++ "\n"

def helpText : Setting → String
  | .help => "show this help message and exit"
  | .code => "直接執行程式碼字串"
  | .interactive => "進入互動模式"
  | .verbose => "顯示詳細執行資訊"
  | .status => "顯示系統狀態"
  | .selfTest => "執行音訊系統測試"
  | .demo => "演示休止符功能"

/-- What is explained stands in twenty columns, and its explanation behind it. -/
def entry (name explanation : String) : String :=
  "  " ++ name ++ String.ofList (List.replicate (20 - name.length) ' ') ++ "  " ++ explanation ++ "\n"

def optionEntry (s : Setting) : String :=
  let name (n : String) : String := match s.argument? with
    | some argument => n ++ " " ++ argument
    | none => n
  entry (", ".intercalate (s.names.map name)) (helpText s)

def samples : List String := [
  "範例：",
  "  python main.py examples/twinkle_star.ptm     # 執行檔案",
  "  python main.py -c \"note C4, 1.0; rest 0.5\"  # 執行程式碼（含休止符）",
  "  python main.py -i                           # 互動模式",
  "  python main.py -v examples/test.ptm         # 詳細模式",
  "  python main.py --status                     # 系統狀態",
  "  python main.py --test                       # 音訊系統測試",
  "        "]

/-- The long form. -/
def long (program : String) : String :=
  short program ++ "\nPyTune - 音樂程式語言執行器（支援休止符）\n\npositional arguments:\n" ++
    entry "file" "要執行的 .ptm/.ml 音樂程式檔案" ++ "\noptions:\n" ++
    String.join (Setting.all.map optionEntry) ++ "\n" ++ "\n".intercalate samples ++ "\n"

/-- What is written to the error output when a command line is refused. -/
def complaint (program : String) (r : Options.Refusal) : String :=
  short program ++ program ++ ": error: " ++ r.message ++ "\n"

end TuneScript.Usage
