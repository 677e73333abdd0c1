import TuneScript.Engine.Playing

/-!
Executing programs. `perform` runs one statement; its first argument bounds how deep
statements may nest, calls of functions included. Loops ask nothing of it: a counted loop
knows its number of rounds, and a conditional one ends after a thousand.
-/

namespace TuneScript.Perform

/-- Runs the statements of a body, which may be any value with elements. -/
def body (run : Value → Perform Unit) (statements : Value) : Perform Unit := do
  (← lift statements.elements).forM run

/-- Rounds of a counted loop, from round `i` on. -/
def rounds (round : Nat → Perform Unit) (i : Nat) : Nat → Perform Unit
  | 0 => pure ()
  | n + 1 => do
    round i
    rounds round (i + 1) n

def loopNode (run : Value → Perform Unit) (node : Value) : Perform Unit := do
  let count ← lift (← valueOf (Node.child node "count") (.int 1)).toInt
  let statements := (node.field? "body").getD (.list [])
  let total ← shown (.int count)
  say ("🔄 迴圈 " ++ total ++ " 次")
  rounds (fun i => do
    say ("   第 " ++ toString (i + 1) ++ "/" ++ total ++ " 次迴圈")
    body run statements) 0 count.toNat

/-- A conditional loop ends after this many rounds. -/
def roundLimit : Nat := 1000

/-- Rounds while the condition holds, at most `n` more. The condition is asked once more
after the last round. Gives the number of rounds in all. -/
def roundsWhile (condition : Value) (round : Nat → Perform Unit) (done : Nat) :
    Nat → Perform Nat
  | 0 => do
    let _ ← holds condition
    return done
  | n + 1 => do
    if ← holds condition then
      round (done + 1)
      roundsWhile condition round (done + 1) n
    else return done

def whileNode (run : Value → Perform Unit) (node : Value) : Perform Unit := do
  let condition := Node.child node "condition"
  let statements := (node.field? "body").getD (.list [])
  say "🔄 while 迴圈開始"
  let done ← roundsWhile condition (fun i => do
    say ("   第 " ++ toString i ++ " 次迴圈")
    body run statements) 0 roundLimit
  if roundLimit ≤ done then say "⚠️  迴圈達到最大次數限制，自動終止"
  say "🔄 while 迴圈結束"

/-- The counter is set anew at the start of each round. -/
def forNode (run : Value → Perform Unit) (node : Value) : Perform Unit := do
  let range := Node.child node "range"
  let statements := (node.field? "body").getD (.list [])
  let counter ← lift (Node.nameOf (Node.child node "variable"))
  let first ← lift (← valueOf (← lift (range.get "start" (.record []))) (.int 0)).toInt
  let last ← lift (← valueOf (← lift (range.get "end" (.record []))) (.int 0)).toInt
  say ("🔄 for 迴圈開始 (" ++ (← shown counter) ++ ": " ++ (← shown (.int first)) ++ " 到 " ++
    (← shown (.int last)) ++ ")")
  rounds (fun k => do
    let i := first + k
    setVariable counter (.int i)
    say ("   第 " ++ (← shown (.int (i + 1))) ++ "/" ++ (← shown (.int (last - first))) ++ " 次，" ++
      (← shown counter) ++ " = " ++ (← shown (.int i)))
    body run statements) 0 (last - first).toNat
  say "🔄 for 迴圈結束"

/-- Runs the first alternative whose condition holds; false when there is none. -/
def firstAlternative (run : Value → Perform Unit) : List Value → Perform Bool
  | [] => pure false
  | clause :: rest => do
    if ← holds (← lift (clause.get "condition" (.record []))) then
      say "✅ elseif 條件成立"
      body run ((clause.field? "body").getD (.list []))
      return true
    else firstAlternative run rest

def branchNode (run : Value → Perform Unit) (node : Value) : Perform Unit := do
  if ← holds (Node.child node "condition") then
    say "✅ if 條件成立"
    body run ((node.field? "then_body").getD (.list []))
  else
    let clauses ← lift ((node.field? "elseif_clauses").getD (.list [])).elements
    let found ← firstAlternative run clauses
    let otherwise := (node.field? "else_body").getD (.list [])
    if !found && otherwise.truthy then
      say "✅ 執行 else 分支"
      body run otherwise

def assignNode (node : Value) : Perform Unit := do
  let name ← lift (Node.nameOf (Node.child node "var"))
  let value ← valueOf (Node.child node "value") (.int 0)
  setVariable name value
  say ("📝 設定變數: " ++ (← shown name) ++ " = " ++ (← shown value))

/-- What a variable holds after a function has been defined. -/
def functionValue (parameters statements : Value) : Value :=
  .record [("type", .text "function"), ("params", parameters), ("body", statements)]

def defineNode (node : Value) : Perform Unit := do
  let name ← lift (Node.nameOf (Node.child node "name"))
  setVariable name (functionValue ((node.field? "params").getD (.list []))
    ((node.field? "body").getD (.list [])))
  say ("📋 定義函式: " ++ (← shown name))

/-- A call runs the body of the function; a name that holds no function is passed over. -/
def callNode (run : Value → Perform Unit) (node : Value) : Perform Unit := do
  let name ← lift (Node.nameOf (Node.child node "name"))
  let table ← store
  lift name.requireKey
  match table.find? name with
  | some function =>
    if Node.hasType "function" function then
      say ("🎯 呼叫函式: " ++ (← shown name))
      body run ((function.field? "body").getD (.list []))
  | none => pure ()

/-- A call of the language's own: the first argument is the new setting. -/
def refCallNode (node : Value) : Perform Unit := do
  let name ← lift (Node.nameOf (Node.child node "name"))
  let arguments := (node.field? "args").getD (.list [])
  say ("🔧 呼叫 ref 函式: " ++ (← shown name))
  if arguments.truthy then
    match name with
    | .text "refVolume" => do
      setVolume true (← valueOf (← lift (arguments.nth 0)) (.float 0.8))
    | .text "refTempo" => do
      setTempo true (← valueOf (← lift (arguments.nth 0)) (.int 120))
    | .text "refInst" => do
      setInstrument true (← lift (Node.nameOf (← lift (arguments.nth 0))))
    | _ => pure ()

/-- Runs one statement; a value that is no statement does nothing. -/
def statement (run : Value → Perform Unit) (node : Value) : Perform Unit := do
  match Node.typeName node with
  | "tempo" => setTempo false (← valueOf (Node.child node "bpm") (.int 120))
  | "volume" => setVolume false (← valueOf (Node.child node "volume") (.float 0.8))
  | "instrument" =>
    setInstrument false (← lift ((Node.child node "instrument").get "name" (.text "piano")))
  | "note" => noteNode node
  | "chord" => chordNode node
  | "rest" => if (← get).palette == .soft then restNode node
  | "loop" => loopNode run node
  | "while" => whileNode run node
  | "for" => forNode run node
  | "if" => branchNode run node
  | "assign" => assignNode node
  | "function_def" => defineNode node
  | "function_call" => callNode run node
  | "ref_call" => refCallNode node
  | _ => pure ()

/-- Runs one statement, statements inside it to a bounded depth. -/
def perform : Nat → Value → Perform Unit
  | 0, _ => throw .nestedTooDeep
  | depth + 1, node => statement (perform depth) node

/-- How deep statements may nest. -/
def depthLimit : Nat := 1000

def node (v : Value) : Perform Unit := perform depthLimit v

def countNotes (events : List TrackEvent) : Nat := events.countP TrackEvent.isNote

def countRests (events : List TrackEvent) : Nat := events.countP TrackEvent.isRest

def trackLine (palette : Palette) (events : List TrackEvent) : String :=
  match palette with
  | .soft =>
    toString (countNotes events) ++ " 個音符, " ++ toString (countRests events) ++ " 個休止符"
  | .plain => toString events.length ++ " 個音符"

/-- What was played on each instrument and in all. -/
def summary : Perform Unit := do
  let table ← tracks
  let palette := (← get).palette
  if !table.isEmpty then
    say "\n📊 演奏摘要:"
    table.forM fun (instrument, events) => do
      say ("  🎹 " ++ (← shown instrument) ++ ": " ++ trackLine palette events)
    say ("  🎵 總計: " ++ trackLine palette (table.flatMap (·.2)))

/-- Numbers the statements of a program and runs them. -/
def numbered (total : Nat) (run : Value → Perform Unit) (i : Nat) : List Value → Perform Unit
  | [] => pure ()
  | stmt :: rest => do
    say ("\n--- 執行語句 " ++ toString i ++ "/" ++ toString total ++ " ---")
    run stmt
    numbered total run (i + 1) rest

/-- Runs the statements in the body of a program record. -/
def execute (program : Value) : Perform Unit := do
  match program with
  | .record _ =>
    let statements := (program.field? "body").getD (.list [])
    say "🎵 開始執行音樂程式..."
    let total ← lift statements.length
    say ("📊 程式包含 " ++ toString total ++ " 個語句")
    numbered total node 1 (← lift statements.elements)
    say "\n🎵 音樂程式執行完成！"
    summary
  | _ => say "❌ 無效的 AST"

def stop : Perform Unit := do
  emit .halt
  say "⏹️  停止播放"

def supported : Perform (List String) := do return (← synthesizer).instruments

/-- Builds an engine. The soft palette reports a broken device and goes on without parts;
the plain palette fails. -/
def build : Perform Unit := do
  let e ← get
  match e.palette, e.device with
  | .soft, .broken reason => say ("❌ pygame mixer 初始化失敗: " ++ reason)
  | .plain, .broken reason => throw (.device reason)
  | palette, .working _ =>
    set { Engine.fresh palette e.device Synthesizer.standardRate with log := e.log }
    if palette == .soft then
      say "🎵 pygame mixer 初始化成功"
      say "🎵 多樂器音訊引擎初始化完成（支援休止符）"
    else say "🎵 多樂器音訊引擎初始化完成"
    say ("📀 支援樂器: " ++ ", ".intercalate (← supported))
    if palette == .soft then say "🔇 支援休止符功能"

/-- Sets the sample rate of an engine that has a synthesizer. -/
def setRate (rate : Int) : Perform Unit :=
  modify fun e =>
    { e with synthesizer := e.synthesizer.map fun _ => Synthesizer.ofPalette e.palette rate }

end TuneScript.Perform
