import TuneScript.Shell.Console

/-!
Outlines of values, one line for each part: the full one shows everything, the brief one
only the kinds of nodes and what matters most in them. A line that cannot be written
ends the outline after the lines before it.
-/

namespace TuneScript.Shell

/-- Two spaces for each level; none at a level below zero. -/
def margin (level : Int) : String := String.ofList (List.replicate (2 * level.toNat) ' ')

mutual

/-- The full outline of a value. -/
def outline (level : Int) : Value → Shell Unit
  | .record fields => do
    say (margin level ++ "\x7b")
    outlineFields level fields
    say (margin level ++ "\x7d")
  | .list items => do
    say (margin level ++ "[")
    outlineItems (level + 1) items
    say (margin level ++ "]")
  | .text s => say (margin level ++ s)
  | .null => say (margin level ++ "None")
  | .bool b => say (margin level ++ Value.boolText b)
  | .int n => do say (margin level ++ (← lift (Value.intText n)))
  | .float x => say (margin level ++ FloatText.render x)
  | .nan _ => say (margin level ++ FloatText.undefined)

def outlineFields (level : Int) : List (String × Value) → Shell Unit
  | [] => pure ()
  | (key, v) :: rest => do
    say (margin level ++ "  " ++ key ++ ":")
    outline (level + 2) v
    outlineFields level rest

def outlineItems (level : Int) : List Value → Shell Unit
  | [] => pure ()
  | v :: rest => do
    outline level v
    outlineItems level rest

end

def shown (v : Value) : Shell String := lift v.display

/-- A field of a part of a node; a node without the part counts as one with an empty part. -/
def partField (node : Value) (part field : String) (default : Value) : Shell Value := do
  lift ((Node.child node part).get field default)

/-- The line under a node that says what matters most in it. -/
def detail (level : Int) (node : Value) : Shell Unit := do
  let tell (s : String) : Shell Unit := say (margin level ++ "  " ++ s)
  let unknown := Value.text "unknown"
  let body := (node.field? "body").getD (.list [])
  match (node.field? "type").getD unknown with
  | .text "program" => tell ("語句數: " ++ toString (← lift body.length))
  | .text "note" =>
    let pitch ← partField node "note" "value" unknown
    let duration := (node.field? "duration").getD .null
    if duration.truthy then
      let pitch ← shown pitch
      tell ("音符: " ++ pitch ++ ", 時長: " ++ (← shown (← lift (duration.item "value"))))
    else tell ("音符: " ++ (← shown pitch))
  | .text "chord" =>
    let notes ← partField node "chord" "notes" (.list [])
    tell ("和弦: " ++ toString (← lift notes.length) ++ " 個音符")
  | .text "tempo" =>
    let bpm ← partField node "bpm" "value" unknown
    tell ("速度: " ++ (← shown bpm) ++ " BPM")
  | .text "loop" =>
    let count ← partField node "count" "value" unknown
    let statements ← lift body.length
    tell ("迴圈: " ++ (← shown count) ++ " 次, " ++ toString statements ++ " 個語句")
  | _ => pure ()

/-- The lines of a node itself. -/
def heading (level : Int) (fields : List (String × Value)) : Shell Unit := do
  let node := Value.record fields
  say (margin level ++ "- " ++ (← shown ((node.field? "type").getD (.text "unknown"))))
  detail level node

mutual

/-- The nodes in the fields of a node: records that have a type, and all records in lists. -/
def briefFields (level : Int) : List (String × Value) → Shell Unit
  | [] => pure ()
  | (key, v) :: rest => do
    if key != "type" then briefPart level v
    briefFields level rest

def briefPart (level : Int) : Value → Shell Unit
  | .list items => briefItems level items
  | .record fields => do
    if (Value.record fields).field? "type" |>.isSome then
      heading level fields
      briefFields (level + 1) fields
  | _ => pure ()

def briefItems (level : Int) : List Value → Shell Unit
  | [] => pure ()
  | .record fields :: rest => do
    heading level fields
    briefFields (level + 1) fields
    briefItems level rest
  | _ :: rest => briefItems level rest

end

/-- The brief outline of a node; what is no node has none. -/
def brief (level : Int) : Value → Shell Unit
  | .record fields => do
    heading level fields
    briefFields (level + 1) fields
  | _ => pure ()

end TuneScript.Shell
