import TuneScript.Engine.Evaluation

/-!
Setting the engine and sounding notes, chords and rests. A note that cannot be sounded is
reported and does not stop the performance.
-/

namespace TuneScript.Perform

def shown (v : Value) : Perform String := lift v.display

/-- A volume between nothing and full; what is not below full counts as full. -/
def clampVolume (v : Value) : Result Float := do
  if ← v.related .lt (.float 1.0) then
    if ← v.related .gt (.float 0.0) then
      match v with
      | .float x => return x
      | _ => return 0.0
    else return 0.0
  else return 1.0

/-- The plain palette marks what was set by a call of the language's own. -/
def refLabel (viaRef : Bool) : Perform String := do
  return if viaRef && (← get).palette == .plain then "ref" else ""

def setTempo (viaRef : Bool) (bpm : Value) : Perform Unit := do
  modify fun e => { e with tempo := some bpm }
  say ("🎼 " ++ (← refLabel viaRef) ++ "設定速度: " ++ (← shown bpm) ++ " BPM")

def setVolume (viaRef : Bool) (level : Value) : Perform Unit := do
  let volume ← lift (clampVolume level)
  modify fun e => { e with volume := some volume }
  say ("🔊 " ++ (← refLabel viaRef) ++ "設定音量: " ++ FloatText.tenths volume)

/-- The soft palette takes only instruments that it knows, and the piano for all others. -/
def chooseInstrument (name : Value) : Perform Unit := do
  let synthesizer ← synthesizer
  lift name.requireKey
  let known := match name with
    | .text s => synthesizer.instruments.contains s
    | _ => false
  if known then
    modify fun e => { e with instrument := some name }
    say ("🎹 切換樂器: " ++ (← shown name))
  else
    say ("⚠️  未知樂器: " ++ (← shown name) ++ "，使用預設樂器 piano")
    modify fun e => { e with instrument := some (.text Synthesizer.fallback) }

def setInstrument (viaRef : Bool) (name : Value) : Perform Unit := do
  match (← get).palette with
  | .soft => chooseInstrument name
  | .plain =>
    modify fun e => { e with instrument := some name }
    say ("🎹 " ++ (if viaRef then "ref設定樂器: " else "切換樂器: ") ++ (← shown name))

/-- A beat at the current tempo. -/
def beat : Perform Value := do lift ((Value.float 60.0).div (← tempo))

def twoBeats : Perform Value := do lift ((← beat).mul (.int 2))

def describeNote (note duration : Value) : Perform Unit := do
  let instrument ← shown (← instrument)
  let note ← shown note
  let duration ← lift duration.tenths
  say ("♪ 播放音符 (" ++ instrument ++ "): " ++ note ++ ", 時長: " ++ duration ++ "s")

/-- The format of a device in parentheses. -/
def formatText (format : List Value) : Result String := do
  match ← Value.literalItems format with
  | [one] => return "(" ++ one ++ ",)"
  | parts => return "(" ++ ", ".intercalate parts ++ ")"

/-- Whether the device has two channels, for the soft palette: the third entry of a format
of three or four entries says so, and any other format is taken for two channels. No
format means that nothing can be played. -/
def softStereo : Perform (Option Bool) := do
  match (← get).device.format with
  | none => do
    say "❌ pygame mixer 未正確初始化"
    return none
  | some [_, _, channels, _] | some [_, _, channels] => return some (channels.equal (.int 2))
  | some format => do
    say ("❌ 未知的 mixer 初始化格式: " ++ (← lift (formatText format)))
    return some true

/-- Whether the device has two channels, for the plain palette: the fourth entry says so. -/
def plainStereo : Perform Bool := do
  match (← get).device.format with
  | none => throw (.notSubscriptable .null)
  | some format => return (← lift (Value.nthItem .tuple format 3)).equal (.int 2)

def noteWave (note duration : Value) : Perform Wave := do
  let synthesizer ← synthesizer
  let frequency ← lift (Pitch.frequency note)
  lift (synthesizer.wave (.float frequency) duration (← instrument))

/-- Hands a sound to the device, notes it in the track and waits until it has ended. -/
def sound (samples : Array Int) (stereo : Bool) (duration : Value) (event : TrackEvent) :
    Perform Unit := do
  emit (.sound ⟨samples, stereo⟩)
  record event
  sleep duration

def softNote (note duration : Value) : Perform Unit := do
  describeNote note duration
  let wave ← noteWave note duration
  let loudness := (← volume) * 0.4
  let loudness := if 0.6 < loudness then 0.6 else loudness
  let samples := Sound.quantize 0.8 20000.0 (wave.map (· * loudness))
  match ← softStereo with
  | none => return
  | some stereo => sound samples stereo duration (.note note duration)

def plainNote (note duration : Value) : Perform Unit := do
  let wave ← noteWave note duration
  let loudness ← volume
  let samples := Sound.quantize 1.0 32767.0 (wave.map (· * loudness))
  sound samples (← plainStereo) duration (.plain note duration)

/-- Sounds one note; what goes wrong is printed. -/
def note (note duration : Value) : Perform Unit := do
  match (← get).palette with
  | .soft =>
    tryCatch (softNote note duration) fun failure => do
      say ("❌ 播放音符時發生錯誤: " ++ failure.message)
      say "詳細錯誤資訊："
  | .plain =>
    tryCatch (plainNote note duration) fun failure =>
      say ("❌ 播放音符時發生錯誤: " ++ failure.message)

/-- A note without a duration lasts one beat. -/
def playNote (pitch duration : Value) : Perform Unit := do
  match duration with
  | .null => note pitch (← beat)
  | d => note pitch d

/-- Sounds the notes of a chord, each by itself. -/
def strike (notes duration : Value) : Perform Unit := do
  let instrument ← shown (← instrument)
  let names ← lift (notes.join ", ")
  let length ← lift duration.tenths
  say ("🎹 播放和弦 (" ++ instrument ++ "): [" ++ names ++ "], 時長: " ++ length ++ "s")
  (← lift notes.elements).forM fun pitch => note pitch duration

/-- A chord without a duration lasts two beats. -/
def playChord (notes duration : Value) : Perform Unit := do
  match duration with
  | .null => strike notes (← twoBeats)
  | d => strike notes d

def playRest (duration : Value) : Perform Unit := do
  say ("🔇 休止符: " ++ (← lift duration.tenths) ++ "s")
  record (.rest duration)
  sleep duration

/-- The duration of a node, or else the default one. -/
def durationOf (node default : Value) (standard : Perform Value) : Perform Value := do
  match node.field? "duration" with
  | some d => if d.truthy then valueOf d default else standard
  | none => standard

/-- A note statement: one note, or several one after the other. -/
def noteNode (node : Value) : Perform Unit := do
  let pitch := Node.child node "note_value"
  let duration ← durationOf node (.float 1.0) beat
  let kind ← lift (pitch.get "type" .null)
  if kind.equal (.text "note_array") then
    print ("🎵 播放音符陣列 (" ++ (← shown (← instrument)) ++ "): ")
    let notes ← lift ((pitch.field? "notes").getD (.list [])).elements
    notes.forM fun n => do
      let name ← lift (Node.noteOf n)
      print ((← shown name) ++ " ")
      note name duration
    say ""
  else
    let name ← lift (Node.noteOf pitch)
    if (← get).palette == .plain then describeNote name duration
    note name duration

/-- A chord statement. -/
def chordNode (node : Value) : Perform Unit := do
  let duration ← durationOf node (.float 2.0) twoBeats
  let notes ← lift ((Node.child node "chord").get "notes" (.list []))
  let names ← (← lift notes.elements).mapM fun n => lift (Node.noteOf n)
  match (← get).palette with
  | .soft => playChord (.list names) duration
  | .plain => strike (.list names) duration

def restNode (node : Value) : Perform Unit := do
  playRest (← valueOf (Node.child node "duration") (.float 1.0))

end TuneScript.Perform
