import TuneScript.Text.Digit
import TuneScript.Text.Quoted

/-!
Options of the command line. A word is an option when it starts with a hyphen: by its
full name, by a beginning that no other long name shares, or as short options joined in
one word. Any other word is an operand; the first one names the file.
-/

namespace TuneScript

/-- What an option asks for. -/
inductive Setting where
  | help | code | interactive | verbose | status | selfTest | demo
  deriving DecidableEq

namespace Setting

def all : List Setting := [help, code, interactive, verbose, status, selfTest, demo]

def names : Setting → List String
  | help => ["-h", "--help"]
  | code => ["--code", "-c"]
  | interactive => ["--interactive", "-i"]
  | verbose => ["--verbose", "-v"]
  | status => ["--status", "-s"]
  | selfTest => ["--test", "-t"]
  | demo => ["--demo-rest", "-dr"]

/-- The name of the argument of an option that takes one. -/
def argument? : Setting → Option String
  | code => some "CODE"
  | _ => none

def takesArgument (s : Setting) : Bool := s.argument?.isSome

def title (s : Setting) : String := "/".intercalate s.names

/-- All names with what they ask for. -/
def table : List (String × Setting) := all.flatMap fun s => s.names.map fun name => (name, s)

def ofName? (name : String) : Option Setting := table.lookup name

end Setting

structure Options where
  file : Option String := none
  code : Option String := none
  interactive : Bool := false
  verbose : Bool := false
  status : Bool := false
  selfTest : Bool := false
  demo : Bool := false

namespace Options

/-- Why a command line is refused. -/
inductive Refusal where
  | ambiguous (word : String) (names : List String)
  | wantsArgument (setting : Setting)
  | ignoredArgument (setting : Setting) (argument : String)
  | unrecognized (words : List String)

def Refusal.message : Refusal → String
  | ambiguous word names =>
    "ambiguous option: " ++ word ++ " could match " ++ ", ".intercalate names
  | wantsArgument s => "argument " ++ s.title ++ ": expected one argument"
  | ignoredArgument s argument =>
    "argument " ++ s.title ++ ": ignored explicit argument " ++ Text.quoted argument
  | unrecognized words => "unrecognized arguments: " ++ " ".intercalate words

/-- An option as it stands in a word: the name that it was found by, and what the word
gives it as an argument. -/
structure Match where
  name : String
  setting : Setting
  argument : Option String

inductive Word where
  | operand (s : String)
  | divider
  | option (m : Match)
  | unknown (s : String)

/-- The part before the first equals sign and the part after it. -/
def splitEquals (cs : List Char) : String × Option String :=
  (String.ofList (cs.takeWhile (· != '=')),
    match cs.dropWhile (· != '=') with
    | [] => none
    | _ :: rest => some (String.ofList rest))

def isLong : List Char → Bool
  | '-' :: '-' :: _ => true
  | _ => false

/-- The options that a word can mean which is no full name. A long name may be cut short
and may have an argument after an equals sign. A short name may have its argument right
behind it. -/
def candidates (cs : List Char) : List Match :=
  if isLong cs then
    let (start, argument) := splitEquals cs
    Setting.table.filterMap fun (name, setting) =>
      if start.toList.isPrefixOf name.toList then some ⟨name, setting, argument⟩ else none
  else
    Setting.table.filterMap fun (name, setting) =>
      if name.toList == cs.take 2 then some ⟨name, setting, some (String.ofList (cs.drop 2))⟩
      else if cs.isPrefixOf name.toList then some ⟨name, setting, none⟩
      else none

/-- Digits, with or without a point among them. -/
def isNumeral (cs : List Char) : Bool :=
  let digit (c : Char) := (Text.digitValue? c).isSome
  match cs.dropWhile digit with
  | [] => !cs.isEmpty
  | '.' :: fraction => !fraction.isEmpty && fraction.all digit
  | _ => false

/-- A number below zero is no option; a line feed may end it. -/
def isNegative : List Char → Bool
  | '-' :: cs => isNumeral cs || (cs.getLast? == some '\n' && isNumeral cs.dropLast)
  | _ => false

/-- What a word that is not the divider is. -/
def classify (word : String) : Except Refusal Word :=
  let cs := word.toList
  match cs with
  | [] => .ok (.operand word)
  | first :: rest =>
    if first != '-' then .ok (.operand word)
    else
      match Setting.ofName? word with
      | some setting => .ok (.option ⟨word, setting, none⟩)
      | none =>
        if rest.isEmpty then .ok (.operand word)
        else
          match splitEquals cs with
          | (name, some argument) =>
            match Setting.ofName? name with
            | some setting => .ok (.option ⟨name, setting, some argument⟩)
            | none => search cs
          | (_, none) => search cs
where
  search (cs : List Char) : Except Refusal Word :=
    match candidates cs with
    | [m] => .ok (.option m)
    | [] =>
      if isNegative cs || cs.contains ' ' then .ok (.operand word) else .ok (.unknown word)
    | many => .error (.ambiguous word (many.map Match.name))

/-- The word that ends the options. -/
def dividerWord : String := "--"

/-- Words after the divider are operands, whatever they look like. -/
def classifyAll : List String → Except Refusal (List Word)
  | [] => .ok []
  | word :: rest =>
    if word == dividerWord then .ok (.divider :: rest.map .operand)
    else do
      let head ← classify word
      let tail ← classifyAll rest
      return head :: tail

/-- A setting and its argument, if the word itself gives one. -/
abbrev Given := Setting × Option String

/-- An option that takes no argument but has characters behind it: joined short options. -/
def joined (setting : Setting) (short : Bool) (argument : List Char) :
    Except Refusal (List Given) :=
  if setting.takesArgument then .ok [(setting, some (String.ofList argument))]
  else
    let refused := .error (.ignoredArgument setting (String.ofList argument))
    match argument with
    | [] => refused
    | c :: rest =>
      if !short then refused
      else
        match Setting.ofName? (String.ofList ['-', c]) with
        | none => refused
        | some next =>
          if rest.isEmpty then .ok [(setting, none), (next, none)]
          else (joined next true rest).map ((setting, none) :: ·)

/-- All that one word asks for. -/
def Match.given (m : Match) : Except Refusal (List Given) :=
  match m.argument with
  | none => .ok [(m.setting, none)]
  | some argument => joined m.setting (!isLong m.name.toList) argument.toList

/-- Whether the last option of a word takes the next word for its argument. -/
def wanting (given : List Given) : Option Setting :=
  match given.getLast? with
  | some (setting, none) => if setting.takesArgument then some setting else none
  | _ => none

/-- Why reading ends before the end. -/
inductive Stop where
  | help
  | refused (r : Refusal)

/-- What has been read so far. -/
structure Progress where
  options : Options := {}
  fileTaken : Bool := false
  extra : List String := []

def Progress.addExtra (p : Progress) (word : String) : Progress :=
  { p with extra := p.extra ++ [word] }

def Progress.setFile (p : Progress) (file : Option String) : Progress :=
  { p with options := { p.options with file }, fileTaken := true }

/-- Applies one option. The divider as an argument counts as none. -/
def apply (o : Options) : Given → Except Stop Options
  | (.help, _) => .error .help
  | (.code, text) => .ok { o with code := text.filter (· != dividerWord) }
  | (.interactive, _) => .ok { o with interactive := true }
  | (.verbose, _) => .ok { o with verbose := true }
  | (.status, _) => .ok { o with status := true }
  | (.selfTest, _) => .ok { o with selfTest := true }
  | (.demo, _) => .ok { o with demo := true }

def Progress.applyAll (p : Progress) (given : List Given) : Except Stop Progress := do
  let options ← given.foldlM apply p.options
  return { p with options }

def refuse {α : Type} : Except Refusal α → Except Stop α
  | .ok a => .ok a
  | .error r => .error (.refused r)

/-- Takes the words in turn. A divider next to the word that names the file belongs to it. -/
def consume (p : Progress) : List Word → Except Stop Progress
  | [] => .ok p
  | .option m :: rest => do
    let given ← refuse m.given
    match wanting given with
    | none => consume (← p.applyAll given) rest
    | some setting =>
      match rest with
      | .operand s :: rest => consume (← p.applyAll (given.dropLast ++ [(setting, some s)])) rest
      | _ => .error (.refused (.wantsArgument setting))
  | .unknown s :: rest => consume (p.addExtra s) rest
  | .operand s :: rest =>
    if p.fileTaken then consume (p.addExtra s) rest
    else
      match rest with
      | .divider :: rest => consume (p.setFile (some s)) rest
      | rest => consume (p.setFile (some s)) rest
  | .divider :: rest =>
    if p.fileTaken then consume (p.addExtra dividerWord) rest
    else
      match rest with
      | .operand s :: rest => consume (p.setFile (some s)) rest
      | rest => consume (p.setFile none) rest

/-- The options that a command line gives. -/
def read (words : List String) : Except Stop Options := do
  let p ← consume {} (← refuse (classifyAll words))
  if p.extra.isEmpty then return p.options
  else throw (.refused (.unrecognized p.extra))

end Options
end TuneScript
