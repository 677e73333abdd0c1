import TuneScript.Engine.Session
import TuneScript.Shell.Folder

/-!
The shell around engines: it prints, reads program texts and files, and hands
performances to engines. What went wrong is a failure or the rejection of a text; either
keeps what was done before it.
-/

namespace TuneScript

/-- Where the program is installed, and the version shown for its parts. -/
structure Installation where
  home : String
  version : String

structure Console where
  installation : Installation
  folder : Folder
  device : Device
  rate : Int
  log : Array Effect := #[]

inductive Trouble where
  | failure (f : Failure)
  | rejection (r : Rejection)

def Trouble.message : Trouble → String
  | failure f => f.message
  | rejection r => "語法錯誤: " ++ r.message

abbrev Shell := ExceptT Trouble (StateM Console)

namespace Shell

/-- Prints a text without ending the line. -/
def print (s : String) : Shell Unit := modify fun c => { c with log := c.log.push (.text s) }

/-- Prints a line. -/
def say (s : String) : Shell Unit := print (s ++ "\n")

def lift {α : Type} : Result α → Shell α
  | .ok a => pure a
  | .error f => throw (.failure f)

/-- Goes on after any trouble as `report` says. -/
def attempt {α : Type} (action : Shell α) (report : Trouble → Shell α) : Shell α :=
  tryCatch action report

/-- Lets an engine perform. The engine that comes back has done what it could, also when
the performance failed. -/
def conduct {α : Type} (e : Engine) (action : Perform α) : Shell (Result α × Engine) := do
  let (result, after) := action.run.run { e with log := #[] }
  modify fun c => { c with log := c.log ++ after.log }
  return (result, { after with log := #[] })

/-- Lets an engine perform; a failure is the shell's. -/
def perform {α : Type} (e : Engine) (action : Perform α) : Shell (α × Engine) := do
  let (result, after) ← conduct e action
  return (← lift result, after)

/-- Builds an engine on the console's device, at its sample rate. -/
def newEngine (palette : Palette) : Shell Engine := do
  let c ← get
  let ((), e) ← perform { palette, device := c.device } do
    Perform.build
    Perform.setRate c.rate
  return e

/-- Says that program texts can be read. -/
def readerReady : Shell Unit := say "✅ 解析器初始化成功（支援休止符）"

/-- Reads a program text; a rejection is reported and passed on. -/
def readProgram (code : String) : Shell Value := do
  match Reader.read .full code with
  | .ok program => return program.toNode
  | .error r =>
    say ("❌ 語法錯誤: " ++ r.message)
    throw (.rejection r)

def fileText (path : String) : Shell String := do lift ((← get).folder.read path)

end Shell
end TuneScript
