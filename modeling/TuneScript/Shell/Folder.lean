import TuneScript.Text.Utf8

/-!
The files that a shell can see: those of one folder, by name.
-/

namespace TuneScript

structure Folder where
  files : List (String × List UInt8) := []

/-- What a path leads to. -/
inductive Entry where
  | missing
  | directory
  | file (content : List UInt8)

namespace Folder

/-- Where a path has led so far. -/
inductive Spot where
  | inside
  | outside
  | nowhere
  | file (content : List UInt8)

/-- One step of a path. From a file no step leads on, and outside the folder only those
further up are known. -/
def step (folder : Folder) : Spot → String → Spot
  | .inside, "" | .inside, "." => .inside
  | .inside, ".." => .outside
  | .inside, name =>
    match folder.files.lookup name with
    | some content => .file content
    | none => .nowhere
  | .outside, "" | .outside, "." | .outside, ".." => .outside
  | _, _ => .nowhere

def Spot.entry : Spot → Entry
  | inside | outside => .directory
  | nowhere => .missing
  | file content => .file content

/-- A path is the name of a file or a sequence of steps between slashes; one that starts
with a slash leads outside. -/
def entry (folder : Folder) (path : String) : Entry :=
  match folder.files.lookup path with
  | some content => .file content
  | none =>
    match path.splitOn "/" with
    | [""] => .missing
    | "" :: steps => (steps.foldl folder.step .outside).entry
    | steps => (steps.foldl folder.step .inside).entry

def holds (folder : Folder) (path : String) : Bool :=
  match folder.entry path with
  | .missing => false
  | _ => true

/-- The text of the file at a path. -/
def read (folder : Folder) (path : String) : Result String :=
  match folder.entry path with
  | .missing => .error (.missingFile path)
  | .directory => .error (.isDirectory path)
  | .file content => Text.ofBytes content

/-- Writes a text to the file of a name, in place of what it held. -/
def write (folder : Folder) (name content : String) : Folder :=
  ⟨(name, Text.toBytes content) :: folder.files.filter (·.1 != name)⟩

end Folder
end TuneScript
