import TuneScript.Signal.Wave
import TuneScript.Value.Basic

/-!
What a performance does to the outside.
-/

namespace TuneScript

inductive Effect where
  | text (s : String)
  | sound (s : Sound)
  | sleep (duration : Value)
  | wait (milliseconds : Int)
  | halt

namespace Effect

/-- The text that was printed. -/
def printed (log : List Effect) : String :=
  String.join (log.map fun
    | text s => s
    | _ => "")

end Effect
end TuneScript
