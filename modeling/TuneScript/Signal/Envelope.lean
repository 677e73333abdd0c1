import TuneScript.Signal.Slice

/-!
The loudness of a note over time: attack, decay, sustain and release laid over each other
in this order, a later stage over an earlier one. Values are of any type; the curves are
given from outside.
-/

namespace TuneScript

/-- The curves of an envelope, by their numbers of points. Some need the sustain level,
which a configuration may lack; it is one value for all points or a value for each. -/
structure Stages (α : Type) where
  peak : α
  attack : Nat → List α
  decay : Nat → Result (List α)
  sustain : Result (List α)
  release : Nat → Result (List α)

namespace Stages

variable {α : Type}

/-- Lays a curve over a stretch, unless the stage has no points. -/
def lay (points : Int) (curve : Nat → Result (List α)) (start stop : Int) (xs : List α) :
    Result (List α) :=
  if 0 < points then do Slice.assign xs start stop (← curve points.toNat) else .ok xs

/-- An envelope of `n` values whose stages have `a`, `d` and `r` points; what is left over
between decay and release is sustained. -/
def layout (stages : Stages α) (n a d r : Int) : Result (List α) := do
  if n < 0 then throw .negativeDimension
  let flat := List.replicate n.toNat stages.peak
  let attacked ← lay a (fun k => .ok (stages.attack k)) 0 a flat
  let decayed ← lay d stages.decay a (a + d) attacked
  let s := n - a - d - r
  let sustained ← lay s (fun _ => stages.sustain) (a + d) (a + d + s) decayed
  lay r stages.release (n - r) n sustained

/-- An envelope of `n` values whose stages have fixed lengths. Attack and decay are left out
when the note ends before they do, and the release starts after them and has no more
points than are left. -/
def layoutWithin (stages : Stages α) (n : Nat) (a d r : Int) : Result (List α) := do
  let flat := List.replicate n stages.peak
  let attacked ←
    if a < n then lay a (fun k => .ok (stages.attack k)) 0 a flat else pure flat
  let decayed ←
    if a + d < n then lay d stages.decay a (a + d) attacked else pure attacked
  let start := a + d
  let stop := max start (n - r)
  let sustained ←
    if start < n then Slice.assign decayed start stop (← stages.sustain) else pure decayed
  if 0 < r ∧ stop < n then
    Slice.assign sustained stop n (← stages.release (min r (n - stop)).toNat)
  else return sustained

end Stages
end TuneScript
