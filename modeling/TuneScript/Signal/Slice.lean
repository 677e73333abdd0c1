import TuneScript.Failure

/-!
Stretches of a list and their replacement. Bounds may be negative, then they count from
the end; bounds beyond the ends are moved to the ends.
-/

namespace TuneScript.Slice

/-- The position that a bound stands for in a list of `n` items. -/
def position (n : Nat) (bound : Int) : Nat :=
  if bound < 0 then (bound + n).toNat else min bound.toNat n

/-- The start and the end of a stretch; a stretch that ends before its start is empty. -/
def bounds (n : Nat) (start stop : Int) : Nat × Nat :=
  let first := position n start
  (first, max first (position n stop))

/-- What a stretch of `length` places receives: a list of that length, or one item for all
places. -/
def fitted {α : Type} (length : Nat) (source : List α) : Result (List α) :=
  if source.length = length then .ok source
  else
    match source with
    | [x] => .ok (List.replicate length x)
    | _ => .error (.shapeMismatch [source.length] length)

/-- The list with the stretch from `start` to `stop` replaced. -/
def assign {α : Type} (xs : List α) (start stop : Int) (source : List α) : Result (List α) := do
  let (first, last) := bounds xs.length start stop
  let middle ← fitted (last - first) source
  return xs.take first ++ middle ++ xs.drop last

end TuneScript.Slice
