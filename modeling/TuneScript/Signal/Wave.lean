import TuneScript.Failure

/-!
Sampled waves and the curves that they are made of.
-/

namespace TuneScript

abbrev Wave := Array Float

namespace Wave

def pi : Float := 3.141592653589793

/-- Waves of more samples are not held in memory. -/
def capacity : Nat := 8589934592

/-- Refuses a number of samples for which there is no room; what cannot even be counted is
called by its measure. -/
def allot (measure : String) (n : Nat) : Result Unit :=
  if 9223372036854775808 ≤ n then .error (.oversized measure)
  else if 1152921504606846976 ≤ n then .error .arrayTooBig
  else if capacity < n then .error (.outOfMemory n)
  else .ok ()

/-- The `k`-th of `parts` equal steps over a distance. -/
def stepAt (distance : Float) (parts k : Nat) : Float :=
  let step := distance / parts.toFloat
  if step == 0.0 then k.toFloat / parts.toFloat * distance else k.toFloat * step

/-- `n` values from `a` to `b`, both ends included. -/
def ramp (a b : Float) (n : Nat) : List Float :=
  if n ≤ 1 then List.replicate n (0.0 * (b - a) + a)
  else (List.range (n - 1)).map (fun k => stepAt (b - a) (n - 1) k + a) ++ [b]

/-- The time of the `k`-th of `n` samples of a note. -/
def timeAt (duration : Float) (n k : Nat) : Float := stepAt duration n k + 0.0

/-- A moment of a note: the number of its sample and its time. -/
structure Moment where
  index : Nat
  time : Float

/-- A wave of `n` samples over a duration, each computed from its moment. -/
def sample (duration : Float) (n : Nat) (value : Moment → Float) : Wave :=
  Array.ofFn (fun k : Fin n => value ⟨k, timeAt duration n k⟩)

/-- The noise that instruments add: a fixed sequence of values between `-spread` and `spread`. -/
def noise (spread : Float) (k : Nat) : Float :=
  0.0 + spread * (((k * 37 + 11) % 101).toFloat / 50.0 - 1.0)

/-- The sign of a number, zero for zero. -/
def sign (x : Float) : Float :=
  if x > 0.0 then 1.0 else if x < 0.0 then -1.0 else if x == 0.0 then 0.0 else x

/-- What remains of a number above the next whole number below it. -/
def fraction (x : Float) : Float :=
  let r := x - (if x < 0.0 then x.ceil else x.floor)
  if r == 0.0 then 0.0 else if r < 0.0 then r + 1.0 else r

/-- A number brought into a range. -/
def clip (low high x : Float) : Float :=
  if x < low then low else if x > high then high else x

end Wave

/-- A sound as it is handed to the device: whole samples, one or two equal channels. -/
structure Sound where
  samples : Array Int
  stereo : Bool

namespace Sound

/-- A wave as whole samples: clipped, scaled and cut off. -/
def quantize (limit scale : Float) (wave : Wave) : Array Int :=
  wave.map fun x => (Wave.clip (-limit) limit x * scale).toInt64.toInt

end Sound
end TuneScript
