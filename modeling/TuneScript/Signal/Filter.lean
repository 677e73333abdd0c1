/-!
A low-pass filter of first order: each value is drawn from the value before it towards
the signal. The rule is stated for any type of numbers.
-/

namespace TuneScript.Filter

variable {α : Type} [Add α] [Sub α] [Mul α] [OfNat α 1]

/-- One step of the filter. -/
def blend (weight previous x : α) : α := weight * x + (1 - weight) * previous

def smoothFrom (weight previous : α) : List α → List α
  | [] => []
  | x :: xs =>
    let y := blend weight previous x
    y :: smoothFrom weight y xs

/-- The filtered signal; it starts as the signal does. -/
def smooth (weight : α) : List α → List α
  | [] => []
  | x :: xs => x :: smoothFrom weight x xs

theorem length_smoothFrom (w previous : α) (xs : List α) :
    (smoothFrom w previous xs).length = xs.length := by
  induction xs generalizing previous with
  | nil => rfl
  | cons x xs ih => exact congrArg Nat.succ (ih _)

theorem length_smooth (w : α) (signal : List α) : (smooth w signal).length = signal.length := by
  cases signal with
  | nil => rfl
  | cons x xs => exact congrArg Nat.succ (length_smoothFrom w x xs)

/-- The weight that a cutoff frequency gives to the signal. -/
def weight [Div α] (cutoff corner : α) : α := cutoff / (cutoff + corner)

end TuneScript.Filter
