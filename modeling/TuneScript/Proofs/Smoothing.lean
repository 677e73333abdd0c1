import Mathlib.Algebra.Order.Field.Basic
import Mathlib.Algebra.Order.Field.Rat
import Mathlib.Order.Interval.Set.Basic
import Mathlib.Tactic.Linarith
import Mathlib.Tactic.Ring
import TuneScript.Voice.Wave

/-!
The low-pass filter as an average. A weight between zero and one draws each value towards the signal
without passing it, so what is filtered stays between the least and the greatest value that the
signal has had so far. The filter is linear. Both are shown over the rational numbers, for the same
rule that the voices apply to floats.
-/

namespace TuneScript

namespace Filter

variable {w lo hi previous x : ℚ} {xs signal : List ℚ}

theorem weight_mem_Icc {c q : ℚ} (hc : 0 < c) (hq : 0 < q) : weight c q ∈ Set.Icc 0 1 := by
  have hsum : 0 < c + q := add_pos hc hq
  refine ⟨(div_pos hc hsum).le, (div_le_one hsum).2 ?_⟩
  linarith

/-- A step does not leave an interval that holds both the value before it and the signal. -/
theorem blend_mem_Icc (hw : w ∈ Set.Icc 0 1) (hprevious : previous ∈ Set.Icc lo hi)
    (hx : x ∈ Set.Icc lo hi) : blend w previous x ∈ Set.Icc lo hi := by
  have hrest : 0 ≤ 1 - w := sub_nonneg.2 hw.2
  constructor
  · calc lo = w * lo + (1 - w) * lo := by ring
      _ ≤ w * x + (1 - w) * previous :=
        add_le_add (mul_le_mul_of_nonneg_left hx.1 hw.1)
          (mul_le_mul_of_nonneg_left hprevious.1 hrest)
  · calc w * x + (1 - w) * previous ≤ w * hi + (1 - w) * hi :=
        add_le_add (mul_le_mul_of_nonneg_left hx.2 hw.1)
          (mul_le_mul_of_nonneg_left hprevious.2 hrest)
      _ = hi := by ring

/-- What comes out at a place depends on the signal up to there only. -/
theorem smoothFrom_mem_Icc (hw : w ∈ Set.Icc 0 1) (hprevious : previous ∈ Set.Icc lo hi) {i : Nat}
    (hxs : ∀ x ∈ xs.take (i + 1), x ∈ Set.Icc lo hi) {y : ℚ}
    (hy : (smoothFrom w previous xs)[i]? = some y) : y ∈ Set.Icc lo hi := by
  induction xs generalizing previous i with
  | nil => cases hy
  | cons x xs ih =>
      rw [List.take_succ_cons, List.forall_mem_cons] at hxs
      have hblend := blend_mem_Icc hw hprevious hxs.1
      cases i with
      | zero =>
          cases hy
          exact hblend
      | succ i => exact ih hblend hxs.2 hy

theorem smooth_mem_Icc (hw : w ∈ Set.Icc 0 1) {i : Nat}
    (hsignal : ∀ x ∈ signal.take (i + 1), x ∈ Set.Icc lo hi) {y : ℚ}
    (hy : (smooth w signal)[i]? = some y) : y ∈ Set.Icc lo hi := by
  cases signal with
  | nil => cases hy
  | cons x xs =>
      rw [List.take_succ_cons, List.forall_mem_cons] at hsignal
      cases i with
      | zero =>
          cases hy
          exact hsignal.1
      | succ i => exact smoothFrom_mem_Icc hw hsignal.1 hsignal.2 hy

theorem smooth_between (hw : w ∈ Set.Icc 0 1) {i : Nat} (hi : i < signal.length) :
    ∃ y lo hi, (smooth w signal)[i]? = some y ∧ (signal.take (i + 1)).min? = some lo ∧
      (signal.take (i + 1)).max? = some hi ∧ lo ≤ y ∧ y ≤ hi := by
  have hsome : signal.take (i + 1) ≠ [] := by
    rw [ne_eq, List.take_eq_nil_iff, not_or]
    exact ⟨i.succ_ne_zero, List.ne_nil_of_length_pos (Nat.zero_lt_of_lt hi)⟩
  obtain ⟨least, hleast⟩ := Option.isSome_iff_exists.1 (List.isSome_min?_iff.2 hsome)
  obtain ⟨greatest, hgreatest⟩ := Option.isSome_iff_exists.1 (List.isSome_max?_iff.2 hsome)
  obtain ⟨y, hy⟩ : ∃ y, (smooth w signal)[i]? = some y := by
    rw [← length_smooth w signal] at hi
    exact ⟨_, List.getElem?_eq_getElem hi⟩
  have hmem := smooth_mem_Icc hw (fun x hx => ⟨(List.min?_eq_some_iff.1 hleast).2 x hx,
    (List.max?_eq_some_iff.1 hgreatest).2 x hx⟩) hy
  exact ⟨y, least, greatest, hy, hleast, hgreatest, hmem.1, hmem.2⟩

/-- Between the least and the greatest of equal values there is one value only. -/
theorem smooth_of_constant (hw : w ∈ Set.Icc 0 1) {a : ℚ} (hsignal : ∀ x ∈ signal, x = a) :
    smooth w signal = signal := by
  have hsame : ∀ y ∈ smooth w signal, y = a := by
    intro y hy
    obtain ⟨i, hi⟩ := List.mem_iff_getElem?.1 hy
    have hmem : y ∈ Set.Icc a a := smooth_mem_Icc hw (fun x hx => by
      rw [hsignal x (List.mem_of_mem_take hx)]
      exact ⟨le_refl a, le_refl a⟩) hi
    exact le_antisymm hmem.2 hmem.1
  rw [List.eq_replicate_of_mem hsame, length_smooth, ← List.eq_replicate_of_mem hsignal]

section Linear

variable (w x y : ℚ)

theorem blend_linear (p q u v : ℚ) : blend w (x * p + y * q) (x * u + y * v) =
    x * blend w p u + y * blend w q v := by
  unfold blend
  ring

theorem smoothFrom_linear (p q : ℚ) (us vs : List ℚ) :
    smoothFrom w (x * p + y * q) (List.zipWith (fun u v => x * u + y * v) us vs) =
      List.zipWith (fun u v => x * u + y * v) (smoothFrom w p us) (smoothFrom w q vs) := by
  induction us generalizing p q vs with
  | nil => rfl
  | cons u us ih =>
      cases vs with
      | nil => rfl
      | cons v vs =>
          simp only [List.zipWith_cons_cons, smoothFrom, blend_linear, ih]

/-- Where one signal is longer its rest makes no difference. -/
theorem smooth_linear (us vs : List ℚ) :
    smooth w (List.zipWith (fun u v => x * u + y * v) us vs) =
      List.zipWith (fun u v => x * u + y * v) (smooth w us) (smooth w vs) := by
  cases us with
  | nil => rfl
  | cons u us =>
      cases vs with
      | nil => rfl
      | cons v vs => exact congrArg _ (smoothFrom_linear w x y u v us vs)

end Linear

/-- The filter averages: over the rational numbers and for every cutoff and corner above zero, it
keeps the length and the first value of a signal, stays between the least and the greatest value
that the signal has had so far, leaves a constant signal as it is, and is linear. -/
theorem smooth_averages {c q : ℚ} (hc : 0 < c) (hq : 0 < q) :
    (∀ signal : List ℚ,
      (smooth (weight c q) signal).length = signal.length ∧
      (smooth (weight c q) signal).head? = signal.head? ∧
      (∀ i < signal.length, ∃ y lo hi, (smooth (weight c q) signal)[i]? = some y ∧
        (signal.take (i + 1)).min? = some lo ∧ (signal.take (i + 1)).max? = some hi ∧
        lo ≤ y ∧ y ≤ hi) ∧
      ∀ a, (∀ x ∈ signal, x = a) → smooth (weight c q) signal = signal) ∧
    ∀ (x y : ℚ) (us vs : List ℚ),
      smooth (weight c q) (List.zipWith (fun u v => x * u + y * v) us vs) =
        List.zipWith (fun u v => x * u + y * v) (smooth (weight c q) us)
          (smooth (weight c q) vs) := by
  have hw := weight_mem_Icc hc hq
  refine ⟨fun signal => ⟨length_smooth _ signal, ?_, fun i hi => smooth_between hw hi,
    fun a ha => smooth_of_constant hw ha⟩, smooth_linear _⟩
  cases signal <;> rfl

theorem smooth_averages_quarter :
    (0 : ℚ) < 1 ∧ (0 : ℚ) < 3 ∧ smooth (weight (1 : ℚ) 3) [3, -1, 4] = [3, 2, 5 / 2] ∧
      ∃ y lo hi, (smooth (weight (1 : ℚ) 3) [3, -1, 4])[2]? = some y ∧
        ([3, -1, 4] : List ℚ).min? = some lo ∧ ([3, -1, 4] : List ℚ).max? = some hi ∧
        lo ≤ y ∧ y ≤ hi := by
  have hc : (0 : ℚ) < 1 := by decide
  have hq : (0 : ℚ) < 3 := by decide
  obtain ⟨-, -, hbetween, -⟩ := (smooth_averages hc hq).1 [3, -1, 4]
  exact ⟨hc, hq, by decide +kernel, hbetween 2 (by decide)⟩

end Filter

namespace Voice

variable {rate : Int} {r cutoff : Float}

theorem quotient_of_floats {x y : Float} (hy : (y == 0.0) = false) :
    (Value.float x).div (.float y) = .ok (.float (x / y)) := by
  change (do
    if y == 0.0 then throw (.divisionByZero .float)
    return Number.float (x / y) : Result Number).map Number.toValue = _
  rw [hy]
  rfl

/-- What the voices do to a wave, where the rate has a float. -/
theorem lowpass_eq_smooth (hrate : Binary.ofInt? rate = some r)
    (hsum : (cutoff + r / twoPi == 0.0) = false) (signal : List Float) :
    lowpass rate signal (.float cutoff) =
      .ok (Filter.smooth (Filter.weight cutoff (r / twoPi)) signal) := by
  have hcorner : (Value.int rate).div (.float twoPi) = .ok (.float (r / twoPi)) := by
    have hfloat : (Number.int rate).toFloat = .ok r := by rw [Number.toFloat, hrate]
    change (do
      let x ← (Number.int rate).toFloat
      if twoPi == 0.0 then throw (.divisionByZero .float)
      return Number.float (x / twoPi) : Result Number).map Number.toValue = _
    rw [hfloat]
    rfl
  have hweight : filterWeight rate (.float cutoff) =
      .ok (Filter.weight cutoff (r / twoPi)) := by
    change (do
      let corner ← (Value.int rate).div (.float twoPi)
      Synthesizer.amount (← (Value.float cutoff).div (← (Value.float cutoff).add corner))) = _
    rw [hcorner]
    change (do Synthesizer.amount (← (Value.float cutoff).div (.float (cutoff + r / twoPi)))) = _
    rw [quotient_of_floats hsum]
    rfl
  rw [lowpass, hweight]
  rfl

end Voice
end TuneScript
