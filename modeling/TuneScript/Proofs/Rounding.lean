import TuneScript.Proofs.Quotients
import TuneScript.Synth.Synthesizer

/-!
Products of floats as exact numbers. The bit pattern of a float and the parts that it is computed
with say the same, and a product is rounded at its last place only. Whole numbers far below the
greatest float have a float. So the whole part of a share of a whole number is known up to the
rounding of the product, as long as both are of ordinary size.
-/

namespace TuneScript.Binary

open Float.Model (Format totalExponent UnpackedFloat)
open Float.Model.UnpackedFloat

/-- What the parts of a float stand for. -/
def ofUnpacked : UnpackedFloat → Binary
  | .notANumber => nan
  | .infinity s => infinite (s == .negative)
  | .zero s => finite (s == .negative) 0 minExponent
  | .finite s m e _ => finite (s == .negative) m e

section Fields

variable (b : BitVec Format.binary64.numBits)

theorem toNat_unpackMantissa :
    (unpackMantissa b).toNat = b.toNat % Nat.pow 2 fractionBits := by
  rw [unpackMantissa_def, BitVec.extractLsb'_toNat]
  rfl

theorem toNat_unpackExponent :
    (unpackExponent b).toNat = b.toNat / Nat.pow 2 fractionBits % 2048 := by
  rw [unpackExponent_def, BitVec.extractLsb'_toNat, Nat.shiftRight_eq_div_pow]
  rfl

theorem toNat_unpackSign : (unpackSign b).toNat = b.toNat / Nat.pow 2 63 := by
  have hlt : b.toNat < Nat.pow 2 64 := b.isLt
  rw [unpackSign_def, BitVec.extractLsb'_toNat, Nat.shiftRight_eq_div_pow]
  change b.toNat / Nat.pow 2 63 % 2 = _
  have h64 : Nat.pow 2 64 = 2 * Nat.pow 2 63 := rfl
  rw [Nat.mod_eq_of_lt (Nat.div_lt_of_lt_mul (by omega))]

theorem negative_unpackSign :
    (Sign.ofBitVec (unpackSign b) == .negative) =
      decide (Nat.pow 2 63 ≤ b.toNat) := by
  have hsign := toNat_unpackSign b
  by_cases h : Nat.pow 2 63 ≤ b.toNat
  · have hne : unpackSign b ≠ 0#1 := by
      intro hzero
      rw [hzero] at hsign
      exact Nat.ne_of_lt (Nat.div_pos h (by decide)) hsign
    rw [Sign.ofBitVec, if_neg hne, decide_eq_true h]
    rfl
  · have heq : unpackSign b = 0#1 := by
      apply BitVec.eq_of_toNat_eq
      rw [hsign, Nat.div_eq_of_lt (by omega)]
      rfl
    rw [Sign.ofBitVec, if_pos heq, decide_eq_false h]
    rfl

theorem unpackMantissa_eq_zero :
    unpackMantissa b = 0#52 ↔ b.toNat % Nat.pow 2 fractionBits = 0 := by
  rw [← BitVec.toNat_inj, toNat_unpackMantissa]
  rfl

theorem unpackExponent_eq_top :
    unpackExponent b = -1#11 ↔
      b.toNat / Nat.pow 2 fractionBits % 2048 = 2047 := by
  rw [← BitVec.toNat_inj, toNat_unpackExponent]
  rfl

theorem unpackExponent_eq_zero :
    unpackExponent b = 0#11 ↔ b.toNat / Nat.pow 2 fractionBits % 2048 = 0 := by
  rw [← BitVec.toNat_inj, toNat_unpackExponent]
  rfl

end Fields

theorem toNat_one_append (v : BitVec 52) : (1#1 ++ v).toNat = v.toNat + Nat.pow 2 fractionBits := by
  have hor := Nat.two_pow_add_eq_or_of_lt v.isLt 1
  rw [Nat.mul_one] at hor
  rw [BitVec.toNat_append]
  change 1 <<< 52 ||| v.toNat = _
  rw [Nat.one_shiftLeft, ← hor]
  exact Nat.add_comm _ _

/-- The fields of the bit pattern say the same as the unpacked float. -/
theorem ofFloat_eq (x : Float) : ofFloat x = ofUnpacked x.toModel.unpack := by
  let b : BitVec Format.binary64.numBits := x.toBits.toBitVec
  change ofFloat x = ofUnpacked (unpack .binary64 b)
  have hbits : x.toBits.toNat = b.toNat := rfl
  have hsign := negative_unpackSign b
  rw [ofFloat, unpack]
  simp only [hbits]
  generalize b = b at hsign
  split
  · next htop =>
    rw [if_pos ((unpackExponent_eq_top b).2 htop)]
    split
    · next hzero =>
      rw [if_pos ((unpackMantissa_eq_zero b).2 hzero), ofUnpacked, hsign]
    · next hzero => rw [if_neg (mt (unpackMantissa_eq_zero b).1 hzero), ofUnpacked]
  · next htop =>
    rw [if_neg (mt (unpackExponent_eq_top b).1 htop)]
    split
    · next hbottom =>
      rw [if_pos ((unpackExponent_eq_zero b).2 hbottom)]
      by_cases hzero : b.toNat % Nat.pow 2 fractionBits = 0
      · rw [dif_pos ((unpackMantissa_eq_zero b).2 hzero), ofUnpacked, hsign, hzero]
      · rw [dif_neg (mt (unpackMantissa_eq_zero b).1 hzero), ofUnpacked, hsign,
          toNat_unpackMantissa, toNat_unpackExponent, hbottom]
        rfl
    · next hbottom =>
      rw [if_neg (mt (unpackExponent_eq_zero b).1 hbottom), ofUnpacked, hsign,
        toNat_one_append, toNat_unpackMantissa, toNat_unpackExponent]
      congr 1
      have hmin : minExponent = -1074 := rfl
      have hbias : ((Format.binary64.exponentBias : Nat) : Int) = 1023 := rfl
      change minExponent + _ = _ - (((Format.binary64.exponentBias : Nat) : Int) + 52)
      omega

/-- A float with a leading bit that is packed keeps its parts. -/
theorem unpack_pack {s : Sign} {m : Nat} {e : Int} (hpos : 0 < m)
    (hlow : 2 ^ 52 ≤ m) (hhigh : m < 2 ^ 53) (hmin : -1074 ≤ e) (hmax : e ≤ 971) :
    unpack .binary64 (pack .binary64 (.finite s m e hpos)) =
      .finite s m e hpos := by
  have hlog : m.log2 = 52 := (Nat.log2_eq_iff (Nat.ne_of_gt hpos)).2 ⟨hlow, hhigh⟩
  obtain ⟨k, hk⟩ : ∃ k : Nat, e + 1023 + 52 = k := ⟨(e + 1023 + 52).toNat, by omega⟩
  have hbiased : (e + ((Format.binary64.exponentBias : Nat) : Int) +
      ((Format.binary64.mantissaBitsWithoutImplicit : Nat) : Int)).toNat = k := by
    change (e + 1023 + 52).toNat = k
    omega
  have hpack : pack .binary64 (.finite s m e hpos) =
      packComponents .binary64 s (BitVec.ofNat 11 k) (BitVec.ofNat 52 m) := by
    rw [pack, hbiased, hlog]
    dsimp only
    rw [if_neg (by omega), if_pos (by decide)]
  have hexponent : (BitVec.ofNat 11 k).toNat = k := Nat.mod_eq_of_lt (by omega)
  have htop : BitVec.ofNat 11 k ≠ -1#11 := fun h => by
    have := congrArg BitVec.toNat h
    rw [hexponent] at this
    change k = 2047 at this
    omega
  have hbottom : BitVec.ofNat 11 k ≠ 0#11 := fun h => by
    have := congrArg BitVec.toNat h
    rw [hexponent] at this
    change k = 0 at this
    omega
  rw [hpack, unpack]
  simp only [unpackExponent_packComponents, unpackMantissa_packComponents,
    unpackSign_packComponents]
  rw [if_neg htop, if_neg hbottom]
  simp only [UnpackedFloat.finite.injEq, Sign.ofBitVec_toBitVec, true_and]
  constructor
  · rw [toNat_one_append, BitVec.toNat_ofNat]
    change m % 2 ^ 52 + 2 ^ 52 = m
    omega
  · rw [hexponent]
    change (k : Int) - (1023 + 52) = e
    omega

theorem mantissa_shiftRight (m : ExtendedMantissa) (t : Nat) :
    (m >>> t).mantissa = m.mantissa / 2 ^ t := by
  induction t with
  | zero => exact (Nat.div_one _).symm
  | succ t ih =>
      change (m >>> t).mantissa / 2 = _
      rw [ih, Nat.div_div_eq_div_mul, Nat.pow_succ]

theorem roundedMantissa_between (m : ExtendedMantissa) :
    m.mantissa ≤ m.roundedMantissa ∧ m.roundedMantissa ≤ m.mantissa + 1 := by
  obtain ⟨m, round, sticky⟩ := m
  have heven : m + m % 2 ≤ m + 1 := by omega
  cases round <;> cases sticky
  · exact ⟨Nat.le_refl m, Nat.le_succ m⟩
  · exact ⟨Nat.le_refl m, Nat.le_succ m⟩
  · exact ⟨Nat.le_add_right m _, heven⟩
  · exact ⟨Nat.le_succ m, Nat.le_refl _⟩

/-- A number with `53 + t` bits loses the last `t` of them. -/
theorem shiftToTargetExponent_eq {m t : Nat} {e : Int} (hm : m.log2 = 52 + t)
    (hmin : -1074 ≤ e + t) :
    shiftToTargetExponent .binary64 m e .exact =
      (ExtendedMantissa.mk m false false >>> t, e + t) := by
  have htarget : Format.binary64.targetExponent (totalExponent m e) = e + t := by
    change max ((m.log2 + 1 + e : Int) - 53) (-1074) = e + t
    omega
  have hshift : (e + t - e : Int).toNat = t := by omega
  rw [shiftToTargetExponent, htarget, shiftToExponent, hshift]
  rfl

theorem div_two_pow_of_log2 {m t : Nat} (h : m.log2 = 52 + t) :
    2 ^ 52 ≤ m / 2 ^ t ∧ m / 2 ^ t < 2 ^ 53 := by
  have hpos : m ≠ 0 := fun hzero => by
    rw [hzero] at h
    change 0 = 52 + t at h
    omega
  obtain ⟨hlow, hhigh⟩ := (Nat.log2_eq_iff hpos).1 h
  rw [Nat.le_div_iff_mul_le (Nat.two_pow_pos t), Nat.div_lt_iff_lt_mul (Nat.two_pow_pos t),
    ← Nat.pow_add, ← Nat.pow_add]
  exact ⟨hlow, Nat.add_right_comm 52 t 1 ▸ hhigh⟩

/-- Of a number with `53 + t` bits the last `t` are rounded; if that gives one bit more, it is a
zero. -/
theorem roundWithAccuracy_eq (s : Sign) {m t : Nat} {e : Int} (hm : m.log2 = 52 + t)
    (hmin : -1074 ≤ e + t) :
    ∃ r u m' h, m / 2 ^ t ≤ r ∧ r ≤ m / 2 ^ t + 1 ∧ u ≤ 1 ∧ m' * 2 ^ u = r ∧
      2 ^ 52 ≤ m' ∧ m' < 2 ^ 53 ∧
      roundWithAccuracy .binary64 s m e .exact = .finite s m' (e + t + (u : Nat)) h := by
  obtain ⟨hlow, hhigh⟩ := div_two_pow_of_log2 hm
  have hbetween := roundedMantissa_between (ExtendedMantissa.mk m false false >>> t)
  rw [mantissa_shiftRight] at hbetween
  change m / 2 ^ t ≤ _ ∧ _ ≤ m / 2 ^ t + 1 at hbetween
  rw [roundWithAccuracy, shiftToTargetExponent_eq hm hmin]
  dsimp only
  generalize ExtendedMantissa.roundedMantissa _ = r at hbetween
  obtain ⟨u, hu, hlog, hbits⟩ : ∃ u ≤ 1, r.log2 = 52 + u ∧ r / 2 ^ u * 2 ^ u = r := by
    by_cases hr : r < 2 ^ 53
    · exact ⟨0, by omega, (Nat.log2_eq_iff (by omega)).2 ⟨by omega, hr⟩, by omega⟩
    · have hr : r = 2 ^ 53 := by omega
      rw [hr]
      exact ⟨1, by decide⟩
  rw [shiftToTargetExponent_eq hlog (by omega)]
  dsimp only
  have hmantissa := mantissa_shiftRight (ExtendedMantissa.mk r false false) u
  change _ = r / 2 ^ u at hmantissa
  obtain ⟨hlow', hhigh'⟩ := div_two_pow_of_log2 hlog
  rw [← hmantissa] at hbits hlow' hhigh'
  generalize ExtendedMantissa.mantissa _ = m' at hbits hlow' hhigh' ⊢
  rw [dif_neg (by omega)]
  exact ⟨r, u, m', by omega, hbetween.1, hbetween.2, hu, hbits, hlow', hhigh', rfl⟩

theorem unpack_of_ofFloat {x : Float} {m : Nat} {e : Int} (hm : 0 < m)
    (h : ofFloat x = .finite false m e) : x.toModel.unpack = .finite .positive m e hm := by
  rw [ofFloat_eq] at h
  generalize x.toModel.unpack = u at h
  cases u with
  | finite s m' e' h' =>
      cases s with
      | negative => cases h
      | positive =>
          cases h
          rfl
  | zero s => exact absurd (finite.inj h).2.1 (Nat.ne_of_lt hm)
  | infinity s => cases h
  | notANumber => cases h

/-- A quotient without its fraction. -/
theorem cast_div_two_pow (p t : Nat) :
    ((p / 2 ^ t : Nat) : ℚ) ≤ p / 2 ^ t ∧ (p : ℚ) / 2 ^ t < (p / 2 ^ t : Nat) + 1 := by
  have hfloor := Nat.floor_div_eq_div (K := ℚ) p (2 ^ t)
  push_cast at hfloor
  rw [← hfloor]
  exact ⟨Nat.floor_le (by positivity), Nat.lt_floor_add_one _⟩

/-- The exact meaning of what is rounded. -/
theorem rounded_near {p t r u m : Nat} {g : Int} (hr : p / 2 ^ t ≤ r) (hr' : r ≤ p / 2 ^ t + 1)
    (hbits : m * 2 ^ u = r) : |(m : ℚ) * 2 ^ (g + t + u) - p * 2 ^ g| ≤ 2 ^ (g + t) := by
  have hunit : (0 : ℚ) < 2 ^ (g + t) := by positivity
  have hrounded : (m : ℚ) * 2 ^ (g + t + u) = r * 2 ^ (g + t) := by
    rw [← hbits, zpow_add₀ two_ne_zero _ (u : Int), zpow_natCast]
    push_cast
    ring
  have hexact : (p : ℚ) * 2 ^ g = p / 2 ^ t * 2 ^ (g + t) := by
    rw [zpow_add₀ two_ne_zero, zpow_natCast]
    field_simp
  obtain ⟨hfloor, hceil⟩ := cast_div_two_pow p t
  have habove : (r : ℚ) ≤ (p / 2 ^ t : Nat) + 1 := by exact_mod_cast hr'
  have hbelow : ((p / 2 ^ t : Nat) : ℚ) ≤ r := by exact_mod_cast hr
  rw [hrounded, hexact, ← sub_mul, abs_mul, abs_of_pos hunit]
  exact mul_le_of_le_one_left hunit.le (abs_le.2 ⟨by linarith, by linarith⟩)

/-- A product of floats is at most a unit in its last place away from the exact product. -/
theorem ofFloat_mul {x y : Float} {m n t : Nat} {e f : Int} (hx : ofFloat x = .finite false m e)
    (hy : ofFloat y = .finite false n f) (hlog : (m * n).log2 = 52 + t)
    (hmin : -1074 ≤ e + f + t) (hmax : e + f + t ≤ 970) :
    ∃ m' e', ofFloat (x * y) = .finite false m' e' ∧ e' ≤ e + f + t + 1 ∧
      |(m' : ℚ) * 2 ^ e' - m * n * 2 ^ (e + f)| ≤ 2 ^ (e + f + t) := by
  have hpos : 0 < m * n := Nat.pos_of_ne_zero fun hzero => by
    rw [hzero] at hlog
    change 0 = 52 + t at hlog
    omega
  obtain ⟨r, u, m', h, hr, hr', hu, hbits, hlow, hhigh, hround⟩ :=
    roundWithAccuracy_eq .positive hlog hmin
  refine ⟨m', e + f + t + u, ?_, by omega, ?_⟩
  · have hmul : (x * y).toModel.unpack =
        unpack .binary64 (pack .binary64 (mul .binary64 x.toModel.unpack y.toModel.unpack)) := rfl
    rw [ofFloat_eq, hmul, unpack_of_ofFloat (Nat.pos_of_mul_pos_right hpos) hx,
      unpack_of_ofFloat (Nat.pos_of_mul_pos_left hpos) hy, mul]
    have hsign : (Sign.positive * Sign.positive) = .positive := rfl
    rw [hsign, hround, unpack_pack h hlow hhigh (by omega) (by omega)]
    rfl
  · have hnear := rounded_near (g := e + f) hr hr' hbits
    rwa [Nat.cast_mul] at hnear

/-- A bit pattern below the greatest exponent is kept. -/
theorem toBits_ofBits {bits : Nat} (hlt : bits < Nat.pow 2 64)
    (h : bits / Nat.pow 2 fractionBits % 2048 ≠ 2047) :
    (Float.ofBits (UInt64.ofNat bits)).toBits.toNat = bits := by
  let b : BitVec Format.binary64.numBits := (UInt64.ofNat bits).toBitVec
  have hbits : b.toNat = bits := Nat.mod_eq_of_lt hlt
  have hnumber : isNaNBits b = false := by
    have htop : unpackExponent b ≠ -1#11 := mt (unpackExponent_eq_top b).1 (hbits.symm ▸ h)
    exact decide_eq_false fun hnan => htop hnan.1
  have hpacked : pack .binary64 (unpack .binary64 b) = b := by
    rw [pack_unpack, hnumber]
    rfl
  exact (congrArg BitVec.toNat hpacked).trans hbits

theorem leadingExponent_whole {n : Nat} (hn : 0 < n) : leadingExponent n 1 = n.log2 := by
  have hguess : (n.log2 : Int) - (Nat.log2 1 : Nat) = n.log2 := Int.sub_zero _
  have hscale : scale n 1 n.log2 = (n, 1 * Nat.pow 2 n.log2) := if_neg (by omega)
  have hle : 1 * Nat.pow 2 n.log2 ≤ n := by
    rw [Nat.one_mul]
    exact Nat.log2_self_le (Nat.ne_of_gt hn)
  rw [leadingExponent, hguess]
  simp only [hscale]
  exact if_neg (Nat.not_lt.2 hle)

theorem roundHalfEven_one (n : Nat) : roundHalfEven n 1 = n := by
  rw [roundHalfEven, Nat.mod_one, Nat.div_one]
  rfl

/-- A whole number with its leading bit moved to the top of a coefficient. -/
theorem coefficient_between {n : Nat} (hn : 0 < n) (hlog : n.log2 ≤ 52) :
    2 ^ 52 ≤ n * 2 ^ (52 - n.log2) ∧ n * 2 ^ (52 - n.log2) < 2 ^ 53 := by
  obtain ⟨hlow, hhigh⟩ := (Nat.log2_eq_iff (Nat.ne_of_gt hn)).1 rfl
  have h52 : 2 ^ n.log2 * 2 ^ (52 - n.log2) = 2 ^ 52 := by
    rw [← Nat.pow_add, Nat.add_sub_cancel' hlog]
  have h53 : 2 ^ (n.log2 + 1) * 2 ^ (52 - n.log2) = 2 ^ 53 := by
    rw [Nat.pow_succ', Nat.mul_assoc, h52]
    rfl
  rw [← h52, ← h53]
  exact ⟨Nat.mul_le_mul_right _ hlow, Nat.mul_lt_mul_of_pos_right hhigh (Nat.two_pow_pos _)⟩

/-- A whole number that is not too large is a float itself. -/
theorem ofFloat_nearest {n : Nat} (hn : 0 < n) (hlog : n.log2 < 52) :
    ofFloat (nearest false n 1) = .finite false (n * 2 ^ (52 - n.log2)) (n.log2 - 52) := by
  have hmin : minExponent = -1074 := rfl
  have hwidth : (fractionBits : Int) = 52 := rfl
  have hpow : Nat.pow 2 fractionBits = 2 ^ 52 := rfl
  have h64 : Nat.pow 2 64 = 4096 * 2 ^ 52 := rfl
  have h63 : Nat.pow 2 63 = 2048 * 2 ^ 52 := rfl
  obtain ⟨hlow, hhigh⟩ := coefficient_between hn (Nat.le_of_lt hlog)
  have hexponent : max (leadingExponent n 1 - (fractionBits : Int)) minExponent = n.log2 - 52 := by
    rw [leadingExponent_whole hn]
    omega
  have hscale : scale n 1 (n.log2 - 52) = (n * 2 ^ (52 - n.log2), 1) := by
    have hshift : (-((n.log2 : Int) - 52)).toNat = 52 - n.log2 := by omega
    rw [scale, if_pos (by omega), hshift]
    rfl
  generalize n * 2 ^ (52 - n.log2) = c at hlow hhigh hscale
  have hbits : nearest false n 1 =
      Float.ofBits (UInt64.ofNat ((n.log2 + 1022) * 2 ^ 52 + c)) := by
    rw [nearest, if_neg (Nat.ne_of_gt hn), hexponent]
    have hfield : ((n.log2 : Int) - 52 - minExponent).toNat = n.log2 + 1022 := by omega
    simp only [hscale, roundHalfEven_one, Bool.false_eq_true, if_false, Nat.zero_add]
    rw [hfield, hpow, Nat.min_eq_left (by omega)]
  have hexponent : ((n.log2 + 1022) * 2 ^ 52 + c) / Nat.pow 2 fractionBits % 2048 =
      n.log2 + 1023 := by
    rw [hpow]
    omega
  have hfraction : ((n.log2 + 1022) * 2 ^ 52 + c) % Nat.pow 2 fractionBits +
      Nat.pow 2 fractionBits = c := by
    rw [hpow]
    omega
  have hplace : minExponent + ((n.log2 + 1023 - 1 : Nat) : Int) = n.log2 - 52 := by omega
  rw [hbits, ofFloat, toBits_ofBits (by omega) (by omega), hexponent, hfraction,
    decide_eq_false (by omega), if_neg (by omega), if_neg (by omega), hplace]

theorem toFloat_whole {n : Nat} (hn : 0 < n) (hlog : n.log2 < 52) :
    (Number.int n).toFloat = .ok (nearest false n 1) := by
  have hfinite : (nearest false n 1).isInf = false := by
    have hisInf : (nearest false n 1).isInf = (nearest false n 1).toModel.unpack.isInf := rfl
    rw [hisInf, unpack_of_ofFloat (Nat.mul_pos hn (Nat.two_pow_pos _)) (ofFloat_nearest hn hlog)]
    rfl
  have hsign : decide ((n : Int) < 0) = false := decide_eq_false (by omega)
  have hwhole : ofInt? n = some (nearest false n 1) := by
    rw [ofInt?, hsign]
    exact if_neg (Bool.eq_false_iff.1 hfinite)
  rw [Number.toFloat, hwhole]

/-- A bit pattern below the greatest exponent is no infinity. -/
theorem isInf_ofBits {bits : Nat} (hlt : bits < Nat.pow 2 64)
    (h : bits / Nat.pow 2 fractionBits % 2048 ≠ 2047) :
    (Float.ofBits (UInt64.ofNat bits)).isInf = false := by
  have hfloat := ofFloat_eq (Float.ofBits (UInt64.ofNat bits))
  have hisInf : (Float.ofBits (UInt64.ofNat bits)).isInf =
      (Float.ofBits (UInt64.ofNat bits)).toModel.unpack.isInf := rfl
  rw [ofFloat, toBits_ofBits hlt h, if_neg h] at hfloat
  rw [hisInf]
  generalize (Float.ofBits (UInt64.ofNat bits)).toModel.unpack = u at hfloat
  cases u with
  | infinity s => split at hfloat <;> cases hfloat
  | _ => rfl

theorem roundHalfEven_le (num den : Nat) : roundHalfEven num den ≤ num / den + 1 := by
  unfold roundHalfEven
  dsimp only
  split
  · omega
  · split <;> omega

/-- The coefficient of a whole number has at most one bit more than a float keeps. -/
theorem coefficient_le {n : Nat} (hn : 0 < n) :
    roundHalfEven (scale n 1 (n.log2 - 52)).1 (scale n 1 (n.log2 - 52)).2 ≤ 2 ^ 53 := by
  by_cases hlog : n.log2 < 52
  · have hshift : (-((n.log2 : Int) - 52)).toNat = 52 - n.log2 := by omega
    have hscale : scale n 1 (n.log2 - 52) = (n * 2 ^ (52 - n.log2), 1) := by
      rw [scale, if_pos (by omega), hshift]
      rfl
    rw [hscale, roundHalfEven_one]
    exact Nat.le_of_lt (coefficient_between hn (Nat.le_of_lt hlog)).2
  · have hshift : ((n.log2 : Int) - 52).toNat = n.log2 - 52 := by omega
    have hscale : scale n 1 (n.log2 - 52) = (n, 2 ^ (n.log2 - 52)) := by
      rw [scale, if_neg (by omega), hshift, Nat.one_mul]
      rfl
    rw [hscale]
    have hdiv : n / 2 ^ (n.log2 - 52) < 2 ^ 53 :=
      (div_two_pow_of_log2 (t := n.log2 - 52) (by omega)).2
    exact (roundHalfEven_le _ _).trans hdiv

theorem isInf_fields {sign k r : Nat} (hsign : sign = 0 ∨ sign = 2048 * 2 ^ 52) (hk : k ≤ 2040)
    (hr : r ≤ 2 ^ 53) : (Float.ofBits (UInt64.ofNat
      (sign + min (k * Nat.pow 2 fractionBits + r) (2047 * Nat.pow 2 fractionBits)))).isInf =
        false := by
  have hpow : Nat.pow 2 fractionBits = 2 ^ 52 := rfl
  have h64 : Nat.pow 2 64 = 4096 * 2 ^ 52 := rfl
  rw [hpow, Nat.min_eq_left (by omega)]
  apply isInf_ofBits
  · omega
  · rw [hpow]
    omega

/-- A whole number far below the greatest float has a float. -/
theorem toFloat_ok {n : Int} (hlog : n.natAbs.log2 ≤ 1000) :
    ∃ x, (Number.int n).toFloat = .ok x := by
  have hsign : (if decide (n < 0) = true then Nat.pow 2 63 else 0) = 0 ∨
      (if decide (n < 0) = true then Nat.pow 2 63 else 0) = 2048 * 2 ^ 52 := by
    split
    · exact .inr rfl
    · exact .inl rfl
  have hfinite : (nearest (n < 0) n.natAbs 1).isInf = false := by
    by_cases hn : n.natAbs = 0
    · rw [Int.natAbs_eq_zero.1 hn]
      rfl
    · have hpos : 0 < n.natAbs := Nat.pos_of_ne_zero hn
      have hwidth : (fractionBits : Int) = 52 := rfl
      have hmin : minExponent = -1074 := rfl
      have hexponent : max (leadingExponent n.natAbs 1 - (fractionBits : Int)) minExponent =
          n.natAbs.log2 - 52 := by
        rw [leadingExponent_whole hpos]
        omega
      have hfield : ((n.natAbs.log2 : Int) - 52 - minExponent).toNat = n.natAbs.log2 + 1022 := by
        omega
      rw [nearest, if_neg hn, hexponent]
      dsimp only
      rw [hfield]
      exact isInf_fields hsign (by omega) (coefficient_le hpos)
  refine ⟨nearest (n < 0) n.natAbs 1, ?_⟩
  have hwhole : ofInt? n = some (nearest (n < 0) n.natAbs 1) := by
    rw [ofInt?]
    exact if_neg (Bool.eq_false_iff.1 hfinite)
  rw [Number.toFloat, hwhole]

theorem toInt_float {x : Float} {c a : Nat} (ha : 0 < a) (hx : ofFloat x = .finite false c (-a)) :
    (Number.float x).toInt = .ok (c / 2 ^ a : Nat) := by
  have hnegative : (-(a : Int)) < 0 := by omega
  rw [Number.toInt, hx]
  dsimp only
  rw [truncate, if_pos hnegative, Int.neg_neg, Int.toNat_natCast]
  rfl

theorem mul_float {n : Nat} {y : Float} (hy : (Number.int n).toFloat = .ok y) (x : Float) :
    (Value.int n).mul (.float x) = .ok (.float (y * x)) := by
  change Except.map Number.toValue (do
    let a ← (Number.int n).toFloat
    let b ← (Number.float x).toFloat
    return Number.float (a * b)) = _
  rw [hy]
  rfl

/-- A share of a whole number: a float of ordinary size that is less than two. -/
structure IsShare (x : Float) (m : Nat) (e : Int) : Prop where
  eq : ofFloat x = .finite false m e
  low : 2 ^ 52 ≤ m
  high : m < 2 ^ 53
  least : minExponent ≤ e
  most : e ≤ -52

namespace IsShare

variable {x : Float} {m : Nat} {e : Int}

theorem pos (hx : IsShare x m e) : 0 < m := Nat.lt_of_lt_of_le (Nat.two_pow_pos 52) hx.low

/-- Nothing is the share of nothing. -/
theorem ofFloat_zero_mul (hx : IsShare x m e) :
    ofFloat (Float.ofBits 0 * x) = .finite false 0 minExponent := by
  have hmul : (Float.ofBits 0 * x).toModel.unpack = unpack .binary64 (pack .binary64
      (mul .binary64 (Float.ofBits 0).toModel.unpack x.toModel.unpack)) := rfl
  have hzero : (Float.ofBits 0).toModel.unpack = .zero .positive := rfl
  rw [ofFloat_eq, hmul, unpack_of_ofFloat hx.pos hx.eq, hzero, mul]
  rfl

/-- A share of a whole number is at most a quarter away from the exact one. -/
theorem ofFloat_whole_mul {n : Nat} (hx : IsShare x m e) (hn : 0 < n) (hlog : n.log2 ≤ 33) :
    ∃ c a, 0 < a ∧ ofFloat (nearest false n 1 * x) = .finite false c (-(a : Nat)) ∧
      |(c : ℚ) / 2 ^ a - n * (m * 2 ^ e)| ≤ 1 / 4 := by
  obtain ⟨hlow, hhigh⟩ := coefficient_between hn (by omega)
  have hwhole := ofFloat_nearest hn (by omega)
  have hexact : ((n * 2 ^ (52 - n.log2) : Nat) : ℚ) * 2 ^ ((n.log2 : Int) - 52) = n := by
    have hcancel : ((n.log2 : Int) - 52) = -((52 - n.log2 : Nat) : Int) := by omega
    rw [hcancel, zpow_neg, zpow_natCast]
    push_cast
    field_simp
  generalize n * 2 ^ (52 - n.log2) = b at hlow hhigh hwhole hexact
  have hproduct : 2 ^ (52 + 52) ≤ b * m ∧ b * m < 2 ^ (53 + 53) := by
    rw [Nat.pow_add, Nat.pow_add]
    exact ⟨Nat.mul_le_mul hlow hx.low, Nat.mul_lt_mul'' hhigh hx.high⟩
  obtain ⟨t, hlog', ht, ht'⟩ : ∃ t, (b * m).log2 = 52 + t ∧ 52 ≤ t ∧ t ≤ 53 := by
    have hpos : b * m ≠ 0 := by omega
    have hleast := (Nat.le_log2 hpos).2 hproduct.1
    have hmost := (Nat.log2_lt hpos).2 hproduct.2
    exact ⟨(b * m).log2 - 52, by omega, by omega, by omega⟩
  have hmin : minExponent = -1074 := rfl
  have hleast := hx.least
  have hmost := hx.most
  obtain ⟨c, e', hc, he', hnear⟩ := ofFloat_mul hwhole hx.eq hlog' (by omega) (by omega)
  obtain ⟨a, rfl⟩ : ∃ a : Nat, e' = -a := ⟨(-e').toNat, by omega⟩
  refine ⟨c, a, by omega, hc, ?_⟩
  have hvalue : (c : ℚ) / 2 ^ a = c * 2 ^ (-(a : Int)) := by
    rw [zpow_neg, zpow_natCast, div_eq_mul_inv]
  have hshare : (n : ℚ) * (m * 2 ^ e) = b * m * 2 ^ ((n.log2 : Int) - 52 + e) := by
    rw [zpow_add₀ two_ne_zero, ← hexact]
    ring
  have hunit : (2 : ℚ) ^ ((n.log2 : Int) - 52 + e + t) ≤ 2 ^ (-2 : Int) :=
    zpow_le_zpow_right₀ one_le_two (by omega)
  rw [hvalue, hshare]
  exact hnear.trans (hunit.trans (by norm_num))

/-- The whole part of a share of a whole number, up to the rounding of the product. -/
theorem toInt_mul {n : Nat} (hx : IsShare x m e) (hlog : n.log2 ≤ 33) :
    ∃ k : Nat, (do (← (Value.int n).mul (.float x)).toInt) = Except.ok (k : Int) ∧
      (k : ℚ) ≤ n * (m * 2 ^ e) + 1 / 4 ∧ n * (m * 2 ^ e) < (k : ℚ) + 1 + 1 / 4 := by
  by_cases hn : n = 0
  · have hzero : (Number.int n).toFloat = .ok (Float.ofBits 0) := by
      rw [hn]
      rfl
    refine ⟨0, ?_, by rw [hn]; norm_num, by rw [hn]; norm_num⟩
    rw [mul_float hzero]
    exact (toInt_float (a := 1074) (by decide) hx.ofFloat_zero_mul).trans
      (congrArg (fun k : Nat => Except.ok (k : Int)) (Nat.zero_div _))
  · have hpos : 0 < n := Nat.pos_of_ne_zero hn
    obtain ⟨c, a, ha, hproduct, hnear⟩ := hx.ofFloat_whole_mul hpos hlog
    obtain ⟨hlow, hhigh⟩ := cast_div_two_pow c a
    obtain ⟨hbelow, habove⟩ := abs_le.1 hnear
    refine ⟨c / 2 ^ a, ?_, by linarith, by linarith⟩
    rw [mul_float (toFloat_whole hpos (by omega))]
    exact toInt_float ha hproduct

end IsShare

end TuneScript.Binary
