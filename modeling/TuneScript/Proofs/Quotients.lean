import Mathlib
import TuneScript.Engine.Evaluation

/-!
When a quotient fails for its divisor: only if the divisor equals zero. A whole number other
than zero never becomes the float zero, which shows in the exponent field of the float. Hence
no expression fails so, as its quotients by zero are not even tried.
-/

namespace TuneScript

namespace Binary

open Float.Model

theorem eq_zero_of_beq {x : Float} (h : (x == 0.0) = true) : x = 0.0 ∨ x = -0.0 := by
  obtain ⟨-, -, h | ⟨h, -⟩ | ⟨h, -⟩⟩ := Float.beq_iff_ne_nan_and_eq.1 h
  · exact .inl h
  · exact .inl h
  · exact .inr h

theorem ofFloat_of_beq_zero {x : Float} (h : (x == 0.0) = true) :
    ∃ negative, ofFloat x = .finite negative 0 minExponent := by
  rcases eq_zero_of_beq h with rfl | rfl
  · exact ⟨false, rfl⟩
  · exact ⟨true, rfl⟩

/-- Bits that are taken for a number stay as they are. -/
theorem toBitVec_of_ofBits {bits : UInt64} {x : Float} (h : Float.ofBits bits = x)
    (hx : x.toBits.toBitVec ≠ UnpackedFloat.packedNaN .binary64) :
    bits.toBitVec = x.toBits.toBitVec := by
  have hpacked : UnpackedFloat.pack .binary64 (UnpackedFloat.unpack .binary64 bits.toBitVec) =
      x.toBits.toBitVec := congrArg (fun x => x.toBits.toBitVec) h
  rw [UnpackedFloat.pack_unpack] at hpacked
  split at hpacked
  · exact absurd hpacked.symm hx
  · exact hpacked

/-- Neither zero has anything in its exponent field. -/
theorem ofBits_ne_zero {bits : Nat} (hlt : bits < Nat.pow 2 64)
    (h : bits / Nat.pow 2 fractionBits % 2048 ≠ 0) :
    (Float.ofBits (UInt64.ofNat bits) == 0.0) = false := by
  have hbits : (UInt64.ofNat bits).toBitVec.toNat = bits := Nat.mod_eq_of_lt hlt
  refine Bool.eq_false_iff.2 fun hzero => h ?_
  rcases eq_zero_of_beq hzero with hx | hx
  · rw [← hbits, toBitVec_of_ofBits hx (by decide)]
    rfl
  · rw [← hbits, toBitVec_of_ofBits hx (by decide)]
    rfl

theorem leadingExponent_one (n : Nat) : -1 ≤ leadingExponent n 1 := by
  have hlog : ((Nat.log2 1 : Nat) : Int) = 0 := rfl
  simp only [leadingExponent, hlog]
  split <;> omega

/-- A whole number other than zero is at least one, far above the least positive float. -/
theorem nearest_ne_zero (negative : Bool) {n : Nat} (hn : n ≠ 0) :
    (nearest negative n 1 == 0.0) = false := by
  have hleading := leadingExponent_one n
  have hbits : (fractionBits : Int) = 52 := rfl
  have hmin : minExponent = -1074 := rfl
  have hpow : Nat.pow 2 fractionBits = 4503599627370496 := rfl
  rw [nearest, if_neg hn]
  dsimp only
  generalize roundHalfEven _ _ = r
  have hexponent : 1021 ≤
      (max (leadingExponent n 1 - (fractionBits : Int)) minExponent - minExponent).toNat := by
    omega
  generalize (max (leadingExponent n 1 - (fractionBits : Int)) minExponent - minExponent).toNat = k
    at hexponent
  have hsign : (if negative = true then Nat.pow 2 63 else 0) = 0 ∨
      (if negative = true then Nat.pow 2 63 else 0) = 2048 * 4503599627370496 := by
    cases negative
    · exact .inl rfl
    · exact .inr rfl
  generalize (if negative = true then Nat.pow 2 63 else 0) = sign at hsign
  have h64 : Nat.pow 2 64 = 4096 * 4503599627370496 := rfl
  apply ofBits_ne_zero
  · rw [hpow, h64]
    omega
  · rw [hpow]
    omega

end Binary

/-- The kinds of failures, by what they are about. -/
inductive Family where
  | type | value | overflow | zeroDivision | attribute | key | index | memory | operand
  | promotion | device | input | recursion
  deriving DecidableEq

def Failure.family : Failure → Family
  | unsupportedOperands .. | notComparable .. | cannotConcatenate .. | cannotRepeat ..
  | notANumber .. | notIterable .. | noLength .. | notSubscriptable .. | textIndex ..
  | listIndex .. | unhashable .. | unsupportedFormat .. | cannotJoin | notText ..
  | sleepNotInteger .. | notAFloat .. => .type
  | invalidInteger .. | invalidFloat .. | numeralTooLong .. | integerTextTooLong
  | nanToInteger | unknownFormatCode | negativeSampleCount .. | negativeDimension
  | shapeMismatch .. | sleepNotANumber | sleepNegative | nestedTooFar | unevenLists ..
  | shapesDiffer .. | resultShape .. | oversized .. | arrayTooBig => .value
  | textOperand .. | wideEnd .. | resultNotNumbers .. => .operand
  | textEnd .. => .promotion
  | outOfMemory .. | noMemory => .memory
  | repeatTooLarge | repeatedTooLong | quotientTooLarge | intTooLarge | infinityToInteger
  | sleepOutOfRange | sleepTooLong => .overflow
  | divisionByZero .. => .zeroDivision
  | noAttribute .. => .attribute
  | outOfRange .. => .index
  | missingKey .. => .key
  | device .. => .device
  | endOfInput | isDirectory .. | missingFile .. | undecodable .. => .input
  | nestedTooDeep => .recursion

theorem Result.bind_eq_error {α β : Type} {r : Result α} {f : α → Result β} {failure : Failure}
    (h : (r >>= f) = .error failure) :
    r = .error failure ∨ ∃ a, r = .ok a ∧ f a = .error failure := by
  cases r with
  | ok a => exact .inr ⟨a, rfl, h⟩
  | error g =>
      cases h
      exact .inl rfl

theorem Result.map_eq_error {α β : Type} {r : Result α} {f : α → β} {failure : Failure}
    (h : r.map f = .error failure) : r = .error failure := by
  cases r with
  | ok a => cases h
  | error g => exact congrArg Except.error (Except.error.inj h)

namespace Number

variable {m n : Number} {f : Failure}

theorem toFloat_error (h : n.toFloat = .error f) : f = .intTooLarge := by
  cases n with
  | int n =>
      simp only [toFloat] at h
      split at h
      · cases h
      · cases h
        rfl
  | float x => cases h

theorem combine_error {onInts : Int → Int → Int} {onFloats : Float → Float → Float}
    (h : combine onInts onFloats m n = .error f) : f = .intTooLarge := by
  unfold combine at h
  split at h
  · cases h
  · rcases Result.bind_eq_error h with h | ⟨x, -, h⟩
    · exact toFloat_error h
    · rcases Result.bind_eq_error h with h | ⟨y, -, h⟩
      · exact toFloat_error h
      · cases h

theorem compare?_zero_of_beq {y : Float} (h : (y == 0.0) = true) :
    (float y).compare? (.int 0) = some .eq := by
  obtain ⟨negative, hy⟩ := Binary.ofFloat_of_beq_zero h
  simp only [compare?, compareFloatInt?, hy, Binary.compareInt, Int.zero_mul]
  cases negative <;> rfl

/-- Only what equals zero becomes the float zero. -/
theorem compare?_zero_of_toFloat {y : Float} (h : n.toFloat = .ok y) (hy : (y == 0.0) = true) :
    n.compare? (.int 0) = some .eq := by
  cases n with
  | float x =>
      cases h
      exact compare?_zero_of_beq hy
  | int n =>
      by_cases hn : n = 0
      · rw [hn]
        rfl
      · simp only [toFloat, Binary.ofInt?] at h
        split at h
        · next hsome =>
          split at hsome
          · cases hsome
          · cases hsome
            cases h
            rw [Binary.nearest_ne_zero _ (Int.natAbs_ne_zero.2 hn)] at hy
            cases hy
        · cases h

theorem div_error (h : m.div n = .error f) :
    f.family = .overflow ∨ f.family = .zeroDivision ∧ n.compare? (.int 0) = some .eq := by
  unfold div at h
  split at h
  · split at h
    · next hb =>
      cases h
      rw [hb]
      exact .inr ⟨rfl, rfl⟩
    · dsimp only at h
      split at h
      · cases h
        exact .inl rfl
      · cases h
  · rcases Result.bind_eq_error h with h | ⟨x, -, h⟩
    · rw [toFloat_error h]
      exact .inl rfl
    · rcases Result.bind_eq_error h with h | ⟨y, hy, h⟩
      · rw [toFloat_error h]
        exact .inl rfl
      · split at h
        · next hzero =>
          cases h
          exact .inr ⟨rfl, compare?_zero_of_toFloat hy hzero⟩
        · cases h

end Number

namespace Value

variable {a b : Value} {f : Failure}

theorem equal_of_number? {n : Number} (h : b.number? = some n) (k : Int) :
    b.equal (.int k) = (n.compare? (.int k) == some .eq) := by
  cases b with
  | bool _ | int _ | float _ | nan _ =>
      cases h
      rfl
  | _ => cases h

theorem onNumbers_error {op : Number → Number → Result Number} {symbol : String}
    (h : onNumbers op symbol a b = .error f) :
    f.family = .type ∨ ∃ m n, a.number? = some m ∧ b.number? = some n ∧ op m n = .error f := by
  unfold onNumbers at h
  split at h
  · next m n hm hn => exact .inr ⟨m, n, hm, hn, Result.map_eq_error h⟩
  · cases h
    exact .inl rfl

/-- A quotient fails for its divisor only if that equals zero. -/
theorem div_error (h : a.div b = .error f) :
    f.family = .type ∨ f.family = .overflow ∨
      f.family = .zeroDivision ∧ b.equal (.int 0) = true := by
  rcases onNumbers_error h with h | ⟨m, n, -, hn, h⟩
  · exact .inl h
  · rcases Number.div_error h with h | ⟨h, hzero⟩
    · exact .inr (.inl h)
    · refine .inr (.inr ⟨h, ?_⟩)
      rw [equal_of_number? hn, hzero]
      rfl

theorem add_error (h : a.add b = .error f) : f.family = .type ∨ f.family = .overflow := by
  unfold add at h
  split at h
  · cases h
  · cases h
    exact .inl rfl
  · cases h
  · cases h
    exact .inl rfl
  · rcases onNumbers_error h with h | ⟨m, n, -, -, h⟩
    · exact .inl h
    · rw [Number.combine_error h]
      exact .inr rfl

theorem sub_error (h : a.sub b = .error f) : f.family = .type ∨ f.family = .overflow := by
  rcases onNumbers_error h with h | ⟨m, n, -, -, h⟩
  · exact .inl h
  · rw [Number.combine_error h]
    exact .inr rfl

theorem repeatCount_error (h : repeatCount a = .error f) :
    f.family = .type ∨ f.family = .overflow := by
  unfold repeatCount at h
  split at h
  · split at h
    · cases h
    · cases h
      exact .inr rfl
  · cases h
    exact .inl rfl

theorem repeated_error (h : repeated a b = .error f) :
    f.family = .type ∨ f.family = .overflow ∨ f.family = .memory := by
  rcases Result.bind_eq_error h with h | ⟨n, -, h⟩
  · rcases repeatCount_error h with h | h
    · exact .inl h
    · exact .inr (.inl h)
  · cases a with
    | text s =>
        rcases Result.bind_eq_error h with h | ⟨_, -, h⟩
        · unfold repeatText at h
          split at h
          · cases h
          · split at h
            · cases h
              exact .inr (.inl rfl)
            · split at h
              · cases h
                exact .inr (.inr rfl)
              · cases h
        · cases h
    | list items =>
        rcases Result.bind_eq_error h with h | ⟨_, -, h⟩
        · unfold repeatItems at h
          split at h
          · cases h
          · split at h
            · cases h
              exact .inr (.inr rfl)
            · cases h
        · cases h
    | _ => cases h

/-- Only what is repeated can take too much room. -/
theorem mul_error (h : a.mul b = .error f) :
    f.family = .type ∨ f.family = .overflow ∨
      f.family = .memory ∧ (a.isSequence = true ∨ b.isSequence = true) := by
  unfold mul at h
  split at h
  · next ha =>
    rcases repeated_error h with h | h | h
    · exact .inl h
    · exact .inr (.inl h)
    · exact .inr (.inr ⟨h, .inl ha⟩)
  · split at h
    · next hb =>
      rcases repeated_error h with h | h | h
      · exact .inl h
      · exact .inr (.inl h)
      · exact .inr (.inr ⟨h, .inr hb⟩)
    · rcases onNumbers_error h with h | ⟨m, n, -, -, h⟩
      · exact .inl h
      · rw [Number.combine_error h]
        exact .inr (.inl rfl)

mutual

theorem related_error (r : Relation) (a b : Value) (h : related r a b = .error f) :
    f.family = .type := by
  unfold related at h
  split at h
  · cases h
  · next xs ys => exact relatedItems_error r xs ys h
  · split at h
    · cases h
    · cases h
      rfl

theorem relatedItems_error (r : Relation) (as bs : List Value)
    (h : relatedItems r as bs = .error f) : f.family = .type := by
  unfold relatedItems at h
  split at h
  · cases h
  · cases h
  · cases h
  · next x xs y ys =>
    split at h
    · exact relatedItems_error r xs ys h
    · exact related_error r x y h

end

theorem compare_error {r : Relation} (h : compare r a b = .error f) : f.family = .type := by
  unfold compare at h
  split at h
  · cases h
  · cases h
  · exact related_error r a b h

end Value

namespace Engine

/-- No operator of an expression fails for a divisor. -/
theorem operate_error {o : Operator} {left right : Value} {f : Failure}
    (h : operate o left right = .error f) :
    f.family = .type ∨ f.family = .overflow ∨
      f.family = .memory ∧ (left.isSequence = true ∨ right.isSequence = true) := by
  cases o with
  | add =>
      rcases Value.add_error h with h | h
      · exact .inl h
      · exact .inr (.inl h)
  | sub =>
      rcases Value.sub_error h with h | h
      · exact .inl h
      · exact .inr (.inl h)
  | mul => exact Value.mul_error h
  | div =>
      simp only [operate] at h
      split at h
      · cases h
      · next hright =>
        rcases Value.div_error h with h | h | ⟨-, hzero⟩
        · exact .inl h
        · exact .inr (.inl h)
        · exact absurd hzero hright

theorem lookup_error {e : Engine} {name default : Value} {f : Failure}
    (h : e.lookup name default = .error f) : f.family = .attribute ∨ f.family = .type := by
  unfold lookup at h
  split at h
  · cases h
    exact .inl rfl
  · rcases Result.bind_eq_error h with h | ⟨_, -, h⟩
    · cases name with
      | list _ | record _ =>
          cases h
          exact .inr rfl
      | _ => cases h
    · cases h

/-- What stands on one side of an operator, zero if nothing does. -/
def operand (e : Engine) (node : Value) (key : String) : Result Value :=
  match node.field? key with
  | some v => e.valueOf v (.int 0)
  | none => .ok (.int 0)

theorem valueOf_binop (e : Engine) {node : Value} (h : Node.typeName node = "binop")
    (default : Value) :
    e.valueOf node default = (do
      let left ← e.operand node "left"
      let right ← e.operand node "right"
      match Operator.ofSymbol? (Node.symbol node "+") with
      | some o => operate o left right
      | none => return default) := by
  rw [valueOf, operand, operand]
  simp only [h]
  cases node.field? "left" <;> cases node.field? "right" <;> rfl

theorem operand_error {e : Engine} {node : Value} {key : String} {f : Failure}
    (h : e.operand node key = .error f) :
    ∃ v, node.field? key = some v ∧ e.valueOf v (.int 0) = .error f := by
  unfold operand at h
  split at h
  · next v hv => exact ⟨v, hv, h⟩
  · cases h

/-- A failure of an expression comes from a variable in it or from an operator. -/
theorem valueOf_error {e : Engine} {node default : Value} {f : Failure}
    (h : e.valueOf node default = .error f) :
    (∃ name v, e.lookup name v = .error f) ∨
      ∃ o left right, operate o left right = .error f := by
  have ih : ∀ key, e.operand node key = .error f → (∃ name v, e.lookup name v = .error f) ∨
      ∃ o left right, operate o left right = .error f := by
    intro key hoperand
    obtain ⟨v, hv, herror⟩ := operand_error hoperand
    exact valueOf_error herror
  by_cases hbinop : Node.typeName node = "binop"
  · rw [valueOf_binop e hbinop] at h
    rcases Result.bind_eq_error h with h | ⟨left, -, h⟩
    · exact ih "left" h
    · rcases Result.bind_eq_error h with h | ⟨right, -, h⟩
      · exact ih "right" h
      · split at h
        · exact .inr ⟨_, left, right, h⟩
        · cases h
  · rw [valueOf] at h
    split at h
    · cases h
    · exact .inl ⟨_, _, h⟩
    · contradiction
    · cases h
termination_by sizeOf node
decreasing_by exact Value.sizeOf_field_lt hv

/-- The value of an expression is never refused for a divisor. -/
theorem valueOf_ne_zeroDivision {e : Engine} {node default : Value} {f : Failure}
    (h : e.valueOf node default = .error f) : f.family ≠ .zeroDivision := by
  rcases valueOf_error h with ⟨_, _, h⟩ | ⟨_, _, _, h⟩
  · rcases lookup_error h with h | h <;> simp [h]
  · rcases operate_error h with h | h | ⟨h, -⟩ <;> simp [h]

/-- What stands on one side of a connective, false if nothing does. -/
def premise (e : Engine) (node : Value) (key : String) : Result Bool :=
  match node.field? key with
  | some v => e.holds v
  | none => .ok false

theorem holds_logical (e : Engine) {node : Value} (h : Node.typeName node = "logical_op") :
    e.holds node = (do
      let left ← e.premise node "left"
      let right ← e.premise node "right"
      match Connective.ofSymbol? (Node.symbol node "and") with
      | some c => return c.apply left right
      | none => return false) := by
  rw [holds, premise, premise]
  simp only [h]
  cases node.field? "left" <;> cases node.field? "right" <;> rfl

theorem holds_unary (e : Engine) {node : Value} (h : Node.typeName node = "unary_op") :
    e.holds node = (do
      let operand ← e.premise node "operand"
      return Node.symbol node "not" == "not" && !operand) := by
  rw [holds, premise]
  simp only [h]
  cases node.field? "operand" <;> rfl

theorem premise_error {e : Engine} {node : Value} {key : String} {f : Failure}
    (h : e.premise node key = .error f) :
    ∃ v, node.field? key = some v ∧ e.holds v = .error f := by
  unfold premise at h
  split at h
  · next v hv => exact ⟨v, hv, h⟩
  · cases h

/-- A failure of a condition comes from a variable in it, from an operator or from a comparison. -/
theorem holds_error {e : Engine} {node : Value} {f : Failure} (h : e.holds node = .error f) :
    (∃ name v, e.lookup name v = .error f) ∨
      (∃ o left right, operate o left right = .error f) ∨
        ∃ r left right, Value.compare r left right = .error f := by
  have hvalue {v default : Value} (h : e.valueOf v default = .error f) :
      (∃ name v, e.lookup name v = .error f) ∨ (∃ o left right, operate o left right = .error f) ∨
        ∃ r left right, Value.compare r left right = .error f :=
    (valueOf_error h).imp_right .inl
  have ih : ∀ key, e.premise node key = .error f → (∃ name v, e.lookup name v = .error f) ∨
      (∃ o left right, operate o left right = .error f) ∨
        ∃ r left right, Value.compare r left right = .error f := by
    intro key hpremise
    obtain ⟨v, hv, herror⟩ := premise_error hpremise
    exact holds_error herror
  by_cases hlogical : Node.typeName node = "logical_op"
  · rw [holds_logical e hlogical] at h
    rcases Result.bind_eq_error h with h | ⟨left, -, h⟩
    · exact ih "left" h
    · rcases Result.bind_eq_error h with h | ⟨right, -, h⟩
      · exact ih "right" h
      · split at h <;> cases h
  · by_cases hunary : Node.typeName node = "unary_op"
    · rw [holds_unary e hunary] at h
      rcases Result.bind_eq_error h with h | ⟨_, -, h⟩
      · exact ih "operand" h
      · cases h
    · rw [holds] at h
      split at h
      · rcases Result.bind_eq_error h with h | ⟨left, -, h⟩
        · exact hvalue h
        · rcases Result.bind_eq_error h with h | ⟨right, -, h⟩
          · exact hvalue h
          · split at h
            · exact .inr (.inr ⟨_, left, right, h⟩)
            · cases h
      · contradiction
      · contradiction
      · cases h
      · rcases Result.bind_eq_error h with h | ⟨_, -, h⟩
        · exact .inl ⟨_, _, h⟩
        · cases h
      · cases h
termination_by sizeOf node
decreasing_by exact Value.sizeOf_field_lt hv

theorem holds_ne_zeroDivision {e : Engine} {node : Value} {f : Failure}
    (h : e.holds node = .error f) : f.family ≠ .zeroDivision := by
  rcases holds_error h with ⟨_, _, h⟩ | ⟨_, _, _, h⟩ | ⟨_, _, _, h⟩
  · rcases lookup_error h with h | h <;> simp [h]
  · rcases operate_error h with h | h | ⟨h, -⟩ <;> simp [h]
  · simp [Value.compare_error h]

end Engine
end TuneScript
