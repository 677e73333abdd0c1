import TuneScript.Proofs.Curves

/-!
Envelopes of any number of samples. Stages that fit into a note give an envelope as long as the
note. The stages of an instrument are shares of its notes, so that they fit is a matter of the
shares and of the rounding. A release that is longer than the note would have to start before it,
and there is no envelope; the guitar of the soft palette has such a release.
-/

namespace TuneScript

namespace Binary

/-- How often the least float goes into one. -/
def unitsOfOne : Nat := 2 ^ (-minExponent).toNat

theorem unitsOfOne_pos : 0 < unitsOfOne := Nat.two_pow_pos _

/-- How often the least float goes into a share. -/
def units? (x : Float) : Option Nat :=
  match ofFloat x with
  | finite false m e =>
    if 2 ^ 52 ≤ m ∧ m < 2 ^ 53 ∧ minExponent ≤ e ∧ e ≤ -52 then
      some (m * 2 ^ (e - minExponent).toNat)
    else none
  | _ => none

theorem isShare_of_units? {x : Float} {u : Nat} (h : units? x = some u) :
    ∃ m e, IsShare x m e ∧ (m : ℚ) * 2 ^ e = u / unitsOfOne := by
  unfold units? at h
  split at h
  · next m e hx =>
    split at h
    · next hbounds =>
      obtain ⟨hlow, hhigh, hleast, hmost⟩ := hbounds
      cases h
      refine ⟨m, e, ⟨hx, hlow, hhigh, hleast, hmost⟩, ?_⟩
      have hmin : minExponent = -1074 := rfl
      have hshift : e = ((e - minExponent).toNat : Int) + -((-minExponent).toNat : Int) := by omega
      have hpow : (2 : ℚ) ^ e = 2 ^ (e - minExponent).toNat / unitsOfOne := by
        conv_lhs => rw [hshift]
        rw [zpow_add₀ two_ne_zero, zpow_neg, zpow_natCast, zpow_natCast, div_eq_mul_inv, unitsOfOne,
          Nat.cast_pow, Nat.cast_ofNat]
      rw [hpow, Nat.cast_mul, Nat.cast_pow, Nat.cast_ofNat, mul_div_assoc]
    · cases h
  · cases h

end Binary

namespace Synthesizer

/-- A part of a configuration that is a number. -/
def number? (config : Value) (key : String) : Option Float :=
  match config.item key with
  | .ok (.float x) => some x
  | _ => none

theorem item_of_number? {config : Value} {key : String} {x : Float}
    (h : number? config key = some x) : config.item key = .ok (.float x) := by
  unfold number? at h
  split at h
  · next hitem =>
    cases h
    exact hitem
  · cases h

/-- A stage of a configuration as a number of least floats. -/
def stage? (config : Value) (key : String) : Option Nat := (number? config key).bind Binary.units?

variable {config : Value} {key : String} {n : Nat}

theorem log2_of_le_capacity (hn : n ≤ Wave.capacity) : n.log2 ≤ 33 := by
  by_cases hzero : n = 0
  · rw [hzero]
    decide
  · have hcapacity : Wave.capacity = 2 ^ 33 := rfl
    have hlt : n.log2 < 34 := (Nat.log2_lt hzero).2 (by omega)
    omega

/-- The points of a stage, up to the rounding. -/
theorem share_near {u : Nat} (h : stage? config key = some u) (hn : n ≤ Wave.capacity) :
    ∃ k : Nat, share n config key = .ok k ∧ (k : ℚ) ≤ n * (u / Binary.unitsOfOne) + 1 / 4 ∧
      n * (u / Binary.unitsOfOne) < (k : ℚ) + 1 + 1 / 4 := by
  obtain ⟨x, hx, hunits⟩ := Option.bind_eq_some_iff.1 h
  obtain ⟨m, e, hshare, hvalue⟩ := Binary.isShare_of_units? hunits
  obtain ⟨k, hk, hbounds⟩ := hshare.toInt_mul (log2_of_le_capacity hn)
  rw [hvalue] at hbounds
  exact ⟨k, Result.bind_eq_ok.2 ⟨_, item_of_number? hx, hk⟩, hbounds⟩

theorem share_zero {u : Nat} (h : stage? config key = some u) :
    share (0 : Nat) config key = .ok (0 : Nat) := by
  obtain ⟨k, hk, hle, -⟩ := share_near h (Nat.zero_le Wave.capacity)
  have hzero : k < 1 := by
    have hlt : (k : ℚ) < 1 := by
      rw [Nat.cast_zero, zero_mul] at hle
      linarith
    exact_mod_cast hlt
  rw [hk, Nat.lt_one_iff.1 hzero]

/-- A configuration of the soft palette that gives its stages as shares. -/
structure Shaped (config : Value) (a d r : Nat) : Prop where
  attack : stage? config "attack" = some a
  decay : stage? config "decay" = some d
  sustain : (number? config "sustain").isSome = true
  release : stage? config "release" = some r

namespace Shaped

variable {a d r : Nat}

theorem full (h : Shaped config a d r) : (stages .soft config).Full := by
  obtain ⟨s, hs⟩ := Option.isSome_iff_exists.1 h.sustain
  exact full_stages (item_of_number? hs) rfl .soft

/-- Stages that fit into a note give it an envelope. -/
theorem envelope_fitting (h : Shaped config a d r) {x y z : Nat} (hn : n ≤ Wave.capacity)
    (ha : share n config "attack" = .ok x) (hd : share n config "decay" = .ok y)
    (hr : share n config "release" = .ok z) (hxy : x + y ≤ n) (hz : z ≤ n) :
    ∃ xs, envelope .soft n config = .ok xs ∧ xs.length = n := by
  obtain ⟨xs, hxs⟩ := h.full.layout_ok (n := n) (.inl (by omega)) (.inr hxy) (.inl hz)
  exact ⟨xs, (envelope_iff h.full ha hd hr).2 ⟨hn, hxs⟩, Stages.length_layout hxs⟩

theorem share_le_whole {u : Nat} (hu : u ≤ Binary.unitsOfOne) :
    (n : ℚ) * (u / Binary.unitsOfOne) ≤ n := by
  have hle : (u : ℚ) / Binary.unitsOfOne ≤ 1 :=
    div_le_one_of_le₀ (Nat.cast_le.2 hu) (Nat.cast_nonneg _)
  exact mul_le_of_le_one_right (Nat.cast_nonneg n) hle

/-- Shares that are no more than the whole give an envelope for every note. -/
theorem envelope_ok (h : Shaped config a d r) (hfirst : a + d ≤ Binary.unitsOfOne)
    (hlast : r ≤ Binary.unitsOfOne) (hn : n ≤ Wave.capacity) :
    ∃ xs, envelope .soft n config = .ok xs ∧ xs.length = n := by
  obtain ⟨x, ha, hax, -⟩ := share_near h.attack hn
  obtain ⟨y, hd, hdy, -⟩ := share_near h.decay hn
  obtain ⟨z, hr, hrz, -⟩ := share_near h.release hn
  have hwhole : (n : ℚ) * (a / Binary.unitsOfOne) + n * (d / Binary.unitsOfOne) ≤ n := by
    rw [← mul_add, ← add_div, ← Nat.cast_add]
    exact share_le_whole hfirst
  have hrelease : (n : ℚ) * (r / Binary.unitsOfOne) ≤ n := share_le_whole hlast
  have hxy : x + y < n + 1 := by
    have hlt : (x : ℚ) + y < n + 1 := by linarith
    exact_mod_cast hlt
  have hz : z < n + 1 := by
    have hlt : (z : ℚ) < n + 1 := by linarith
    exact_mod_cast hlt
  exact h.envelope_fitting hn ha hd hr (by omega) (by omega)

end Shaped

/-- A release that is longer than the note leaves it without an envelope. -/
theorem Shaped.envelope_long {a d r z : Nat} (h : Shaped config a d r)
    (hz : share n config "release" = .ok z) (hlong : n < z) (htwo : 2 ≤ z) {xs : List Float} :
    envelope .soft n config ≠ .ok xs := by
  intro henvelope
  have hn := (layout_of_envelope henvelope).1
  obtain ⟨x, hx, -⟩ := share_near h.attack hn
  obtain ⟨y, hy, -⟩ := share_near h.decay hn
  obtain ⟨-, hlayout⟩ := (envelope_iff h.full hx hy hz).1 henvelope
  obtain ⟨-, -, hfits⟩ := h.full.layout_iff.1 ⟨xs, hlayout⟩
  omega

theorem soft_shares : Presets.soft.all (fun p => (stage? p.2 "attack").isSome &&
    (stage? p.2 "decay").isSome && (number? p.2 "sustain").isSome &&
    (stage? p.2 "release").isSome) = true := by
  decide +kernel

theorem soft_fitting : Presets.soft.all (fun p => p.1 == "guitar" ||
    decide ((stage? p.2 "attack").getD 0 + (stage? p.2 "decay").getD 0 ≤ Binary.unitsOfOne) &&
    decide ((stage? p.2 "release").getD 0 ≤ Binary.unitsOfOne)) = true := by
  decide +kernel

theorem guitar_shares : Presets.soft.all (fun p => p.1 != "guitar" ||
    decide (3 * Binary.unitsOfOne ≤ 2 * (stage? p.2 "release").getD 0) &&
    (share 1 p.2 "attack").toOption == some 0 && (share 1 p.2 "decay").toOption == some 1 &&
    (share 1 p.2 "release").toOption == some 1 && (share 2 p.2 "release").toOption == some 3) =
      true := by
  decide +kernel

theorem shaped_of_mem {p : String × Value} (hp : p ∈ Presets.soft) :
    Shaped p.2 ((stage? p.2 "attack").getD 0) ((stage? p.2 "decay").getD 0)
      ((stage? p.2 "release").getD 0) := by
  have hstages := List.all_eq_true.1 soft_shares p hp
  simp only [Bool.and_eq_true] at hstages
  obtain ⟨⟨⟨hattack, hdecay⟩, hsustain⟩, hrelease⟩ := hstages
  have hsome {o : Option Nat} (h : o.isSome = true) : o = some (o.getD 0) := by
    obtain ⟨u, rfl⟩ := Option.isSome_iff_exists.1 h
    rfl
  exact ⟨hsome hattack, hsome hdecay, hsustain, hsome hrelease⟩

theorem eq_ok_of_toOption {r : Result Int} {k : Int} (h : (r.toOption == some k) = true) :
    r = .ok k := by
  cases r with
  | error f => cases h
  | ok j =>
      have hj : j = k := by simpa [Except.toOption] using h
      rw [hj]

/-- One and a half times the note is longer than it, rounded or not. -/
theorem lt_share {u z : Nat} (hu : 3 * Binary.unitsOfOne ≤ 2 * u) (hn : 3 ≤ n)
    (hz : n * (u / Binary.unitsOfOne) < (z : ℚ) + 1 + 1 / 4) : n < z := by
  have hpos : (0 : ℚ) < Binary.unitsOfOne := Nat.cast_pos.2 Binary.unitsOfOne_pos
  have hhalf : (3 / 2 : ℚ) ≤ u / Binary.unitsOfOne := by
    have hcast : (3 : ℚ) * Binary.unitsOfOne ≤ 2 * u := by exact_mod_cast hu
    rw [le_div_iff₀ hpos]
    linarith
  have hshare : (n : ℚ) * (3 / 2) ≤ n * (u / Binary.unitsOfOne) :=
    mul_le_mul_of_nonneg_left hhalf (Nat.cast_nonneg n)
  have hthree : (3 : ℚ) ≤ n := by exact_mod_cast hn
  have hlt : (n : ℚ) < z := by linarith
  exact_mod_cast hlt

/-- A guitar has its envelope as long as there is no second sample. -/
theorem guitar_envelope {p : String × Value} (hp : p ∈ Presets.soft) (hname : p.1 = "guitar")
    (hn : n ≤ Wave.capacity) :
    (∃ xs, envelope .soft n p.2 = .ok xs ∧ xs.length = n) ↔ n ≤ 1 := by
  have hshaped := shaped_of_mem hp
  have hguitar := List.all_eq_true.1 guitar_shares p hp
  simp only [hname, bne_self_eq_false, Bool.false_or, Bool.and_eq_true,
    decide_eq_true_eq] at hguitar
  obtain ⟨⟨⟨⟨hunits, hattack⟩, hdecay⟩, hrelease⟩, hsecond⟩ := hguitar
  constructor
  · rintro ⟨xs, hxs, -⟩
    by_contra hmany
    obtain ⟨z, hz, -, hlt⟩ := share_near hshaped.release hn
    have hlong : n < z := by
      by_cases hthree : 3 ≤ n
      · exact lt_share hunits hthree hlt
      · obtain rfl : n = 2 := by omega
        cases hz.symm.trans (eq_ok_of_toOption hsecond)
        decide
    exact hshaped.envelope_long hz hlong (by omega) hxs
  · intro hone
    obtain ⟨x, y, z, hx, hy, hz, hxy, hzn⟩ : ∃ x y z : Nat, share n p.2 "attack" = .ok x ∧
        share n p.2 "decay" = .ok y ∧ share n p.2 "release" = .ok z ∧ x + y ≤ n ∧ z ≤ n := by
      by_cases hzero : n = 0
      · rw [hzero]
        exact ⟨0, 0, 0, share_zero hshaped.attack, share_zero hshaped.decay,
          share_zero hshaped.release, Nat.le_refl 0, Nat.le_refl 0⟩
      · obtain rfl : n = 1 := by omega
        exact ⟨0, 1, 1, eq_ok_of_toOption hattack, eq_ok_of_toOption hdecay,
          eq_ok_of_toOption hrelease, Nat.le_refl 1, Nat.le_refl 1⟩
    exact hshaped.envelope_fitting hn hx hy hz hxy hzn

/-- Every instrument of the soft palette has its envelope for every number of samples for which
there is room, except the guitar from the second sample on. -/
theorem soft_envelope {p : String × Value} (hp : p ∈ Presets.soft) (n : Nat) :
    (∃ xs, envelope .soft n p.2 = .ok xs ∧ xs.length = n) ↔
      n ≤ Wave.capacity ∧ (p.1 = "guitar" → n ≤ 1) := by
  by_cases hn : n ≤ Wave.capacity
  · rw [and_iff_right hn]
    by_cases hname : p.1 = "guitar"
    · rw [guitar_envelope hp hname hn, imp_iff_right hname]
    · have hfitting := List.all_eq_true.1 soft_fitting p hp
      simp only [Bool.or_eq_true, beq_iff_eq, hname, false_or, Bool.and_eq_true,
        decide_eq_true_eq] at hfitting
      exact iff_of_true ((shaped_of_mem hp).envelope_ok hfitting.1 hfitting.2 hn)
        fun h => absurd h hname
  · refine iff_of_false ?_ fun h => hn h.1
    rintro ⟨xs, hxs, -⟩
    exact hn (layout_of_envelope hxs).1

end Synthesizer

end TuneScript
