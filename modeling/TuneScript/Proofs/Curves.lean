import TuneScript.Proofs.Overlays
import TuneScript.Proofs.Rounding
import TuneScript.Voice.Wave

/-!
The curves of an envelope around its sustain level. Where the level is a number, each curve has as
many points as it is asked for. The envelopes of both palettes and those of the voices are then
known sample by sample, and so are the lengths of the stages for which there is one.
-/

namespace TuneScript

namespace Wave

theorem length_ramp (a b : Float) (n : Nat) : (ramp a b n).length = n := by
  unfold ramp
  split
  · exact List.length_replicate
  · rw [List.length_append, List.length_map, List.length_range, List.length_singleton]
    omega

theorem allot_ok {measure : String} {n : Nat} (hn : n ≤ capacity) : allot measure n = .ok () := by
  have hcapacity : capacity = 8589934592 := rfl
  rw [allot, if_neg (by omega), if_neg (by omega), if_neg (by omega)]

theorem allot_oversized {measure : String} {n : Nat} (hn : capacity < n) :
    allot measure n ≠ .ok () := by
  rw [allot, if_pos hn]
  split
  · nofun
  · split <;> nofun

end Wave

namespace Operand

variable {v : Value} {m : Number} {s : Float}

theorem length_stretch {α : Type} {k : Nat} {xs : List α} (h : xs.length = k) :
    (stretch k xs).length = k := by
  unfold stretch
  split
  · exact List.length_replicate
  · exact h

/-- The samples times a number are as many samples. -/
theorem product_number (s : Float) (xs : List Float) :
    ∃ ys, (Operand.mk [] (.numbers [s])).product xs = .ok ([xs.length], ys) ∧
      ys.length = xs.length := by
  refine ⟨_, rfl, ?_⟩
  change (List.zipWith (· * ·) (stretch xs.length xs) (List.replicate xs.length s) ++ []).length = _
  rw [List.append_nil, List.length_zipWith, length_stretch rfl, List.length_replicate, Nat.min_self]

theorem number_of_entry? (h : entry? v = some s) :
    isWide v = false ∧ ∃ m, v.number? = some m ∧ m.toFloat = .ok s := by
  unfold entry? at h
  split at h
  · cases h
  · next hwide =>
    obtain ⟨m, hm, hfloat⟩ := Option.bind_eq_some_iff.1 h
    refine ⟨Bool.eq_false_iff.2 hwide, m, hm, ?_⟩
    cases hr : m.toFloat with
    | ok x =>
        rw [hr] at hfloat
        cases hfloat
        rfl
    | error f =>
        rw [hr] at hfloat
        cases hfloat

section Number

variable (hm : v.number? = some m) (hs : m.toFloat = .ok s)

include hm hs

theorem ofValue_number : ofValue v = .ok ⟨[], .numbers [s]⟩ := by
  cases v with
  | bool _ | int _ | float _ | nan _ =>
      cases hm
      exact Result.bind_eq_ok.2 ⟨s, hs, rfl⟩
  | _ => cases hm

theorem written_number : written v = .ok [s] := by
  cases v with
  | bool _ | int _ | float _ | nan _ =>
      cases hm
      exact Result.bind_eq_ok.2 ⟨s, hs, rfl⟩
  | _ => cases hm

theorem ramp_number (hwide : isWide v = false) (first : Bool) (other : Int) (n : Nat) :
    ramp v first other n = .ok (if first then Wave.ramp s (Float.ofInt other) n
      else Wave.ramp (Float.ofInt other) s n) := by
  have hramp : ramp v first other n = .ok ([s].flatMap fun x =>
      if first then Wave.ramp x (Float.ofInt other) n else Wave.ramp (Float.ofInt other) x n) := by
    rw [ramp, hwide, ofValue_number hm hs]
    rfl
  rw [hramp, List.flatMap_singleton]

end Number

end Operand

namespace Synthesizer

variable {palette : Palette} {config level : Value} {s : Float}

theorem amount_number {v : Value} {m : Number} (hm : v.number? = some m) :
    amount v = m.toFloat := by
  rw [amount, hm]

/-- What a level leaves of the whole is a number again. -/
theorem drop_ok {v : Value} {m : Number} (hwide : Operand.isWide v = false)
    (hm : v.number? = some m) : ∃ w x, (Value.int 1).sub v = .ok w ∧ amount w = .ok x := by
  have hsub : (Value.int 1).sub v = ((Number.int 1).sub m).map Number.toValue := by
    rw [Value.sub, Value.onNumbers, hm]
    rfl
  cases m with
  | float y =>
      obtain ⟨one, hone⟩ := Binary.toFloat_ok (n := 1) (by decide)
      have hdrop : (Number.int 1).sub (.float y) = .ok (.float (one - y)) :=
        Result.bind_eq_ok.2 ⟨one, hone, rfl⟩
      rw [hdrop] at hsub
      exact ⟨_, _, hsub, rfl⟩
  | int k =>
      -- A whole level fits a machine word, so the difference is far below the greatest float.
      have hk : -9223372036854775808 ≤ k ∧ k < 18446744073709551616 := by
        cases v with
        | int j =>
            cases hm
            simpa [Operand.isWide, Operand.isWord] using hwide
        | bool b =>
            cases hm
            cases b <;> decide
        | _ => cases hm
      have hlog : (1 - k).natAbs.log2 ≤ 1000 := by
        by_cases hzero : (1 - k).natAbs = 0
        · rw [hzero]
          decide
        · have hlt : (1 - k).natAbs.log2 < 65 := (Nat.log2_lt hzero).2 (by omega)
          omega
      obtain ⟨x, hx⟩ := Binary.toFloat_ok hlog
      exact ⟨.int (1 - k), x, hsub, hx⟩

section Level

variable (hlevel : config.item "sustain" = .ok level) (hs : Operand.entry? level = some s)

include hlevel hs

theorem sustain_stages (palette : Palette) : (stages palette config).sustain = .ok [s] := by
  obtain ⟨-, m, hm, hfloat⟩ := Operand.number_of_entry? hs
  have hwritten := Operand.written_number hm hfloat
  cases palette with
  | soft => exact Result.bind_eq_ok.2 ⟨level, hlevel, hwritten⟩
  | plain => exact Result.bind_eq_ok.2 ⟨level, hlevel, hwritten⟩

theorem plain_decay (k : Nat) : (stages .plain config).decay k = .ok (Wave.ramp 1.0 s k) := by
  obtain ⟨hwide, m, hm, hfloat⟩ := Operand.number_of_entry? hs
  exact Result.bind_eq_ok.2 ⟨level, hlevel, Operand.ramp_number hm hfloat hwide false 1 k⟩

theorem plain_release (k : Nat) : (stages .plain config).release k = .ok (Wave.ramp s 0.0 k) := by
  obtain ⟨hwide, m, hm, hfloat⟩ := Operand.number_of_entry? hs
  exact Result.bind_eq_ok.2 ⟨level, hlevel, Operand.ramp_number hm hfloat hwide true 0 k⟩

/-- With a number for the sustain level the curves of both palettes are whole. -/
theorem full_stages (palette : Palette) : (stages palette config).Full := by
  have hsustain := sustain_stages hlevel hs palette
  cases palette with
  | soft =>
      obtain ⟨hwide, m, hm, hfloat⟩ := Operand.number_of_entry? hs
      obtain ⟨w, drop, hdrop, hamount⟩ := drop_ok hwide hm
      refine ⟨fun k => ?_, fun k => ?_, ⟨s, hsustain⟩, fun k => ?_⟩
      · exact (List.length_map _).trans (Wave.length_ramp _ _ k)
      · exact ⟨_, Result.bind_eq_ok.2 ⟨_, hlevel, Result.bind_eq_ok.2 ⟨_, hdrop,
          Result.bind_eq_ok.2 ⟨_, hamount, Result.bind_eq_ok.2 ⟨_, hlevel,
          Result.bind_eq_ok.2 ⟨_, (amount_number hm).trans hfloat, rfl⟩⟩⟩⟩⟩,
          (List.length_map _).trans (Wave.length_ramp _ _ k)⟩
      · obtain ⟨ys, hproduct, hlength⟩ :=
          Operand.product_number s ((Wave.ramp 0.0 (-4.0) k).map Float.exp)
        refine ⟨ys, Result.bind_eq_ok.2 ⟨_, hlevel, Result.bind_eq_ok.2 ⟨_,
          Operand.ofValue_number hm hfloat, Result.bind_eq_ok.2 ⟨_, hproduct, rfl⟩⟩⟩, ?_⟩
        rw [hlength, List.length_map, Wave.length_ramp]
  | plain =>
      exact ⟨Wave.length_ramp 0.0 1.0,
        fun k => ⟨_, plain_decay hlevel hs k, Wave.length_ramp _ _ k⟩, ⟨s, hsustain⟩,
        fun k => ⟨_, plain_release hlevel hs k, Wave.length_ramp _ _ k⟩⟩

end Level

variable {n : Nat} {xs : List Float}

theorem envelope_eq {a d r : Int} (ha : share n config "attack" = .ok a)
    (hd : share n config "decay" = .ok d) (hr : share n config "release" = .ok r) :
    envelope palette n config = (do
      Wave.allot "dimension" n
      [a, d, r].forM fun k => Wave.allot "size" k.toNat
      (stages palette config).layout n a d r) := by
  rw [envelope, Result.bind_of_ok ha, Result.bind_of_ok hd, Result.bind_of_ok hr,
    if_pos (by omega)]
  rfl

/-- Where there is an envelope there is room for it, and its stages could be laid out. -/
theorem layout_of_envelope (h : envelope palette n config = .ok xs) :
    n ≤ Wave.capacity ∧ ∃ x y z, share n config "attack" = .ok x ∧ share n config "decay" = .ok y ∧
      share n config "release" = .ok z ∧ (stages palette config).layout n x y z = .ok xs := by
  obtain ⟨x, hx, hnext⟩ := Result.bind_eq_ok.1 h
  obtain ⟨y, hy, hnext⟩ := Result.bind_eq_ok.1 hnext
  obtain ⟨z, hz, -⟩ := Result.bind_eq_ok.1 hnext
  rw [envelope_eq hx hy hz] at h
  obtain ⟨⟨⟩, hroom, h⟩ := Result.bind_eq_ok.1 h
  obtain ⟨⟨⟩, -, hlayout⟩ := Result.bind_eq_ok.1 h
  exact ⟨Nat.le_of_not_lt fun hlt => Wave.allot_oversized hlt hroom, x, y, z, hx, hy, hz, hlayout⟩

/-- An envelope is the layout of its stages, as long as there is room for the note. -/
theorem envelope_iff {a d r : Nat} (hfull : (stages palette config).Full)
    (ha : share n config "attack" = .ok a) (hd : share n config "decay" = .ok d)
    (hr : share n config "release" = .ok r) : envelope palette n config = .ok xs ↔
      n ≤ Wave.capacity ∧ (stages palette config).layout n a d r = .ok xs := by
  constructor
  · intro h
    obtain ⟨hn, x, y, z, hx, hy, hz, hlayout⟩ := layout_of_envelope h
    cases ha.symm.trans hx
    cases hd.symm.trans hy
    cases hr.symm.trans hz
    exact ⟨hn, hlayout⟩
  · rintro ⟨hn, hlayout⟩
    obtain ⟨hattack, hdecay, hrelease⟩ := hfull.layout_iff.1 ⟨xs, hlayout⟩
    have hcapacity : Wave.capacity = 8589934592 := rfl
    have hallot : ([(a : Int), d, r].forM fun k => Wave.allot "size" k.toNat) = .ok () := by
      have hsize {k : Nat} (hk : k ≤ Wave.capacity) : Wave.allot "size" k = .ok () :=
        Wave.allot_ok hk
      change (do Wave.allot "size" a; Wave.allot "size" d; Wave.allot "size" r; pure ()) = _
      rw [hsize (by omega), hsize (by omega), hsize (by omega)]
      rfl
    rw [envelope_eq ha hd hr, Result.bind_of_ok (Wave.allot_ok hn), Result.bind_of_ok hallot]
    exact hlayout

/-- The envelope of a note with `a`, `d` and `r` points for attack, decay and release. There is one
if each stage has room in the note or a single point. When attack and decay fit one after the
other and the release fits too, the release lies over the other two, and the sustain level is what
none of them covers. -/
theorem envelope_layout (palette : Palette) {config level : Value} {s : Float}
    (hlevel : config.item "sustain" = .ok level) (hs : Operand.entry? level = some s)
    (n a d r : Nat) :
    ((∃ xs, (stages palette config).layout n a d r = .ok xs) ↔
      (a ≤ n ∨ a = 1) ∧ (d ≤ 1 ∨ a + d ≤ n) ∧ (r ≤ n ∨ r = 1)) ∧
    (a + d ≤ n → r ≤ n → ∃ xs decay release,
      (stages palette config).layout n a d r = .ok xs ∧ xs.length = n ∧
      ((stages palette config).attack a).length = a ∧
      (stages palette config).decay d = .ok decay ∧ decay.length = d ∧
      (stages palette config).release r = .ok release ∧ release.length = r ∧
      ∀ i < n, xs[i]? =
        if n - r ≤ i then release[i - (n - r)]?
        else if i < a then ((stages palette config).attack a)[i]?
        else if i < a + d then decay[i - a]?
        else some s) ∧
    (share n config "attack" = .ok a → share n config "decay" = .ok d →
      share n config "release" = .ok r → ∀ xs, envelope palette n config = .ok xs ↔
        n ≤ Wave.capacity ∧ (stages palette config).layout n a d r = .ok xs) := by
  have hfull := full_stages hlevel hs palette
  refine ⟨hfull.layout_iff, fun hfirst hlast => ?_, fun ha hd hr xs => envelope_iff hfull ha hd hr⟩
  obtain ⟨decay, hdecay, hdecaying⟩ := hfull.decay d
  obtain ⟨release, hrelease, hreleasing⟩ := hfull.release r
  obtain ⟨xs, hxs, hlength, hvalues⟩ := Stages.getElem?_layout (hfull.attack a) hdecay hdecaying
    (sustain_stages hlevel hs palette) hrelease hreleasing hfirst hlast
  exact ⟨xs, decay, release, hxs, hlength, hfull.attack a, hdecay, hdecaying, hrelease, hreleasing,
    hvalues⟩

/-- Ten samples of the violin: the sustain stands for two of them. A note of two samples has no room
for a release of three, but a note without samples has an envelope with single points. -/
theorem envelope_layout_violin :
    ∃ config, Presets.soft.lookup "violin" = some config ∧
      (∃ xs decay release, envelope .soft 10 config = .ok xs ∧ xs.length = 10 ∧
        (stages .soft config).decay 3 = .ok decay ∧ (stages .soft config).release 4 = .ok release ∧
        xs[3]? = decay[2]? ∧ xs[4]? = some 0.65 ∧ xs[5]? = some 0.65 ∧ xs[9]? = release[3]?) ∧
      (¬∃ xs, (stages .soft config).layout 2 0 0 3 = .ok xs) ∧
      ∃ xs, (stages .soft config).layout 0 1 1 1 = .ok xs := by
  obtain ⟨config, hconfig, hlevel, ha, hd, hr⟩ : ∃ config, Presets.soft.lookup "violin" =
      some config ∧ config.item "sustain" = .ok (.float 0.65) ∧ share 10 config "attack" = .ok 1 ∧
      share 10 config "decay" = .ok 3 ∧ share 10 config "release" = .ok 4 :=
    ⟨_, rfl, rfl, rfl, rfl, rfl⟩
  refine ⟨config, hconfig, ?_, ?_, ?_⟩
  · obtain ⟨-, hlayout, henvelope⟩ := envelope_layout .soft hlevel rfl 10 1 3 4
    obtain ⟨xs, decay, release, hxs, hlength, -, hdecay, -, hrelease, -, hvalues⟩ :=
      hlayout (by decide) (by decide)
    exact ⟨xs, decay, release, (henvelope ha hd hr xs).2 ⟨by decide, hxs⟩, hlength, hdecay,
      hrelease, hvalues 3 (by decide), hvalues 4 (by decide), hvalues 5 (by decide),
      hvalues 9 (by decide)⟩
  · exact fun h => absurd ((envelope_layout .soft hlevel rfl 2 0 0 3).1.1 h) (by decide)
  · exact (envelope_layout .soft hlevel rfl 0 1 1 1).1.2 (by decide)

end Synthesizer

namespace Voice

variable {config level : Value} {s : Float}

theorem envelope_eq {rate : Int} {duration : Value} {n : Nat} {a d r : Int}
    (hn : sampleCount rate duration = .ok n) (ha : stageLength rate config "attack" = .ok a)
    (hd : stageLength rate config "decay" = .ok d)
    (hr : stageLength rate config "release" = .ok r) :
    envelope rate duration config = (do
      Wave.allot "dimension" n
      (stages config).layoutWithin n a d r) := by
  rw [envelope, Result.bind_of_ok hn, if_neg (by omega), ha, hd, hr]
  rfl

/-- The envelope of a voice is there for stages of any lengths. Attack and decay are left out where
the note ends with them or before, and the release takes what the sustain leaves. -/
theorem envelope_within (hlevel : config.item "sustain" = .ok level)
    (hs : Operand.entry? level = some s) (n a d r : Nat) :
    ∃ xs, (stages config).layoutWithin n a d r = .ok xs ∧ xs.length = n ∧
      (∀ i < n, xs[i]? =
        if a + d ≤ i then
          if i < max (a + d) (n - r) then some s
          else (Wave.ramp s 0.0 (n - max (a + d) (n - r)))[i - max (a + d) (n - r)]?
        else if a ≤ i then if a + d < n then (Wave.ramp 1.0 s d)[i - a]? else some 1.0
        else if a < n then (Wave.ramp 0.0 1.0 a)[i]? else some 1.0) ∧
      ∀ rate duration, sampleCount rate duration = .ok n →
        stageLength rate config "attack" = .ok a → stageLength rate config "decay" = .ok d →
        stageLength rate config "release" = .ok r →
          envelope rate duration config = (do Wave.allot "dimension" n; return xs) := by
  have hattack : ((stages config).attack a).length = a := Wave.length_ramp 0.0 1.0 a
  have hdecay : (stages config).decay d = .ok (Wave.ramp 1.0 s d) :=
    Synthesizer.plain_decay hlevel hs d
  have hsustain : (stages config).sustain = .ok [s] := Synthesizer.sustain_stages hlevel hs .plain
  have hrelease (k : Nat) : (stages config).release k = .ok (Wave.ramp s 0.0 k) :=
    Synthesizer.plain_release hlevel hs k
  obtain ⟨xs, hxs, hlength, hvalues⟩ := Stages.getElem?_layoutWithin hattack hdecay
    (Wave.length_ramp 1.0 s d) hsustain (hrelease (n - max (a + d) (n - r)))
    (Wave.length_ramp s 0.0 _)
  refine ⟨xs, hxs, hlength, hvalues, fun rate duration hn ha hd hr => ?_⟩
  rw [envelope_eq hn ha hd hr, hxs]
  rfl

/-- A second of the piano at eight samples: the release would take nine and starts after the
decay. -/
theorem envelope_within_piano :
    ∃ xs, envelope 8 (.int 1) (preset .piano).toValue = .ok xs ∧ xs.length = 8 ∧
      xs[0]? = some 1.0 ∧ xs[1]? = some 0.4 ∧ xs[2]? = some 0.4 ∧ xs[7]? = some 0.0 := by
  have hlevel : (preset .piano).toValue.item "sustain" = .ok (.float 0.4) := rfl
  obtain ⟨xs, -, hlength, hvalues, henvelope⟩ := envelope_within hlevel rfl 8 0 2 9
  exact ⟨xs, henvelope 8 (.int 1) rfl rfl rfl rfl, hlength, hvalues 0 (by decide),
    hvalues 1 (by decide), hvalues 2 (by decide), hvalues 7 (by decide)⟩

end Voice
end TuneScript
