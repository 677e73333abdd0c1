import TuneScript.Proofs.Agreement
import TuneScript.Proofs.Envelopes
import TuneScript.Proofs.Histories

/-!
Notes of the soft palette that are heard. Everything that goes into the wave of a note can be
computed for the instruments of the palette, and only the envelope can be missing. So a note whose
instrument has an envelope for its length sounds and stands in the track, and any other note does
neither: its failure is printed, and the engine stays as it was.
-/

namespace TuneScript

namespace Operand

variable (x : Float) (n : Nat)

theorem strength_float (operation : String) :
    ∃ f, strength operation n (.float x) = .ok f := by
  refine ⟨(Operand.mk [] (.numbers [x])).each, ?_⟩
  change (if [n] = [n] then Except.ok (Operand.mk [] (.numbers [x])).each else _) = _
  exact if_pos rfl

theorem factor_float : ∃ f, factor n (.float x) = .ok f := by
  refine ⟨(Operand.mk [] (.numbers [x])).each, ?_⟩
  change (if [n] = [n] then Except.ok (Operand.mk [] (.numbers [x])).each else _) = _
  exact if_pos rfl

end Operand

namespace Synthesizer

def isNumber : Value → Bool
  | .float _ => true
  | _ => false

def areNumbers : Value → Bool
  | .list items => items.all isNumber
  | _ => false

/-- A configuration in which everything that colours a tone is a number. -/
def coloured? (config : Value) : Bool :=
  (config.item "waveform").toOption.isSome &&
  (config.field? "harmonics").all areNumbers &&
  (config.field? "vibrato").all (fun v =>
    (number? v "rate").isSome && (number? v "depth").isSome) &&
  (config.field? "breath").all (fun v => (number? v "noise").isSome) &&
  (config.field? "volume_scale").all isNumber

theorem soft_coloured : Presets.soft.all (fun p => coloured? p.2) = true := by
  decide +kernel

theorem eq_float_of_isNumber {v : Value} (h : isNumber v = true) : ∃ x, v = .float x := by
  cases v with
  | float x => exact ⟨x, rfl⟩
  | _ => cases h

theorem overtonesFrom_ok (frequency : Float) {items : List Value}
    (h : items.all isNumber = true) (multiple : Nat) :
    ∃ overtones, overtonesFrom .soft (.float frequency) multiple items = .ok overtones := by
  induction items generalizing multiple with
  | nil => exact ⟨[], rfl⟩
  | cons v rest ih =>
      rw [List.all_cons, Bool.and_eq_true] at h
      obtain ⟨x, rfl⟩ := eq_float_of_isNumber h.1
      obtain ⟨others, hothers⟩ := ih h.2 (multiple + 1)
      have hrelated : Value.related .gt (.float x) (.int 0) =
          .ok (((Number.float x).compare? (.int 0)).any Relation.gt.holds) := by
        rw [Value.related]
        · rfl
        · intro a b h
          cases h
        · intro a b h
          cases h
      rw [overtonesFrom, hrelated]
      cases ((Number.float x).compare? (.int 0)).any Relation.gt.holds with
      | false => exact ⟨others, hothers⟩
      | true => exact ⟨_, Result.bind_eq_ok.2 ⟨_, rfl, Result.bind_eq_ok.2 ⟨_, rfl,
          Result.bind_eq_ok.2 ⟨_, rfl, Result.bind_eq_ok.2 ⟨_, rfl,
          Result.bind_eq_ok.2 ⟨_, hothers, rfl⟩⟩⟩⟩⟩⟩

theorem tuned_ok (form : Waveform) (n : Nat) (frequency : Float) :
    ∃ f, tuned form n (.float frequency) = .ok f := by
  have hsawtooth : ∃ f, tuned .sawtooth n (.float frequency) = .ok f := by
    refine ⟨(Operand.mk [] (.numbers [frequency])).each, ?_⟩
    change (if [n] = [n] then Except.ok (Operand.mk [] (.numbers [frequency])).each else _) = _
    exact if_pos rfl
  cases form with
  | sawtooth | pluckedSawtooth => exact hsawtooth
  | _ => exact ⟨_, rfl⟩

section Colours

variable {config : Value} (h : coloured? config = true)

include h

theorem overtones_ok (frequency : Float) :
    ∃ os, overtones .soft (.float frequency) config = .ok os := by
  simp only [coloured?, Bool.and_eq_true] at h
  obtain ⟨⟨⟨⟨-, hharmonics⟩, -⟩, -⟩, -⟩ := h
  rw [overtones]
  cases hfield : config.field? "harmonics" with
  | none => exact ⟨[], rfl⟩
  | some v =>
      rw [hfield, Option.all_some] at hharmonics
      cases v with
      | list items =>
          have hlater : (items.drop 1).all isNumber = true :=
            List.all_eq_true.2 fun v hv =>
              List.all_eq_true.1 hharmonics v (List.mem_of_mem_drop hv)
          exact overtonesFrom_ok frequency hlater 2
      | _ => cases hharmonics

theorem vibrato?_ok (n : Nat) : ∃ v, vibrato? .soft n config = .ok v := by
  simp only [coloured?, Bool.and_eq_true] at h
  obtain ⟨⟨⟨-, hvibrato⟩, -⟩, -⟩ := h
  rw [vibrato?]
  cases hfield : config.field? "vibrato" with
  | none => exact ⟨none, rfl⟩
  | some v =>
      rw [hfield, Option.all_some, Bool.and_eq_true] at hvibrato
      obtain ⟨rate, hrate⟩ := Option.isSome_iff_exists.1 hvibrato.1
      obtain ⟨depth, hdepth⟩ := Option.isSome_iff_exists.1 hvibrato.2
      obtain ⟨f, hf⟩ := Operand.strength_float (depth * 0.7) n "multiply"
      exact ⟨_, Result.bind_eq_ok.2 ⟨_, item_of_number? hrate, Result.bind_eq_ok.2 ⟨_,
        item_of_number? hdepth, Result.bind_eq_ok.2 ⟨_, rfl, Result.bind_eq_ok.2 ⟨_, rfl,
        Result.bind_eq_ok.2 ⟨_, rfl, Result.bind_eq_ok.2 ⟨_, hf, rfl⟩⟩⟩⟩⟩⟩⟩

theorem breath?_ok (n : Nat) : ∃ b, breath? .soft n config = .ok b := by
  simp only [coloured?, Bool.and_eq_true] at h
  obtain ⟨⟨-, hbreath⟩, -⟩ := h
  rw [breath?]
  cases hfield : config.field? "breath" with
  | none => exact ⟨none, rfl⟩
  | some v =>
      rw [hfield, Option.all_some] at hbreath
      obtain ⟨noise, hnoise⟩ := Option.isSome_iff_exists.1 hbreath
      obtain ⟨f, hf⟩ := Operand.strength_float (noise * 0.5) n "add"
      exact ⟨_, Result.bind_eq_ok.2 ⟨_, item_of_number? hnoise, Result.bind_eq_ok.2 ⟨_, rfl,
        Result.bind_eq_ok.2 ⟨_, hf, rfl⟩⟩⟩⟩

theorem level_ok (n : Nat) : ∃ f, level .soft n config = .ok f := by
  simp only [coloured?, Bool.and_eq_true] at h
  rw [level]
  cases hfield : config.field? "volume_scale" with
  | none => exact Operand.factor_float 0.5 n
  | some v =>
      rw [hfield, Option.all_some] at h
      obtain ⟨x, rfl⟩ := eq_float_of_isNumber h.2
      exact Operand.factor_float x n

end Colours

/-- The synthesizer of the engines of the soft palette. -/
def standard : Synthesizer := ofPalette .soft standardRate

/-- How many samples a duration takes. -/
def samples (s : Synthesizer) (duration : Value) : Result Int := do
  (← (Value.int s.rate).mul duration).toInt

theorem config_soft {p : String × Value} (hp : p ∈ Presets.soft) :
    standard.config (.text p.1) = .ok p.2 := by
  have hlookup : Presets.soft.lookup p.1 = some p.2 := by
    fin_cases hp <;> rfl
  change Except.ok ((Presets.soft.lookup p.1).getD _) = _
  rw [hlookup]
  rfl

theorem toFloat_of_le_capacity {n : Nat} (hn : n ≤ Wave.capacity) :
    ∃ x, (Number.int n).toFloat = .ok x := by
  by_cases hzero : n = 0
  · rw [hzero]
    exact ⟨_, rfl⟩
  · have hlog := log2_of_le_capacity hn
    exact ⟨_, Binary.toFloat_whole (by omega) (by omega)⟩

/-- A number of seconds that takes samples for which there is room has a float. -/
theorem seconds_ok {duration : Value} {m : Number} {n : Nat} (hm : duration.number? = some m)
    (hsamples : standard.samples duration = .ok n) (hn : n ≤ Wave.capacity) :
    ∃ x, m.toFloat = .ok x ∧ Operand.span n duration = .ok x := by
  have hroom : Wave.allot "size" (n : Int).toNat = .ok () := Wave.allot_ok hn
  cases duration with
  | null | text _ | list _ | record _ => cases hm
  | float x | nan x =>
      cases hm
      refine ⟨_, rfl, ?_⟩
      rw [Operand.span, if_neg (by omega), hroom]
      rfl
  | bool b =>
      cases hm
      obtain ⟨x, hx⟩ : ∃ x, (Number.int (if b then 1 else 0)).toFloat = .ok x := by
        cases b with
        | false => exact toFloat_of_le_capacity (Nat.zero_le _)
        | true => exact toFloat_of_le_capacity (n := 1) (by decide)
      refine ⟨x, hx, ?_⟩
      rw [Operand.span, if_neg (by omega), hroom]
      exact hx
  | int k =>
      cases hm
      have hk : 44100 * k = n := Except.ok.inj hsamples
      obtain ⟨j, rfl⟩ := Int.eq_ofNat_of_zero_le (a := k) (by omega)
      have hj : j ≤ Wave.capacity := by omega
      obtain ⟨x, hx⟩ := toFloat_of_le_capacity hj
      have hwide : Operand.isWide (.int j) = false := by
        have hcapacity : Wave.capacity = 8589934592 := rfl
        simp only [Operand.isWide, Operand.isWord, Bool.not_eq_false', Bool.and_eq_true,
          decide_eq_true_eq]
        omega
      refine ⟨x, hx, ?_⟩
      rw [Operand.span, if_neg (by omega), hwide, hroom]
      exact hx

section Waves

variable {p : String × Value} (hp : p ∈ Presets.soft) {duration : Value} {n : Nat}
  (hsamples : standard.samples duration = .ok n) (frequency : Float)

include hp hsamples

/-- Where there is an envelope there is a wave. -/
theorem wave_ok {m : Number} (hm : duration.number? = some m) {xs : List Float}
    (henvelope : envelope .soft n p.2 = .ok xs) (hlength : xs.length = n) :
    ∃ w, standard.wave (.float frequency) duration (.text p.1) = .ok w ∧ w.size = n := by
  have hcoloured := List.all_eq_true.1 soft_coloured p hp
  obtain ⟨v, hv, hn⟩ := Result.bind_eq_ok.1 hsamples
  obtain ⟨x, -, hspan⟩ := seconds_ok hm hsamples (layout_of_envelope henvelope).1
  obtain ⟨form, hform⟩ : ∃ form, p.2.item "waveform" = .ok form := by
    simp only [coloured?, Bool.and_eq_true] at hcoloured
    obtain ⟨⟨⟨⟨hwaveform, -⟩, -⟩, -⟩, -⟩ := hcoloured
    cases h : p.2.item "waveform" with
    | ok form => exact ⟨form, rfl⟩
    | error f =>
        rw [h] at hwaveform
        cases hwaveform
  obtain ⟨os, hos⟩ := overtones_ok hcoloured frequency
  obtain ⟨vibrato, hvibrato⟩ := vibrato?_ok hcoloured n
  obtain ⟨breath, hbreath⟩ := breath?_ok hcoloured n
  obtain ⟨f, hlevel⟩ := level_ok hcoloured n
  choose tune htune using fun form => tuned_ok form n frequency
  refine ⟨_, Result.bind_eq_ok.2 ⟨_, config_soft hp, Result.bind_eq_ok.2 ⟨_, hv,
    Result.bind_eq_ok.2 ⟨_, hn, Result.bind_eq_ok.2 ⟨_, hspan, Result.bind_eq_ok.2 ⟨_, hform,
    Result.bind_eq_ok.2 ⟨_, htune _, Result.bind_eq_ok.2 ⟨_, hos, Result.bind_eq_ok.2 ⟨_, hvibrato,
    Result.bind_eq_ok.2 ⟨_, hbreath, Result.bind_eq_ok.2 ⟨_, henvelope,
    Result.bind_eq_ok.2 ⟨_, hlevel, rfl⟩⟩⟩⟩⟩⟩⟩⟩⟩⟩⟩, ?_⟩
  rw [Array.size_mapIdx, Array.size_zipWith, Wave.sample, Array.size_ofFn, List.size_toArray,
    hlength]
  exact Nat.min_self n

/-- Where there is a wave there is an envelope. -/
theorem envelope_of_wave {w : Wave}
    (h : standard.wave (.float frequency) duration (.text p.1) = .ok w) :
    ∃ xs, envelope .soft n p.2 = .ok xs ∧ xs.length = n := by
  obtain ⟨v, hv, hn⟩ := Result.bind_eq_ok.1 hsamples
  obtain ⟨config, hconfig, h⟩ := Result.bind_eq_ok.1 h
  cases (config_soft hp).symm.trans hconfig
  obtain ⟨v', hv', h⟩ := Result.bind_eq_ok.1 h
  cases hv.symm.trans hv'
  obtain ⟨n', hn', h⟩ := Result.bind_eq_ok.1 h
  cases hn.symm.trans hn'
  obtain ⟨length, -, h⟩ := Result.bind_eq_ok.1 h
  obtain ⟨form, -, h⟩ := Result.bind_eq_ok.1 h
  obtain ⟨f, -, h⟩ := Result.bind_eq_ok.1 h
  obtain ⟨os, -, h⟩ := Result.bind_eq_ok.1 h
  obtain ⟨vibrato, -, h⟩ := Result.bind_eq_ok.1 h
  obtain ⟨breath, -, h⟩ := Result.bind_eq_ok.1 h
  obtain ⟨xs, hxs, -⟩ := Result.bind_eq_ok.1 h
  obtain ⟨-, a, d, r, -, -, -, hlayout⟩ := layout_of_envelope hxs
  exact ⟨xs, hxs, Stages.length_layout hlayout⟩

end Waves

end Synthesizer

namespace Engine

/-- An engine of the soft palette on whose device an instrument can be played. -/
structure Ready (e : Engine) (name : String) : Prop where
  soft : e.palette = .soft
  synthesizer : e.synthesizer = some .standard
  instrument : e.instrument = some (.text name)
  volume : e.volume.isSome = true
  tracks : e.tracks.isSome = true
  format : ∃ format, e.device.format = some format ∧ (format.length = 3 ∨ format.length = 4)

namespace Ready

variable {e d : Engine} {name : String}

theorem silent_iff : e.silent.Ready name ↔ e.Ready name :=
  ⟨fun h => ⟨h.soft, h.synthesizer, h.instrument, h.volume, h.tracks, h.format⟩,
    fun h => ⟨h.soft, h.synthesizer, h.instrument, h.volume, h.tracks, h.format⟩⟩

theorem of_silent (he : e.Ready name) (h : d.silent = e.silent) : d.Ready name := by
  rw [← silent_iff, h, silent_iff]
  exact he

theorem runOn_softStereo (he : e.Ready name) :
    ∃ stereo, Perform.softStereo.runOn e = (.ok (some stereo), e) := by
  obtain ⟨format, hformat, hlength⟩ := he.format
  rw [Perform.softStereo, Perform.runOn_get, hformat]
  rcases hlength with h | h
  · obtain ⟨a, b, c, rfl⟩ := List.length_eq_three.1 h
    exact ⟨_, rfl⟩
  · obtain ⟨a, format, rfl⟩ := List.exists_cons_of_length_eq_add_one h
    obtain ⟨b, c, d, rfl⟩ := List.length_eq_three.1 (Nat.succ.inj h)
    exact ⟨_, rfl⟩

end Ready

/-- A new engine on a device with two channels. -/
def twoChannels : Engine := built .soft (.working (some [.int 44100, .int (-16), .int 2]))

theorem ready_twoChannels : twoChannels.Ready "piano" := by
  refine Ready.of_silent ?_ (silent_built_working .soft _)
  exact ⟨rfl, rfl, rfl, rfl, rfl, _, rfl, .inl rfl⟩

/-- A note that was heard: one sound of `n` samples, and its event in the track. -/
structure Hears (e : Engine) (n : Nat) (entry : TrackEntry) (d : Engine) : Prop where
  sound : ∃ sound, sound.samples.size = n ∧ d.sounds = e.sounds ++ [sound]
  appends : e.Appends [entry] d

theorem Hears.of_silent {e c d : Engine} {n : Nat} {entry : TrackEntry} (h : e.Hears n entry c)
    (hd : d.silent = c.silent) : e.Hears n entry d := by
  obtain ⟨⟨sound, hsize, hsounds⟩, happends⟩ := h
  refine ⟨⟨sound, hsize, (sounds_of_silent hd).trans hsounds⟩, ?_⟩
  have hkept : c.Appends [] d := .keep (tracks_of_silent hd)
  exact happends.trans hkept

end Engine

namespace Perform

variable {e : Engine} {name pitch : String} {duration : Value} {frequency : Float}

theorem runOn_noteWave (he : e.Ready name)
    (hfrequency : Pitch.frequency (.text pitch) = .ok frequency) :
    (noteWave (.text pitch) duration).runOn e =
      (Synthesizer.standard.wave (.float frequency) duration (.text name), e) := by
  rw [noteWave, runOn_bind, synthesizer, runOn_part, he.synthesizer]
  change (lift (Pitch.frequency (.text pitch)) >>= _).runOn e = _
  rw [runOn_bind, runOn_lift, hfrequency]
  change (instrument >>= _).runOn e = _
  rw [runOn_bind, instrument, runOn_part, he.instrument]
  exact runOn_lift _ e

/-- Whatever comes of a note, it has no answer but that it is over. -/
theorem runOn_note (he : e.palette = .soft) (pitch duration : Value) :
    ∃ d, (note pitch duration).runOn e = (.ok (), d) ∧
      d.silent = ((softNote pitch duration).runOn e).2.silent := by
  rw [runOn_note_soft he, softAttempt, runOn_tryCatch]
  cases ((softNote pitch duration).runOn e).1 with
  | ok _ => exact ⟨_, rfl, rfl⟩
  | error f =>
      have hreport : Prints (do
          say ("❌ 播放音符時發生錯誤: " ++ f.message)
          say "詳細錯誤資訊：") :=
        .bind (Prints.say _) fun _ => Prints.say _
      exact ⟨_, rfl, hreport.silent _⟩

/-- A note with a wave is heard. -/
theorem hears_softNote (he : e.Ready name) {t : String} (ht : duration.tenths = .ok t)
    (hfrequency : Pitch.frequency (.text pitch) = .ok frequency) {wave : Wave}
    (hwave : Synthesizer.standard.wave (.float frequency) duration (.text name) = .ok wave) :
    e.Hears wave.size ⟨name, .note (.text pitch) duration⟩
      ((softNote (.text pitch) duration).runOn e).2 := by
  obtain ⟨d, hdescribe⟩ := describeNote_ok pitch he.instrument ht
  have hsilent : d.silent = e.silent := by
    have h := (Prints.describeNote (.text pitch) duration).silent e
    rw [hdescribe] at h
    exact h
  have hd := he.of_silent hsilent
  obtain ⟨volume, hvolume⟩ : ∃ volume, Perform.volume.runOn d = (.ok volume, d) := by
    obtain ⟨volume, hvolume⟩ := Option.isSome_iff_exists.1 hd.volume
    exact ⟨volume, by rw [Perform.volume, runOn_part, hvolume]⟩
  obtain ⟨table, htable⟩ := Option.isSome_iff_exists.1 hd.tracks
  obtain ⟨stereo, hstereo⟩ := hd.runOn_softStereo
  let sound : Sound :=
    ⟨Sound.quantize 0.8 20000.0 (wave.map (· * TrackEntry.loudness volume)), stereo⟩
  have hrun : ((softNote (.text pitch) duration).runOn e).2 =
      ((record (.note (.text pitch) duration) >>= fun _ => sleep duration).runOn
        { d with log := d.log.push (.sound sound) }).2 := by
    rw [softNote, runOn_bind, hdescribe]
    change ((noteWave (.text pitch) duration >>= _).runOn d).2 = _
    rw [runOn_bind, runOn_noteWave hd hfrequency, hwave]
    change ((Perform.volume >>= _).runOn d).2 = _
    rw [runOn_bind, hvolume]
    change ((softStereo >>= _).runOn d).2 = _
    rw [runOn_bind, hstereo]
    rfl
  rw [hrun, runOn_record_sleep (e := { d with log := d.log.push (.sound sound) }) htable
    hd.instrument rfl]
  refine ⟨⟨sound, ?_, ?_⟩, .add (Engine.tracks_of_silent hsilent ▸ htable) he.instrument rfl⟩
  · exact (Array.size_map ..).trans (Array.size_map ..)
  · have hpush : (d.log.push (.sound sound)).toList.filterMap Effect.sound? =
        e.sounds ++ [sound] := by
      rw [Engine.filterMap_push, ← Engine.sounds, Engine.sounds_of_silent hsilent]
      rfl
    rw [← hpush, Engine.sounds]
    split
    · rw [Engine.filterMap_push]
      exact List.append_nil _
    · rfl

/-- A note without a wave leaves only a line. -/
theorem silent_softNote (he : e.Ready name)
    (hfrequency : Pitch.frequency (.text pitch) = .ok frequency) {f : Failure}
    (hwave : Synthesizer.standard.wave (.float frequency) duration (.text name) = .error f) :
    ((softNote (.text pitch) duration).runOn e).2.silent = e.silent := by
  have hsilent := (Prints.describeNote (.text pitch) duration).silent e
  rw [softNote, runOn_bind]
  cases hdescribe : (describeNote (.text pitch) duration).runOn e with
  | mk r d =>
      rw [hdescribe] at hsilent
      cases r with
      | error g => exact hsilent
      | ok a =>
          change ((noteWave (.text pitch) duration >>= _).runOn d).2.silent = _
          rw [runOn_bind, runOn_noteWave (he.of_silent hsilent) hfrequency, hwave]
          exact hsilent

/-- The instruments of the soft palette have an envelope for every number of samples for which there
is room, except the guitar, which has none for more than one. Where there is one, a note of so many
samples is heard as one sound of that length and stands in the track; where there is none, nothing
but text comes of it. -/
theorem note_of_envelope {p : String × Value} (hp : p ∈ Presets.soft) (n : Nat) :
    ((∃ xs, Synthesizer.envelope .soft n p.2 = .ok xs ∧ xs.length = n) ↔
      n ≤ Wave.capacity ∧ (p.1 = "guitar" → n ≤ 1)) ∧
    ∀ (e : Engine) (pitch : String) (frequency : Float) (duration : Value), e.Ready p.1 →
      Pitch.frequency (.text pitch) = .ok frequency → duration.number?.isSome = true →
      Synthesizer.standard.samples duration = .ok n →
      ∃ d, (note (.text pitch) duration).runOn e = (.ok (), d) ∧
        if n ≤ Wave.capacity ∧ (p.1 = "guitar" → n ≤ 1) then
          e.Hears n ⟨p.1, .note (.text pitch) duration⟩ d
        else d.silent = e.silent := by
  have henvelope := Synthesizer.soft_envelope hp n
  refine ⟨henvelope, fun e pitch frequency duration he hfrequency hduration hsamples => ?_⟩
  obtain ⟨d, hd, hsilent⟩ := runOn_note he.soft (.text pitch) duration
  refine ⟨d, hd, ?_⟩
  split
  · next hn =>
    obtain ⟨xs, hxs, hlength⟩ := henvelope.2 hn
    obtain ⟨m, hm⟩ := Option.isSome_iff_exists.1 hduration
    obtain ⟨wave, hwave, rfl⟩ := Synthesizer.wave_ok hp hsamples frequency hm hxs hlength
    obtain ⟨x, hx, -⟩ := Synthesizer.seconds_ok hm hsamples hn.1
    have ht : duration.tenths = .ok (FloatText.tenths x) := by
      rw [Value.tenths_of_number? hm, hx]
      rfl
    exact (hears_softNote he ht hfrequency hwave).of_silent hsilent
  · next hn =>
    cases hwave : Synthesizer.standard.wave (.float frequency) duration (.text p.1) with
    | ok wave =>
        exact absurd (henvelope.1 (Synthesizer.envelope_of_wave hp hsamples frequency hwave)) hn
    | error f => exact hsilent.trans (silent_softNote he hfrequency hwave)

theorem note_of_envelope_second :
    (∃ d, (note (.text "C4") (.int 1)).runOn .twoChannels = (.ok (), d) ∧
      Engine.twoChannels.Hears 44100 ⟨"piano", .note (.text "C4") (.int 1)⟩ d) ∧
    ∃ d, (note (.text "C4") (.int 1)).runOn
        { Engine.twoChannels with instrument := some (.text "guitar") } = (.ok (), d) ∧
      d.silent = { Engine.twoChannels with instrument := some (.text "guitar") }.silent := by
  have hready := Engine.ready_twoChannels
  constructor
  · obtain ⟨d, hd, hheard⟩ := (note_of_envelope (p := Presets.soft.get ⟨0, by decide⟩)
      (List.get_mem _ _) 44100).2 .twoChannels "C4" _ (.int 1) hready rfl rfl rfl
    rw [if_pos (by decide)] at hheard
    exact ⟨d, hd, hheard⟩
  · obtain ⟨d, hd, hsilent⟩ := (note_of_envelope (p := Presets.soft.get ⟨2, by decide⟩)
      (List.get_mem _ _) 44100).2 { Engine.twoChannels with instrument := some (.text "guitar") }
      "C4" _ (.int 1) ⟨hready.soft, hready.synthesizer, rfl, hready.volume, hready.tracks,
        hready.format⟩ rfl rfl rfl
    rw [if_neg (by decide)] at hsilent
    exact ⟨d, hd, hsilent⟩

/-- For two samples the release of the guitar takes three, and only one of them has a place. -/
theorem envelope_guitar_error :
    (Presets.soft.lookup "guitar").map (Synthesizer.envelope .soft 2) =
      some (.error (.shapeMismatch [3] 1)) :=
  rfl

end Perform

end TuneScript
