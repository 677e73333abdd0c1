import TuneScript.Proofs.Parts

/-!
Notes of the plain palette and the channels of the device. Such an engine takes the fourth entry of
the format for the number of channels, though it is the third that tells it. A format of three
entries leaves every note unheard, and one of four decides by its last entry whether a note is
played on two channels.
-/

namespace TuneScript

namespace Engine

/-- A wave that was played: one sound more, at the volume of the engine, and one event more in the
track of its instrument. -/
structure Plays (e : Engine) (wave : Wave) (stereo : Bool) (event : TrackEvent) (d : Engine) :
    Prop where
  sound : ∃ volume, e.volume = some volume ∧
    d.sounds = e.sounds ++ [⟨Sound.quantize 1.0 32767.0 (wave.map (· * volume)), stereo⟩]
  event : ∃ table v, e.tracks = some table ∧ e.instrument = some v ∧
    d.tracks = some (table.update v fun events => events.getD [] ++ [event])

namespace Plays

variable {e c d : Engine} {wave : Wave} {stereo other : Bool} {event : TrackEvent}

theorem of_silent (h : e.Plays wave stereo event c) (hd : d.silent = c.silent) :
    e.Plays wave stereo event d := by
  obtain ⟨⟨volume, hvolume, hsounds⟩, table, v, htable, hv, htracks⟩ := h
  exact ⟨⟨volume, hvolume, (sounds_of_silent hd).trans hsounds⟩, table, v, htable, hv,
    (tracks_of_silent hd).trans htracks⟩

/-- What is heard tells the number of channels. -/
theorem unique (h : e.Plays wave stereo event d) (h' : e.Plays wave other event d) :
    stereo = other := by
  obtain ⟨volume, -, hsounds⟩ := h.sound
  obtain ⟨volume', -, hsounds'⟩ := h'.sound
  have hsound := List.append_cancel_left (hsounds.symm.trans hsounds')
  exact congrArg Sound.stereo (List.cons.inj hsound).1

theorem not_silent (h : e.Plays wave stereo event d) : d.silent ≠ e.silent := by
  intro hsilent
  obtain ⟨volume, -, hsounds⟩ := h.sound
  rw [sounds_of_silent hsilent] at hsounds
  have hlength := congrArg List.length hsounds
  rw [List.length_append, List.length_singleton] at hlength
  omega

end Plays
end Engine

namespace Perform

variable {e : Engine} {pitch duration : Value} {wave : Wave}

/-- Only an instrument that can be a key has a wave. -/
theorem requireKey_of_wave {s : Synthesizer} {frequency v : Value}
    (h : s.wave frequency duration v = .ok wave) : v.requireKey = .ok () := by
  obtain ⟨config, hconfig, -⟩ := Result.bind_eq_ok.1 h
  obtain ⟨⟨⟩, hkey, -⟩ := Result.bind_eq_ok.1 hconfig
  exact hkey

/-- Whatever comes of a note, it has no answer but that it is over. -/
theorem runOn_note_plain (hplain : e.palette = .plain) (pitch duration : Value) :
    ∃ d, (note pitch duration).runOn e = (.ok (), d) ∧
      d.silent = ((plainNote pitch duration).runOn e).2.silent := by
  rw [note, runOn_get, hplain]
  dsimp only
  rw [runOn_tryCatch]
  cases ((plainNote pitch duration).runOn e).1 with
  | ok _ => exact ⟨_, rfl, rfl⟩
  | error f => exact ⟨_, rfl, (Prints.say _).silent _⟩

theorem runOn_plainStereo {format : List Value} (hformat : e.device.format = some format) :
    plainStereo.runOn e = ((Value.nthItem .tuple format 3).map (·.equal (.int 2)), e) := by
  have hask : plainStereo.runOn e = (lift (Value.nthItem .tuple format 3) >>= fun entry =>
      pure (entry.equal (.int 2))).runOn e := by
    rw [plainStereo, runOn_get, hformat]
  rw [hask, runOn_bind, runOn_lift]
  cases Value.nthItem .tuple format 3 <;> rfl

section Wave

variable (he : e.Whole) (hwave : (noteWave pitch duration).runOn e = (.ok wave, e))
  {format : List Value} (hformat : e.device.format = some format)

include he hwave

/-- A note with a wave comes to the fourth entry of the format. -/
theorem runOn_plainNote : ∃ volume, e.volume = some volume ∧
    (plainNote pitch duration).runOn e = (plainStereo >>= fun stereo =>
      sound (Sound.quantize 1.0 32767.0 (wave.map (· * volume))) stereo duration
        (.plain pitch duration)).runOn e := by
  obtain ⟨volume, hvolume⟩ := Option.isSome_iff_exists.1 he.volume
  refine ⟨volume, hvolume, ?_⟩
  rw [plainNote, runOn_bind, hwave]
  change (Perform.volume >>= _).runOn e = _
  rw [runOn_bind, Perform.volume, runOn_part, hvolume]
  rfl

include hformat

theorem silent_plainNote (hlength : format.length ≤ 3) :
    ((plainNote pitch duration).runOn e).2.silent = e.silent := by
  obtain ⟨volume, -, hrun⟩ := runOn_plainNote he hwave
  have hnone : Value.nthItem .tuple format 3 = .error (.outOfRange .tuple) := by
    rw [Value.nthItem, List.getElem?_eq_none hlength]
  rw [hrun, runOn_bind, runOn_plainStereo hformat, hnone]
  rfl

theorem plays_plainNote {entry : Value} (hentry : format[3]? = some entry) :
    e.Plays wave (entry.equal (.int 2)) (.plain pitch duration)
      ((plainNote pitch duration).runOn e).2 := by
  obtain ⟨-, s, frequency, v, -, hv, -, hmade⟩ := noteWave_ok hwave
  obtain ⟨table, htable⟩ := Option.isSome_iff_exists.1 he.tracks
  obtain ⟨volume, hvolume, hrun⟩ := runOn_plainNote he hwave
  have hsome : Value.nthItem .tuple format 3 = .ok entry := by
    rw [Value.nthItem, hentry]
  let played : Sound :=
    ⟨Sound.quantize 1.0 32767.0 (wave.map (· * volume)), entry.equal (.int 2)⟩
  have hend : ((plainNote pitch duration).runOn e).2 =
      ((record (.plain pitch duration) >>= fun _ => sleep duration).runOn
        { e with log := e.log.push (.sound played) }).2 := by
    rw [hrun, runOn_bind, runOn_plainStereo hformat, hsome]
    rfl
  rw [hend, runOn_record_sleep (e := { e with log := e.log.push (.sound played) }) htable hv
    (requireKey_of_wave hmade)]
  refine ⟨⟨volume, hvolume, ?_⟩, table, v, htable, hv, rfl⟩
  have hpush : (e.log.push (.sound played)).toList.filterMap Effect.sound? =
      e.sounds ++ [played] := Engine.filterMap_push Effect.sound? e.log _
  rw [← hpush, Engine.sounds]
  split
  · rw [Engine.filterMap_push]
    exact List.append_nil _
  · rfl

end Wave

/-- A note of the plain palette that has a wave always ends. With a format of three entries nothing
is heard of it and its track stays as it is. With four, it is played as one sound, on two channels
if the fourth entry is two. So the number of channels is honoured only where there is a fourth
entry that agrees with it. -/
theorem note_channels (hplain : e.palette = .plain) (he : e.Whole)
    (hwave : (noteWave pitch duration).runOn e = (.ok wave, e)) {rate form channels : Value}
    {rest : List Value} (hformat : e.device.format = some (rate :: form :: channels :: rest))
    (hrest : rest.length ≤ 1) :
    ∃ d, (note pitch duration).runOn e = (.ok (), d) ∧
      (rest = [] → d.silent = e.silent) ∧
      (∀ buffer, rest = [buffer] →
        e.Plays wave (buffer.equal (.int 2)) (.plain pitch duration) d) ∧
      (e.Plays wave (channels.equal (.int 2)) (.plain pitch duration) d ↔
        ∃ buffer, rest = [buffer] ∧ buffer.equal (.int 2) = channels.equal (.int 2)) := by
  obtain ⟨d, hd, hsilent⟩ := runOn_note_plain hplain pitch duration
  refine ⟨d, hd, ?_⟩
  cases rest with
  | nil =>
      have hunheard : d.silent = e.silent :=
        hsilent.trans (silent_plainNote he hwave hformat (Nat.le_refl 3))
      refine ⟨fun _ => hunheard, fun buffer h => ?_, fun hplays => ?_, ?_⟩
      · cases h
      · exact absurd hunheard hplays.not_silent
      · rintro ⟨buffer, h, -⟩
        cases h
  | cons buffer others =>
      obtain rfl : others = [] :=
        List.length_eq_zero_iff.1 (Nat.le_zero.1 (Nat.le_of_succ_le_succ hrest))
      have hplays : e.Plays wave (buffer.equal (.int 2)) (.plain pitch duration) d :=
        (plays_plainNote he hwave hformat rfl).of_silent hsilent
      refine ⟨fun h => ?_, ?_, fun hhonours => ⟨buffer, rfl, hplays.unique hhonours⟩, ?_⟩
      · cases h
      · rintro _ ⟨⟩
        exact hplays
      · rintro ⟨_, ⟨⟩, hagree⟩
        exact hagree ▸ hplays

/-- A new engine of the plain palette that makes eight samples a second. -/
def eightSamples (format : List Value) : Engine :=
  ((setRate 8).runOn (.built .plain (.working (some format)))).2

/-- A device with two channels and a buffer plays on one. -/
theorem note_channels_buffer :
    ∃ wave d, (noteWave (.text "C4") (.int 1)).runOn
        (eightSamples [.int 44100, .int (-16), .int 2, .int 1024]) =
          (.ok wave, eightSamples [.int 44100, .int (-16), .int 2, .int 1024]) ∧
      (note (.text "C4") (.int 1)).runOn
        (eightSamples [.int 44100, .int (-16), .int 2, .int 1024]) = (.ok (), d) ∧
      (eightSamples [.int 44100, .int (-16), .int 2, .int 1024]).Plays wave false
        (.plain (.text "C4") (.int 1)) d ∧
      ¬(eightSamples [.int 44100, .int (-16), .int 2, .int 1024]).Plays wave true
        (.plain (.text "C4") (.int 1)) d := by
  have hwhole : (eightSamples [.int 44100, .int (-16), .int 2, .int 1024]).Whole :=
    ⟨rfl, rfl, rfl, rfl, rfl, rfl⟩
  obtain ⟨wave, hwave⟩ : ∃ wave, (noteWave (.text "C4") (.int 1)).runOn
      (eightSamples [.int 44100, .int (-16), .int 2, .int 1024]) = (.ok wave, _) := ⟨_, rfl⟩
  obtain ⟨d, hd, -, hplays, hhonours⟩ := note_channels rfl hwhole hwave rfl (Nat.le_refl 1)
  refine ⟨wave, d, hwave, hd, hplays _ rfl, fun htwo => ?_⟩
  obtain ⟨buffer, hbuffer, hagree⟩ := hhonours.1 htwo
  cases hbuffer
  cases hagree

/-- The note has a wave and the device two channels, but nothing is heard and the track is empty. -/
theorem note_unheard :
    ∃ wave, (noteWave (.text "C4") (.int 1)).runOn (eightSamples Device.standardFormat) =
        (.ok wave, eightSamples Device.standardFormat) ∧
      ((note (.text "C4") (.int 1)).runOn (eightSamples Device.standardFormat)).2.sounds = [] ∧
      ((note (.text "C4") (.int 1)).runOn (eightSamples Device.standardFormat)).2.tracks =
        some [] :=
  ⟨_, rfl, rfl, rfl⟩

end Perform
end TuneScript
