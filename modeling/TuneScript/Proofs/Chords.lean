import TuneScript.Proofs.Channels
import TuneScript.Proofs.Tones

/-!
The notes of a chord, in whatever order they come to their end. What a note sounds like is decided
by the setup of the engine, and playing leaves the setup as it is. So each note of a chord does
what it would do alone: it adds its sound and its event, or nothing at all, and the order of the
notes only decides in which order these stand.
-/

namespace TuneScript

/-- What decides how a note sounds. -/
structure Setup where
  palette : Palette
  device : Device
  synthesizer : Option Synthesizer
  volume : Option Float
  instrument : Option Value

def Engine.setup (e : Engine) : Setup :=
  ⟨e.palette, e.device, e.synthesizer, e.volume, e.instrument⟩

theorem Engine.setup_of_silent {e d : Engine} (h : d.silent = e.silent) : d.setup = e.setup :=
  read_of_silent setup (fun _ => rfl) h

/-- What stands in a track for a note. -/
def Palette.noteEvent : Palette → Value → Value → TrackEvent
  | soft => .note
  | plain => .plain

/-- Events put at the end of one track, one after the other. -/
def Tracks.add (table : Tracks) (v : Value) (events : List TrackEvent) : Tracks :=
  events.foldl (fun table event => table.update v fun old => old.getD [] ++ [event]) table

theorem Tracks.add_append (table : Tracks) (v : Value) (first second : List TrackEvent) :
    table.add v (first ++ second) = (table.add v first).add v second :=
  List.foldl_append

theorem Table.find?_update_self {α : Type} (table : Table α) {v : Value} (hv : v.same v = true)
    (change : Option α → α) : (table.update v change).find? v = some (change (table.find? v)) := by
  induction table with
  | nil =>
      rw [update, find?_cons, if_pos hv]
      rfl
  | cons entry rest ih =>
      obtain ⟨k, a⟩ := entry
      rw [update]
      split
      · next hk => rw [find?_cons, find?_cons, if_pos hk, if_pos hk]
      · next hk => rw [find?_cons, find?_cons, if_neg hk, if_neg hk, ih]

/-- The track grows by the events, in their order. -/
theorem Tracks.find?_add (table : Tracks) {v : Value} (hv : v.same v = true)
    (events : List TrackEvent) :
    ((table.add v events).find? v).getD [] = (table.find? v).getD [] ++ events := by
  induction events generalizing table with
  | nil => exact (List.append_nil _).symm
  | cons event events ih =>
      have hfirst : ((table.update v fun old => old.getD [] ++ [event]).find? v).getD [] =
          (table.find? v).getD [] ++ [event] := by
        rw [Table.find?_update_self table hv]
        rfl
      refine (ih (table.update v fun old => old.getD [] ++ [event])).trans ?_
      rw [hfirst, List.append_assoc]
      rfl

namespace Perform

variable {α β : Type}

/-- An action that at most prints and answers as the setup says. -/
structure Looks (x : Perform α) : Prop where
  prints : Prints x
  same : ∀ {e d : Engine}, d.setup = e.setup → (x.runOn d).1 = (x.runOn e).1

namespace Looks

theorem bind {x : Perform α} {f : α → Perform β} (hx : Looks x) (hf : ∀ a, Looks (f a)) :
    Looks (x >>= f) := by
  refine ⟨hx.prints.bind fun a => (hf a).prints, fun {e d} h => ?_⟩
  rw [runOn_bind, runOn_bind, hx.same h]
  cases (x.runOn e).1 with
  | error failure => rfl
  | ok a =>
      have hd := Engine.setup_of_silent (hx.prints.silent d)
      have he := Engine.setup_of_silent (hx.prints.silent e)
      exact (hf a).same (hd.trans (h.trans he.symm))

theorem pure (a : α) : Looks (Pure.pure a) := ⟨.pure a, fun _ => rfl⟩

theorem throw (f : Failure) : Looks (MonadExcept.throw f : Perform α) := ⟨.throw f, fun _ => rfl⟩

theorem lift (r : Result α) : Looks (Perform.lift r) := by
  cases r with
  | ok a => exact pure a
  | error f => exact throw f

theorem shown (v : Value) : Looks (Perform.shown v) := lift _

theorem say (s : String) : Looks (Perform.say s) := ⟨.say s, fun _ => rfl⟩

theorem ask {f : Engine → Perform α} (hf : ∀ e, Looks (f e))
    (hsame : ∀ {e d : Engine}, d.setup = e.setup → f d = f e) : Looks (get >>= f) := by
  refine ⟨.ask (fun e => (hf e).prints) fun h => hsame (Engine.setup_of_silent h),
    fun {e d} h => ?_⟩
  rw [runOn_get, runOn_get, hsame h]
  exact (hf e).same h

theorem part {name : String} {read : Engine → Option α} (look : Setup → Option α)
    (hread : ∀ e : Engine, read e = look e.setup) : Looks (Perform.part name read) := by
  refine ask (fun e => ?_) fun {e d} h => ?_
  · split
    · exact pure _
    · exact throw _
  · have hmissing : d.missing name = e.missing name :=
      congrArg (fun s : Setup => Failure.noAttribute s.palette.engineName name) h
    rw [hread, hread, h, hmissing]

theorem instrument : Looks Perform.instrument := part Setup.instrument fun _ => rfl

theorem synthesizer : Looks Perform.synthesizer := part Setup.synthesizer fun _ => rfl

theorem volume : Looks Perform.volume := part Setup.volume fun _ => rfl

theorem describeNote (pitch duration : Value) : Looks (Perform.describeNote pitch duration) :=
  instrument.bind fun _ => (shown _).bind fun _ => (shown _).bind fun _ => (lift _).bind fun _ =>
    say _

theorem noteWave (pitch duration : Value) : Looks (Perform.noteWave pitch duration) :=
  synthesizer.bind fun _ => (lift _).bind fun _ => instrument.bind fun _ => lift _

theorem device_eq {e d : Engine} (h : d.setup = e.setup) : d.device = e.device :=
  congrArg Setup.device h

theorem softStereo : Looks Perform.softStereo := by
  refine ask (fun _ => ?_) fun h => by rw [device_eq h]
  split
  · exact (say _).bind fun _ => pure _
  · exact pure _
  · exact pure _
  · exact (lift _).bind fun _ => (say _).bind fun _ => pure _

theorem plainStereo : Looks Perform.plainStereo := by
  refine ask (fun _ => ?_) fun h => by rw [device_eq h]
  split
  · exact throw _
  · exact (lift _).bind fun _ => pure _

end Looks

/-- The sound of a note, or nothing if the device cannot play. -/
def tone (palette : Palette) (pitch duration : Value) : Perform (Option Sound) :=
  match palette with
  | .soft => do
    describeNote pitch duration
    let wave ← noteWave pitch duration
    let volume ← volume
    let stereo ← softStereo
    return stereo.map fun stereo =>
      ⟨Sound.quantize 0.8 20000.0 (wave.map (· * TrackEntry.loudness volume)), stereo⟩
  | .plain => do
    let wave ← noteWave pitch duration
    let volume ← volume
    let stereo ← plainStereo
    return some ⟨Sound.quantize 1.0 32767.0 (wave.map (· * volume)), stereo⟩

/-- What is done with the sound of a note. -/
def sounded (duration : Value) (event : TrackEvent) : Option Sound → Perform Unit
  | none => pure ()
  | some s => sound s.samples s.stereo duration event

theorem softNote_eq (pitch duration : Value) :
    softNote pitch duration =
      tone .soft pitch duration >>= sounded duration (.note pitch duration) := by
  simp only [softNote, tone, bind_assoc, pure_bind]
  congr
  funext _
  congr
  funext wave
  congr
  funext volume
  congr
  funext stereo
  cases stereo <;> rfl

theorem plainNote_eq (pitch duration : Value) :
    plainNote pitch duration =
      tone .plain pitch duration >>= sounded duration (.plain pitch duration) := by
  simp only [plainNote, tone, bind_assoc, pure_bind]
  rfl

theorem looks_tone (palette : Palette) (pitch duration : Value) :
    Looks (tone palette pitch duration) := by
  cases palette with
  | soft =>
      exact (Looks.describeNote pitch duration).bind fun _ => (Looks.noteWave pitch duration).bind
        fun _ => Looks.volume.bind fun _ => Looks.softStereo.bind fun _ => .pure _
  | plain =>
      exact (Looks.noteWave pitch duration).bind fun _ => Looks.volume.bind fun _ =>
        Looks.plainStereo.bind fun _ => .pure _

/-- Only an instrument that can be a key has a tone. -/
theorem requireKey_of_tone {palette : Palette} {pitch duration v : Value} {e d : Engine}
    {s : Option Sound} (h : (tone palette pitch duration).runOn e = (.ok s, d))
    (hv : e.instrument = some v) : v.requireKey = .ok () := by
  have hnoteWave {c b : Engine} {wave : Wave} (hc : c.instrument = some v)
      (hwave : (noteWave pitch duration).runOn c = (.ok wave, b)) : v.requireKey = .ok () := by
    obtain ⟨-, _, _, w, -, hw, -, hmade⟩ := noteWave_ok hwave
    cases hc.symm.trans hw
    exact requireKey_of_wave hmade
  cases palette with
  | soft =>
      obtain ⟨_, c, hdescribe, h⟩ := bind_ok h
      obtain ⟨wave, b, hwave, -⟩ := bind_ok h
      have hsilent := (Prints.describeNote pitch duration).silent e
      rw [hdescribe] at hsilent
      exact hnoteWave ((Engine.instrument_of_silent hsilent).trans hv) hwave
  | plain =>
      obtain ⟨wave, b, hwave, -⟩ := bind_ok h
      exact hnoteWave hv hwave

end Perform

namespace Engine

/-- The sound that a note has on an engine. -/
def tone? (e : Engine) (pitch duration : Value) : Option Sound :=
  match ((Perform.tone e.palette pitch duration).runOn e).1 with
  | .ok s => s
  | .error _ => none

theorem tone?_of_setup {e d : Engine} (h : d.setup = e.setup) (pitch duration : Value) :
    d.tone? pitch duration = e.tone? pitch duration := by
  have hpalette : d.palette = e.palette := congrArg Setup.palette h
  rw [tone?, tone?, hpalette, (Perform.looks_tone e.palette pitch duration).same h]

/-- A note that has come to its end: its sound and its event were added, or nothing was. -/
structure Rings (e : Engine) (pitch duration : Value) (d : Engine) : Prop where
  sounds : d.sounds = e.sounds ++ (e.tone? pitch duration).toList
  tracks : ∀ table v, e.tracks = some table → e.instrument = some v →
    d.tracks = some (table.add v
      ((e.tone? pitch duration).toList.map fun _ => e.palette.noteEvent pitch duration))

theorem Rings.of_silent {e c d : Engine} {pitch duration : Value} (h : e.Rings pitch duration c)
    (hd : d.silent = c.silent) : e.Rings pitch duration d :=
  ⟨(sounds_of_silent hd).trans h.sounds,
    fun table v ht hv => (tracks_of_silent hd).trans (h.tracks table v ht hv)⟩

theorem rings_of_silent {e d : Engine} {pitch duration : Value}
    (hnone : e.tone? pitch duration = none) (h : d.silent = e.silent) :
    e.Rings pitch duration d := by
  refine ⟨?_, fun table v ht _ => ?_⟩
  · rw [hnone, sounds_of_silent h]
    exact (List.append_nil _).symm
  · rw [hnone, tracks_of_silent h, ht]
    rfl

end Engine

namespace Perform

variable {e : Engine} {pitch duration : Value}

/-- A sound is handed to the device and its event stands at the end of the track. -/
theorem rings_sound (he : e.Whole) {s : Sound} (hs : e.tone? pitch duration = some s)
    {v : Value} (hv : e.instrument = some v) (hkey : v.requireKey = .ok ()) {c : Engine}
    (hc : c.silent = e.silent) :
    e.Rings pitch duration ((sounded duration (e.palette.noteEvent pitch duration)
      (some s)).runOn c).2 := by
  obtain ⟨table, htable⟩ := Option.isSome_iff_exists.1 he.tracks
  have htable' : c.tracks = some table := (Engine.tracks_of_silent hc).trans htable
  have hv' : c.instrument = some v := (Engine.instrument_of_silent hc).trans hv
  have hrun : ((sounded duration (e.palette.noteEvent pitch duration) (some s)).runOn c).2 =
      ((record (e.palette.noteEvent pitch duration) >>= fun _ => sleep duration).runOn
        { c with log := c.log.push (.sound s) }).2 := rfl
  rw [hrun, runOn_record_sleep (e := { c with log := c.log.push (.sound s) }) htable' hv' hkey]
  refine ⟨?_, fun table' v' ht' hw => ?_⟩
  · have hpush : (c.log.push (.sound s)).toList.filterMap Effect.sound? = e.sounds ++ [s] := by
      rw [Engine.filterMap_push, ← Engine.sounds, Engine.sounds_of_silent hc]
      rfl
    rw [hs, Option.toList_some, ← hpush, Engine.sounds]
    split
    · rw [Engine.filterMap_push]
      exact List.append_nil _
    · rfl
  · cases htable.symm.trans ht'
    cases hv.symm.trans hw
    rw [hs]
    rfl

/-- A note is its tone and what is done with it, and a failure is only printed. -/
theorem note_of_tone (pitch duration : Value) (e : Engine) :
    ∃ d, (note pitch duration).runOn e = (.ok (), d) ∧
      d.silent = ((tone e.palette pitch duration >>= sounded duration
        (e.palette.noteEvent pitch duration)).runOn e).2.silent := by
  cases hpalette : e.palette with
  | soft =>
      have h := runOn_note hpalette pitch duration
      rw [softNote_eq] at h
      exact h
  | plain =>
      have h := runOn_note_plain hpalette pitch duration
      rw [plainNote_eq] at h
      exact h

/-- Whatever comes of a note, it comes to its end without a failure. -/
theorem rings_note (he : e.Whole) (pitch duration : Value) :
    ∃ d, (note pitch duration).runOn e = (.ok (), d) ∧ e.Rings pitch duration d := by
  obtain ⟨d, hd, hsilent⟩ := note_of_tone pitch duration e
  refine ⟨d, hd, Engine.Rings.of_silent ?_ hsilent⟩
  have hlook := (looks_tone e.palette pitch duration).prints.silent e
  rw [runOn_bind]
  cases htone : (tone e.palette pitch duration).runOn e with
  | mk r c =>
      rw [htone] at hlook
      cases r with
      | error f => exact Engine.rings_of_silent (by rw [Engine.tone?, htone]) hlook
      | ok s =>
          have hs : e.tone? pitch duration = s := by rw [Engine.tone?, htone]
          cases s with
          | none => exact Engine.rings_of_silent hs hlook
          | some s =>
              obtain ⟨v, hv⟩ := Option.isSome_iff_exists.1 he.instrument
              exact rings_sound he hs hv (requireKey_of_tone htone hv) hlook

/-- Playing leaves the setup. -/
theorem setup_note (pitch duration : Value) (e : Engine) :
    ((note pitch duration).runOn e).2.setup = e.setup :=
  Leaves.note (fun _ _ => rfl) (fun _ _ => rfl) pitch duration e

theorem settings_note (pitch duration : Value) (e : Engine) :
    ((note pitch duration).runOn e).2.settings = e.settings :=
  Leaves.note (fun _ _ => rfl) (fun _ _ => rfl) pitch duration e

end Perform

namespace Engine

/-- The sounds of a note that is played alone. -/
def soundsAlone (e : Engine) (duration : Value) (pitch : String) : List Sound :=
  ((Perform.note (.text pitch) duration).runOn e).2.sounds.drop e.sounds.length

/-- Whether a note is heard when it is played alone. -/
def isHeard (e : Engine) (duration : Value) (pitch : String) : Bool :=
  !(e.soundsAlone duration pitch).isEmpty

/-- The events of the notes that are heard. -/
def heardEvents (e : Engine) (duration : Value) (order : List String) : List TrackEvent :=
  (order.filter (e.isHeard duration)).map fun pitch => e.palette.noteEvent (.text pitch) duration

theorem soundsAlone_eq {e : Engine} (he : e.Whole) (duration : Value) (pitch : String) :
    e.soundsAlone duration pitch = (e.tone? (.text pitch) duration).toList := by
  obtain ⟨d, hd, hrings⟩ := Perform.rings_note he (.text pitch) duration
  rw [soundsAlone, hd]
  change d.sounds.drop _ = _
  rw [hrings.sounds, List.drop_left]

theorem heardEvents_cons {e : Engine} (he : e.Whole) (duration : Value) (pitch : String)
    (order : List String) : e.heardEvents duration (pitch :: order) =
      ((e.tone? (.text pitch) duration).toList.map fun _ =>
        e.palette.noteEvent (.text pitch) duration) ++ e.heardEvents duration order := by
  rw [heardEvents, List.filter_cons, isHeard, soundsAlone_eq he]
  cases e.tone? (.text pitch) duration <;> rfl

/-- What is heard of a note alone is a matter of the setup. -/
theorem soundsAlone_of_setup {e d : Engine} (he : e.Whole) (hd : d.Whole) (h : d.setup = e.setup)
    (duration : Value) : d.soundsAlone duration = e.soundsAlone duration := by
  funext pitch
  rw [soundsAlone_eq he, soundsAlone_eq hd, tone?_of_setup h]

theorem heardEvents_of_setup {e d : Engine} (he : e.Whole) (hd : d.Whole) (h : d.setup = e.setup)
    (duration : Value) (order : List String) :
    d.heardEvents duration order = e.heardEvents duration order := by
  have hheard : d.isHeard duration = e.isHeard duration := by
    funext pitch
    rw [isHeard, isHeard, soundsAlone_of_setup he hd h]
  have hpalette : d.palette = e.palette := congrArg Setup.palette h
  rw [heardEvents, heardEvents, hheard, hpalette]

/-- The track of an instrument. -/
def track (e : Engine) (v : Value) : List TrackEvent := ((e.tracks.getD []).find? v).getD []

/-- A chord whose notes have come to their end in some order. -/
structure Struck (e : Engine) (duration : Value) (order : List String) (d : Engine) : Prop where
  settings : d.settings = e.settings
  sounds : d.sounds = e.sounds ++ order.flatMap (e.soundsAlone duration)
  tracks : ∀ table v, e.tracks = some table → e.instrument = some v →
    d.tracks = some (table.add v (e.heardEvents duration order))

theorem Struck.of_silent {e c d : Engine} {duration : Value} {order : List String}
    (hc : c.silent = e.silent) (h : c.Struck duration order d) (he : e.Whole) :
    e.Struck duration order d := by
  have hsetup := setup_of_silent hc
  have hwhole := he.of_silent hc
  refine ⟨h.settings.trans (read_of_silent Engine.settings (fun _ => rfl) hc), ?_,
    fun table v ht hv => ?_⟩
  · rw [h.sounds, sounds_of_silent hc, soundsAlone_of_setup he hwhole hsetup]
  · rw [← heardEvents_of_setup he hwhole hsetup]
    exact h.tracks table v ((tracks_of_silent hc).trans ht) ((instrument_of_silent hc).trans hv)

/-- The track of the current instrument grows by one event for each note that is heard. -/
theorem Struck.track {e d : Engine} {duration v : Value} {order : List String}
    (h : e.Struck duration order d) (he : e.Whole) (hv : e.instrument = some v)
    (hself : v.same v = true) : d.track v = e.track v ++ e.heardEvents duration order := by
  obtain ⟨table, htable⟩ := Option.isSome_iff_exists.1 he.tracks
  rw [Engine.track, Engine.track, h.tracks table v htable hv, htable]
  exact Tracks.find?_add table hself _

theorem Struck.perm {e c d : Engine} {duration : Value} {order other : List String}
    (hd : e.Struck duration order d) (hc : e.Struck duration other c) (h : other.Perm order) :
    (e.heardEvents duration other).Perm (e.heardEvents duration order) ∧
      c.sounds.Perm d.sounds := by
  refine ⟨(h.filter _).map _, ?_⟩
  rw [hc.sounds, hd.sounds]
  exact (h.flatMap_right _).append_left _

end Engine

namespace Perform

variable {e : Engine} {duration : Value}

/-- Notes one after the other: each does what it would do alone, since those before it left the
setup. -/
theorem struck_forM (he : e.Whole) (duration : Value) (order : List String) :
    ∃ d, ((order.map Value.text).forM fun pitch => note pitch duration).runOn e = (.ok (), d) ∧
      e.Struck duration order d := by
  induction order generalizing e with
  | nil =>
      refine ⟨e, rfl, rfl, (List.append_nil _).symm, fun table v ht _ => ?_⟩
      rw [ht]
      rfl
  | cons pitch order ih =>
      obtain ⟨c, hc, hrings⟩ := rings_note he (.text pitch) duration
      have hpath := (Deeds.note (.text pitch) duration).acts e |>.path
      have hsetup := setup_note (.text pitch) duration e
      have hsettings := settings_note (.text pitch) duration e
      rw [hc] at hpath hsetup hsettings
      have hwhole : c.Whole := hpath.whole he
      have hinstrument : c.instrument = e.instrument := congrArg Setup.instrument hsetup
      obtain ⟨d, hd, hstruck⟩ := ih hwhole
      refine ⟨d, ?_, hstruck.settings.trans hsettings, ?_, fun table v ht hv => ?_⟩
      · change (note (.text pitch) duration >>= fun _ =>
          (order.map Value.text).forM fun pitch => note pitch duration).runOn e = _
        rw [runOn_bind, hc]
        exact hd
      · rw [hstruck.sounds, hrings.sounds, Engine.soundsAlone_of_setup he hwhole hsetup,
          List.flatMap_cons, Engine.soundsAlone_eq he, List.append_assoc]
      · rw [Engine.heardEvents_cons he, Tracks.add_append,
          ← Engine.heardEvents_of_setup he hwhole hsetup]
        exact hstruck.tracks _ v (hrings.tracks table v ht hv) (hinstrument.trans hv)

/-- The line that is printed before the notes of a chord. -/
def announceChord (notes duration : Value) : Perform Unit := do
  let instrument ← shown (← instrument)
  let names ← lift (notes.join ", ")
  let length ← lift duration.tenths
  say ("🎹 播放和弦 (" ++ instrument ++ "): [" ++ names ++ "], 時長: " ++ length ++ "s")

/-- A chord whose notes, once it is announced, come to their end in the given order. -/
def strikeInOrder (notes order : List String) (duration : Value) : Perform Unit := do
  announceChord (.list (notes.map .text)) duration
  (order.map Value.text).forM fun pitch => note pitch duration

theorem strike_eq (notes : List String) (duration : Value) :
    strike (.list (notes.map .text)) duration = strikeInOrder notes notes duration := by
  simp only [strike, strikeInOrder, announceChord, bind_assoc]
  rfl

theorem prints_announceChord (notes duration : Value) : Prints (announceChord notes duration) :=
  .bind .instrument fun _ => .bind (.shown _) fun _ => .bind (.lift _) fun _ => .bind (.lift _)
    fun _ => Prints.say _

/-- A chord is announced if there is an instrument that can be written. -/
theorem announceChord_ok_iff (notes : List String) {t : String} (ht : duration.tenths = .ok t) :
    ((announceChord (.list (notes.map .text)) duration).runOn e).1 = .ok () ↔
      ∃ v name, e.instrument = some v ∧ v.display = .ok name := by
  rw [announceChord, Value.join_texts, ht, runOn_bind, instrument, runOn_part]
  cases e.instrument with
  | none =>
      refine iff_of_false (fun h => ?_) ?_
      · cases h
      · rintro ⟨v, _, hv, -⟩
        cases hv
  | some v =>
      change ((shown v >>= _).runOn e).1 = _ ↔ _
      rw [runOn_bind, shown, runOn_lift]
      cases hdisplay : v.display with
      | ok name => exact iff_of_true rfl ⟨v, name, rfl, hdisplay⟩
      | error f =>
          refine iff_of_false (fun h => ?_) ?_
          · cases h
          · rintro ⟨w, _, hw, hname⟩
            cases hw
            cases hdisplay.symm.trans hname

theorem forM_note_ok (duration : Value) (pitches : List Value) (e : Engine) :
    ((pitches.forM fun pitch => note pitch duration).runOn e).1 = .ok () := by
  induction pitches generalizing e with
  | nil => rfl
  | cons pitch pitches ih =>
      change ((note pitch duration >>= fun _ =>
        pitches.forM fun pitch => note pitch duration).runOn e).1 = _
      rw [runOn_bind, note_ok]
      exact ih _

theorem strikeInOrder_ok_iff (notes order : List String) {t : String}
    (ht : duration.tenths = .ok t) :
    ((strikeInOrder notes order duration).runOn e).1 = .ok () ↔
      ∃ v name, e.instrument = some v ∧ v.display = .ok name := by
  rw [strikeInOrder, runOn_bind, ← announceChord_ok_iff notes ht]
  cases ((announceChord (.list (notes.map .text)) duration).runOn e).1 with
  | ok _ => exact iff_of_true (forM_note_ok duration _ _) rfl
  | error f =>
      refine iff_of_false (fun h => ?_) fun h => ?_
      · cases h
      · cases h

theorem struck_strikeInOrder (he : e.Whole) (notes order : List String) {v : Value}
    {name t : String} (hv : e.instrument = some v) (hname : v.display = .ok name)
    (ht : duration.tenths = .ok t) :
    ∃ d, (strikeInOrder notes order duration).runOn e = (.ok (), d) ∧
      e.Struck duration order d := by
  have hok := (announceChord_ok_iff (e := e) notes ht).2 ⟨v, name, hv, hname⟩
  have hsilent := (prints_announceChord (.list (notes.map .text)) duration).silent e
  rw [strikeInOrder, runOn_bind, hok]
  obtain ⟨d, hd, hstruck⟩ := struck_forM (he.of_silent hsilent) duration order
  exact ⟨d, hd, hstruck.of_silent hsilent he⟩

/-- The notes and the duration of a chord node on an engine. -/
structure ChordOf (e : Engine) (node : Value) (notes : List String) (duration : Value) : Prop where
  duration : (durationOf node (.float 2.0) twoBeats).runOn e = (.ok duration, e)
  notes : ∃ v items, (Node.child node "chord").get "notes" (.list []) = .ok v ∧
    v.elements = .ok items ∧ items.mapM Node.noteOf = .ok (notes.map .text)

theorem runOn_mapM_lift {α β : Type} (f : α → Result β) (items : List α) (e : Engine) :
    (items.mapM fun a => lift (f a)).runOn e = (items.mapM f, e) := by
  induction items with
  | nil => rfl
  | cons a items ih =>
      rw [List.mapM_cons, List.mapM_cons, runOn_bind, runOn_lift]
      cases f a with
      | error failure => rfl
      | ok b =>
          change ((items.mapM fun a => lift (f a)) >>= _).runOn e = _
          rw [runOn_bind, ih]
          cases items.mapM f <;> rfl

theorem playChord_eq (notes : List String) {t : String} (ht : duration.tenths = .ok t) :
    playChord (.list (notes.map .text)) duration = strikeInOrder notes notes duration := by
  rw [← strike_eq]
  cases duration with
  | null => cases ht
  | _ => rfl

theorem runOn_chordNode {node : Value} {notes : List String} {t : String}
    (h : ChordOf e node notes duration) (ht : duration.tenths = .ok t) :
    (chordNode node).runOn e = (strikeInOrder notes notes duration).runOn e := by
  obtain ⟨v, items, hget, hitems, hnames⟩ := h.notes
  rw [chordNode, runOn_bind, h.duration, hget]
  change (lift v.elements >>= _).runOn e = _
  rw [hitems]
  change ((items.mapM fun n => lift (Node.noteOf n)) >>= _).runOn e = _
  rw [runOn_bind, runOn_mapM_lift, hnames]
  change (get >>= _ : Perform Unit).runOn e = _
  rw [runOn_get, playChord_eq notes ht, strike_eq]
  cases e.palette <;> rfl

end Perform
end TuneScript
