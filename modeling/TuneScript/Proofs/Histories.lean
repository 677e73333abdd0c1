import Mathlib.Data.List.Forall2
import TuneScript.Proofs.Programs
import TuneScript.Proofs.Settings

/-!
The history of an engine of the soft palette: the events that were added to its tracks, in
their order and with their instruments. Nothing of it is ever lost, the tracks are its parts,
and it says which sounds were played and how long the engine waited.
-/

namespace TuneScript

theorem eraseDups_concat {α : Type} [BEq α] [LawfulBEq α] (l : List α) (a : α) :
    (l ++ [a]).eraseDups = if l.contains a then l.eraseDups else l.eraseDups ++ [a] := by
  rw [List.eraseDups_append, List.removeAll, List.filter_singleton]
  change l.eraseDups ++ (bif !l.contains a then [a] else []).eraseDups = _
  cases l.contains a with
  | true => exact List.append_nil _
  | false => rfl

namespace Effect

def sound? : Effect → Option Sound
  | sound s => some s
  | _ => none

def sleep? : Effect → Option Value
  | sleep duration => some duration
  | _ => none

end Effect

/-- Why a duration cannot be waited for: it is no number, or negative, or too long. -/
def Value.refusal? (duration : Value) : Option Failure :=
  match duration.number? with
  | none => some (.sleepNotInteger duration.kind)
  | some (.float x) =>
    if x.isNaN then some .sleepNotANumber
    else if x > 9e9 || x == -1.0 / 0.0 then some .sleepOutOfRange
    else if x < 0.0 then some .sleepNegative
    else none
  | some (.int n) =>
    if n > 9000000000 then some .sleepTooLong
    else if n < 0 then some .sleepNegative
    else none

/-- The durations that can be waited for. -/
def Value.canSleep (duration : Value) : Bool := duration.refusal?.isNone

/-- An event and the instrument in whose track it stands. -/
structure TrackEntry where
  instrument : String
  event : TrackEvent

namespace TrackEntry

def duration (entry : TrackEntry) : Value :=
  match entry.event with
  | .note _ duration | .rest duration | .plain _ duration => duration

/-- How loud the soft palette plays at a volume. -/
def loudness (volume : Float) : Float := if 0.6 < volume * 0.4 then 0.6 else volume * 0.4

/-- Whether a sound is that of a note on its instrument, at some volume. -/
def HeardAs (entry : TrackEntry) (sound : Sound) : Prop :=
  ∃ pitch duration frequency wave volume,
    entry.event = .note pitch duration ∧ Pitch.frequency pitch = .ok frequency ∧
    (Synthesizer.ofPalette .soft Synthesizer.standardRate).wave (.float frequency) duration
      (.text entry.instrument) = .ok wave ∧
    sound.samples = Sound.quantize 0.8 20000.0 (wave.map (· * loudness volume))

end TrackEntry

namespace Engine

/-- The sounds that were played, in their order. -/
def sounds (e : Engine) : List Sound := e.log.toList.filterMap Effect.sound?

/-- The durations that were waited for, in their order. -/
def sleeps (e : Engine) : List Value := e.log.toList.filterMap Effect.sleep?

theorem filterMap_silent {α : Type} {f : Effect → Option α} (hf : ∀ s, f (.text s) = none)
    (e : Engine) : e.silent.log.toList.filterMap f = e.log.toList.filterMap f := by
  rw [silent, Array.toList_filter, List.filterMap_filter]
  refine List.filterMap_congr fun effect _ => ?_
  cases effect with
  | text s => exact (hf s).symm
  | _ => rfl

theorem filterMap_push {α : Type} (f : Effect → Option α) (log : Array Effect) (effect : Effect) :
    (log.push effect).toList.filterMap f = log.toList.filterMap f ++ (f effect).toList := by
  rw [Array.toList_push, List.filterMap_append]
  cases h : f effect <;> simp [h]

theorem sounds_of_silent {e d : Engine} (h : d.silent = e.silent) : d.sounds = e.sounds :=
  read_of_silent sounds (filterMap_silent fun _ => rfl) h

theorem sleeps_of_silent {e d : Engine} (h : d.silent = e.silent) : d.sleeps = e.sleeps :=
  read_of_silent sleeps (filterMap_silent fun _ => rfl) h

theorem tracks_of_silent {e d : Engine} (h : d.silent = e.silent) : d.tracks = e.tracks :=
  read_of_silent tracks (fun _ => rfl) h

theorem synthesizer_of_silent {e d : Engine} (h : d.silent = e.silent) :
    d.synthesizer = e.synthesizer :=
  read_of_silent synthesizer (fun _ => rfl) h

/-- The entries that were added on the way from one engine to another, in their order: each
event at the end of the track of the instrument of its moment. -/
inductive Appends : Engine → List TrackEntry → Engine → Prop where
  | keep {e d : Engine} (h : d.tracks = e.tracks) : Appends e [] d
  | add {e d : Engine} {table : Tracks} {name : String} {event : TrackEvent}
      (htable : e.tracks = some table) (hname : e.instrument = some (.text name))
      (h : d.tracks = some (table.update (.text name) fun events => events.getD [] ++ [event])) :
      Appends e [⟨name, event⟩] d
  | trans {a b c : Engine} {first second : List TrackEntry} (hab : Appends a first b)
      (hbc : Appends b second c) : Appends a (first ++ second) c

/-- The tracks are the parts of a history, in the order in which its instruments come first. -/
structure Sorted (history : List TrackEntry) (e : Engine) : Prop where
  keys : (e.tracks.getD []).keys = (history.map TrackEntry.instrument).eraseDups.map .text
  track : ∀ name, ((e.tracks.getD []).find? (.text name)).getD [] =
    (history.filter fun entry => entry.instrument == name).map TrackEntry.event

namespace Sorted

variable {history : List TrackEntry} {e d : Engine}

theorem add {table : Tracks} {name : String} {event : TrackEvent} (he : Sorted history e)
    (htable : e.tracks = some table)
    (h : d.tracks = some (table.update (.text name) fun events => events.getD [] ++ [event])) :
    Sorted (history ++ [⟨name, event⟩]) d := by
  obtain ⟨hkeys, htrack⟩ := he
  rw [htable, Option.getD_some] at hkeys htrack
  constructor
  · rw [h, Option.getD_some, Table.keys_update hkeys, List.map_append, List.map_singleton,
      eraseDups_concat]
    simp only [List.mem_eraseDups, List.contains_iff_mem]
  · intro other
    rw [h, Option.getD_some, Table.find?_update hkeys, List.filter_append, List.map_append,
      ← htrack]
    by_cases hname : other = name
    · simp [hname]
    · have hne : ¬ name = other := fun h => hname h.symm
      simp [hname, hne]

theorem append {entries : List TrackEntry} (h : Appends e entries d) (he : Sorted history e) :
    Sorted (history ++ entries) d := by
  induction h generalizing history with
  | keep h =>
      rw [List.append_nil]
      exact ⟨h ▸ he.keys, h ▸ he.track⟩
  | add htable _ h => exact he.add htable h
  | trans _ _ ihab ihbc =>
      rw [← List.append_assoc]
      exact ihbc (ihab he)

end Sorted

/-- The entries that were added on the way from one engine to another, together with the sounds
and waits that they stand for. -/
structure Adds (e : Engine) (entries : List TrackEntry) (d : Engine) : Prop where
  appends : Appends e entries d
  sounds : ∃ added, d.sounds = e.sounds ++ added ∧
    List.Forall₂ TrackEntry.HeardAs (entries.filter fun entry => entry.event.isNote) added
  sleeps : d.sleeps = e.sleeps ++ (entries.map TrackEntry.duration).filter Value.canSleep

namespace Adds

variable {a b c e d : Engine} {first second : List TrackEntry}

/-- Nothing is added as long as tracks, sounds and waits stay. -/
theorem none (htracks : d.tracks = e.tracks) (hsounds : d.sounds = e.sounds)
    (hsleeps : d.sleeps = e.sleeps) : Adds e [] d :=
  ⟨.keep htracks, ⟨[], by rw [hsounds, List.append_nil], .nil⟩, by rw [hsleeps]; simp⟩

theorem of_silent (h : d.silent = e.silent) : Adds e [] d :=
  none (tracks_of_silent h) (sounds_of_silent h) (sleeps_of_silent h)

theorem trans (hab : Adds a first b) (hbc : Adds b second c) : Adds a (first ++ second) c := by
  obtain ⟨added, hadded, hheard⟩ := hab.sounds
  obtain ⟨further, hfurther, hheard'⟩ := hbc.sounds
  refine ⟨hab.appends.trans hbc.appends, ⟨added ++ further, ?_, ?_⟩, ?_⟩
  · rw [hfurther, hadded, List.append_assoc]
  · rw [List.filter_append]
    exact List.rel_append hheard hheard'
  · rw [hbc.sleeps, hab.sleeps, List.map_append, List.filter_append, List.append_assoc]

end Adds

/-- A history that tells everything: what the tracks hold, which sounds were played and how long
the engine waited. -/
structure Documents (history : List TrackEntry) (e : Engine) : Prop extends Sorted history e where
  sounds : List.Forall₂ TrackEntry.HeardAs (history.filter fun entry => entry.event.isNote) e.sounds
  sleeps : e.sleeps = (history.map TrackEntry.duration).filter Value.canSleep

theorem Documents.append {history entries : List TrackEntry} {e d : Engine} (h : Adds e entries d)
    (he : Documents history e) : Documents (history ++ entries) d := by
  obtain ⟨added, hadded, hheard⟩ := h.sounds
  refine ⟨he.toSorted.append h.appends, ?_, ?_⟩
  · rw [hadded, List.filter_append]
    exact List.rel_append he.sounds hheard
  · rw [h.sleeps, he.sleeps, List.map_append, List.filter_append]

/-- An engine of the soft palette that has tracks if it has a synthesizer at all. -/
structure Equipped (e : Engine) : Prop where
  tuned : e.Tuned
  synthesizer : ∀ s, e.synthesizer = some s →
    s = .ofPalette .soft Synthesizer.standardRate ∧ e.tracks.isSome = true

theorem Path.synthesizer {e d : Engine} (h : e.Path d) : d.synthesizer = e.synthesizer := by
  induction h with
  | refl => rfl
  | tail _ hstep ih =>
      rw [← ih]
      cases hstep <;> rfl

theorem Equipped.path {e d : Engine} (he : e.Equipped) (h : e.Path d) : d.Equipped := by
  refine ⟨h.tuned he.tuned, fun s hs => ?_⟩
  rw [h.synthesizer] at hs
  rw [h.tracks_isSome]
  exact he.synthesizer s hs

theorem Equipped.built (device : Device) : (built .soft device).Equipped := by
  refine ⟨tuned_build device, fun s hs => ?_⟩
  cases device with
  | working format =>
      have hsilent := silent_built_working .soft format
      rw [synthesizer_of_silent hsilent] at hs
      rw [tracks_of_silent hsilent]
      cases hs
      exact ⟨rfl, rfl⟩
  | broken reason =>
      rw [synthesizer_of_silent (silent_built_broken reason)] at hs
      cases hs

end Engine

namespace Perform

theorem runOn_guard {α : Type} {c : Prop} [Decidable c] (f : Failure) (next : Unit → Perform α)
    (e : Engine) : (if c then MonadExcept.throw f >>= next else next ()).runOn e =
      if c then (.error f, e) else (next ()).runOn e := by
  split <;> rfl

theorem runOn_sleep (duration : Value) (e : Engine) :
    (sleep duration).runOn e =
      match duration.refusal? with
      | some f => (.error f, e)
      | none => (.ok (), { e with log := e.log.push (.sleep duration) }) := by
  unfold sleep Value.refusal?
  cases duration.number? with
  | none => rfl
  | some n =>
      cases n with
      | float x =>
          dsimp only
          rw [runOn_guard, runOn_guard, runOn_guard]
          split
          · rfl
          · split
            · rfl
            · split <;> rfl
      | int n =>
          dsimp only
          rw [runOn_guard, runOn_guard]
          split
          · rfl
          · split <;> rfl

theorem runOn_record_sleep {e : Engine} {table : Tracks} {v : Value}
    (ht : e.tracks = some table) (hv : e.instrument = some v) (hkey : v.requireKey = .ok ())
    (event : TrackEvent) (duration : Value) :
    ((record event >>= fun _ => sleep duration).runOn e).2 = { e with
      tracks := some (table.update v fun events => events.getD [] ++ [event])
      log := if duration.canSleep then e.log.push (.sleep duration) else e.log } := by
  rw [runOn_bind, runOn_record ht hv, hkey]
  change ((sleep duration).runOn { e with
    tracks := some (table.update v fun events => events.getD [] ++ [event]) }).2 = _
  rw [runOn_sleep, Value.canSleep]
  cases duration.refusal? <;> rfl

/-- What has sounded, if anything, is followed by its event and its wait. -/
theorem adds_record_sleep {e : Engine} {table : Tracks} {name : String}
    (ht : e.tracks = some table) (hname : e.instrument = some (.text name)) (event : TrackEvent)
    {log : Array Effect} {added : List Sound}
    (hsounds : log.toList.filterMap Effect.sound? = e.sounds ++ added)
    (hsleeps : log.toList.filterMap Effect.sleep? = e.sleeps)
    (hheard : List.Forall₂ TrackEntry.HeardAs
      ([⟨name, event⟩].filter fun entry => entry.event.isNote) added) :
    e.Adds [⟨name, event⟩] ((record event >>= fun _ =>
      sleep (TrackEntry.mk name event).duration).runOn { e with log }).2 := by
  rw [runOn_record_sleep (e := { e with log }) ht hname rfl event]
  refine ⟨.add ht hname rfl, ⟨added, ?_, hheard⟩, ?_⟩
  · rw [← hsounds, Engine.sounds]
    split
    · rw [Engine.filterMap_push]
      exact List.append_nil _
    · rfl
  · rw [← hsleeps, List.map_singleton, List.filter_singleton, Engine.sleeps]
    cases (TrackEntry.mk name event).duration.canSleep with
    | true => exact Engine.filterMap_push Effect.sleep? log _
    | false => exact (List.append_nil _).symm

/-- An action that adds to the history whatever else it does. -/
def Adding {α : Type} (x : Perform α) (e : Engine) : Prop := ∃ entries, e.Adds entries (x.runOn e).2

namespace Adding

variable {α β : Type} {e : Engine}

theorem prints {x : Perform α} (h : Prints x) (e : Engine) : x.Adding e :=
  ⟨[], .of_silent (h.silent e)⟩

theorem bind {x : Perform α} {f : α → Perform β} (hx : Prints x)
    (hf : ∀ a d, x.runOn e = (.ok a, d) → (f a).Adding d) : (x >>= f).Adding e := by
  have hadds := Engine.Adds.of_silent (hx.silent e)
  rw [Adding, runOn_bind]
  cases h : x.runOn e with
  | mk r d =>
      rw [h] at hadds
      cases r with
      | ok a =>
          obtain ⟨entries, hentries⟩ := hf a d h
          exact ⟨entries, hadds.trans hentries⟩
      | error f => exact ⟨[], hadds⟩

theorem tryCatch {x : Perform α} {handle : Failure → Perform α} (hx : x.Adding e)
    (hf : ∀ f, Prints (handle f)) : (MonadExcept.tryCatch x handle : Perform α).Adding e := by
  obtain ⟨entries, hentries⟩ := hx
  rw [Adding, runOn_tryCatch]
  cases (x.runOn e).1 with
  | ok a => exact ⟨entries, hentries⟩
  | error f =>
      have hreport := Engine.Adds.of_silent ((hf f).silent (x.runOn e).2)
      exact ⟨entries ++ [], hentries.trans hreport⟩

end Adding

theorem noteWave_ok {pitch duration : Value} {e d : Engine} {wave : Wave}
    (h : (noteWave pitch duration).runOn e = (.ok wave, d)) :
    d = e ∧ ∃ s frequency v, e.synthesizer = some s ∧ e.instrument = some v ∧
      Pitch.frequency pitch = .ok frequency ∧ s.wave (.float frequency) duration v = .ok wave := by
  obtain ⟨s, hs, h⟩ := part_bind_ok h
  obtain ⟨frequency, hfrequency, h⟩ := lift_bind_ok h
  obtain ⟨v, hv, h⟩ := part_bind_ok h
  obtain ⟨hwave, rfl⟩ := lift_ok h
  exact ⟨rfl, s, frequency, v, hs, hv, hfrequency, hwave⟩

namespace Adding

variable {e : Engine}

theorem softNote (he : e.Equipped) (pitch duration : Value) :
    (softNote pitch duration).Adding e := by
  refine bind (.describeNote pitch duration) fun _ d hd => ?_
  have hpath := ((Prints.describeNote pitch duration).acts e).path
  rw [hd] at hpath
  have hd := he.path hpath
  refine bind (.noteWave pitch duration) fun wave c hanswer => ?_
  obtain ⟨rfl, s, frequency, v, hs, hv, hfrequency, hwave⟩ := noteWave_ok hanswer
  obtain ⟨rfl, htracks⟩ := hd.synthesizer s hs
  obtain ⟨table, htable⟩ := Option.isSome_iff_exists.1 htracks
  obtain ⟨name, rfl⟩ := hd.tuned.instrument v hv
  refine bind .volume fun volume b hvolume => ?_
  obtain ⟨-, rfl⟩ := part_ok hvolume
  refine bind .softStereo fun stereo a ha => ?_
  have hsilent := Prints.softStereo.silent b
  rw [ha] at hsilent
  rw [← Engine.tracks_of_silent hsilent] at htable
  rw [← Engine.instrument_of_silent hsilent] at hv
  cases stereo with
  | none => exact prints (.pure ()) a
  | some stereo =>
      have hheard : (TrackEntry.mk name (.note pitch duration)).HeardAs ⟨Sound.quantize 0.8 20000.0
          (wave.map (· * TrackEntry.loudness volume)), stereo⟩ :=
        ⟨pitch, duration, frequency, wave, volume, rfl, hfrequency, hwave, rfl⟩
      exact ⟨_, adds_record_sleep htable hv (.note pitch duration)
        (Engine.filterMap_push Effect.sound? a.log _)
        ((Engine.filterMap_push Effect.sleep? a.log _).trans (List.append_nil _))
        (.cons hheard .nil)⟩

theorem record_sleep (he : e.Tuned) (duration : Value) :
    (record (.rest duration) >>= fun _ => sleep duration).Adding e := by
  have hlost {f : Failure} (h : (record (.rest duration)).runOn e = (.error f, e)) :
      (record (.rest duration) >>= fun _ => sleep duration).Adding e := by
    rw [Adding, runOn_bind, h]
    exact ⟨[], .of_silent rfl⟩
  cases ht : e.tracks with
  | none =>
      refine hlost (f := e.missing "tracks") ?_
      rw [record, runOn_bind, tracks, runOn_part, ht]
      rfl
  | some table =>
      cases hv : e.instrument with
      | none =>
          refine hlost (f := e.missing "current_instrument") ?_
          rw [record, runOn_bind, tracks, runOn_part, ht]
          change (instrument >>= _).runOn e = _
          rw [runOn_bind, instrument, runOn_part, hv]
          rfl
      | some v =>
          obtain ⟨name, rfl⟩ := he.instrument v hv
          exact ⟨_, adds_record_sleep ht hv (.rest duration) (List.append_nil _).symm rfl .nil⟩

theorem playRest (he : e.Tuned) (duration : Value) : (playRest duration).Adding e := by
  refine bind (.lift _) fun line d hline => ?_
  obtain ⟨-, rfl⟩ := lift_ok hline
  refine bind (.say _) fun _ c hc => ?_
  have hpath := ((Prints.say ("🔇 休止符: " ++ line ++ "s")).acts d).path
  rw [hc] at hpath
  exact record_sleep (hpath.tuned he) duration

/-- What leaves tracks and outside alone adds nothing. -/
theorem of_alike {x : Perform Unit} {r : Except Failure Unit} {c : Engine}
    (h : Alike (x.runOn e) (r, c)) (htracks : c.tracks = e.tracks) (hlog : c.log = e.log) :
    x.Adding e := by
  have hsounds : c.sounds = e.sounds := by rw [Engine.sounds, hlog, ← Engine.sounds]
  have hsleeps : c.sleeps = e.sleeps := by rw [Engine.sleeps, hlog, ← Engine.sleeps]
  exact ⟨[], .none ((Engine.tracks_of_silent h.2).trans htracks)
    ((Engine.sounds_of_silent h.2).trans hsounds) ((Engine.sleeps_of_silent h.2).trans hsleeps)⟩

theorem setVolume (viaRef : Bool) (level : Value) : (setVolume viaRef level).Adding e := by
  have halike := alike_setVolume viaRef level e
  cases h : clampVolume level with
  | ok x =>
      rw [h] at halike
      exact of_alike halike rfl rfl
  | error f =>
      rw [h] at halike
      exact of_alike halike rfl rfl

theorem chooseInstrument (name : Value) : (chooseInstrument name).Adding e := by
  cases hs : e.synthesizer with
  | none =>
      rw [Adding, Perform.chooseInstrument, runOn_bind, synthesizer, runOn_part, hs]
      exact ⟨[], .of_silent rfl⟩
  | some s =>
      have halike := alike_chooseInstrument hs name
      cases h : choice s name with
      | ok v =>
          rw [h] at halike
          exact of_alike halike rfl rfl
      | error f =>
          rw [h] at halike
          exact of_alike halike rfl rfl

theorem setVariable (name value : Value) : (setVariable name value).Adding e := by
  cases ht : e.store with
  | none =>
      rw [Adding, Perform.setVariable, runOn_bind, store, runOn_part, ht]
      exact ⟨[], .of_silent rfl⟩
  | some table =>
      rw [Adding, runOn_setVariable ht]
      cases name.requireKey <;> exact ⟨[], .none rfl rfl rfl⟩

/-- Whatever an engine does, it adds to its history. -/
theorem deed {x : Perform Unit} (hx : Deed x) (he : e.Equipped) : x.Adding e := by
  cases hx with
  | print s => exact prints (.basic ⟨s, rfl⟩) e
  | setTempo viaRef bpm => exact of_alike (alike_setTempo viaRef bpm e) rfl rfl
  | setVolume viaRef level => exact setVolume viaRef level
  | setInstrument viaRef name =>
      rw [Adding, runOn_setInstrument_soft he.tuned.soft]
      exact chooseInstrument name
  | setVariable name value => exact setVariable name value
  | note pitch duration =>
      rw [Adding, runOn_note_soft he.tuned.soft]
      exact tryCatch (softNote he pitch duration) fun _ =>
        .bind (Prints.say _) fun _ => Prints.say _
  | rest duration => exact playRest he.tuned duration
  | halt =>
      have hquiet {α : Type} (f : Effect → Option α) (h : f .halt = none) :
          (e.log.push .halt).toList.filterMap f = e.log.toList.filterMap f := by
        rw [Engine.filterMap_push, h]
        exact List.append_nil _
      exact ⟨[], .none rfl (hquiet Effect.sound? rfl) (hquiet Effect.sleep? rfl)⟩

end Adding
end Perform

namespace Engine

/-- Whatever commands it is given, an engine only adds to its history. -/
theorem Equipped.session {e : Engine} (he : e.Equipped) (commands : List Command) :
    (Command.session commands e).Equipped ∧
      ∃ entries, e.Adds entries (Command.session commands e) := by
  have hkept := Command.keeps_session
    (R := fun e d => e.Equipped → d.Equipped ∧ ∃ entries, e.Adds entries d)
    (fun e he => ⟨he, [], .of_silent rfl⟩) (fun {a b c} hab hbc ha => ?_)
    (fun x hx e he => ⟨he.path (hx.acts e).path, Perform.Adding.deed hx he⟩) commands e
  · exact hkept he
  · obtain ⟨hb, first, hfirst⟩ := hab ha
    obtain ⟨hc, second, hsecond⟩ := hbc hb
    exact ⟨hc, first ++ second, hfirst.trans hsecond⟩

theorem documents_built (device : Device) : Documents [] (built .soft device) := by
  have hnew {e : Engine} (h : (built .soft device).silent = e.silent)
      (htracks : e.tracks.getD [] = []) (hlog : e.log = #[]) :
      Documents [] (built .soft device) := by
    have hsounds : e.sounds = [] := by rw [sounds, hlog]; rfl
    have hsleeps : e.sleeps = [] := by rw [sleeps, hlog]; rfl
    refine ⟨⟨?_, fun name => ?_⟩, ?_, ?_⟩
    · rw [tracks_of_silent h, htracks]
      rfl
    · rw [tracks_of_silent h, htracks]
      rfl
    · rw [sounds_of_silent h, hsounds]
      exact .nil
    · rw [sleeps_of_silent h, hsleeps]
      rfl
  cases device with
  | working format => exact hnew (silent_built_working .soft format) rfl rfl
  | broken reason => exact hnew (silent_built_broken reason) rfl rfl

end Engine
end TuneScript
