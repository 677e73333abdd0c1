import TuneScript.Proofs.Deeds
import TuneScript.Proofs.Tables

/-!
The settings of an engine. Each setter is described by what it leaves behind. From that it
follows that volume, instrument and tracks of an engine of the soft palette keep their
bounds, whatever it is told to do, and that a setting that fails changes nothing.
-/

namespace TuneScript

theorem Result.bind_eq_ok {α β : Type} {r : Result α} {f : α → Result β} {b : β} :
    (r >>= f) = .ok b ↔ ∃ a, r = .ok a ∧ f a = .ok b := by
  constructor
  · intro h
    cases r with
    | ok a => exact ⟨a, rfl, h⟩
    | error f => cases h
  · rintro ⟨a, rfl, h⟩
    exact h

theorem Result.bind_of_ok {α β : Type} {r : Result α} {f : α → Result β} {a : α}
    (h : r = .ok a) : (r >>= f) = f a := by
  rw [h]
  rfl

theorem Result.bind_of_error {α β : Type} {r : Result α} {f : α → Result β} {failure : Failure}
    (h : r = .error failure) : (r >>= f) = .error failure := by
  rw [h]
  rfl

namespace Number

theorem compare?_one (n : Int) : (int n).compare? (.float 1.0) = some (compare n 1) := by
  have hone : Binary.ofFloat 1.0 = .finite false (2 ^ 52) (-52) := by decide
  simp only [compare?, compareFloatInt?, hone, Binary.compareInt, Option.map_some]
  congr 1
  change (compare ((2 ^ 52 : Nat) : Int) (n * ((2 ^ 52 : Nat) : Int))).swap = _
  rcases Int.lt_trichotomy n 1 with h | rfl | h
  · rw [Int.compare_eq_lt.2 h, Int.compare_eq_gt.2 (by omega), Ordering.swap_gt]
  · rfl
  · rw [Int.compare_eq_gt.2 h, Int.compare_eq_lt.2 (by omega), Ordering.swap_lt]

theorem compare?_zero (n : Int) : (int n).compare? (.float 0.0) = some (compare n 0) := by
  have hzero : Binary.ofFloat 0.0 = .finite false 0 Binary.minExponent := by decide
  have hpos (k : Nat) : 0 < ((Nat.pow 2 k : Nat) : Int) := Int.natCast_pos.2 (Nat.two_pow_pos k)
  simp only [compare?, compareFloatInt?, hzero, Binary.compareInt, Option.map_some]
  congr 1
  change (compare (0 : Int) (n * ((Nat.pow 2 (-Binary.minExponent).toNat : Nat) : Int))).swap = _
  rcases Int.lt_trichotomy n 0 with h | rfl | h
  · rw [Int.compare_eq_lt.2 h, Int.compare_eq_gt.2 (Int.mul_neg_of_neg_of_pos h (hpos _)),
      Ordering.swap_gt]
  · rw [Int.zero_mul]
    rfl
  · rw [Int.compare_eq_gt.2 h, Int.compare_eq_lt.2 (Int.mul_pos h (hpos _)), Ordering.swap_lt]

end Number

namespace Value

/-- The first of two values, unless the second is less. -/
def least (a b : Value) : Result Value := do
  return if ← b.related .lt a then b else a

/-- The first of two values, unless the second is greater. -/
def greatest (a b : Value) : Result Value := do
  return if ← b.related .gt a then b else a

theorem lt_of_related {x y : Float} (h : related .lt (.float x) (.float y) = .ok true) :
    x < y := by
  have h : ((Number.float x).compare? (.float y)).any Relation.lt.holds = true :=
    Except.ok.inj h
  simp only [Number.compare?] at h
  split at h
  · assumption
  · split at h
    · cases h
    · split at h <;> cases h

theorem gt_of_related {x y : Float} (h : related .gt (.float x) (.float y) = .ok true) :
    x > y := by
  have h : ((Number.float x).compare? (.float y)).any Relation.gt.holds = true :=
    Except.ok.inj h
  simp only [Number.compare?] at h
  split at h
  · cases h
  · split at h
    · cases h
    · split at h
      · assumption
      · cases h

end Value

namespace Perform

theorem clampVolume_bounds {level : Value} {x : Float} (h : clampVolume level = .ok x) :
    x = 0.0 ∨ x = 1.0 ∨ x < 1.0 ∧ x > 0.0 := by
  obtain ⟨below, hlt, h⟩ := Result.bind_eq_ok.1 h
  cases below with
  | false =>
      cases h
      exact .inr (.inl rfl)
  | true =>
      obtain ⟨above, hgt, h⟩ := Result.bind_eq_ok.1 h
      cases above with
      | false =>
          cases h
          exact .inl rfl
      | true =>
          cases level with
          | float y =>
              cases h
              exact .inr (.inr ⟨Value.lt_of_related hlt, Value.gt_of_related hgt⟩)
          | _ =>
              cases h
              exact .inl rfl

/-- No whole number lies between nothing and full. -/
theorem greatest_least_whole {level : Value} {n : Int}
    (hlt : level.related .lt (.float 1.0) = .ok (decide (n < 1)))
    (hgt : level.related .gt (.float 0.0) = .ok (decide (0 < n))) :
    (Value.least (.float 1.0) level >>= Value.greatest (.float 0.0)) =
      (clampVolume level).map Value.float := by
  unfold Value.least clampVolume
  rw [hlt]
  by_cases h : n < 1
  · have hpos : ¬ 0 < n := by omega
    rw [decide_eq_true h]
    change Value.greatest (.float 0.0) level = _
    rw [Value.greatest, hgt, decide_eq_false hpos]
    rfl
  · rw [decide_eq_false h]
    rfl

/-- The level is the one of three numbers that lies between the others, and always a float,
though the order in which they are compared matters. -/
theorem greatest_least (level : Value) :
    (Value.least (.float 1.0) level >>= Value.greatest (.float 0.0)) =
      (clampVolume level).map Value.float := by
  have hlt (n : Int) : Value.related .lt (.int n) (.float 1.0) = .ok (decide (n < 1)) := by
    change Except.ok (((Number.int n).compare? (.float 1.0)).any Relation.lt.holds) = _
    rw [Number.compare?_one]
    congr 1
    rw [Bool.eq_iff_iff]
    simp [Relation.holds, Int.compare_eq_lt]
  have hgt (n : Int) : Value.related .gt (.int n) (.float 0.0) = .ok (decide (0 < n)) := by
    change Except.ok (((Number.int n).compare? (.float 0.0)).any Relation.gt.holds) = _
    rw [Number.compare?_zero]
    congr 1
    rw [Bool.eq_iff_iff]
    simp [Relation.holds, Int.compare_eq_gt]
  cases level with
  | null | text _ | list _ | record _ | nan _ => rfl
  | bool b => exact greatest_least_whole (hlt (if b then 1 else 0)) (hgt (if b then 1 else 0))
  | int n => exact greatest_least_whole (hlt n) (hgt n)
  | float x =>
      unfold Value.least clampVolume
      cases hlt : Value.related .lt (.float x) (.float 1.0) with
      | error f => rfl
      | ok below =>
          cases below with
          | false => rfl
          | true =>
              change Value.greatest (.float 0.0) (.float x) = _
              unfold Value.greatest
              cases hgt : Value.related .gt (.float x) (.float 0.0) with
              | error f => rfl
              | ok above => cases above <;> rfl

/-- A line with a text in it, if the text can be had. -/
theorem alike_lift_say (r : Result String) (line : String → String) (e : Engine) :
    Alike ((lift r >>= fun s => say (line s)).runOn e) (r.map fun _ => (), e) := by
  cases r with
  | ok s => exact ⟨rfl, silent_say (line s) e⟩
  | error f => exact .refl _

/-- The tempo is set even if it cannot be shown. -/
theorem alike_setTempo (viaRef : Bool) (bpm : Value) (e : Engine) :
    Alike ((setTempo viaRef bpm).runOn e)
      (bpm.display.map fun _ => (), { e with tempo := some bpm }) :=
  alike_lift_say bpm.display _ { e with tempo := some bpm }

/-- What is left of an engine when a setting has been tried. -/
def settled {α : Type} (r : Result α) (set : α → Engine) (e : Engine) :
    Except Failure Unit × Engine :=
  match r with
  | .ok a => (.ok (), set a)
  | .error f => (.error f, e)

theorem alike_setVolume (viaRef : Bool) (level : Value) (e : Engine) :
    Alike ((setVolume viaRef level).runOn e)
      (settled (clampVolume level) (fun x => { e with volume := some x }) e) := by
  unfold setVolume
  cases clampVolume level with
  | ok x => exact ⟨rfl, silent_say _ { e with volume := some x }⟩
  | error f => exact .refl _

/-- Whether a value names an instrument. -/
def knows (s : Synthesizer) : Value → Bool
  | .text name => s.instruments.contains name
  | _ => false

/-- The instrument that the soft palette takes for a name, if the name can be a key and can be
shown. -/
def choice (s : Synthesizer) (name : Value) : Result Value := do
  name.requireKey
  let _ ← name.display
  return if knows s name then name else .text Synthesizer.fallback

theorem display_of_knows {s : Synthesizer} {name : Value} (h : knows s name = true) :
    ∃ t, name = .text t ∧ t ∈ s.instruments := by
  cases name with
  | text t => exact ⟨t, rfl, List.contains_iff_mem.1 h⟩
  | _ => cases h

theorem known_of_choice {rate : Int} {name v : Value}
    (h : choice (.ofPalette .soft rate) name = .ok v) :
    ∃ t ∈ Presets.soft.map Prod.fst, some v = some (.text t) := by
  obtain ⟨_, -, h⟩ := Result.bind_eq_ok.1 h
  obtain ⟨_, -, h⟩ := Result.bind_eq_ok.1 h
  cases h
  split
  · next hknown =>
    obtain ⟨t, rfl, ht⟩ := display_of_knows hknown
    exact ⟨t, ht, rfl⟩
  · exact ⟨Synthesizer.fallback, by decide, rfl⟩

theorem alike_chooseInstrument {e : Engine} {s : Synthesizer} (h : e.synthesizer = some s)
    (name : Value) :
    Alike ((chooseInstrument name).runOn e)
      (settled (choice s name) (fun v => { e with instrument := some v }) e) := by
  have hpart : synthesizer.runOn e = (.ok s, e) := by
    rw [synthesizer, runOn_part, h]
  unfold chooseInstrument choice
  rw [runOn_bind, hpart]
  change Alike ((lift name.requireKey >>= fun _ => if knows s name = true then _ else _).runOn e) _
  cases name.requireKey with
  | error f => exact .refl _
  | ok u =>
      by_cases hknown : knows s name = true
      · obtain ⟨t, rfl, -⟩ := display_of_knows hknown
        simp only [if_pos hknown]
        exact ⟨rfl, silent_say _ { e with instrument := some (.text t) }⟩
      · simp only [if_neg hknown, shown]
        cases name.display with
        | ok t =>
            exact ⟨rfl, congrArg (fun e : Engine =>
              { e with instrument := some (.text Synthesizer.fallback) }) (silent_say _ e)⟩
        | error f => exact .refl _

theorem runOn_setInstrument_soft {e : Engine} (h : e.palette = .soft) (viaRef : Bool)
    (name : Value) : (setInstrument viaRef name).runOn e = (chooseInstrument name).runOn e := by
  rw [setInstrument, runOn_get, h]

theorem alike_setInstrument_plain {e : Engine} (h : e.palette = .plain) (viaRef : Bool)
    (name : Value) :
    Alike ((setInstrument viaRef name).runOn e)
      (name.display.map fun _ => (), { e with instrument := some name }) := by
  rw [setInstrument, runOn_get]
  split
  · next hsoft =>
    rw [h] at hsoft
    cases hsoft
  · exact alike_lift_say name.display _ { e with instrument := some name }

theorem runOn_setVariable {e : Engine} {table : Table Value} (h : e.store = some table)
    (name value : Value) :
    (setVariable name value).runOn e =
      settled name.requireKey (fun _ => { e with store := some (table.insert name value) }) e := by
  have hpart : store.runOn e = (.ok table, e) := by
    rw [store, runOn_part, h]
  rw [setVariable, runOn_bind, hpart]
  change ((lift name.requireKey >>= fun _ => _).runOn e) = _
  cases name.requireKey <;> rfl

theorem runOn_record {e : Engine} {table : Tracks} {v : Value} (ht : e.tracks = some table)
    (hv : e.instrument = some v) (event : TrackEvent) :
    (record event).runOn e = settled v.requireKey (fun _ => { e with
      tracks := some (table.update v fun events => events.getD [] ++ [event]) }) e := by
  have htracks : tracks.runOn e = (.ok table, e) := by
    rw [tracks, runOn_part, ht]
  have hinstrument : instrument.runOn e = (.ok v, e) := by
    rw [instrument, runOn_part, hv]
  rw [record, runOn_bind, htracks]
  change (instrument >>= fun v => _).runOn e = _
  rw [runOn_bind, hinstrument]
  change ((lift v.requireKey >>= fun _ => _).runOn e) = _
  cases v.requireKey <;> rfl

section Leaves

variable {α β : Type}

/-- Actions that leave a part of the engine as it is. -/
abbrev Leaves (read : Engine → β) (x : Perform α) : Prop :=
  Composed (fun y => ∀ e, read (y.runOn e).2 = read e) x

namespace Leaves

variable {read : Engine → β}

theorem read_eq {x : Perform α} (h : Leaves read x) (e : Engine) : read (x.runOn e).2 = read e :=
  h.keeps (R := fun e d => read d = read e) (fun _ => rfl) (fun hab hbc => hbc.trans hab)
    (fun _ hx => hx) e

variable (hlog : ∀ (e : Engine) log, read { e with log } = read e)

include hlog

theorem print (s : String) (e : Engine) : read ((Perform.print s).runOn e).2 = read e := hlog e _

theorem setTempo (htempo : ∀ (e : Engine) tempo, read { e with tempo } = read e) (viaRef : Bool)
    (bpm : Value) : Leaves read (Perform.setTempo viaRef bpm) :=
  .bind (.basic fun e => htempo e _) fun _ => .bind (.refLabel viaRef) fun _ =>
    .bind (.shown bpm) fun _ => .say (print hlog) _

theorem setVolume (hvolume : ∀ (e : Engine) volume, read { e with volume } = read e)
    (viaRef : Bool) (level : Value) : Leaves read (Perform.setVolume viaRef level) :=
  .bind (.lift _) fun _ => .bind (.basic fun e => hvolume e _) fun _ =>
    .bind (.refLabel viaRef) fun _ => .say (print hlog) _

theorem setInstrument
    (hinstrument : ∀ (e : Engine) instrument, read { e with instrument } = read e)
    (viaRef : Bool) (name : Value) : Leaves read (Perform.setInstrument viaRef name) := by
  refine .ask (fun _ => ?_) fun hd => by rw [Engine.palette_of_silent hd]
  split
  · refine .bind .synthesizer fun _ => .bind (.lift _) fun _ => .ite ?_ ?_
    · exact .bind (.basic fun e => hinstrument e _) fun _ => .bind (.shown name) fun _ =>
        .say (print hlog) _
    · exact .bind (.shown name) fun _ => .bind (.say (print hlog) _) fun _ =>
        .basic fun e => hinstrument e _
  · exact .bind (.basic fun e => hinstrument e _) fun _ => .bind (.shown name) fun _ =>
      .say (print hlog) _

section Sounding

variable (htracks : ∀ (e : Engine) tracks, read { e with tracks } = read e)

include htracks

theorem playing {x : Perform Unit} (hx : Composed (Playing fun _ => True) x) (e : Engine) :
    read (x.runOn e).2 = read e := by
  refine hx.keeps (R := fun e d => read d = read e) (fun _ => rfl)
    (fun hab hbc => hbc.trans hab) ?_ e
  rintro _ (⟨effect⟩ | ⟨_⟩) e
  · exact hlog e _
  · have hrecord (event : TrackEvent) : Leaves read (Perform.record event) :=
      .bind .tracks fun _ => .bind .instrument fun _ => .bind (.lift _) fun _ =>
        .basic fun e => htracks e _
    exact (hrecord _).read_eq e

theorem note (pitch duration : Value) (e : Engine) :
    read ((Perform.note pitch duration).runOn e).2 = read e :=
  playing hlog htracks (Playing.note trivial trivial) e

theorem noteNode (node : Value) : Leaves read (Perform.noteNode node) :=
  Composed.noteNode (print hlog) (note hlog htracks) node

theorem chordNode (node : Value) : Leaves read (Perform.chordNode node) :=
  Composed.chordNode (print hlog) (note hlog htracks) node

theorem softRest (node : Value) :
    Leaves read (do if (← get).palette == .soft then restNode node) := by
  refine .ask (fun _ => .ite ?_ (.pure _)) fun hd => by rw [Engine.palette_of_silent hd]
  exact .bind (.valueOf _ _) fun _ => .basic (playing hlog htracks (Playing.playRest trivial))

end Sounding
end Leaves

end Leaves

end Perform

namespace Engine

/-- An engine of the soft palette that has its parts, a volume within bounds, a known
instrument, and tracks of such instruments with nothing but notes and rests. -/
structure WellSet (e : Engine) : Prop where
  soft : e.palette = .soft
  synthesizer : ∃ rate, e.synthesizer = some (.ofPalette .soft rate)
  store : ∃ table, e.store = some table
  volume : ∃ x, e.volume = some x ∧ (x = 0.0 ∨ x = 1.0 ∨ x < 1.0 ∧ x > 0.0)
  instrument : ∃ name ∈ Presets.soft.map Prod.fst, e.instrument = some (.text name)
  tracks : ∃ table, e.tracks = some table ∧ ∀ entry ∈ table,
    (∃ name ∈ Presets.soft.map Prod.fst, entry.1 = .text name) ∧
      ∀ event ∈ entry.2, event.isNote = true ∨ event.isRest = true

namespace WellSet

variable {e d : Engine}

theorem of_silent (h : d.silent = e.silent) (he : e.WellSet) : d.WellSet := by
  have hsilent : e.silent.WellSet := { he with }
  rw [← h] at hsilent
  exact { hsilent with }

theorem built (format : Option (List Value)) : (built .soft (.working format)).WellSet := by
  have hfresh : (fresh .soft (.working format) Synthesizer.standardRate).WellSet :=
    { soft := rfl
      synthesizer := ⟨_, rfl⟩
      store := ⟨_, rfl⟩
      volume := ⟨0.8, rfl, .inr (.inr (by decide))⟩
      instrument := ⟨Synthesizer.fallback, by decide, rfl⟩
      tracks := ⟨[], rfl, nofun⟩ }
  exact hfresh.of_silent (silent_built_working .soft format)

theorem emit (he : e.WellSet) (effect : Effect) : ((Perform.emit effect).runOn e).2.WellSet :=
  { he with }

theorem record (he : e.WellSet) {event : TrackEvent}
    (h : event.isNote = true ∨ event.isRest = true) :
    ((Perform.record event).runOn e).2.WellSet := by
  obtain ⟨name, hname, hinstrument⟩ := he.instrument
  obtain ⟨table, htable, hentries⟩ := he.tracks
  have hevents {events : List TrackEvent}
      (hold : ∀ event ∈ events, event.isNote = true ∨ event.isRest = true) :
      ∀ event' ∈ events ++ [event], event'.isNote = true ∨ event'.isRest = true := by
    intro event' hmem
    rcases List.mem_append.1 hmem with hmem | hmem
    · exact hold event' hmem
    · rw [List.mem_singleton.1 hmem]
      exact h
  rw [Perform.runOn_record htable hinstrument]
  refine { he with tracks := ⟨_, rfl, fun entry hentry => ?_⟩ }
  rcases Table.mem_update hentry with hold | rfl | ⟨events, hold, heq⟩
  · exact hentries entry hold
  · exact ⟨⟨name, hname, rfl⟩, hevents nofun⟩
  · rw [heq]
    exact ⟨(hentries _ hold).1, hevents (hentries _ hold).2⟩

theorem playing {x : Perform Unit}
    (hx : Perform.Composed
      (Perform.Playing fun event => event.isNote = true ∨ event.isRest = true) x)
    (he : e.WellSet) : (x.runOn e).2.WellSet := by
  refine hx.keeps (R := fun e d => e.WellSet → d.WellSet) (fun _ => id)
    (fun hab hbc => hbc ∘ hab) ?_ e he
  rintro _ (⟨effect⟩ | ⟨hevent⟩) e he
  · exact he.emit effect
  · exact he.record hevent

theorem setVolume (he : e.WellSet) (viaRef : Bool) (level : Value) :
    ((Perform.setVolume viaRef level).runOn e).2.WellSet := by
  refine of_silent (Perform.alike_setVolume viaRef level e).2 ?_
  cases h : Perform.clampVolume level with
  | ok x => exact { he with volume := ⟨x, rfl, Perform.clampVolume_bounds h⟩ }
  | error f => exact he

theorem setInstrument (he : e.WellSet) (viaRef : Bool) (name : Value) :
    ((Perform.setInstrument viaRef name).runOn e).2.WellSet := by
  obtain ⟨rate, hs⟩ := he.synthesizer
  rw [Perform.runOn_setInstrument_soft he.soft]
  refine of_silent (Perform.alike_chooseInstrument hs name).2 ?_
  cases h : Perform.choice (.ofPalette .soft rate) name with
  | ok v => exact { he with instrument := Perform.known_of_choice h }
  | error f => exact he

/-- Whatever an engine does, its settings keep their bounds. -/
theorem deed {x : Perform Unit} (hx : Perform.Deed x) (he : e.WellSet) :
    (x.runOn e).2.WellSet := by
  cases hx with
  | print s => exact he.emit _
  | setTempo viaRef bpm => exact of_silent (Perform.alike_setTempo viaRef bpm e).2 { he with }
  | setVolume viaRef level => exact he.setVolume viaRef level
  | setInstrument viaRef name => exact he.setInstrument viaRef name
  | setVariable name value =>
      obtain ⟨table, htable⟩ := he.store
      rw [Perform.runOn_setVariable htable]
      cases name.requireKey with
      | ok u => exact { he with store := ⟨_, rfl⟩ }
      | error f => exact he
  | note pitch duration =>
      rw [Perform.runOn_note_soft he.soft]
      exact he.playing (Perform.Playing.softAttempt (.inl rfl))
  | rest duration => exact he.playing (Perform.Playing.playRest (.inr rfl))
  | halt => exact he.emit _

theorem session (format : Option (List Value)) (commands : List Command) :
    (Command.session commands (Engine.built .soft (.working format))).WellSet :=
  Command.keeps_session (R := fun e d => e.WellSet → d.WellSet) (fun _ => id)
    (fun hab hbc => hbc ∘ hab) (fun _ hx _ he => he.deed hx) commands _ (built format)

end WellSet
end Engine

namespace Perform

/-- An action that leaves volume and instrument as they were when it fails. -/
def Spares (x : Perform Unit) (e : Engine) : Prop :=
  ∀ f d, x.runOn e = (.error f, d) → d.volume = e.volume ∧ d.instrument = e.instrument

namespace Spares

variable {e : Engine}

theorem of_alike {x : Perform Unit} {r : Except Failure Unit} {c : Engine}
    (h : Alike (x.runOn e) (r, c))
    (hspared : ∀ f, r = .error f → c.volume = e.volume ∧ c.instrument = e.instrument) :
    x.Spares e := by
  intro f d hx
  rw [hx] at h
  obtain ⟨hr, hd⟩ := h
  rw [Engine.volume_of_silent hd, Engine.instrument_of_silent hd]
  exact hspared f hr.symm

theorem pure (e : Engine) : (Pure.pure () : Perform Unit).Spares e := fun _ _ h => nomatch h

/-- Nothing is lost by what only looks and prints. -/
theorem bind {α : Type} {x : Perform α} {f : α → Perform Unit} (hx : Prints x)
    (hf : ∀ a d, d.palette = e.palette → (f a).Spares d) : (x >>= f).Spares e := by
  intro failure d h
  have hsilent := hx.silent e
  rw [← Engine.volume_of_silent hsilent, ← Engine.instrument_of_silent hsilent]
  rw [runOn_bind] at h
  cases hanswer : (x.runOn e).1 with
  | ok a =>
      rw [hanswer] at h
      exact hf a _ (Engine.palette_of_silent hsilent) failure d h
  | error f =>
      rw [hanswer] at h
      cases h
      exact ⟨rfl, rfl⟩

theorem setTempo (viaRef : Bool) (bpm : Value) (e : Engine) : (setTempo viaRef bpm).Spares e :=
  of_alike (alike_setTempo viaRef bpm e) fun _ _ => ⟨rfl, rfl⟩

theorem setVolume (viaRef : Bool) (level : Value) (e : Engine) :
    (setVolume viaRef level).Spares e := by
  refine of_alike (alike_setVolume viaRef level e) ?_
  cases clampVolume level with
  | ok x => exact nofun
  | error f => exact fun _ _ => ⟨rfl, rfl⟩

theorem chooseInstrument (name : Value) (e : Engine) : (chooseInstrument name).Spares e := by
  cases h : e.synthesizer with
  | some s =>
      refine of_alike (alike_chooseInstrument h name) ?_
      cases choice s name with
      | ok v => exact nofun
      | error f => exact fun _ _ => ⟨rfl, rfl⟩
  | none =>
      intro f d hx
      rw [Perform.chooseInstrument, runOn_bind, synthesizer, runOn_part, h] at hx
      cases hx
      exact ⟨rfl, rfl⟩

theorem setInstrument (h : e.palette = .soft) (viaRef : Bool) (name : Value) :
    (setInstrument viaRef name).Spares e := by
  rw [Spares, runOn_setInstrument_soft h]
  exact chooseInstrument name e

theorem refCallNode (h : e.palette = .soft) (node : Value) : (refCallNode node).Spares e := by
  refine bind (.lift _) fun name c hc => bind (.shown _) fun _ b hb =>
    bind (.say _) fun _ a ha => ?_
  split
  · split
    · exact bind (.lift _) fun _ _ _ => bind (.valueOf _ _) fun level d _ => setVolume true level d
    · exact bind (.lift _) fun _ _ _ => bind (.valueOf _ _) fun bpm d _ => setTempo true bpm d
    · refine bind (.lift _) fun _ d hd => bind (.lift _) fun name d' hd' => ?_
      have hsoft : d'.palette = .soft := by rw [hd', hd, ha, hb, hc, h]
      exact setInstrument hsoft true name
    · exact pure a
  · exact pure a

theorem statement (h : e.palette = .soft) (run : Value → Perform Unit) {node : Value}
    (hnode : Node.typeName node ∈ ["volume", "instrument", "ref_call"]) :
    (statement run node).Spares e := by
  simp only [List.mem_cons, List.not_mem_nil, or_false] at hnode
  rcases hnode with hnode | hnode | hnode
  · simp only [Perform.statement, hnode]
    exact bind (.valueOf _ _) fun level d _ => setVolume false level d
  · simp only [Perform.statement, hnode]
    exact bind (.lift _) fun name d hd => setInstrument (hd.trans h) false name
  · simp only [Perform.statement, hnode]
    exact refCallNode h node

end Spares
end Perform

end TuneScript
