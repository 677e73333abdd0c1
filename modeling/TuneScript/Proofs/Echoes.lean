import TuneScript.Proofs.Singing

/-!
What two spellings of one program have in common to the ear. A note asks the synthesizer for a
frequency, and its sound is made of that. Marked in the run of the program, the frequencies show
that in both spellings the same notes are asked for in the same order, each for the frequency of
its own spelling; and where these are the same, so are all sounds.
-/

namespace TuneScript

namespace Effect

/-- A mark that no performance leaves, since nothing but a number can be waited for. -/
def asked (frequency : Float) : Effect := sleep (.record [("frequency", .float frequency)])

def frequency? : Effect → Option Float
  | sleep v =>
    match v.field? "frequency" with
    | some (.float x) => some x
    | _ => none
  | _ => none

/-- What is heard of an effect: a frequency that is asked for, or a sound. -/
def heard? : Effect → Option (Float ⊕ Sound)
  | sound s => some (.inr s)
  | effect => effect.frequency?.map .inl

theorem heard?_sleep {v : Value} {n : Number} (h : v.number? = some n) :
    heard? (.sleep v) = none := by
  cases v with
  | record fields => cases h
  | _ => rfl

end Effect

namespace Engine

def heard (e : Engine) : List (Float ⊕ Sound) := e.log.toList.filterMap Effect.heard?

theorem heard_of_silent {e d : Engine} (h : d.silent = e.silent) : d.heard = e.heard :=
  read_of_silent heard (filterMap_silent fun _ => rfl) h

theorem heard_of_log {e d : Engine} (h : d.log = e.log) : d.heard = e.heard := by
  rw [heard, heard, h]

theorem sounds_eq_heard (e : Engine) : e.sounds = e.heard.filterMap Sum.getRight? := by
  rw [heard, List.filterMap_filterMap]
  refine List.filterMap_congr fun effect _ => ?_
  cases effect with
  | sleep v =>
      change none = (((Effect.sleep v).frequency?.map Sum.inl).bind Sum.getRight?)
      cases (Effect.sleep v).frequency? <;> rfl
  | _ => rfl

end Engine

namespace Perform

/-- What a note asks the synthesizer for. The soft palette tells of the note before. -/
def asks (palette : Palette) (pitch duration : Value) : Perform Float :=
  match palette with
  | .soft => do
    describeNote pitch duration
    let _ ← synthesizer
    lift (Pitch.frequency pitch)
  | .plain => do
    let _ ← synthesizer
    lift (Pitch.frequency pitch)

/-- The sound that a frequency has, or nothing if the device cannot play. -/
def toned (palette : Palette) (duration : Value) (frequency : Float) : Perform (Option Sound) := do
  let synthesizer ← synthesizer
  let wave ← lift (synthesizer.wave (.float frequency) duration (← instrument))
  let volume ← volume
  match palette with
  | .soft => do
    let stereo ← softStereo
    return stereo.map fun stereo =>
      ⟨Sound.quantize 0.8 20000.0 (wave.map (· * TrackEntry.loudness volume)), stereo⟩
  | .plain => do
    let stereo ← plainStereo
    return some ⟨Sound.quantize 1.0 32767.0 (wave.map (· * volume)), stereo⟩

/-- A lookup does not change the synthesizer, which may be asked for again after it. -/
theorem synthesizer_again {α β : Type} (r : Result α) (k : Synthesizer → α → Perform β) :
    (do
      let s ← synthesizer
      let x ← lift r
      k s x) = (do
      let _ ← synthesizer
      let x ← lift r
      let s ← synthesizer
      k s x) := by
  funext e
  change (synthesizer >>= fun s => _).runOn e = (synthesizer >>= fun _ => _).runOn e
  rw [runOn_bind, runOn_bind, synthesizer, runOn_part]
  cases hs : e.synthesizer with
  | none => rfl
  | some s =>
      change (lift r >>= fun x => k s x).runOn e =
        (lift r >>= fun x => part "synthesizer" Engine.synthesizer >>= fun s => k s x).runOn e
      cases r with
      | error f => rfl
      | ok x =>
          change (k s x).runOn e = (part "synthesizer" Engine.synthesizer >>= _).runOn e
          rw [runOn_bind, runOn_part, hs]
          rfl

/-- A note is made of the frequency that it asks for. -/
theorem tone_eq (palette : Palette) (pitch duration : Value) :
    tone palette pitch duration = asks palette pitch duration >>= toned palette duration := by
  cases palette with
  | soft =>
      simp only [tone, asks, noteWave, bind_assoc]
      congr
      funext _
      exact synthesizer_again _ _
  | plain =>
      simp only [tone, asks, noteWave, bind_assoc]
      exact synthesizer_again _ _

theorem looks_asks (palette : Palette) (pitch duration : Value) :
    Looks (asks palette pitch duration) := by
  cases palette with
  | soft =>
      exact (Looks.describeNote pitch duration).bind fun _ => Looks.synthesizer.bind fun _ =>
        .lift _
  | plain => exact Looks.synthesizer.bind fun _ => .lift _

theorem looks_toned (palette : Palette) (duration : Value) (x : Float) :
    Looks (toned palette duration x) := by
  refine Looks.synthesizer.bind fun _ => Looks.instrument.bind fun _ => (Looks.lift _).bind
    fun _ => Looks.volume.bind fun _ => ?_
  cases palette with
  | soft => exact Looks.softStereo.bind fun _ => .pure _
  | plain => exact Looks.plainStereo.bind fun _ => .pure _

end Perform

namespace Engine

/-- The frequency that a note asks for on an engine, if it comes so far. -/
def frequency? (e : Engine) (pitch duration : Value) : Option Float :=
  ((Perform.asks e.palette pitch duration).runOn e).1.toOption

/-- The sound of a note is that of the frequency that it asks for. -/
theorem tone?_eq (e : Engine) (pitch duration : Value) :
    e.tone? pitch duration = (e.frequency? pitch duration).bind fun x =>
      ((Perform.toned e.palette duration x).runOn e).1.toOption.join := by
  have hsilent := (Perform.looks_asks e.palette pitch duration).prints.silent e
  rw [tone?, frequency?, Perform.tone_eq, Perform.runOn_bind]
  cases ((Perform.asks e.palette pitch duration).runOn e).1 with
  | error f => rfl
  | ok x =>
      dsimp only [Perform.next, Except.toOption, Option.bind]
      rw [(Perform.looks_toned e.palette duration x).same (setup_of_silent hsilent)]
      cases ((Perform.toned e.palette duration x).runOn e).1 <;> rfl

end Engine

namespace Perform

theorem log_record (event : TrackEvent) (e : Engine) : ((record event).runOn e).2.log = e.log := by
  cases ht : e.tracks with
  | none =>
      rw [record, runOn_bind, tracks, runOn_part, ht]
      rfl
  | some table =>
      cases hv : e.instrument with
      | none =>
          rw [record, runOn_bind, tracks, runOn_part, ht]
          change ((instrument >>= fun _ => _).runOn e).2.log = _
          rw [runOn_bind, instrument, runOn_part, hv]
          rfl
      | some v =>
          rw [runOn_record ht hv]
          cases v.requireKey <;> rfl

theorem heard_sleep (duration : Value) (e : Engine) :
    ((sleep duration).runOn e).2.heard = e.heard := by
  rw [runOn_sleep]
  cases hrefusal : duration.refusal? with
  | some f => rfl
  | none =>
      obtain ⟨n, hn⟩ : ∃ n, duration.number? = some n := by
        cases hn : duration.number? with
        | some n => exact ⟨n, rfl⟩
        | none =>
            rw [Value.refusal?, hn] at hrefusal
            cases hrefusal
      change (e.log.push (.sleep duration)).toList.filterMap Effect.heard? = _
      rw [Engine.filterMap_push, Effect.heard?_sleep hn]
      exact List.append_nil _

theorem heard_sounded (duration : Value) (event : TrackEvent) (s : Option Sound) (e : Engine) :
    ((sounded duration event s).runOn e).2.heard = e.heard ++ s.toList.map .inr := by
  cases s with
  | none => exact (List.append_nil _).symm
  | some s =>
      change ((record event >>= fun _ => sleep duration).runOn
        { e with log := e.log.push (.sound s) }).2.heard = _
      have hrecord := Engine.heard_of_log (log_record event { e with log := e.log.push (.sound s) })
      have hpush : Engine.heard { e with log := e.log.push (.sound s) } = e.heard ++ [.inr s] :=
        Engine.filterMap_push _ _ _
      rw [runOn_bind]
      cases ((record event).runOn { e with log := e.log.push (.sound s) }).1 with
      | ok _ => exact (heard_sleep duration _).trans (hrecord.trans hpush)
      | error _ => exact hrecord.trans hpush

/-- Of a note its sound is heard, if it has one. -/
theorem heard_note (pitch duration : Value) (e : Engine) :
    ((note pitch duration).runOn e).2.heard =
      e.heard ++ (e.tone? pitch duration).toList.map .inr := by
  obtain ⟨d, hd, hsilent⟩ := note_of_tone pitch duration e
  have hlook := (looks_tone e.palette pitch duration).prints.silent e
  rw [hd, Engine.heard_of_silent hsilent, runOn_bind, Engine.tone?]
  cases ((tone e.palette pitch duration).runOn e).1 with
  | error f => exact (Engine.heard_of_silent hlook).trans (List.append_nil _).symm
  | ok s =>
      rw [← Engine.heard_of_silent hlook]
      exact heard_sounded duration _ s _

/-- A frequency that was asked for is marked. -/
def mark : Option Float → Perform Unit
  | none => pure ()
  | some x => emit (.asked x)

/-- Plays a note and marks the frequency that it asks for. -/
def asking (pitch duration : Value) : Perform Unit := do
  mark ((← get).frequency? pitch duration)
  note pitch duration

theorem runOn_asking (pitch duration : Value) (e : Engine) :
    (asking pitch duration).runOn e =
      (note pitch duration).runOn ((mark (e.frequency? pitch duration)).runOn e).2 := by
  rw [asking, runOn_get, runOn_bind]
  cases e.frequency? pitch duration <;> rfl

theorem setup_mark (x : Option Float) (e : Engine) : ((mark x).runOn e).2.setup = e.setup := by
  cases x <;> rfl

theorem heard_asking (pitch duration : Value) (e : Engine) :
    ((asking pitch duration).runOn e).2.heard =
      e.heard ++ ((e.frequency? pitch duration).toList.map .inl ++
        (e.tone? pitch duration).toList.map .inr) := by
  have hmark (x : Option Float) : ((mark x).runOn e).2.heard = e.heard ++ x.toList.map .inl := by
    cases x with
    | none => exact (List.append_nil _).symm
    | some x => exact Engine.filterMap_push _ _ _
  rw [runOn_asking, heard_note, hmark, Engine.tone?_of_setup (setup_mark _ e), List.append_assoc]

/-- What may be done for a note: it does not fail, and leaves all that decides how a program goes
on. -/
structure Sings (x : Perform Unit) : Prop where
  ok : ∀ e, (x.runOn e).1 = .ok ()
  setup : ∀ e, (x.runOn e).2.setup = e.setup
  settings : ∀ e, (x.runOn e).2.settings = e.settings
  tracks : ∀ e, (x.runOn e).2.tracks.isSome = e.tracks.isSome

theorem sings_note (pitch duration : Value) : Sings (note pitch duration) :=
  ⟨note_ok pitch duration, setup_note pitch duration, settings_note pitch duration,
    fun e => ((Deeds.note pitch duration).acts e).path.tracks_isSome⟩

theorem sings_asking (pitch duration : Value) : Sings (asking pitch duration) := by
  have hnote := sings_note pitch duration
  refine ⟨fun e => ?_, fun e => ?_, fun e => ?_, fun e => ?_⟩
  · rw [runOn_asking, hnote.ok]
  · rw [runOn_asking, hnote.setup, setup_mark]
  · rw [runOn_asking, hnote.settings]
    cases e.frequency? pitch duration <;> rfl
  · rw [runOn_asking, hnote.tracks]
    cases e.frequency? pitch duration <;> rfl

end Perform

/-- Notes go together if what is heard after them agrees. -/
theorem Duet.together_sings {D : Duet} {x y : Perform Unit} (hx : Perform.Sings x)
    (hy : Perform.Sings y)
    (h : ∀ a b, D.Accord a b → D.Agree ((x.runOn a).2.log.toList.filterMap D.view)
      ((y.runOn b).2.log.toList.filterMap D.view)) : D.Together x y fun _ _ => True := by
  intro a b hab
  rw [hx.ok, hy.ok]
  have htempo (e d : Engine) (h : d.settings = e.settings) : d.tempo = e.tempo :=
    congrArg Settings.tempo h
  have hstore (e d : Engine) (h : d.settings = e.settings) : d.store = e.store :=
    congrArg Settings.store h
  refine ⟨.ok trivial, ⟨?_, ?_, ?_, ?_, h a b hab⟩⟩
  · rw [hx.setup, hy.setup, hab.setup]
  · rw [htempo _ _ (hx.settings a), htempo _ _ (hy.settings b)]
    exact hab.tempo
  · rw [hstore _ _ (hx.settings a), hstore _ _ (hy.settings b)]
    exact hab.store
  · rw [hx.tracks, hy.tracks, hab.tracks]

/-- What is heard when the same notes are asked for in two spellings. Where the frequencies are the
same, so are the sounds. -/
structure Echoes (f g : String → String) (names : List String) (xs ys : List (Float ⊕ Sound)) :
    Prop where
  left : List.Forall₂ (fun name x => Pitch.frequency (.text (f name)) = .ok x) names
    (xs.filterMap Sum.getLeft?)
  right : List.Forall₂ (fun name y => Pitch.frequency (.text (g name)) = .ok y) names
    (ys.filterMap Sum.getLeft?)
  sounds : (∀ name ∈ names, Pitch.frequency (.text (f name)) = Pitch.frequency (.text (g name))) →
    xs.filterMap Sum.getRight? = ys.filterMap Sum.getRight?

theorem Echoes.concat {f g : String → String} {names : List String} {xs ys : List (Float ⊕ Sound)}
    (h : Echoes f g names xs ys) {name : String} {x y : Float} {s t : Option Sound}
    (hx : Pitch.frequency (.text (f name)) = .ok x) (hy : Pitch.frequency (.text (g name)) = .ok y)
    (hst : x = y → s = t) :
    Echoes f g (names ++ [name]) (xs ++ .inl x :: s.toList.map .inr)
      (ys ++ .inl y :: t.toList.map .inr) := by
  have hmarks (zs : List (Float ⊕ Sound)) (z : Float) (u : Option Sound) :
      (zs ++ Sum.inl z :: u.toList.map .inr).filterMap Sum.getLeft? =
        zs.filterMap Sum.getLeft? ++ [z] := by
    rw [List.filterMap_append]
    cases u <;> rfl
  have hsounds (zs : List (Float ⊕ Sound)) (z : Float) (u : Option Sound) :
      (zs ++ Sum.inl z :: u.toList.map .inr).filterMap Sum.getRight? =
        zs.filterMap Sum.getRight? ++ u.toList := by
    rw [List.filterMap_append]
    cases u <;> rfl
  refine ⟨?_, ?_, fun hsame => ?_⟩
  · rw [hmarks]
    exact List.rel_append h.left (.cons hx .nil)
  · rw [hmarks]
    exact List.rel_append h.right (.cons hy .nil)
  · obtain ⟨hnames, hname⟩ := List.forall_mem_append.1 hsame
    have hxy : x = y := by
      have hsame := hname name List.mem_cons_self
      rw [hx, hy] at hsame
      exact Except.ok.inj hsame
    rw [hsounds, hsounds, h.sounds hnames, hst hxy]

/-- The frequencies are the same exactly if those of each note are. -/
theorem Echoes.marks_eq_iff {f g : String → String} {names : List String}
    {xs ys : List (Float ⊕ Sound)} (h : Echoes f g names xs ys) :
    xs.filterMap Sum.getLeft? = ys.filterMap Sum.getLeft? ↔
      ∀ name ∈ names, Pitch.frequency (.text (f name)) = Pitch.frequency (.text (g name)) := by
  obtain ⟨hleft, hright, -⟩ := h
  revert hleft hright
  generalize xs.filterMap Sum.getLeft? = us
  generalize ys.filterMap Sum.getLeft? = vs
  intro hleft hright
  induction hleft generalizing vs with
  | nil =>
      cases hright
      exact ⟨fun _ => List.forall_mem_nil _, fun _ => rfl⟩
  | @cons name u names us hu _ ih =>
      cases hright with
      | @cons _ v _ vs hv hright =>
          rw [List.cons_eq_cons, ih vs hright, List.forall_mem_cons, hu, hv, Except.ok.injEq]

/-- In both spellings the functions that a program defines are equal to the same of them. -/
def Program.ComparesAlike (q : Program) (f g : String → String) : Prop :=
  ∀ name xs body name' xs' body', (Stmt.define name xs body).Within q →
    (Stmt.define name' xs' body').Within q →
    (Stmt.functionOf xs (body.map (.respell f))).equal
        (Stmt.functionOf xs' (body'.map (.respell f))) =
      (Stmt.functionOf xs (body.map (.respell g))).equal
        (Stmt.functionOf xs' (body'.map (.respell g)))

theorem Stmt.within_respell (f : String → String) {s : Stmt} {body : List Stmt}
    (h : s.Within body) : (s.respell f).Within (body.map (respell f)) := by
  induction h with
  | here h => exact .here (List.mem_map_of_mem h)
  | @inside t inner body ht hinner _ ih =>
      refine .inside (List.mem_map_of_mem ht) ?_ ih
      rw [bodies_respell]
      exact List.mem_map_of_mem hinner

/-- Without functions there is nothing to compare. -/
theorem Program.comparesAlike_of_undefined {q : Program} {f : String → String}
    (h : ∀ name xs body, ¬(Stmt.define name xs body).Within (q.respell f)) (g k : String → String) :
    q.ComparesAlike g k := by
  intro name xs body _ _ _ hq _
  have hdefine := Stmt.within_respell f hq
  rw [Stmt.respell] at hdefine
  exact absurd hdefine (h name xs _)

namespace Duet

theorem view_sleep_heard? (n : Number) : Effect.heard? (.sleep n.toValue) = none := by
  cases n <;> rfl

/-- Two performers of a program in two spellings. -/
def spelled {q : Program} {f g : String → String} (h : q.ComparesAlike f g)
    (Agree : List (Float ⊕ Sound) → List (Float ⊕ Sound) → Prop) : Duet where
  Part := (·.Within q)
  left := f
  right := g
  Heard := Float ⊕ Sound
  view := Effect.heard?
  Agree := Agree
  view_text _ := rfl
  view_sleep := view_sleep_heard?
  discerns := h _ _ _ _ _ _

/-- New engines are in accord if nothing agrees with nothing. -/
theorem accord_built {D : Duet} (h : D.Agree [] []) (palette : Palette) (device : Device) :
    D.Accord (.built palette device) (.built palette device) := by
  have hempty : D.Accord { palette, device } { palette, device } := ⟨rfl, .none, .none, rfl, h⟩
  cases device with
  | working format =>
      have hfresh : D.Accord (.fresh palette (.working format) Synthesizer.standardRate)
          (.fresh palette (.working format) Synthesizer.standardRate) :=
        ⟨rfl, .some (.int 120), .some .nil, rfl, h⟩
      have hsilent := Engine.silent_built_working palette format
      exact hfresh.of_silent hsilent hsilent
  | broken reason =>
      cases palette with
      | plain => exact hempty
      | soft =>
          have hsilent := Engine.silent_built_broken reason
          exact hempty.of_silent hsilent hsilent

variable {q : Program} {f g : String → String}

/-- Of two spellings that both have a frequency both are asked for, or none is. -/
theorem together_asks {D : Duet} {x y : String}
    (hboth : Result.Both (fun _ _ => True) (Pitch.frequency (.text x)) (Pitch.frequency (.text y)))
    (palette : Palette) (duration : Value) :
    D.Together (Perform.asks palette (.text x) duration) (Perform.asks palette (.text y) duration)
      fun u v => Pitch.frequency (.text x) = .ok u ∧ Pitch.frequency (.text y) = .ok v := by
  have hlift := Together.lift (D := D) hboth.answers
  cases palette with
  | soft =>
      exact .bind (.describeNote x y duration) fun _ _ _ => .bind (.looks .synthesizer)
        fun _ _ _ => hlift
  | plain => exact .bind (.looks .synthesizer) fun _ _ _ => hlift

theorem together_asking (h : q.ComparesAlike f g) {name : String}
    (hboth : Result.Both (fun _ _ => True) (Pitch.frequency (.text (f name)))
      (Pitch.frequency (.text (g name)))) (duration : Value) :
    (spelled h fun xs ys => ∃ names, Echoes f g names xs ys).Together
      (Perform.asking (.text (f name)) duration) (Perform.asking (.text (g name)) duration)
      fun _ _ => True := by
  refine together_sings (Perform.sings_asking _ _) (Perform.sings_asking _ _) fun a b hab => ?_
  obtain ⟨names, hnames⟩ := hab.heard
  have hpalette : b.palette = a.palette := congrArg Setup.palette hab.setup
  have hasks := (together_asks hboth a.palette duration a b hab).1
  change ∃ names, Echoes f g names (Engine.heard _) (Engine.heard _)
  rw [Perform.heard_asking, Perform.heard_asking, Engine.tone?_eq, Engine.tone?_eq,
    Engine.frequency?, Engine.frequency?, hpalette]
  revert hasks
  generalize ((Perform.asks a.palette (.text (f name)) duration).runOn a).1 = r
  generalize ((Perform.asks a.palette (.text (g name)) duration).runOn b).1 = r'
  intro hasks
  cases hasks with
  | error failure =>
      refine ⟨names, ?_⟩
      change Echoes f g names (a.heard ++ []) (b.heard ++ [])
      rw [List.append_nil, List.append_nil]
      exact hnames
  | @ok x y hxy =>
      refine ⟨names ++ [name], hnames.concat hxy.1 hxy.2 fun hsame => ?_⟩
      dsimp only [Except.toOption, Option.bind]
      rw [hsame, (Perform.looks_toned a.palette duration y).same hab.setup]

/-- The marks make no difference to what sounds. -/
theorem together_marked (h : q.ComparesAlike f f) (name : String) (duration : Value) :
    (spelled h fun xs ys => xs.filterMap Sum.getRight? = ys.filterMap Sum.getRight?).Together
      (Perform.asking (.text (f name)) duration) (Perform.note (.text (f name)) duration)
      fun _ _ => True := by
  refine together_sings (Perform.sings_asking _ _) (Perform.sings_note _ _) fun a b hab => ?_
  have hheard : a.heard.filterMap Sum.getRight? = b.heard.filterMap Sum.getRight? := hab.heard
  have hmark (x : Option Float) :
      (x.toList.map Sum.inl : List (Float ⊕ Sound)).filterMap Sum.getRight? = [] := by
    cases x <;> rfl
  change (Engine.heard _).filterMap Sum.getRight? = (Engine.heard _).filterMap Sum.getRight?
  rw [Perform.heard_asking, Perform.heard_note, Engine.tone?_of_setup hab.setup,
    List.filterMap_append, List.filterMap_append, List.filterMap_append, hmark, hheard,
    List.nil_append]

end Duet

namespace Program

/-- The run of a program in which the frequencies are marked that its notes ask for. -/
def marked (p : Program) (e : Engine) : Engine :=
  ((Perform.executeWith (Perform.performWith Perform.asking Perform.depthLimit)
    p.toNode).runOn e).2

/-- The frequencies that the notes of a program ask the synthesizer for, in their order. -/
def asks (p : Program) (e : Engine) : List Float :=
  (p.marked e).heard.filterMap Sum.getLeft?

/-- The sounds of a program. -/
def sounds (p : Program) (e : Engine) : List Sound := ((Perform.execute p.toNode).runOn e).2.sounds

variable {q : Program} {f g : String → String}

theorem sounds_marked (q : Program) (f : String → String) (palette : Palette) (device : Device) :
    ((q.respell f).marked (.built palette device)).sounds =
      (q.respell f).sounds (.built palette device) := by
  have halike : q.ComparesAlike f f := fun _ _ _ _ _ _ _ _ => rfl
  have h := Duet.accord_execute (p := q) (Duet.together_marked halike) (fun _ hs => hs)
    (Duet.accord_built rfl palette device) Perform.depthLimit
  rw [Perform.performWith_note] at h
  rw [sounds, Engine.sounds_eq_heard, Engine.sounds_eq_heard]
  exact h.heard

/-- In both spellings a program asks for the same notes in the same order. -/
theorem echoes_marked (h : q.ComparesAlike f g)
    (hboth : ∀ name, Result.Both (fun _ _ => True) (Pitch.frequency (.text (f name)))
      (Pitch.frequency (.text (g name)))) (palette : Palette) (device : Device) :
    ∃ names, Echoes f g names ((q.respell f).marked (.built palette device)).heard
      ((q.respell g).marked (.built palette device)).heard := by
  have hnone : ∃ names, Echoes f g names [] [] := ⟨[], .nil, .nil, fun _ => rfl⟩
  exact (Duet.accord_execute (p := q) (fun name => Duet.together_asking h (hboth name))
    (fun _ hs => hs) (Duet.accord_built hnone palette device) Perform.depthLimit).heard

end Program
end TuneScript
