import TuneScript.Proofs.Performances

/-!
What the actions of an engine are put together from. Whatever nodes an engine is given, all
that it does is a sequence of few deeds: it prints, changes a setting or a variable, sounds a
note, rests or halts the device. What each deed keeps is therefore kept by every command.
-/

namespace TuneScript

namespace Perform

variable {α β : Type}

/-- Actions put together from basic ones, by doing one after the other, by looking at the
engine, though not at what it has printed, by failing and by dealing with a failure. -/
inductive Composed (Basic : Perform Unit → Prop) : {α : Type} → Perform α → Prop where
  | basic {x : Perform Unit} (h : Basic x) : Composed Basic x
  | pure {α : Type} (a : α) : Composed Basic (Pure.pure a)
  | throw {α : Type} (f : Failure) : Composed Basic (MonadExcept.throw f : Perform α)
  | ask {α : Type} {f : Engine → Perform α} (h : ∀ e, Composed Basic (f e))
      (hsame : ∀ {e d : Engine}, d.silent = e.silent → f d = f e) : Composed Basic (get >>= f)
  | bind {α β : Type} {x : Perform α} {f : α → Perform β} (hx : Composed Basic x)
      (hf : ∀ a, Composed Basic (f a)) : Composed Basic (x >>= f)
  | tryCatch {α : Type} {x : Perform α} {handle : Failure → Perform α} (hx : Composed Basic x)
      (hf : ∀ f, Composed Basic (handle f)) : Composed Basic (MonadExcept.tryCatch x handle)

namespace Composed

variable {Basic : Perform Unit → Prop} {x : Perform α}

/-- What a basic action cannot leave, no action put together from such can. -/
theorem keeps {R : Engine → Engine → Prop} (hrefl : ∀ e, R e e)
    (htrans : ∀ {a b c}, R a b → R b c → R a c)
    (hbasic : ∀ x, Basic x → ∀ e, R e (x.runOn e).2) (h : Composed Basic x) (e : Engine) :
    R e (x.runOn e).2 := by
  induction h generalizing e with
  | basic hx => exact hbasic _ hx e
  | pure a => exact hrefl e
  | throw f => exact hrefl e
  | ask _ _ ih => exact ih e e
  | @bind _ _ x f _ _ ihx ihf =>
      rw [runOn_bind]
      refine htrans (ihx e) ?_
      cases (x.runOn e).1 with
      | ok a => exact ihf a _
      | error failure => exact hrefl _
  | @tryCatch _ x handle _ _ ihx ihf =>
      rw [runOn_tryCatch]
      refine htrans (ihx e) ?_
      cases (x.runOn e).1 with
      | ok a => exact hrefl _
      | error failure => exact ihf failure _

theorem acts (hbasic : ∀ x, Basic x → x.Acts) (h : Composed Basic x) : x.Acts := by
  induction h with
  | basic hx => exact hbasic _ hx
  | pure a => exact .pure a
  | throw f => exact .throw f
  | ask _ hsame ih => exact .get ih hsame
  | bind _ _ ihx ihf => exact ihx.bind ihf
  | tryCatch _ _ ihx ihf => exact ihx.tryCatch ihf

theorem lift (r : Result α) : Composed Basic (Perform.lift r) := by
  cases r with
  | ok a => exact pure a
  | error f => exact throw f

theorem shown (v : Value) : Composed Basic (Perform.shown v) := lift _

theorem ite {c : Prop} [Decidable c] {y : Perform α} (hx : Composed Basic x)
    (hy : Composed Basic y) : Composed Basic (if c then x else y) := by
  split
  · exact hx
  · exact hy

/-- A part of the engine may be asked for, since no part is what was printed. -/
theorem part {name : String} {read : Engine → Option α}
    (h : ∀ e : Engine, read e.silent = read e) : Composed Basic (Perform.part name read) := by
  have hmissing (e : Engine) : e.silent.missing name = e.missing name := rfl
  refine ask (fun e => ?_) fun {e d} hd => ?_
  · split
    · exact pure _
    · exact throw _
  · rw [← h d, ← h e, hd, ← hmissing d, ← hmissing e, hd]

theorem tempo : Composed Basic Perform.tempo := part fun _ => rfl

theorem volume : Composed Basic Perform.volume := part fun _ => rfl

theorem instrument : Composed Basic Perform.instrument := part fun _ => rfl

theorem synthesizer : Composed Basic Perform.synthesizer := part fun _ => rfl

theorem tracks : Composed Basic Perform.tracks := part fun _ => rfl

theorem store : Composed Basic Perform.store := part fun _ => rfl

theorem valueOf (node default : Value) : Composed Basic (Perform.valueOf node default) :=
  ask (fun _ => lift _) fun hd => by rw [Engine.valueOf_congr (Engine.lookup_of_silent hd)]

theorem holds (node : Value) : Composed Basic (Perform.holds node) :=
  ask (fun _ => lift _) fun hd => by rw [Engine.holds_congr (Engine.lookup_of_silent hd)]

theorem forM {f : α → Perform PUnit} (h : ∀ a, Composed Basic (f a)) (as : List α) :
    Composed Basic (as.forM f) := by
  induction as with
  | nil => exact pure _
  | cons a as ih => exact (h a).bind fun _ => ih

theorem mapM {f : α → Perform β} (h : ∀ a, Composed Basic (f a)) (as : List α) :
    Composed Basic (as.mapM f) := by
  induction as with
  | nil => exact pure _
  | cons a as ih =>
      rw [List.mapM_cons]
      exact (h a).bind fun _ => ih.bind fun _ => pure _

theorem rounds {round : Nat → Perform Unit} (h : ∀ i, Composed Basic (round i)) (i n : Nat) :
    Composed Basic (Perform.rounds round i n) := by
  induction n generalizing i with
  | zero => exact pure _
  | succ n ih => exact (h i).bind fun _ => ih (i + 1)

theorem roundsWhile {round : Nat → Perform Unit} (h : ∀ i, Composed Basic (round i))
    (condition : Value) (done n : Nat) :
    Composed Basic (Perform.roundsWhile condition round done n) := by
  induction n generalizing done with
  | zero => exact (holds condition).bind fun _ => pure _
  | succ n ih =>
      refine (holds condition).bind fun _ => ?_
      split
      · exact (h _).bind fun _ => ih (done + 1)
      · exact pure _

theorem beat : Composed Basic Perform.beat := tempo.bind fun _ => lift _

theorem twoBeats : Composed Basic Perform.twoBeats := beat.bind fun _ => lift _

theorem durationOf (node default : Value) {standard : Perform Value}
    (h : Composed Basic standard) : Composed Basic (Perform.durationOf node default standard) := by
  unfold Perform.durationOf
  split
  · split
    · exact valueOf _ _
    · exact h
  · exact h

theorem refLabel (viaRef : Bool) : Composed Basic (Perform.refLabel viaRef) :=
  ask (fun _ => pure _) fun hd => by rw [Engine.palette_of_silent hd]

theorem noteWave (note duration : Value) : Composed Basic (Perform.noteWave note duration) :=
  synthesizer.bind fun _ => (lift _).bind fun _ => instrument.bind fun _ => lift _

section Printing

variable (hprint : ∀ s, Basic (Perform.print s))

include hprint

theorem print (s : String) : Composed Basic (Perform.print s) := basic (hprint s)

theorem say (s : String) : Composed Basic (Perform.say s) := basic (hprint _)

theorem describeNote (note duration : Value) :
    Composed Basic (Perform.describeNote note duration) :=
  instrument.bind fun _ => (shown _).bind fun _ => (shown _).bind fun _ => (lift _).bind fun _ =>
    say hprint _

theorem softStereo : Composed Basic Perform.softStereo := by
  refine ask (fun _ => ?_) fun hd => by rw [Engine.device_of_silent hd]
  split
  · exact (say hprint _).bind fun _ => pure _
  · exact pure _
  · exact pure _
  · exact (lift _).bind fun _ => (say hprint _).bind fun _ => pure _

theorem summary : Composed Basic Perform.summary := by
  refine tracks.bind fun table => ask (fun _ => ?_) fun hd => by rw [Engine.palette_of_silent hd]
  split
  · refine (say hprint _).bind fun _ => (forM (fun _ => ?_) table).bind fun _ => say hprint _
    exact (shown _).bind fun _ => say hprint _
  · exact pure _

section Sounding

variable (hnote : ∀ pitch duration, Basic (Perform.note pitch duration))

include hnote

theorem strike (notes duration : Value) : Composed Basic (Perform.strike notes duration) :=
  instrument.bind fun _ => (shown _).bind fun _ => (lift _).bind fun _ => (lift _).bind fun _ =>
    (say hprint _).bind fun _ => (lift _).bind fun items =>
    forM (fun pitch => basic (hnote pitch duration)) items

theorem playChord (notes duration : Value) :
    Composed Basic (Perform.playChord notes duration) := by
  unfold Perform.playChord
  split
  · exact twoBeats.bind fun _ => strike hprint hnote notes _
  · exact strike hprint hnote notes _

theorem noteNode (node : Value) : Composed Basic (Perform.noteNode node) := by
  refine (durationOf node _ beat).bind fun duration => (lift _).bind fun kind => ?_
  split
  · refine instrument.bind fun _ => (shown _).bind fun _ => (print hprint _).bind fun _ =>
      (lift _).bind fun notes => (forM (fun n => ?_) notes).bind fun _ => say hprint _
    exact (lift _).bind fun name => (shown name).bind fun _ => (print hprint _).bind fun _ =>
      basic (hnote name duration)
  · refine (lift _).bind fun name => ask (fun _ => ?_) fun hd => by
      rw [Engine.palette_of_silent hd]
    split
    · exact (describeNote hprint name duration).bind fun _ => basic (hnote name duration)
    · exact basic (hnote name duration)

theorem chordNode (node : Value) : Composed Basic (Perform.chordNode node) := by
  refine (durationOf node _ twoBeats).bind fun duration => (lift _).bind fun notes =>
    (lift _).bind fun items => (mapM (fun _ => lift _) items).bind fun names =>
    ask (fun _ => ?_) fun hd => by rw [Engine.palette_of_silent hd]
  split
  · exact playChord hprint hnote _ duration
  · exact strike hprint hnote _ duration

end Sounding

theorem refCallNode (htempo : ∀ bpm, Basic (Perform.setTempo true bpm))
    (hvolume : ∀ level, Basic (Perform.setVolume true level))
    (hinstrument : ∀ name, Basic (Perform.setInstrument true name)) (node : Value) :
    Composed Basic (Perform.refCallNode node) := by
  refine (lift _).bind fun name => (shown _).bind fun _ => (say hprint _).bind fun _ => ?_
  split
  · split
    · exact (lift _).bind fun _ => (valueOf _ _).bind fun _ => basic (hvolume _)
    · exact (lift _).bind fun _ => (valueOf _ _).bind fun _ => basic (htempo _)
    · exact (lift _).bind fun _ => (lift _).bind fun _ => basic (hinstrument _)
    · exact pure _
  · exact pure _

end Printing

end Composed

/-- Actions that only look and print. -/
abbrev Prints (x : Perform α) : Prop := Composed (fun y => ∃ s, y = print s) x

theorem Prints.silent {x : Perform α} (h : Prints x) (e : Engine) :
    (x.runOn e).2.silent = e.silent := by
  refine Composed.keeps (R := fun e d => d.silent = e.silent) (fun _ => rfl)
    (fun hab hbc => hbc.trans hab) ?_ h e
  rintro _ ⟨s, rfl⟩ e
  exact Engine.silent_push e (.text s)

namespace Prints

theorem acts {x : Perform α} (h : Prints x) : x.Acts := by
  refine Composed.acts ?_ h
  rintro _ ⟨s, rfl⟩
  exact .print s

theorem say (s : String) : Prints (Perform.say s) := .basic ⟨_, rfl⟩

theorem describeNote (note duration : Value) : Prints (Perform.describeNote note duration) :=
  Composed.describeNote (fun s => ⟨s, rfl⟩) note duration

theorem softStereo : Prints Perform.softStereo := Composed.softStereo fun s => ⟨s, rfl⟩

end Prints

/-- What playing consists of: effects, and events in the track of the current instrument. -/
inductive Playing (Event : TrackEvent → Prop) : Perform Unit → Prop where
  | emit (effect : Effect) : Playing Event (emit effect)
  | record {event : TrackEvent} (h : Event event) : Playing Event (record event)

namespace Playing

variable {Event : TrackEvent → Prop}

theorem acts {x : Perform Unit} (h : Playing Event x) : x.Acts := by
  cases h with
  | emit effect => exact .emit effect
  | record _ => exact .record _

theorem print (s : String) : Playing Event (Perform.print s) := emit _

theorem guard {c : Prop} [Decidable c] {f : Failure} {next : Unit → Perform α}
    (h : ∀ u, Composed (Playing Event) (next u)) :
    Composed (Playing Event) (if c then MonadExcept.throw f >>= next else next ()) := by
  split
  · exact .bind (.throw f) h
  · exact h ()

theorem sleep (duration : Value) : Composed (Playing Event) (Perform.sleep duration) := by
  unfold Perform.sleep
  split
  · exact .throw _
  · exact guard fun _ => guard fun _ => guard fun _ => .basic (.emit _)
  · exact guard fun _ => guard fun _ => .basic (.emit _)

theorem sound (samples : Array Int) (stereo : Bool) (duration : Value) {event : TrackEvent}
    (h : Event event) : Composed (Playing Event) (Perform.sound samples stereo duration event) :=
  .bind (.basic (.emit _)) fun _ => .bind (.basic (.record h)) fun _ => sleep duration

theorem softNote {note duration : Value} (h : Event (.note note duration)) :
    Composed (Playing Event) (Perform.softNote note duration) := by
  refine .bind (.describeNote print note duration) fun _ => .bind (.noteWave note duration) fun _ =>
    .bind .volume fun _ => .bind (.softStereo print) fun stereo => ?_
  cases stereo with
  | none => exact .pure _
  | some stereo => exact sound _ stereo duration h

theorem plainStereo : Composed (Playing Event) Perform.plainStereo := by
  refine .ask (fun _ => ?_) fun hd => by rw [Engine.device_of_silent hd]
  split
  · exact .throw _
  · exact .bind (.lift _) fun _ => .pure _

theorem plainNote {note duration : Value} (h : Event (.plain note duration)) :
    Composed (Playing Event) (Perform.plainNote note duration) :=
  .bind (.noteWave note duration) fun _ => .bind .volume fun _ => .bind plainStereo fun _ =>
    sound _ _ duration h

theorem note {note duration : Value} (hsoft : Event (.note note duration))
    (hplain : Event (.plain note duration)) :
    Composed (Playing Event) (Perform.note note duration) := by
  refine .ask (fun _ => ?_) fun hd => by rw [Engine.palette_of_silent hd]
  split
  · exact .tryCatch (softNote hsoft) fun _ => .bind (.say print _) fun _ => .say print _
  · exact .tryCatch (plainNote hplain) fun _ => .say print _

theorem playRest {duration : Value} (h : Event (.rest duration)) :
    Composed (Playing Event) (Perform.playRest duration) :=
  .bind (.lift _) fun _ => .bind (.say print _) fun _ => .bind (.basic (.record h)) fun _ =>
    sleep duration

end Playing

/-- What the soft palette does for a note. -/
def softAttempt (pitch duration : Value) : Perform Unit :=
  tryCatch (softNote pitch duration) fun failure => do
    say ("❌ 播放音符時發生錯誤: " ++ failure.message)
    say "詳細錯誤資訊："

theorem runOn_note_soft {e : Engine} (h : e.palette = .soft) (pitch duration : Value) :
    (note pitch duration).runOn e = (softAttempt pitch duration).runOn e := by
  rw [note, runOn_get, h]
  rfl

theorem Playing.softAttempt {Event : TrackEvent → Prop} {pitch duration : Value}
    (h : Event (.note pitch duration)) :
    Composed (Playing Event) (softAttempt pitch duration) :=
  .tryCatch (softNote h) fun _ => .bind (.say print _) fun _ => .say print _

/-- The deeds that all commands consist of. -/
inductive Deed : Perform Unit → Prop where
  | print (s : String) : Deed (print s)
  | setTempo (viaRef : Bool) (bpm : Value) : Deed (setTempo viaRef bpm)
  | setVolume (viaRef : Bool) (level : Value) : Deed (setVolume viaRef level)
  | setInstrument (viaRef : Bool) (name : Value) : Deed (setInstrument viaRef name)
  | setVariable (name value : Value) : Deed (setVariable name value)
  | note (pitch duration : Value) : Deed (note pitch duration)
  | rest (duration : Value) : Deed (playRest duration)
  | halt : Deed (emit .halt)

theorem Deed.acts {x : Perform Unit} (h : Deed x) : x.Acts := by
  cases h with
  | print s => exact .print s
  | setTempo viaRef bpm => exact .setTempo viaRef bpm
  | setVolume viaRef level => exact .setVolume viaRef level
  | setInstrument viaRef name => exact .setInstrument viaRef name
  | setVariable name value => exact .setVariable name value
  | note pitch duration =>
      have h : Composed (Playing fun _ => True) (Perform.note pitch duration) :=
        Playing.note trivial trivial
      exact h.acts fun _ => Playing.acts
  | rest duration =>
      have h : Composed (Playing fun _ => True) (playRest duration) := Playing.playRest trivial
      exact h.acts fun _ => Playing.acts
  | halt => exact .emit _

/-- An action that consists of deeds. -/
abbrev Deeds (x : Perform α) : Prop := Composed Deed x

namespace Deeds

theorem acts {x : Perform α} (h : Deeds x) : x.Acts := Composed.acts (fun _ => Deed.acts) h

theorem say (s : String) : Deeds (Perform.say s) := Composed.say .print s

theorem note (pitch duration : Value) : Deeds (Perform.note pitch duration) :=
  .basic (.note pitch duration)

theorem setVariable (name value : Value) : Deeds (Perform.setVariable name value) :=
  .basic (.setVariable name value)

theorem playNote (pitch duration : Value) : Deeds (Perform.playNote pitch duration) := by
  unfold Perform.playNote
  split
  · exact .bind .beat fun _ => note pitch _
  · exact note pitch _

theorem playChord (notes duration : Value) : Deeds (Perform.playChord notes duration) :=
  Composed.playChord .print .note notes duration

theorem noteNode (node : Value) : Deeds (Perform.noteNode node) :=
  Composed.noteNode .print .note node

theorem chordNode (node : Value) : Deeds (Perform.chordNode node) :=
  Composed.chordNode .print .note node

section Statements

variable {run : Value → Perform Unit} (hrun : ∀ v, Deeds (run v))

include hrun

theorem body (statements : Value) : Deeds (Perform.body run statements) :=
  .bind (.lift _) fun items => .forM hrun items

theorem loopNode (node : Value) : Deeds (Perform.loopNode run node) := by
  refine .bind (.valueOf _ _) fun _ => .bind (.lift _) fun count => .bind (.shown _) fun _ =>
    .bind (say _) fun _ => .rounds (fun _ => ?_) 0 count.toNat
  exact .bind (say _) fun _ => body hrun _

theorem whileNode (node : Value) : Deeds (Perform.whileNode run node) := by
  have hround : ∀ i : Nat, Deeds (do
      Perform.say ("   第 " ++ toString i ++ " 次迴圈")
      Perform.body run ((node.field? "body").getD (.list []))) :=
    fun i => .bind (say _) fun _ => body hrun _
  refine .bind (say _) fun _ => .bind (.roundsWhile hround _ 0 roundLimit) fun done => ?_
  split
  · exact .bind (say _) fun _ => say _
  · exact say _

theorem forNode (node : Value) : Deeds (Perform.forNode run node) := by
  refine .bind (.lift _) fun counter => .bind (.lift _) fun _ => .bind (.valueOf _ _) fun _ =>
    .bind (.lift _) fun first => .bind (.lift _) fun _ => .bind (.valueOf _ _) fun _ =>
    .bind (.lift _) fun last => .bind (.shown _) fun _ => .bind (.shown _) fun _ =>
    .bind (.shown _) fun _ => .bind (say _) fun _ => .bind (.rounds (fun i => ?_) 0 _) fun _ =>
    say _
  exact .bind (setVariable _ _) fun _ => .bind (.shown _) fun _ => .bind (.shown _) fun _ =>
    .bind (.shown _) fun _ => .bind (.shown _) fun _ => .bind (say _) fun _ => body hrun _

theorem firstAlternative (clauses : List Value) :
    Deeds (Perform.firstAlternative run clauses) := by
  induction clauses with
  | nil => exact .pure _
  | cons clause rest ih =>
      refine .bind (.lift _) fun _ => .bind (.holds _) fun _ => ?_
      split
      · exact .bind (say _) fun _ => .bind (body hrun _) fun _ => .pure _
      · exact ih

theorem branchNode (node : Value) : Deeds (Perform.branchNode run node) := by
  refine .bind (.holds _) fun _ => ?_
  split
  · exact .bind (say _) fun _ => body hrun _
  · refine .bind (.lift _) fun clauses => .bind (firstAlternative hrun clauses) fun found => ?_
    dsimp only
    split
    · exact .bind (say _) fun _ => body hrun _
    · exact .pure _

omit hrun in
theorem assignNode (node : Value) : Deeds (Perform.assignNode node) :=
  .bind (.lift _) fun _ => .bind (.valueOf _ _) fun _ => .bind (setVariable _ _) fun _ =>
    .bind (.shown _) fun _ => .bind (.shown _) fun _ => say _

omit hrun in
theorem defineNode (node : Value) : Deeds (Perform.defineNode node) :=
  .bind (.lift _) fun _ => .bind (setVariable _ _) fun _ => .bind (.shown _) fun _ => say _

theorem callNode (node : Value) : Deeds (Perform.callNode run node) := by
  refine .bind (.lift _) fun name => .bind .store fun table => .bind (.lift _) fun _ => ?_
  split
  · split
    · exact .bind (.shown _) fun _ => .bind (say _) fun _ => body hrun _
    · exact .pure _
  · exact .pure _

omit hrun in
theorem refCallNode (node : Value) : Deeds (Perform.refCallNode node) :=
  Composed.refCallNode .print (.setTempo true) (.setVolume true) (.setInstrument true) node

theorem statement (node : Value) : Deeds (Perform.statement run node) := by
  unfold Perform.statement
  split
  · exact .bind (.valueOf _ _) fun _ => .basic (.setTempo false _)
  · exact .bind (.valueOf _ _) fun _ => .basic (.setVolume false _)
  · exact .bind (.lift _) fun _ => .basic (.setInstrument false _)
  · exact noteNode node
  · exact chordNode node
  · refine .ask (fun _ => ?_) fun hd => by rw [Engine.palette_of_silent hd]
    split
    · exact .bind (.valueOf _ _) fun _ => .basic (.rest _)
    · exact .pure _
  · exact loopNode hrun node
  · exact whileNode hrun node
  · exact forNode hrun node
  · exact branchNode hrun node
  · exact assignNode node
  · exact defineNode node
  · exact callNode hrun node
  · exact refCallNode node
  · exact .pure _

theorem numbered (total i : Nat) (nodes : List Value) :
    Deeds (Perform.numbered total run i nodes) := by
  induction nodes generalizing i with
  | nil => exact .pure _
  | cons v nodes ih => exact .bind (say _) fun _ => .bind (hrun v) fun _ => ih (i + 1)

end Statements

theorem perform (depth : Nat) (v : Value) : Deeds (Perform.perform depth v) := by
  induction depth generalizing v with
  | zero => exact .throw _
  | succ depth ih => exact statement ih v

theorem node (v : Value) : Deeds (Perform.node v) := perform depthLimit v

theorem summary : Deeds Perform.summary := Composed.summary .print

theorem execute (program : Value) : Deeds (Perform.execute program) := by
  unfold Perform.execute
  split
  · exact .bind (say _) fun _ => .bind (.lift _) fun _ => .bind (say _) fun _ =>
      .bind (.lift _) fun nodes => .bind (numbered node _ 1 nodes) fun _ =>
      .bind (say _) fun _ => summary
  · exact say _

theorem stop : Deeds Perform.stop := .bind (.basic .halt) fun _ => say _

theorem supported : Deeds Perform.supported := .bind .synthesizer fun _ => .pure _

end Deeds

namespace Acts

theorem node (v : Value) : Acts (Perform.node v) := (Deeds.node v).acts

theorem numbered {run : Value → Perform Unit} (hrun : ∀ v, (run v).Acts) (total i : Nat)
    (nodes : List Value) : Acts (Perform.numbered total run i nodes) := by
  induction nodes generalizing i with
  | nil => exact pure _
  | cons v nodes ih => exact (say _).bind fun _ => (hrun v).bind fun _ => ih (i + 1)

theorem summary : Acts Perform.summary := Deeds.summary.acts

theorem supported : Acts Perform.supported := Deeds.supported.acts

end Acts

end Perform

namespace Command

open Perform (Deeds)

theorem deeds_done {x : Perform Unit} (h : Deeds x) : Deeds (done x) := h.bind fun _ => .pure _

theorem deeds_action (command : Command) : Deeds command.action := by
  cases command with
  | run _ _ => exact .pure _
  | execute program => exact deeds_done (.execute program)
  | node v => exact deeds_done (.node v)
  | setTempo bpm => exact deeds_done (.basic (.setTempo false bpm))
  | setVolume level => exact deeds_done (.basic (.setVolume false level))
  | setInstrument name => exact deeds_done (.basic (.setInstrument false name))
  | playNote pitch duration => exact deeds_done (.playNote pitch duration)
  | playChord notes duration => exact deeds_done (.playChord notes duration)
  | playRest duration => exact deeds_done (.basic (.rest duration))
  | value v default => exact .valueOf v default
  | condition v => exact .bind (.holds v) fun _ => .pure _
  | name v | noteText v => exact .lift _
  | summary => exact deeds_done .summary
  | stop => exact deeds_done .stop
  | supported => exact Deeds.supported.bind fun _ => .pure _

theorem deeds_announce (dialect : Dialect) (r : Rejection) : Deeds (announce dialect r) := by
  cases dialect with
  | full => exact .say _
  | restless => exact .pure _

/-- What no deed leaves, no command leaves. -/
theorem keeps_respond {R : Engine → Engine → Prop} (hrefl : ∀ e, R e e)
    (htrans : ∀ {a b c}, R a b → R b c → R a c)
    (hdeed : ∀ x, Perform.Deed x → ∀ e, R e (x.runOn e).2) (command : Command) (e : Engine) :
    R e (command.respond e).2 := by
  unfold respond
  split
  · split
    · exact (deeds_done (.execute _)).keeps hrefl htrans hdeed e
    · exact (deeds_announce _ _).keeps hrefl htrans hdeed e
  · split
    · exact hrefl e
    · exact (deeds_action _).keeps hrefl htrans hdeed e

/-- Every command takes the engine along a path of steps, also when it fails. -/
theorem path_respond (command : Command) (e : Engine) : e.Path (command.respond e).2 :=
  keeps_respond (fun _ => .refl) .trans (fun _ hx e => (hx.acts e).path) command e

/-- The engine after commands that are given one after the other. -/
def session (commands : List Command) (e : Engine) : Engine :=
  commands.foldl (fun e command => (command.respond e).2) e

theorem keeps_session {R : Engine → Engine → Prop} (hrefl : ∀ e, R e e)
    (htrans : ∀ {a b c}, R a b → R b c → R a c)
    (hdeed : ∀ x, Perform.Deed x → ∀ e, R e (x.runOn e).2) (commands : List Command)
    (e : Engine) : R e (session commands e) := by
  induction commands generalizing e with
  | nil => exact hrefl e
  | cons command commands ih =>
      exact htrans (keeps_respond hrefl htrans hdeed command e) (ih (command.respond e).2)

end Command

namespace Engine

/-- A new engine. -/
def built (palette : Palette) (device : Device) : Engine :=
  (Perform.build.runOn { palette, device }).2

/-- On a device that works, a new engine only reports that it is there. -/
theorem silent_built_working (palette : Palette) (format : Option (List Value)) :
    (built palette (.working format)).silent =
      (fresh palette (.working format) Synthesizer.standardRate).silent := by
  cases palette <;> rfl

theorem silent_built_broken (reason : String) :
    (built .soft (.broken reason)).silent =
      { palette := .soft, device := .broken reason : Engine }.silent :=
  rfl

end Engine
end TuneScript
