import TuneScript.Proofs.Twins

/-!
The parts of an engine. An engine that has all of them keeps them, and none of its commands fails
for want of one. On a device that does not work the soft palette builds an engine that has no part:
it stays without, and what it still can do are its settings of tempo and volume.
-/

namespace TuneScript

/-- Whether a failure says that an engine lacks a part. -/
def Failure.missesPart : Failure → Bool
  | noAttribute owner _ => owner == Palette.soft.engineName || owner == Palette.plain.engineName
  | _ => false

theorem Failure.missesPart_of_family {f : Failure} (h : f.family ≠ .attribute) :
    f.missesPart = false := by
  cases f with
  | noAttribute _ _ => exact absurd rfl h
  | _ => rfl

/-- An answer, or a failure that is not for want of a part. -/
def Result.Supplied {α : Type} (r : Result α) : Prop := ∀ f, r = .error f → f.missesPart = false

namespace Result.Supplied

variable {α β : Type} {r : Result α}

theorem ok (a : α) : Supplied (.ok a) := nofun

theorem error {f : Failure} (h : f.missesPart = false) : Supplied (.error f : Result α) := by
  intro g hg
  cases hg
  exact h

theorem map (h : r.Supplied) (f : α → β) : Supplied (r.map f) :=
  fun g hg => h g (Result.map_eq_error hg)

theorem of_family (h : ∀ f, r = .error f → f.family ≠ .attribute) : r.Supplied :=
  fun f hf => Failure.missesPart_of_family (h f hf)

theorem of_good {Q : α → Prop} (h : r.Good Q) : r.Supplied := by
  refine of_family fun f hf => ?_
  rw [hf] at h
  rcases h with h | h | h <;> simp [h]

end Result.Supplied

namespace Value

open Result (Supplied)

theorem supplied_display (v : Value) : v.display.Supplied := .of_good (display_good v)

theorem supplied_nameOf (v : Value) : (Node.nameOf v).Supplied := by
  unfold Node.nameOf
  split
  · exact .ok _
  · exact (supplied_display _).map _

theorem supplied_noteOf (v : Value) : (Node.noteOf v).Supplied := by
  unfold Node.noteOf
  split
  · exact .ok _
  · exact (supplied_display _).map _

theorem supplied_elements (v : Value) : v.elements.Supplied := by
  cases v with
  | text _ | list _ | record _ => exact .ok _
  | _ => exact .error rfl

theorem supplied_length (v : Value) : v.length.Supplied := by
  cases v with
  | text _ | list _ | record _ => exact .ok _
  | _ => exact .error rfl

/-- A value that is no record has no field, but it is no engine either. -/
theorem supplied_get (v : Value) (key : String) (default : Value) :
    (v.get key default).Supplied := by
  cases v with
  | record _ => exact .ok _
  | _ => exact .error rfl

theorem supplied_nthItem {α : Type} (sequence : Sequence) (items : List α) (i : Nat) :
    (nthItem sequence items i).Supplied := by
  unfold nthItem
  split
  · exact .ok _
  · exact .error rfl

theorem supplied_nth (v : Value) (i : Nat) : (v.nth i).Supplied := by
  cases v with
  | list items => exact supplied_nthItem .list items i
  | text s => exact (supplied_nthItem .text s.toList i).map _
  | _ => exact .error rfl

theorem supplied_requireKey (v : Value) : v.requireKey.Supplied := by
  cases v with
  | list _ | record _ => exact .error rfl
  | _ => exact .ok ()

theorem supplied_joinFrom (i : Nat) (items : List Value) : (joinFrom i items).Supplied := by
  induction items generalizing i with
  | nil => exact .ok _
  | cons v rest ih =>
      cases v with
      | text s => exact (ih (i + 1)).map _
      | _ => exact .error rfl

theorem supplied_join (separator : String) (v : Value) : (v.join separator).Supplied := by
  unfold join
  split
  · exact (supplied_joinFrom 0 _).map _
  · exact .error rfl

theorem supplied_tenths (v : Value) : v.tenths.Supplied := by
  cases hn : v.number? with
  | some n => exact .of_good (tenths_good hn)
  | none =>
      cases v with
      | null | text _ | list _ | record _ => exact .error rfl
      | _ => cases hn

theorem supplied_toInt (v : Value) : v.toInt.Supplied := by
  cases hn : v.number? with
  | some n => exact .of_good (toInt_good hn)
  | none =>
      cases v with
      | text s =>
          unfold toInt Reading.int
          dsimp only
          split
          · exact .error rfl
          · split
            · exact .error rfl
            · split
              · exact .error rfl
              · exact .ok _
      | null | list _ | record _ => exact .error rfl
      | _ => cases hn

theorem supplied_div (a b : Value) : (a.div b).Supplied := by
  refine .of_family fun f h => ?_
  rcases div_error h with h | h | ⟨h, -⟩ <;> simp [h]

theorem supplied_mul (a b : Value) : (a.mul b).Supplied := by
  refine .of_family fun f h => ?_
  rcases mul_error h with h | h | ⟨h, -⟩ <;> simp [h]

end Value

namespace Engine

/-- An engine that has all its parts. -/
structure Whole (e : Engine) : Prop where
  synthesizer : e.synthesizer.isSome = true
  tempo : e.tempo.isSome = true
  volume : e.volume.isSome = true
  instrument : e.instrument.isSome = true
  tracks : e.tracks.isSome = true
  store : e.store.isSome = true

theorem Step.whole {e d : Engine} (h : e.Step d) (he : e.Whole) : d.Whole := by
  cases h with
  | emit _ => exact ⟨he.1, he.2, he.3, he.4, he.5, he.6⟩
  | tempo _ => exact ⟨he.1, rfl, he.3, he.4, he.5, he.6⟩
  | volume _ => exact ⟨he.1, he.2, rfl, he.4, he.5, he.6⟩
  | instrument _ => exact ⟨he.1, he.2, he.3, rfl, he.5, he.6⟩
  | record _ _ _ _ => exact ⟨he.1, he.2, he.3, he.4, rfl, he.6⟩
  | store _ _ _ => exact ⟨he.1, he.2, he.3, he.4, he.5, rfl⟩

/-- A part is never lost. -/
theorem Path.whole {e d : Engine} (h : e.Path d) (he : e.Whole) : d.Whole := by
  induction h with
  | refl => exact he
  | tail _ hstep ih => exact hstep.whole ih

theorem Whole.of_silent {e d : Engine} (h : d.silent = e.silent) (he : e.Whole) : d.Whole := by
  have hd : d.silent.Whole := h ▸ ⟨he.1, he.2, he.3, he.4, he.5, he.6⟩
  exact ⟨hd.1, hd.2, hd.3, hd.4, hd.5, hd.6⟩

theorem whole_built (palette : Palette) (format : Option (List Value)) :
    (built palette (.working format)).Whole :=
  .of_silent (silent_built_working palette format) ⟨rfl, rfl, rfl, rfl, rfl, rfl⟩

namespace Whole

variable {e : Engine}

theorem lookup (he : e.Whole) {name default : Value} {f : Failure}
    (h : e.lookup name default = .error f) : f.missesPart = false := by
  obtain ⟨table, htable⟩ := Option.isSome_iff_exists.1 he.store
  rw [Engine.lookup, htable] at h
  rcases Result.bind_eq_error h with h | ⟨_, -, h⟩
  · exact name.supplied_requireKey f h
  · cases h

theorem operate {o : Operator} {left right : Value} {f : Failure}
    (h : operate o left right = .error f) : f.missesPart = false := by
  apply Failure.missesPart_of_family
  rcases operate_error h with h | h | ⟨h, -⟩ <;> simp [h]

theorem valueOf (he : e.Whole) (node default : Value) : (e.valueOf node default).Supplied := by
  intro f h
  rcases valueOf_error h with ⟨_, _, h⟩ | ⟨_, _, _, h⟩
  · exact he.lookup h
  · exact operate h

theorem holds (he : e.Whole) (node : Value) : (e.holds node).Supplied := by
  intro f h
  rcases holds_error h with ⟨_, _, h⟩ | ⟨_, _, _, h⟩ | ⟨_, _, _, h⟩
  · exact he.lookup h
  · exact operate h
  · apply Failure.missesPart_of_family
    simp [Value.compare_error h]

end Whole
end Engine

namespace Perform

variable {α β : Type}

/-- An action for which a whole engine has all that is asked of it, and which leaves it whole. -/
def Supplied (x : Perform α) : Prop :=
  ∀ e : Engine, e.Whole → (x.runOn e).2.Whole ∧ Result.Supplied (x.runOn e).1

namespace Supplied

variable {x : Perform α}

theorem of_acts (hx : x.Acts) (h : ∀ e : Engine, e.Whole → Result.Supplied (x.runOn e).1) :
    x.Supplied :=
  fun e he => ⟨(hx e).path.whole he, h e he⟩

theorem pure (a : α) : Supplied (Pure.pure a) := fun _ he => ⟨he, .ok a⟩

theorem lift {r : Result α} (h : r.Supplied) : Supplied (Perform.lift r) := by
  intro e he
  rw [runOn_lift]
  exact ⟨he, h⟩

theorem bind {f : α → Perform β} (hx : x.Supplied) (hf : ∀ a, (f a).Supplied) :
    (x >>= f).Supplied := by
  intro e he
  obtain ⟨hwhole, hanswer⟩ := hx e he
  rw [runOn_bind]
  cases h : (x.runOn e).1 with
  | ok a => exact hf a _ hwhole
  | error g => exact ⟨hwhole, .error (hanswer g h)⟩

theorem ite {c : Prop} [Decidable c] {y : Perform α} (hx : x.Supplied) (hy : y.Supplied) :
    Supplied (if c then x else y) := by
  split
  · exact hx
  · exact hy

theorem ask {f : Engine → Perform α} (hf : ∀ e : Engine, e.Whole → (f e).Supplied) :
    (get >>= f : Perform α).Supplied :=
  fun e he => hf e he e he

theorem setting {g : Engine → Engine} (h : ∀ e : Engine, e.Whole → (g e).Whole) :
    (modify g : Perform Unit).Supplied :=
  fun e he => ⟨h e he, .ok ()⟩

theorem part {name : String} {read : Engine → Option α}
    (h : ∀ e : Engine, e.Whole → (read e).isSome = true) : Supplied (Perform.part name read) := by
  intro e he
  obtain ⟨a, ha⟩ := Option.isSome_iff_exists.1 (h e he)
  rw [runOn_part, ha]
  exact ⟨he, .ok a⟩

theorem tempo : Supplied Perform.tempo := part fun _ he => he.tempo

theorem instrument : Supplied Perform.instrument := part fun _ he => he.instrument

theorem synthesizer : Supplied Perform.synthesizer := part fun _ he => he.synthesizer

theorem tracks : Supplied Perform.tracks := part fun _ he => he.tracks

theorem store : Supplied Perform.store := part fun _ he => he.store

theorem shown (v : Value) : Supplied (Perform.shown v) := lift v.supplied_display

theorem valueOf (node default : Value) : Supplied (Perform.valueOf node default) :=
  ask fun _ he => lift (he.valueOf node default)

theorem holds (node : Value) : Supplied (Perform.holds node) :=
  ask fun _ he => lift (he.holds node)

theorem print (s : String) : Supplied (Perform.print s) := of_acts (.print s) fun _ _ => .ok ()

theorem say (s : String) : Supplied (Perform.say s) := print _

theorem refLabel (viaRef : Bool) : Supplied (Perform.refLabel viaRef) := ask fun _ _ => pure _

theorem forM {f : α → Perform PUnit} (h : ∀ a, (f a).Supplied) (as : List α) :
    Supplied (as.forM f) := by
  induction as with
  | nil => exact pure _
  | cons a as ih => exact (h a).bind fun _ => ih

theorem mapM {f : α → Perform β} (h : ∀ a, (f a).Supplied) (as : List α) :
    Supplied (as.mapM f) := by
  induction as with
  | nil => exact pure _
  | cons a as ih =>
      rw [List.mapM_cons]
      exact (h a).bind fun _ => ih.bind fun _ => pure _

theorem rounds {round : Nat → Perform Unit} (h : ∀ i, (round i).Supplied) (i n : Nat) :
    Supplied (Perform.rounds round i n) := by
  induction n generalizing i with
  | zero => exact pure _
  | succ n ih => exact (h i).bind fun _ => ih (i + 1)

theorem roundsWhile {round : Nat → Perform Unit} (h : ∀ i, (round i).Supplied)
    (condition : Value) (done n : Nat) :
    Supplied (Perform.roundsWhile condition round done n) := by
  induction n generalizing done with
  | zero => exact (holds condition).bind fun _ => pure _
  | succ n ih =>
      refine (holds condition).bind fun _ => ?_
      split
      · exact (h _).bind fun _ => ih (done + 1)
      · exact pure _

/-! ### Deeds -/

theorem setTempo (viaRef : Bool) (bpm : Value) : Supplied (Perform.setTempo viaRef bpm) := by
  have hset : Supplied (modify fun e : Engine => { e with tempo := some bpm }) :=
    setting fun _ he => ⟨he.1, rfl, he.3, he.4, he.5, he.6⟩
  exact hset.bind fun _ => (refLabel viaRef).bind fun _ => (shown bpm).bind fun _ => say _

theorem setVolume (viaRef : Bool) (level : Value) :
    Supplied (Perform.setVolume viaRef level) := by
  have hset (x : Float) : Supplied (modify fun e : Engine => { e with volume := some x }) :=
    setting fun _ he => ⟨he.1, he.2, rfl, he.4, he.5, he.6⟩
  exact (lift (.of_good (Value.clampVolume_good level))).bind fun x => (hset x).bind fun _ =>
    (refLabel viaRef).bind fun _ => say _

theorem setInstrument (viaRef : Bool) (name : Value) :
    Supplied (Perform.setInstrument viaRef name) := by
  have hset (v : Value) : Supplied (modify fun e : Engine => { e with instrument := some v }) :=
    setting fun _ he => ⟨he.1, he.2, he.3, rfl, he.5, he.6⟩
  refine ask fun e _ => ?_
  cases e.palette with
  | soft =>
      refine synthesizer.bind fun _ => (lift name.supplied_requireKey).bind fun _ => ite ?_ ?_
      · exact (hset name).bind fun _ => (shown name).bind fun _ => say _
      · exact (shown name).bind fun _ => (say _).bind fun _ => hset _
  | plain => exact (hset name).bind fun _ => (shown name).bind fun _ => say _

theorem setVariable (name value : Value) : Supplied (Perform.setVariable name value) := by
  have hset (table : Table Value) :
      Supplied (modify fun e : Engine => { e with store := some table }) :=
    setting fun _ he => ⟨he.1, he.2, he.3, he.4, he.5, rfl⟩
  exact store.bind fun _ => (lift name.supplied_requireKey).bind fun _ => hset _

theorem record (event : TrackEvent) : Supplied (Perform.record event) := by
  have hset (table : Tracks) :
      Supplied (modify fun e : Engine => { e with tracks := some table }) :=
    setting fun _ he => ⟨he.1, he.2, he.3, he.4, rfl, he.6⟩
  exact tracks.bind fun _ => instrument.bind fun v => (lift v.supplied_requireKey).bind fun _ =>
    hset _

theorem sleep (duration : Value) : Supplied (Perform.sleep duration) := by
  have hplaying : Composed (Playing fun _ => True) (Perform.sleep duration) :=
    Playing.sleep duration
  refine of_acts (hplaying.acts fun _ => Playing.acts) fun e _ => ?_
  rw [runOn_sleep]
  cases h : duration.refusal? with
  | none => exact .ok ()
  | some f => exact .of_good (Q := fun _ => True) (Value.refusal?_ordinary h)

theorem playRest (duration : Value) : Supplied (Perform.playRest duration) :=
  (lift duration.supplied_tenths).bind fun _ => (say _).bind fun _ => (record _).bind fun _ =>
    sleep duration

/-- A note reports every failure, so none is left. -/
theorem note (pitch duration : Value) : Supplied (Perform.note pitch duration) := by
  refine of_acts (Deed.note pitch duration).acts fun e _ => ?_
  rw [note_ok]
  exact .ok ()

/-! ### Statements -/

theorem beat : Supplied Perform.beat := tempo.bind fun _ => lift (Value.supplied_div _ _)

theorem twoBeats : Supplied Perform.twoBeats := beat.bind fun _ => lift (Value.supplied_mul _ _)

theorem describeNote (pitch duration : Value) : Supplied (Perform.describeNote pitch duration) :=
  instrument.bind fun _ => (shown _).bind fun _ => (shown _).bind fun _ =>
    (lift duration.supplied_tenths).bind fun _ => say _

theorem playNote (pitch duration : Value) : Supplied (Perform.playNote pitch duration) := by
  unfold Perform.playNote
  split
  · exact beat.bind fun _ => note pitch _
  · exact note pitch _

theorem strike (notes duration : Value) : Supplied (Perform.strike notes duration) :=
  instrument.bind fun _ => (shown _).bind fun _ =>
    (lift (Value.supplied_join _ _)).bind fun _ => (lift duration.supplied_tenths).bind fun _ =>
    (say _).bind fun _ => (lift notes.supplied_elements).bind fun items =>
    forM (fun pitch => note pitch duration) items

theorem playChord (notes duration : Value) : Supplied (Perform.playChord notes duration) := by
  unfold Perform.playChord
  split
  · exact twoBeats.bind fun _ => strike notes _
  · exact strike notes _

theorem durationOf (node default : Value) {standard : Perform Value} (h : standard.Supplied) :
    Supplied (Perform.durationOf node default standard) := by
  unfold Perform.durationOf
  split
  · split
    · exact valueOf _ _
    · exact h
  · exact h

theorem noteNode (node : Value) : Supplied (Perform.noteNode node) := by
  refine (durationOf node _ beat).bind fun duration =>
    (lift (Value.supplied_get _ _ _)).bind fun kind => ?_
  split
  · refine instrument.bind fun _ => (shown _).bind fun _ => (print _).bind fun _ =>
      (lift (Value.supplied_elements _)).bind fun notes => (forM (fun n => ?_) notes).bind fun _ =>
      say _
    exact (lift n.supplied_noteOf).bind fun name => (shown name).bind fun _ =>
      (print _).bind fun _ => note name duration
  · refine (lift (Value.supplied_noteOf _)).bind fun name => ask fun _ _ => ?_
    split
    · exact (describeNote name duration).bind fun _ => note name duration
    · exact note name duration

theorem chordNode (node : Value) : Supplied (Perform.chordNode node) := by
  refine (durationOf node _ twoBeats).bind fun duration =>
    (lift (Value.supplied_get _ _ _)).bind fun notes =>
    (lift notes.supplied_elements).bind fun items =>
    (mapM (fun n => lift n.supplied_noteOf) items).bind fun names => ask fun _ _ => ?_
  split
  · exact playChord _ duration
  · exact strike _ duration

section Statements

variable {run : Value → Perform Unit} (hrun : ∀ v, (run v).Supplied)

include hrun

theorem body (statements : Value) : Supplied (Perform.body run statements) :=
  (lift statements.supplied_elements).bind fun items => forM hrun items

theorem loopNode (node : Value) : Supplied (Perform.loopNode run node) := by
  refine (valueOf _ _).bind fun v => (lift v.supplied_toInt).bind fun count =>
    (shown _).bind fun _ => (say _).bind fun _ => rounds (fun _ => ?_) 0 count.toNat
  exact (say _).bind fun _ => body hrun _

theorem whileNode (node : Value) : Supplied (Perform.whileNode run node) := by
  have hround : ∀ i : Nat, Supplied (do
      Perform.say ("   第 " ++ toString i ++ " 次迴圈")
      Perform.body run ((node.field? "body").getD (.list []))) :=
    fun i => (say _).bind fun _ => body hrun _
  refine (say _).bind fun _ => (roundsWhile hround _ 0 roundLimit).bind fun done => ?_
  split
  · exact (say _).bind fun _ => say _
  · exact say _

theorem forNode (node : Value) : Supplied (Perform.forNode run node) := by
  refine (lift (Value.supplied_nameOf _)).bind fun counter =>
    (lift (Value.supplied_get _ _ _)).bind fun _ => (valueOf _ _).bind fun v =>
    (lift v.supplied_toInt).bind fun first => (lift (Value.supplied_get _ _ _)).bind fun _ =>
    (valueOf _ _).bind fun w => (lift w.supplied_toInt).bind fun last => (shown _).bind fun _ =>
    (shown _).bind fun _ => (shown _).bind fun _ => (say _).bind fun _ =>
    (rounds (fun i => ?_) 0 _).bind fun _ => say _
  exact (setVariable _ _).bind fun _ => (shown _).bind fun _ => (shown _).bind fun _ =>
    (shown _).bind fun _ => (shown _).bind fun _ => (say _).bind fun _ => body hrun _

theorem firstAlternative (clauses : List Value) :
    Supplied (Perform.firstAlternative run clauses) := by
  induction clauses with
  | nil => exact pure _
  | cons clause rest ih =>
      refine (lift (Value.supplied_get _ _ _)).bind fun _ => (holds _).bind fun _ => ?_
      split
      · exact (say _).bind fun _ => (body hrun _).bind fun _ => pure _
      · exact ih

theorem branchNode (node : Value) : Supplied (Perform.branchNode run node) := by
  refine (holds _).bind fun _ => ?_
  split
  · exact (say _).bind fun _ => body hrun _
  · refine (lift (Value.supplied_elements _)).bind fun clauses =>
      (firstAlternative hrun clauses).bind fun found => ?_
    dsimp only
    split
    · exact (say _).bind fun _ => body hrun _
    · exact pure _

omit hrun in
theorem assignNode (node : Value) : Supplied (Perform.assignNode node) :=
  (lift (Value.supplied_nameOf _)).bind fun _ => (valueOf _ _).bind fun _ =>
    (setVariable _ _).bind fun _ => (shown _).bind fun _ => (shown _).bind fun _ => say _

omit hrun in
theorem defineNode (node : Value) : Supplied (Perform.defineNode node) :=
  (lift (Value.supplied_nameOf _)).bind fun _ => (setVariable _ _).bind fun _ =>
    (shown _).bind fun _ => say _

theorem callNode (node : Value) : Supplied (Perform.callNode run node) := by
  refine (lift (Value.supplied_nameOf _)).bind fun name => store.bind fun table =>
    (lift name.supplied_requireKey).bind fun _ => ?_
  split
  · split
    · exact (shown _).bind fun _ => (say _).bind fun _ => body hrun _
    · exact pure _
  · exact pure _

omit hrun in
theorem refCallNode (node : Value) : Supplied (Perform.refCallNode node) := by
  refine (lift (Value.supplied_nameOf _)).bind fun name => (shown _).bind fun _ =>
    (say _).bind fun _ => ?_
  split
  · split
    · exact (lift (Value.supplied_nth _ 0)).bind fun _ => (valueOf _ _).bind fun _ =>
        setVolume true _
    · exact (lift (Value.supplied_nth _ 0)).bind fun _ => (valueOf _ _).bind fun _ =>
        setTempo true _
    · exact (lift (Value.supplied_nth _ 0)).bind fun v => (lift v.supplied_nameOf).bind fun _ =>
        setInstrument true _
    · exact pure _
  · exact pure _

theorem statement (node : Value) : Supplied (Perform.statement run node) := by
  unfold Perform.statement
  split
  · exact (valueOf _ _).bind fun _ => setTempo false _
  · exact (valueOf _ _).bind fun _ => setVolume false _
  · exact (lift (Value.supplied_get _ _ _)).bind fun _ => setInstrument false _
  · exact noteNode node
  · exact chordNode node
  · refine ask fun _ _ => ?_
    split
    · exact (valueOf _ _).bind fun _ => playRest _
    · exact pure _
  · exact loopNode hrun node
  · exact whileNode hrun node
  · exact forNode hrun node
  · exact branchNode hrun node
  · exact assignNode node
  · exact defineNode node
  · exact callNode hrun node
  · exact refCallNode node
  · exact pure _

theorem numbered (total i : Nat) (nodes : List Value) :
    Supplied (Perform.numbered total run i nodes) := by
  induction nodes generalizing i with
  | nil => exact pure _
  | cons v nodes ih => exact (say _).bind fun _ => (hrun v).bind fun _ => ih (i + 1)

end Statements

theorem node (v : Value) : Supplied (Perform.node v) := by
  have hperform (depth : Nat) : ∀ v, Supplied (Perform.perform depth v) := by
    induction depth with
    | zero => exact fun _ e he => ⟨he, .error rfl⟩
    | succ depth ih => exact statement ih
  exact hperform depthLimit v

theorem summary : Supplied Perform.summary := by
  refine tracks.bind fun table => ask fun _ _ => ?_
  split
  · refine (say _).bind fun _ => (forM (fun _ => ?_) table).bind fun _ => say _
    exact (shown _).bind fun _ => say _
  · exact pure _

theorem execute (program : Value) : Supplied (Perform.execute program) := by
  unfold Perform.execute
  split
  · exact (say _).bind fun _ => (lift (Value.supplied_length _)).bind fun _ =>
      (say _).bind fun _ => (lift (Value.supplied_elements _)).bind fun nodes =>
      (numbered node _ 1 nodes).bind fun _ => (say _).bind fun _ => summary
  · exact say _

end Supplied
end Perform

namespace Command

open Perform (Supplied)

theorem supplied_done {x : Perform Unit} (h : x.Supplied) : Supplied (done x) :=
  h.bind fun _ => .pure _

theorem supplied_action (command : Command) : Supplied command.action := by
  cases command with
  | run _ _ => exact .pure _
  | execute program => exact supplied_done (.execute program)
  | node v => exact supplied_done (.node v)
  | setTempo bpm => exact supplied_done (.setTempo false bpm)
  | setVolume level => exact supplied_done (.setVolume false level)
  | setInstrument name => exact supplied_done (.setInstrument false name)
  | playNote pitch duration => exact supplied_done (.playNote pitch duration)
  | playChord notes duration => exact supplied_done (.playChord notes duration)
  | playRest duration => exact supplied_done (.playRest duration)
  | value v default => exact .valueOf v default
  | condition v => exact Supplied.bind (.holds v) fun _ => .pure _
  | name v => exact .lift v.supplied_nameOf
  | noteText v => exact .lift v.supplied_noteOf
  | summary => exact supplied_done .summary
  | stop => exact supplied_done (.of_acts Perform.Deeds.stop.acts fun _ _ => .ok ())
  | supported => exact Supplied.bind (.bind .synthesizer fun _ => .pure _) fun _ => .pure _

theorem error_of_outcome {r : Except Failure Value} {f : Failure} (h : outcome r = .failed f) :
    r = .error f := by
  cases r with
  | ok v => cases h
  | error g =>
      cases h
      rfl

/-- No command of a whole engine of the soft palette fails for want of a part. -/
theorem missesPart_respond {e : Engine} (hsoft : e.palette = .soft) (he : e.Whole)
    {command : Command} {f : Failure} (h : (command.respond e).1 = .failed f) :
    f.missesPart = false := by
  unfold respond at h
  split at h
  · split at h
    · exact (supplied_done (.execute _) e he).2 f (error_of_outcome h)
    · cases h
  · split at h
    · next hplain =>
      rw [hsoft] at hplain
      cases hplain
    · exact (supplied_action _ e he).2 f (error_of_outcome h)

/-- How an engine of the soft palette answers to a method of its own. -/
theorem respond_method {e : Engine} (hsoft : e.palette = .soft) {command : Command}
    {x : Perform Unit} (hmethod : command.softMethod?.isSome = true)
    (hx : command.action = done x) : command.respond e = x.answer e := by
  cases command with
  | setTempo _ | setVolume _ | setInstrument _ | playNote _ _ | playChord _ _ | playRest _ =>
      unfold respond
      dsimp only [softMethod?]
      rw [hsoft, hx]
      rfl
  | _ => cases hmethod

theorem path_session (commands : List Command) (e : Engine) : e.Path (session commands e) :=
  keeps_session (fun _ => .refl) .trans (fun _ hx e => (hx.acts e).path) commands e

end Command

namespace Engine

theorem Path.palette {e d : Engine} (h : e.Path d) : d.palette = e.palette := by
  induction h with
  | refl => rfl
  | tail _ hstep ih =>
      rw [← ih]
      cases hstep <;> rfl

theorem Path.tracks_eq_none {e d : Engine} (h : e.Path d) (he : e.tracks = none) :
    d.tracks = none := by
  have hsome := h.tracks_isSome
  rw [he] at hsome
  exact Option.not_isSome_iff_eq_none.1 (by simp [hsome])

/-- An engine of the soft palette that was built without a device. -/
structure Bare (e : Engine) : Prop where
  soft : e.palette = .soft
  synthesizer : e.synthesizer = none
  instrument : e.instrument = none
  tracks : e.tracks = none

namespace Bare

variable {e : Engine}

theorem runOn_setInstrument (he : e.Bare) (viaRef : Bool) (name : Value) :
    (Perform.setInstrument viaRef name).runOn e = (.error (e.missing "synthesizer"), e) := by
  rw [Perform.runOn_setInstrument_soft he.soft, Perform.chooseInstrument, Perform.runOn_bind,
    Perform.synthesizer, Perform.runOn_part, he.synthesizer]
  rfl

/-- No deed gives an instrument to an engine that has no synthesizer to choose it from. -/
theorem instrument_deed (he : e.Bare) {x : Perform Unit} (hx : Perform.Deed x) :
    (x.runOn e).2.instrument = e.instrument := by
  have hlog (e : Engine) (log : Array Effect) : { e with log }.instrument = e.instrument := rfl
  have htracks (e : Engine) (tracks : Option Tracks) :
      { e with tracks }.instrument = e.instrument := rfl
  cases hx with
  | print s => rfl
  | setTempo viaRef bpm =>
      exact (Perform.Leaves.setTempo hlog (fun _ _ => rfl) viaRef bpm).read_eq e
  | setVolume viaRef level =>
      exact (Perform.Leaves.setVolume hlog (fun _ _ => rfl) viaRef level).read_eq e
  | setInstrument viaRef name => rw [he.runOn_setInstrument]
  | setVariable name value =>
      have hleaves : Perform.Leaves Engine.instrument (Perform.setVariable name value) :=
        .bind .store fun _ => .bind (.lift _) fun _ => .basic fun _ => rfl
      exact hleaves.read_eq e
  | note pitch duration => exact Perform.Leaves.note hlog htracks pitch duration e
  | rest duration =>
      exact Perform.Leaves.playing hlog htracks (Perform.Playing.playRest trivial) e
  | halt => rfl

theorem deed (he : e.Bare) {x : Perform Unit} (hx : Perform.Deed x) : (x.runOn e).2.Bare := by
  have hpath := (hx.acts e).path
  exact ⟨hpath.palette.trans he.soft, hpath.synthesizer.trans he.synthesizer,
    (he.instrument_deed hx).trans he.instrument, hpath.tracks_eq_none he.tracks⟩

theorem session (reason : String) (commands : List Command) :
    (Command.session commands (built .soft (.broken reason))).Bare := by
  refine Command.keeps_session (R := fun e d => e.Bare → d.Bare) (fun _ h => h)
    (fun hab hbc h => hbc (hab h)) (fun _ hx _ he => he.deed hx) commands _ ⟨rfl, rfl, rfl, rfl⟩

theorem tuned (he : e.Bare) : e.Tuned where
  soft := he.soft
  instrument v hv := by
    rw [he.instrument] at hv
    cases hv
  tracks table ht := by
    rw [he.tracks] at ht
    cases ht

theorem missing (he : e.Bare) (part : String) :
    e.missing part = .noAttribute "AudioEngine" part := by
  rw [Engine.missing, he.soft]
  rfl

theorem runOn_playChord (he : e.Bare) (notes : Value) {duration : Value}
    (hduration : duration ≠ .null) : (Perform.playChord notes duration).runOn e =
      (.error (e.missing "current_instrument"), e) := by
  have hstrike : Perform.playChord notes duration = Perform.strike notes duration := by
    cases duration with
    | null => exact absurd rfl hduration
    | _ => rfl
  rw [hstrike, Perform.strike, Perform.runOn_bind, Perform.instrument, Perform.runOn_part,
    he.instrument]
  rfl

theorem runOn_record (he : e.Bare) (event : TrackEvent) :
    (Perform.record event).runOn e = (.error (e.missing "tracks"), e) := by
  rw [Perform.record, Perform.runOn_bind, Perform.tracks, Perform.runOn_part, he.tracks]
  rfl

theorem runOn_playRest (he : e.Bare) {duration : Value} {line : String}
    (hline : duration.tenths = .ok line) :
    (Perform.playRest duration).runOn e = (.error (e.missing "tracks"),
      ((Perform.say ("🔇 休止符: " ++ line ++ "s")).runOn e).2) := by
  have hsaid : ((Perform.say ("🔇 休止符: " ++ line ++ "s")).runOn e).2.Bare := he.deed (.print _)
  rw [Perform.playRest, hline]
  change (Perform.record (.rest duration) >>= fun _ => Perform.sleep duration).runOn
    ((Perform.say ("🔇 休止符: " ++ line ++ "s")).runOn e).2 = _
  rw [Perform.runOn_bind, hsaid.runOn_record]
  rfl

/-- A text that is run fails in one of its statements or at the end, where the tracks are asked
for. -/
theorem respond_run (he : e.Bare) {text : String} {p : Program}
    (hread : Reader.read .full text = .ok p) :
    (∃ f, ((Command.run .full text).respond e).1 = .failed f) ∧
      (((Perform.all p.executed).runOn e).1 = .ok () →
        ((Command.run .full text).respond e).1 = .failed (e.missing "tracks")) := by
  obtain ⟨hrecord, hbody⟩ := p.toNode_shape
  have halike := Perform.alike_answer (Perform.alike_execute he.tuned hrecord hbody)
  have hanswer : ((Command.run .full text).respond e).1 =
      ((Perform.all p.executed >>= fun _ => Perform.requireTracks).answer e).1 := by
    rw [Program.respond_run hread]
    exact halike.1
  rw [hanswer]
  have hpath := (Perform.Acts.all p.executed e).path
  cases hall : (Perform.all p.executed).runOn e with
  | mk r d =>
      rw [hall] at hpath
      cases r with
      | error f =>
          have hboth : (Perform.all p.executed >>= fun _ => Perform.requireTracks).runOn e =
              (.error f, d) := by
            rw [Perform.runOn_bind, hall]
            rfl
          rw [Perform.answer_error hboth]
          exact ⟨⟨f, rfl⟩, fun hok => nomatch hok⟩
      | ok u =>
          have hmissing : d.missing "tracks" = e.missing "tracks" := by
            rw [Engine.missing, Engine.missing, hpath.palette]
          have hboth : (Perform.all p.executed >>= fun _ => Perform.requireTracks).runOn e =
              (.error (e.missing "tracks"), d) := by
            rw [Perform.runOn_bind, hall]
            change Perform.requireTracks.runOn d = _
            rw [Perform.runOn_requireTracks, hpath.tracks_eq_none he.tracks, hmissing]
          rw [Perform.answer_error hboth]
          exact ⟨⟨_, rfl⟩, fun _ => rfl⟩

end Bare

/-- An engine of the soft palette is built on every device, but only on one that works it has its
parts. There none of its commands ever fails for want of one. On a broken device, whatever it was
told before, no instrument can be set, no chord struck and no rest made, and no text can be run to
its end. -/
theorem parts_of_session (commands : List Command) :
    (∀ device, (Perform.build.runOn { palette := .soft, device }).1 = .ok ()) ∧
    (∀ format (command : Command) part,
      (command.respond (Command.session commands (built .soft (.working format)))).1 ≠
        .failed (.noAttribute "AudioEngine" part)) ∧
    ∀ reason,
      let e := Command.session commands (built .soft (.broken reason))
      (∀ name, ((Command.setInstrument name).respond e).1 =
        .failed (.noAttribute "AudioEngine" "synthesizer")) ∧
      (∀ notes duration, duration ≠ .null → ((Command.playChord notes duration).respond e).1 =
        .failed (.noAttribute "AudioEngine" "current_instrument")) ∧
      (∀ duration line, duration.tenths = .ok line → ((Command.playRest duration).respond e).1 =
        .failed (.noAttribute "AudioEngine" "tracks")) ∧
      ∀ text p, Reader.read .full text = .ok p →
        (∃ f, ((Command.run .full text).respond e).1 = .failed f) ∧
        (((Perform.all p.executed).runOn e).1 = .ok () → ((Command.run .full text).respond e).1 =
          .failed (.noAttribute "AudioEngine" "tracks")) := by
  refine ⟨fun device => ?_, fun format command part hfailed => ?_, fun reason => ?_⟩
  · cases device <;> rfl
  · have hpath := Command.path_session commands (built .soft (.working format))
    have hsoft := hpath.palette.trans (palette_of_silent (silent_built_working .soft format))
    cases Command.missesPart_respond hsoft (hpath.whole (whole_built .soft format)) hfailed
  · have he := Bare.session reason commands
    refine ⟨fun name => ?_, fun notes duration hduration => ?_, fun duration line hline => ?_,
      fun text p hread => ?_⟩
    · rw [Command.respond_method he.soft rfl rfl,
        Perform.answer_error (he.runOn_setInstrument false name), he.missing]
    · rw [Command.respond_method he.soft rfl rfl,
        Perform.answer_error (he.runOn_playChord notes hduration), he.missing]
    · rw [Command.respond_method he.soft rfl rfl, Perform.answer_error (he.runOn_playRest hline),
        he.missing]
    · rw [← he.missing "tracks"]
      exact he.respond_run hread

theorem parts_of_session_tempo :
    ((Command.run .full "tempo 90").respond
      (Command.session [.setVolume (.float 0.5)] (built .soft (.working none)))).1 ≠
        .failed (.noAttribute "AudioEngine" "tracks") ∧
    ((Command.run .full "tempo 90").respond
      (Command.session [.setVolume (.float 0.5)] (built .soft (.broken "no device")))).1 =
        .failed (.noAttribute "AudioEngine" "tracks") := by
  have htext : Program.render [.tempo ⟨['9', '0'], none⟩] = "tempo 90" := by decide
  have hread : Reader.read .full "tempo 90" = .ok [.tempo ⟨['9', '0'], none⟩] :=
    htext ▸ Program.read_render (by decide)
  obtain ⟨-, hworking, hbroken⟩ := parts_of_session [.setVolume (.float 0.5)]
  exact ⟨hworking none _ "tracks", ((hbroken "no device").2.2.2 _ _ hread).2 rfl⟩

/-- The engine is there, but it cannot even rest. -/
theorem rest_without_device :
    (Perform.build.runOn { palette := .soft, device := .broken "no device" }).1 = .ok () ∧
      ((Command.playRest (.int 1)).respond (built .soft (.broken "no device"))).1 =
        .failed (.noAttribute "AudioEngine" "tracks") :=
  ⟨rfl, rfl⟩

end Engine
end TuneScript
