import Mathlib.Logic.Relation
import TuneScript.Engine.Session

/-!
What a performance can do to an engine. `Engine.Step` lists the single changes with what
guards them; an action of `Perform` takes a path of such steps, also when it fails, and
what it does never hangs on what was printed before.
-/

namespace TuneScript

def Effect.isText : Effect → Bool
  | text _ => true
  | _ => false

namespace Engine

/-- An engine without what it has printed. -/
def silent (e : Engine) : Engine := { e with log := e.log.filter fun effect => !effect.isText }

theorem silent_push (e : Engine) (effect : Effect) :
    silent { e with log := e.log.push effect } =
      { e.silent with
        log := if effect.isText then e.silent.log else e.silent.log.push effect } := by
  cases h : effect.isText <;> simp [silent, h]

/-- The instruments that the soft palette takes: those it knows, and the piano. -/
def Takes (e : Engine) (v : Value) : Prop :=
  v = .text Synthesizer.fallback ∨
    ∃ s synthesizer, v = .text s ∧ e.synthesizer = some synthesizer ∧
      synthesizer.instruments.contains s = true

/-- One change of an engine. -/
inductive Step (e : Engine) : Engine → Prop where
  | emit (effect : Effect) : Step e { e with log := e.log.push effect }
  | tempo (bpm : Value) : Step e { e with tempo := some bpm }
  | volume {level : Value} {x : Float} (h : Perform.clampVolume level = .ok x) :
      Step e { e with volume := some x }
  | instrument {v : Value} (h : e.palette = .soft → e.Takes v) :
      Step e { e with instrument := some v }
  | record {table : Tracks} {v : Value} (event : TrackEvent) (ht : e.tracks = some table)
      (hv : e.instrument = some v) (hkey : v.requireKey = .ok ()) :
      Step e { e with
        tracks := some (table.update v fun events => events.getD [] ++ [event]) }
  | store {table : Table Value} {name : Value} (value : Value) (ht : e.store = some table)
      (hkey : name.requireKey = .ok ()) : Step e { e with store := some (table.insert name value) }

abbrev Path : Engine → Engine → Prop := Relation.ReflTransGen Step

/-- Expressions look at an engine only to find variables. -/
theorem valueOf_congr {e d : Engine} (h : ∀ name v, d.lookup name v = e.lookup name v)
    (node default : Value) : d.valueOf node default = e.valueOf node default := by
  have ih : ∀ key v, node.field? key = some v → d.valueOf v (.int 0) = e.valueOf v (.int 0) :=
    fun key v hv => valueOf_congr h v (.int 0)
  rw [valueOf, valueOf, h]
  cases hl : node.field? "left" with
  | none =>
      cases hr : node.field? "right" with
      | none => simp
      | some r => simp [ih _ _ hr]
  | some l =>
      cases hr : node.field? "right" with
      | none => simp [ih _ _ hl]
      | some r => simp [ih _ _ hl, ih _ _ hr]
termination_by sizeOf node
decreasing_by exact Value.sizeOf_field_lt hv

theorem holds_congr {e d : Engine} (h : ∀ name v, d.lookup name v = e.lookup name v)
    (node : Value) : d.holds node = e.holds node := by
  have ih : ∀ key v, node.field? key = some v → d.holds v = e.holds v :=
    fun key v hv => holds_congr h v
  rw [holds, holds, h]
  simp only [valueOf_congr h]
  split
  case h_2 =>
    cases hl : node.field? "left" with
    | none =>
        cases hr : node.field? "right" with
        | none => simp
        | some r => simp [ih _ _ hr]
    | some l =>
        cases hr : node.field? "right" with
        | none => simp [ih _ _ hl]
        | some r => simp [ih _ _ hl, ih _ _ hr]
  case h_3 =>
    cases ho : node.field? "operand" with
    | none => simp
    | some o => simp [ih _ _ ho]
  all_goals rfl
termination_by sizeOf node
decreasing_by exact Value.sizeOf_field_lt hv

/-- Engines that differ in what they have printed alone are alike in all else. -/
theorem read_of_silent {α : Type} (read : Engine → α) (hread : ∀ e : Engine, read e.silent = read e)
    {e d : Engine} (h : d.silent = e.silent) : read d = read e := by
  rw [← hread d, h, hread e]

theorem lookup_of_silent {e d : Engine} (h : d.silent = e.silent) (name v : Value) :
    d.lookup name v = e.lookup name v :=
  read_of_silent (fun e => e.lookup name v) (fun _ => rfl) h

theorem palette_of_silent {e d : Engine} (h : d.silent = e.silent) : d.palette = e.palette :=
  read_of_silent palette (fun _ => rfl) h

theorem device_of_silent {e d : Engine} (h : d.silent = e.silent) : d.device = e.device :=
  read_of_silent device (fun _ => rfl) h

theorem volume_of_silent {e d : Engine} (h : d.silent = e.silent) : d.volume = e.volume :=
  read_of_silent volume (fun _ => rfl) h

theorem instrument_of_silent {e d : Engine} (h : d.silent = e.silent) :
    d.instrument = e.instrument :=
  read_of_silent instrument (fun _ => rfl) h

end Engine

/-- The same answer, and engines that differ at most in what they have printed. -/
def Alike {β : Type} (a b : β × Engine) : Prop := a.1 = b.1 ∧ a.2.silent = b.2.silent

namespace Alike

variable {β : Type} {a b c : β × Engine}

theorem refl (a : β × Engine) : Alike a a := ⟨rfl, rfl⟩

theorem symm (h : Alike a b) : Alike b a := ⟨h.1.symm, h.2.symm⟩

theorem trans (h : Alike a b) (h' : Alike b c) : Alike a c := ⟨h.1.trans h'.1, h.2.trans h'.2⟩

end Alike

namespace Perform

variable {α β : Type}

/-- What an action answers on an engine, and the engine after it. -/
def runOn (x : Perform α) (e : Engine) : Except Failure α × Engine := x.run.run e

/-- What comes after an answer. -/
def next (f : α → Perform β) : Except Failure α → Perform β
  | .ok a => f a
  | .error failure => throw failure

/-- What comes after an answer that may be a failure to be dealt with. -/
def caught (handle : Failure → Perform α) : Except Failure α → Perform α
  | .ok a => pure a
  | .error failure => handle failure

theorem runOn_bind (x : Perform α) (f : α → Perform β) (e : Engine) :
    (x >>= f).runOn e = (next f (x.runOn e).1).runOn (x.runOn e).2 := by
  change (ExceptT.bindCont f (x.runOn e).1).run (x.runOn e).2 = _
  cases (x.runOn e).1 <;> rfl

theorem bind_ok {x : Perform α} {f : α → Perform β} {e d : Engine} {b : β}
    (h : (x >>= f).runOn e = (.ok b, d)) :
    ∃ a c, x.runOn e = (.ok a, c) ∧ (f a).runOn c = (.ok b, d) := by
  rw [runOn_bind] at h
  cases hx : x.runOn e with
  | mk r c =>
      rw [hx] at h
      cases r with
      | ok a => exact ⟨a, c, rfl, h⟩
      | error failure => cases h

theorem runOn_tryCatch (x : Perform α) (handle : Failure → Perform α) (e : Engine) :
    (tryCatch x handle).runOn e = (caught handle (x.runOn e).1).runOn (x.runOn e).2 := by
  simp only [runOn, tryCatch, tryCatchThe, MonadExceptOf.tryCatch, ExceptT.tryCatch, ExceptT.run,
    ExceptT.mk, StateT.run, bind, StateT.bind]
  rcases x e with ⟨r, d⟩
  cases r <;> rfl

theorem runOn_get (f : Engine → Perform α) (e : Engine) :
    (get >>= f : Perform α).runOn e = (f e).runOn e := rfl

theorem runOn_lift (r : Result α) (e : Engine) : (lift r).runOn e = (r, e) := by
  cases r <;> rfl

theorem runOn_part (name : String) (read : Engine → Option α) (e : Engine) :
    (part name read).runOn e =
      match read e with
      | some a => (.ok a, e)
      | none => (.error (e.missing name), e) := by
  rw [part, runOn_get]
  cases read e <;> rfl

theorem part_ok {name : String} {read : Engine → Option α} {e d : Engine} {a : α}
    (h : (part name read).runOn e = (.ok a, d)) : read e = some a ∧ d = e := by
  rw [runOn_part] at h
  split at h
  · next hread =>
    cases h
    exact ⟨hread, rfl⟩
  · cases h

theorem lift_ok {r : Result α} {e d : Engine} {a : α} (h : (lift r).runOn e = (.ok a, d)) :
    r = .ok a ∧ d = e := by
  rw [runOn_lift] at h
  cases h
  exact ⟨rfl, rfl⟩

theorem part_bind_ok {name : String} {read : Engine → Option α} {f : α → Perform β} {e d : Engine}
    {b : β} (h : (part name read >>= f).runOn e = (.ok b, d)) :
    ∃ a, read e = some a ∧ (f a).runOn e = (.ok b, d) := by
  obtain ⟨a, c, ha, hf⟩ := bind_ok h
  obtain ⟨hread, rfl⟩ := part_ok ha
  exact ⟨a, hread, hf⟩

theorem lift_bind_ok {r : Result α} {f : α → Perform β} {e d : Engine} {b : β}
    (h : (lift r >>= f).runOn e = (.ok b, d)) : ∃ a, r = .ok a ∧ (f a).runOn e = (.ok b, d) := by
  obtain ⟨a, c, ha, hf⟩ := bind_ok h
  obtain ⟨hr, rfl⟩ := lift_ok ha
  exact ⟨a, hr, hf⟩

/-- From this engine an action takes a path of steps, and what it does does not hang on what
was printed. -/
structure ActsAt (x : Perform α) (e : Engine) : Prop where
  path : e.Path (x.runOn e).2
  blind : ∀ d : Engine, d.silent = e.silent → Alike (x.runOn d) (x.runOn e)

def Acts (x : Perform α) : Prop := ∀ e, x.ActsAt e

namespace ActsAt

variable {x : Perform α} {e : Engine}

/-- An action that goes on after another one as its answer says. -/
theorem follow {y : Perform β} {k : Except Failure α → Perform β}
    (hy : ∀ d, y.runOn d = (k (x.runOn d).1).runOn (x.runOn d).2) (hx : x.ActsAt e)
    (hk : (k (x.runOn e).1).ActsAt (x.runOn e).2) : y.ActsAt e := by
  refine ⟨?_, fun d hd => ?_⟩
  · rw [hy]
    exact hx.path.trans hk.path
  · obtain ⟨hr, hs⟩ := hx.blind d hd
    rw [hy, hy, hr]
    exact hk.blind _ hs

theorem pure (a : α) (e : Engine) : (Pure.pure a : Perform α).ActsAt e :=
  ⟨.refl, fun _ hd => ⟨rfl, hd⟩⟩

theorem throw (f : Failure) (e : Engine) : (MonadExcept.throw f : Perform α).ActsAt e :=
  ⟨.refl, fun _ hd => ⟨rfl, hd⟩⟩

theorem bind {f : α → Perform β} (hx : x.ActsAt e)
    (hf : ∀ a d, x.runOn e = (.ok a, d) → (f a).ActsAt d) : (x >>= f).ActsAt e := by
  refine follow (runOn_bind x f) hx ?_
  cases h : x.runOn e with
  | mk r d =>
      cases r with
      | ok a => exact hf a d h
      | error failure => exact throw failure d

theorem ite {c : Prop} [Decidable c] {y : Perform α} (hx : c → x.ActsAt e) (hy : ¬c → y.ActsAt e) :
    (if c then x else y).ActsAt e := by
  split
  · next h => exact hx h
  · next h => exact hy h

/-- Only what was not printed may be asked of the engine. -/
theorem get {f : Engine → Perform α} (hf : (f e).ActsAt e)
    (hsame : ∀ d : Engine, d.silent = e.silent → f d = f e) :
    (MonadState.get >>= f : Perform α).ActsAt e := by
  refine ⟨hf.path, fun d hd => ?_⟩
  rw [runOn_get, runOn_get, hsame d hd]
  exact hf.blind d hd

theorem modify {g : Engine → Engine} (hstep : e.Step (g e))
    (hsame : ∀ d : Engine, d.silent = e.silent → (g d).silent = (g e).silent) :
    (modifyGet (fun d => ((), g d)) : Perform Unit).ActsAt e :=
  ⟨.single hstep, fun d hd => ⟨rfl, hsame d hd⟩⟩

end ActsAt

namespace Acts

variable {x : Perform α}

theorem pure (a : α) : Acts (Pure.pure a) := ActsAt.pure a

theorem throw (f : Failure) : Acts (MonadExcept.throw f : Perform α) := ActsAt.throw f

theorem bind {f : α → Perform β} (hx : x.Acts) (hf : ∀ a, (f a).Acts) : (x >>= f).Acts :=
  fun e => (hx e).bind fun a d _ => hf a d

theorem tryCatch {handle : Failure → Perform α} (hx : x.Acts) (hf : ∀ f, (handle f).Acts) :
    (MonadExcept.tryCatch x handle : Perform α).Acts := by
  refine fun e => ActsAt.follow (runOn_tryCatch x handle) (hx e) ?_
  cases (x.runOn e).1 with
  | ok a => exact ActsAt.pure a _
  | error f => exact hf f _

theorem lift (r : Result α) : Acts (Perform.lift r) := by
  cases r with
  | ok a => exact pure a
  | error f => exact throw f

theorem emit (effect : Effect) : Acts (Perform.emit effect) := by
  refine fun e => ActsAt.modify (.emit effect) fun d hd => ?_
  rw [Engine.silent_push, Engine.silent_push, hd]

theorem print (s : String) : Acts (Perform.print s) := emit _

theorem say (s : String) : Acts (Perform.say s) := print _

/-- A part of the engine may be asked for, since no part is what was printed. -/
theorem part {name : String} {read : Engine → Option α} (h : ∀ e : Engine, read e.silent = read e) :
    Acts (Perform.part name read) := by
  have hmissing (e : Engine) : e.silent.missing name = e.missing name := rfl
  intro e
  refine ActsAt.get ?_ fun d hd => ?_
  · split
    · exact ActsAt.pure _ e
    · exact ActsAt.throw _ e
  · rw [← h d, ← h e, hd, ← hmissing d, ← hmissing e, hd]

theorem instrument : Acts Perform.instrument := part fun _ => rfl

theorem synthesizer : Acts Perform.synthesizer := part fun _ => rfl

theorem tracks : Acts Perform.tracks := part fun _ => rfl

theorem store : Acts Perform.store := part fun _ => rfl

theorem record (event : TrackEvent) : Acts (Perform.record event) := by
  intro e
  refine (tracks e).bind fun table d htable => ?_
  obtain ⟨ht, rfl⟩ := part_ok htable
  refine (instrument d).bind fun v d hpart => ?_
  obtain ⟨hv, rfl⟩ := part_ok hpart
  refine (lift _ d).bind fun _ d hlift => ?_
  obtain ⟨hkey, rfl⟩ := lift_ok hlift
  exact ActsAt.modify (.record event ht hv hkey) fun c hc =>
    congrArg (fun e : Engine => { e with
      tracks := some (table.update v fun events => events.getD [] ++ [event]) }) hc

theorem setVariable (name value : Value) : Acts (Perform.setVariable name value) := by
  intro e
  refine (store e).bind fun table d htable => ?_
  obtain ⟨ht, rfl⟩ := part_ok htable
  refine (lift _ d).bind fun _ d hlift => ?_
  obtain ⟨hkey, rfl⟩ := lift_ok hlift
  exact ActsAt.modify (.store value ht hkey) fun c hc =>
    congrArg (fun e : Engine => { e with store := some (table.insert name value) }) hc

theorem forM {f : α → Perform PUnit} (h : ∀ a, (f a).Acts) (as : List α) : Acts (as.forM f) := by
  induction as with
  | nil => exact pure _
  | cons a as ih => exact (h a).bind fun _ => ih

theorem shown (v : Value) : Acts (Perform.shown v) := lift _

theorem get {f : Engine → Perform α} (hf : ∀ e, (f e).Acts)
    (hsame : ∀ {e d : Engine}, d.silent = e.silent → f d = f e) :
    Acts (MonadState.get >>= f) :=
  fun e => ActsAt.get (hf e e) fun _ hd => hsame hd

theorem refLabel (viaRef : Bool) : Acts (Perform.refLabel viaRef) :=
  get (fun _ => pure _) fun hd => by rw [Engine.palette_of_silent hd]

theorem setTempo (viaRef : Bool) (bpm : Value) : Acts (Perform.setTempo viaRef bpm) := by
  have hset : Acts (modify fun e : Engine => { e with tempo := some bpm }) :=
    fun e => ActsAt.modify (.tempo bpm) fun d hd =>
      congrArg (fun e : Engine => { e with tempo := some bpm }) hd
  exact hset.bind fun _ => (refLabel viaRef).bind fun _ => (shown bpm).bind fun _ => say _

theorem setVolume (viaRef : Bool) (level : Value) : Acts (Perform.setVolume viaRef level) := by
  intro e
  refine (lift _ e).bind fun x d hlift => ?_
  obtain ⟨hx, rfl⟩ := lift_ok hlift
  refine ActsAt.bind (ActsAt.modify (.volume hx) fun c hc =>
    congrArg (fun e : Engine => { e with volume := some x }) hc) fun _ d _ => ?_
  exact (refLabel viaRef).bind (fun _ => say _) d

theorem instrumentAt {e : Engine} {v : Value} (h : e.palette = .soft → e.Takes v) :
    ActsAt (modify fun e : Engine => { e with instrument := some v }) e :=
  ActsAt.modify (.instrument h) fun _ hc =>
    congrArg (fun e : Engine => { e with instrument := some v }) hc

theorem chooseInstrument (name : Value) : Acts (Perform.chooseInstrument name) := by
  intro e
  refine (synthesizer e).bind fun s d hpart => ?_
  obtain ⟨hs, rfl⟩ := part_ok hpart
  refine (lift _ d).bind fun _ d hlift => ?_
  obtain ⟨-, rfl⟩ := lift_ok hlift
  refine ActsAt.ite (fun hknown => ?_) fun _ => ?_
  · have htakes : d.Takes name := by
      split at hknown
      · next t => exact .inr ⟨t, s, rfl, hs, hknown⟩
      · cases hknown
    refine (instrumentAt fun _ => htakes).bind fun _ c _ => ?_
    exact (shown name).bind (fun _ => say _) c
  · refine (shown name d).bind fun _ c _ => ?_
    exact (say _ c).bind fun _ b _ => instrumentAt fun _ => .inl rfl

theorem setInstrument (viaRef : Bool) (name : Value) :
    Acts (Perform.setInstrument viaRef name) := by
  intro e
  refine ActsAt.get ?_ fun d hd => ?_
  · split
    · exact chooseInstrument name e
    · next hplain =>
      have hsoft : e.palette = .soft → e.Takes name := fun h => by
        rw [hplain] at h
        cases h
      exact (instrumentAt hsoft).bind fun _ d _ => (shown name).bind (fun _ => say _) d
  · rw [Engine.palette_of_silent hd]

end Acts

theorem silent_say (s : String) (e : Engine) : ((say s).runOn e).2.silent = e.silent :=
  Engine.silent_push e (.text (s ++ "\n"))

/-- A line that is printed first makes no difference to what follows. -/
theorem alike_say {x : Perform α} (hx : x.Acts) (s : String) (e : Engine) :
    Alike ((say s >>= fun _ => x).runOn e) (x.runOn e) :=
  (hx e).blind _ (silent_say s e)

theorem alike_bind_left {x y : Perform α} {f : α → Perform β} {e : Engine}
    (h : Alike (x.runOn e) (y.runOn e)) (hf : ∀ a, (f a).Acts) :
    Alike ((x >>= f).runOn e) ((y >>= f).runOn e) := by
  have hnext (r : Except Failure α) : (next f r).Acts := by
    cases r with
    | ok a => exact hf a
    | error failure => exact .throw failure
  rw [runOn_bind, runOn_bind, h.1]
  exact (hnext _ _).blind _ h.2

theorem alike_bind_right {x : Perform α} {f g : α → Perform β} {e : Engine}
    (h : ∀ a d, x.runOn e = (.ok a, d) → Alike ((f a).runOn d) ((g a).runOn d)) :
    Alike ((x >>= f).runOn e) ((x >>= g).runOn e) := by
  rw [runOn_bind, runOn_bind]
  cases hx : x.runOn e with
  | mk r d =>
      cases r with
      | ok a => exact h a d hx
      | error failure => exact .refl _

end Perform
end TuneScript
