import TuneScript.Proofs.Evaluations
import TuneScript.Proofs.Histories

/-!
Two engines side by side, the first of the soft palette. Twins are alike in all that decides how a
program goes on; an action agrees on twins if it gives the same answer on both and leaves twins.
Playing is free to differ, since it changes none of what twins share.
-/

namespace TuneScript

/-- What decides how a program goes on. -/
structure Settings where
  tempo : Option Value
  volume : Option Float
  instrument : Option Value
  store : Option (Table Value)

namespace Engine

def settings (e : Engine) : Settings := ⟨e.tempo, e.volume, e.instrument, e.store⟩

/-- An engine that has all its parts, calls instruments by texts, and has nothing but what
programs compute for its tempo and in its variables. -/
structure Sane (P : Stmt → Prop) (e : Engine) : Prop where
  synthesizer : ∃ rate, e.synthesizer = some (.ofPalette e.palette rate)
  tempo : ∃ v, e.tempo = some v ∧ Stored P v
  volume : ∃ x, e.volume = some x
  instrument : ∃ name, e.instrument = some (.text name)
  tracks : ∃ table, e.tracks = some table ∧ ∀ entry ∈ table, ∃ s, entry.1 = .text s
  store : ∃ table, e.store = some table ∧ ∀ entry ∈ table, Stored P entry.2

/-- A change that leaves the palette and the settings of a sane engine. -/
def Spared (P : Stmt → Prop) (e d : Engine) : Prop :=
  e.Sane P → d.Sane P ∧ d.palette = e.palette ∧ d.settings = e.settings

variable {P : Stmt → Prop} {other : Palette} {a b c d e : Engine}

theorem Sane.of_silent (h : d.silent = e.silent) (he : e.Sane P) : d.Sane P := by
  have hsilent : e.silent.Sane P := { he with }
  rw [← h] at hsilent
  exact { hsilent with }

namespace Spared

theorem refl (e : Engine) : Spared P e e := fun he => ⟨he, rfl, rfl⟩

theorem trans (hcd : Spared P c d) (hde : Spared P d e) : Spared P c e := by
  intro hc
  obtain ⟨hd, hpalette, hsettings⟩ := hcd hc
  obtain ⟨he, hpalette', hsettings'⟩ := hde hd
  exact ⟨he, hpalette'.trans hpalette, hsettings'.trans hsettings⟩

theorem of_silent (h : d.silent = e.silent) : Spared P e d :=
  fun he => ⟨he.of_silent h, palette_of_silent h, read_of_silent settings (fun _ => rfl) h⟩

theorem record (event : TrackEvent) (e : Engine) :
    Spared P e ((Perform.record event).runOn e).2 := by
  intro he
  obtain ⟨name, hname⟩ := he.instrument
  obtain ⟨table, htable, htexts⟩ := he.tracks
  rw [Perform.runOn_record htable hname]
  refine ⟨{ he with tracks := ⟨_, rfl, fun entry hentry => ?_⟩ }, rfl, rfl⟩
  rcases Table.mem_update hentry with hold | rfl | ⟨events, hold, -⟩
  · exact htexts entry hold
  · exact ⟨name, rfl⟩
  · exact htexts (entry.1, events) hold

/-- Playing changes no setting. -/
theorem playing {x : Perform Unit} (hx : Perform.Composed (Perform.Playing fun _ => True) x)
    (e : Engine) : Spared P e (x.runOn e).2 := by
  refine hx.keeps refl trans ?_ e
  rintro _ (⟨effect⟩ | ⟨_⟩) e
  · exact fun he => ⟨{ he with }, rfl, rfl⟩
  · exact record _ e

end Spared

/-- Two sane engines with the same settings. -/
structure Twins (P : Stmt → Prop) (other : Palette) (a b : Engine) : Prop where
  left : a.Sane P
  right : b.Sane P
  soft : a.palette = .soft
  palette : b.palette = other
  settings : b.settings = a.settings

namespace Twins

variable (h : Twins P other a b)

include h

theorem spared (hc : Spared P a c) (hd : Spared P b d) : Twins P other c d := by
  obtain ⟨hleft, hsoft, hsettings⟩ := hc h.left
  obtain ⟨hright, hpalette, hsettings'⟩ := hd h.right
  exact ⟨hleft, hright, hsoft.trans h.soft, hpalette.trans h.palette,
    hsettings'.trans (h.settings.trans hsettings.symm)⟩

theorem of_silent (hc : c.silent = a.silent) (hd : d.silent = b.silent) : Twins P other c d :=
  h.spared (.of_silent hc) (.of_silent hd)

theorem store : ∃ table, a.store = some table ∧ b.store = some table ∧
    ∀ entry ∈ table, Stored P entry.2 := by
  obtain ⟨table, htable, hstored⟩ := h.left.store
  exact ⟨table, htable, (congrArg Settings.store h.settings).trans htable, hstored⟩

theorem tempo : ∃ v, a.tempo = some v ∧ b.tempo = some v ∧ Stored P v := by
  obtain ⟨v, hv, hstored⟩ := h.left.tempo
  exact ⟨v, hv, (congrArg Settings.tempo h.settings).trans hv, hstored⟩

theorem instrument :
    ∃ name, a.instrument = some (.text name) ∧ b.instrument = some (.text name) := by
  obtain ⟨name, hname⟩ := h.left.instrument
  exact ⟨name, hname, (congrArg Settings.instrument h.settings).trans hname⟩

theorem lookup (name default : Value) : b.lookup name default = a.lookup name default := by
  obtain ⟨table, ha, hb, -⟩ := h.store
  rw [Engine.lookup, Engine.lookup, ha, hb]

/-- Twins stay twins if both are given the same tempo. -/
theorem setTempo {v : Value} (hv : Stored P v) :
    Twins P other { a with tempo := some v } { b with tempo := some v } :=
  ⟨{ h.left with tempo := ⟨v, rfl, hv⟩ }, { h.right with tempo := ⟨v, rfl, hv⟩ }, h.soft, h.palette,
    congrArg (fun s : Settings => { s with tempo := some v }) h.settings⟩

theorem setVolume (x : Float) :
    Twins P other { a with volume := some x } { b with volume := some x } :=
  ⟨{ h.left with volume := ⟨x, rfl⟩ }, { h.right with volume := ⟨x, rfl⟩ }, h.soft, h.palette,
    congrArg (fun s : Settings => { s with volume := some x }) h.settings⟩

theorem setInstrument (name : String) :
    Twins P other { a with instrument := some (.text name) }
      { b with instrument := some (.text name) } :=
  ⟨{ h.left with instrument := ⟨name, rfl⟩ }, { h.right with instrument := ⟨name, rfl⟩ }, h.soft,
    h.palette, congrArg (fun s : Settings => { s with instrument := some (.text name) }) h.settings⟩

theorem setStore {table : Table Value} (htable : ∀ entry ∈ table, Stored P entry.2) :
    Twins P other { a with store := some table } { b with store := some table } :=
  ⟨{ h.left with store := ⟨table, rfl, htable⟩ }, { h.right with store := ⟨table, rfl, htable⟩ },
    h.soft, h.palette, congrArg (fun s : Settings => { s with store := some table }) h.settings⟩

end Twins
end Engine

namespace Perform

open Engine (Twins)

variable {α β : Type}

/-- An action that gives the same answer on two engines and leaves twins. A failure that is not
ordinary has a property together with the engine that it leaves. -/
inductive AgreesAt (P : Stmt → Prop) (other : Palette) (x : Perform α) (a b : Engine)
    (Q : α → Prop) (F : Failure → Engine → Prop) : Prop where
  | ok {v : α} {a' b' : Engine} (ha : x.runOn a = (.ok v, a')) (hb : x.runOn b = (.ok v, b'))
      (h : Twins P other a' b') (hv : Q v)
  | error {f : Failure} {a' b' : Engine} (ha : x.runOn a = (.error f, a'))
      (hb : x.runOn b = (.error f, b')) (h : Twins P other a' b') (hf : f.Ordinary ∨ F f a')

def Agrees (P : Stmt → Prop) (other : Palette) (x : Perform α) (Q : α → Prop)
    (F : Failure → Engine → Prop) : Prop :=
  ∀ a b, Twins P other a b → AgreesAt P other x a b Q F

variable {P : Stmt → Prop} {other : Palette} {x : Perform α} {a b : Engine} {Q : α → Prop}
  {R : β → Prop} {F G : Failure → Engine → Prop}

theorem AgreesAt.of_runOn {r : Result α} {a' b' : Engine} (ha : x.runOn a = (r, a'))
    (hb : x.runOn b = (r, b')) (h : Twins P other a' b') (hr : r.Good Q) :
    AgreesAt P other x a b Q F := by
  cases r with
  | ok v => exact .ok ha hb h hr
  | error f => exact .error ha hb h (.inl hr)

/-- What is printed on the way makes no difference. -/
theorem AgreesAt.of_alike {r : Result α} {a' b' : Engine} (ha : Alike (x.runOn a) (r, a'))
    (hb : Alike (x.runOn b) (r, b')) (h : Twins P other a' b') (hr : r.Good Q) :
    AgreesAt P other x a b Q F := by
  have hrun {c c' : Engine} (hc : Alike (x.runOn c) (r, c')) : x.runOn c = (r, (x.runOn c).2) :=
    Prod.ext hc.1 rfl
  exact of_runOn (hrun ha) (hrun hb) (h.of_silent ha.2 hb.2) hr

theorem AgreesAt.mono {S : α → Prop} (h : AgreesAt P other x a b Q F) (hQ : ∀ v, Q v → S v)
    (hF : ∀ f d, F f d → G f d) : AgreesAt P other x a b S G := by
  cases h with
  | ok ha hb h hv => exact .ok ha hb h (hQ _ hv)
  | error ha hb h hf => exact .error ha hb h (hf.imp_right (hF _ _))

theorem AgreesAt.bind {f : α → Perform β} (hx : AgreesAt P other x a b Q F)
    (hf : ∀ v, Q v → Agrees P other (f v) R F) : AgreesAt P other (x >>= f) a b R F := by
  cases hx with
  | @ok v a' b' ha hb h hv =>
      have hnext (c c' : Engine) (hc : x.runOn c = (.ok v, c')) :
          (x >>= f).runOn c = (f v).runOn c' := by
        rw [runOn_bind, hc]
        rfl
      cases hf v hv a' b' h with
      | ok ha' hb' h' hw =>
          exact .ok ((hnext _ _ ha).trans ha') ((hnext _ _ hb).trans hb') h' hw
      | error ha' hb' h' hf =>
          exact .error ((hnext _ _ ha).trans ha') ((hnext _ _ hb).trans hb') h' hf
  | @error failure a' b' ha hb h hfailure =>
      have hlast (c c' : Engine) (hc : x.runOn c = (.error failure, c')) :
          (x >>= f).runOn c = (.error failure, c') := by
        rw [runOn_bind, hc]
        rfl
      exact .error (hlast _ _ ha) (hlast _ _ hb) h hfailure

/-- A text as an instrument of the soft palette. -/
theorem alike_setInstrument_soft {e : Engine} (hsoft : e.palette = .soft)
    (hs : ∃ rate, e.synthesizer = some (.ofPalette e.palette rate)) (viaRef : Bool)
    (name : String) :
    Alike ((setInstrument viaRef (.text name)).runOn e)
      (.ok (), { e with instrument := some (.text
        (if name ∈ Presets.soft.map Prod.fst then name else Synthesizer.fallback)) }) := by
  obtain ⟨rate, hs⟩ := hs
  rw [hsoft] at hs
  have halike := alike_chooseInstrument hs (.text name)
  rw [← runOn_setInstrument_soft hsoft viaRef] at halike
  have hchoice : choice (.ofPalette .soft rate) (.text name) =
      .ok (if knows (.ofPalette .soft rate) (.text name) then .text name
        else .text Synthesizer.fallback) := rfl
  have hknows : knows (.ofPalette .soft rate) (.text name) = true ↔
      name ∈ Presets.soft.map Prod.fst := List.contains_iff_mem
  rw [hchoice] at halike
  by_cases hname : name ∈ Presets.soft.map Prod.fst
  · rw [if_pos hname]
    rwa [if_pos (hknows.2 hname)] at halike
  · rw [if_neg hname]
    rwa [if_neg fun h => hname (hknows.1 h)] at halike

theorem tryCatch_ok {x : Perform Unit} {handle : Failure → Perform Unit}
    (h : ∀ f e, ((handle f).runOn e).1 = .ok ()) (e : Engine) :
    ((tryCatch x handle : Perform Unit).runOn e).1 = .ok () := by
  rw [runOn_tryCatch]
  cases (x.runOn e).1 with
  | ok u => rfl
  | error f => exact h f _

theorem note_ok (pitch duration : Value) (e : Engine) :
    ((note pitch duration).runOn e).1 = .ok () := by
  rw [note, runOn_get]
  cases e.palette with
  | soft => exact tryCatch_ok (fun _ _ => rfl) e
  | plain => exact tryCatch_ok (fun _ _ => rfl) e

namespace Agrees

theorem mono {S : α → Prop} (h : Agrees P other x Q F) (hQ : ∀ v, Q v → S v)
    (hF : ∀ f d, F f d → G f d) : Agrees P other x S G :=
  fun a b hab => (h a b hab).mono hQ hF

theorem bind {f : α → Perform β} (hx : Agrees P other x Q F)
    (hf : ∀ v, Q v → Agrees P other (f v) R F) : Agrees P other (x >>= f) R F :=
  fun a b h => (hx a b h).bind hf

theorem pure {v : α} (hv : Q v) : Agrees P other (Pure.pure v) Q F :=
  fun _ _ h => .ok rfl rfl h hv

theorem lift {r : Result α} (hr : r.Good Q) : Agrees P other (Perform.lift r) Q F :=
  fun a b h => .of_runOn (runOn_lift r a) (runOn_lift r b) h hr

/-- Actions that end well and leave the settings. -/
theorem spared {x : Perform Unit} (hok : ∀ e, (x.runOn e).1 = .ok ())
    (hspared : ∀ e, Engine.Spared P e (x.runOn e).2) : Agrees P other x (fun _ => True) F :=
  fun a b h => .ok (Prod.ext (hok a) rfl) (Prod.ext (hok b) rfl) (h.spared (hspared a) (hspared b))
    trivial

theorem print (s : String) : Agrees P other (Perform.print s) (fun _ => True) F :=
  spared (fun _ => rfl) fun e => .of_silent (Engine.silent_push e (.text s))

theorem say (s : String) : Agrees P other (Perform.say s) (fun _ => True) F := print _

theorem shown (v : Value) : Agrees P other (Perform.shown v) (fun _ => True) F :=
  lift v.display_good

theorem instrument : Agrees P other Perform.instrument (fun v => ∃ s, v = .text s) F := by
  intro a b h
  obtain ⟨name, ha, hb⟩ := h.instrument
  have hrun {e : Engine} (he : e.instrument = some (.text name)) :
      Perform.instrument.runOn e = (.ok (.text name), e) := by
    rw [Perform.instrument, runOn_part, he]
  exact .of_runOn (hrun ha) (hrun hb) h ⟨name, rfl⟩

theorem valueOf (e : Expr) {default : Value} (hd : Stored P default) :
    Agrees P other (Perform.valueOf e.toNode default) (Stored P) F := by
  intro a b h
  obtain ⟨table, htable, -, hstored⟩ := h.store
  have hrun (c : Engine) : (Perform.valueOf e.toNode default).runOn c =
      (c.valueOf e.toNode default, c) := by
    rw [Perform.valueOf, runOn_get, runOn_lift]
  have hb := hrun b
  rw [Engine.valueOf_congr h.lookup] at hb
  exact .of_runOn (hrun a) hb h (Engine.valueOf_good htable hstored e hd)

theorem numeral (n : Numeral) (default : Value) :
    Agrees P other (Perform.valueOf n.toNode default) (fun v => v = n.value) F := by
  intro a b h
  have hrun (c : Engine) : (Perform.valueOf n.toNode default).runOn c = (.ok n.value, c) := by
    rw [Perform.valueOf, runOn_get, Numeral.toNode, Engine.valueOf_number, runOn_lift]
  exact .of_runOn (hrun a) (hrun b) h rfl

theorem holds (l : Logic) : Agrees P other (Perform.holds l.toNode) (fun _ => True) F := by
  intro a b h
  obtain ⟨table, htable, -, hstored⟩ := h.store
  have hrun (c : Engine) : (Perform.holds l.toNode).runOn c = (c.holds l.toNode, c) := by
    rw [Perform.holds, runOn_get, runOn_lift]
  have hb := hrun b
  rw [Engine.holds_congr h.lookup] at hb
  exact .of_runOn (hrun a) hb h (Engine.holds_good htable hstored l)

theorem setTempo (viaRef : Bool) {bpm : Value} (hbpm : Stored P bpm) :
    Agrees P other (Perform.setTempo viaRef bpm) (fun _ => True) F :=
  fun a b h => .of_alike (alike_setTempo viaRef bpm a) (alike_setTempo viaRef bpm b)
    (h.setTempo hbpm) (bpm.display_good.map fun _ _ => trivial)

theorem setVolume (viaRef : Bool) (level : Value) :
    Agrees P other (Perform.setVolume viaRef level) (fun _ => True) F := by
  intro a b h
  have ha := alike_setVolume viaRef level a
  have hb := alike_setVolume viaRef level b
  have hgood := level.clampVolume_good
  cases hx : clampVolume level with
  | ok x =>
      rw [hx] at ha hb
      exact .of_alike ha hb (h.setVolume x) trivial
  | error f =>
      rw [hx] at ha hb hgood
      exact .of_alike ha hb h hgood

/-- The soft palette takes the piano for an instrument that it does not know, the plain one does
not ask. -/
theorem setInstrument (viaRef : Bool) {name : String}
    (hname : other = .plain → name ∈ Presets.soft.map Prod.fst) :
    Agrees P other (Perform.setInstrument viaRef (.text name)) (fun _ => True) F := by
  intro a b h
  have ha := alike_setInstrument_soft h.soft h.left.synthesizer viaRef name
  cases other with
  | soft =>
      have hb := alike_setInstrument_soft h.palette h.right.synthesizer viaRef name
      exact .of_alike ha hb (h.setInstrument _) trivial
  | plain =>
      rw [if_pos (hname rfl)] at ha
      exact .of_alike ha (alike_setInstrument_plain h.palette viaRef (.text name))
        (h.setInstrument name) trivial

theorem setVariable (name : String) {value : Value} (hvalue : Stored P value) :
    Agrees P other (Perform.setVariable (.text name) value) (fun _ => True) F := by
  intro a b h
  obtain ⟨table, ha, hb, hstored⟩ := h.store
  refine .of_runOn (runOn_setVariable ha (.text name) value)
    (runOn_setVariable hb (.text name) value) (h.setStore fun entry hentry => ?_) trivial
  rcases Table.mem_insert hentry with hold | hnew
  · exact hstored entry hold
  · rw [hnew]
    exact hvalue

/-- What goes wrong with a note is printed. -/
theorem note (pitch duration : Value) :
    Agrees P other (Perform.note pitch duration) (fun _ => True) F := by
  exact spared (note_ok pitch duration) (.playing (Playing.note trivial trivial))

theorem record (event : TrackEvent) :
    Agrees P other (Perform.record event) (fun _ => True) F := by
  intro a b h
  have hrun {e : Engine} (he : e.Sane P) :
      (Perform.record event).runOn e = (.ok (), ((Perform.record event).runOn e).2) := by
    obtain ⟨name, hname⟩ := he.instrument
    obtain ⟨table, htable, -⟩ := he.tracks
    rw [runOn_record htable hname]
    rfl
  exact .of_runOn (hrun h.left) (hrun h.right) (h.spared (.record event a) (.record event b))
    trivial

theorem sleep (duration : Value) : Agrees P other (Perform.sleep duration) (fun _ => True) F := by
  intro a b h
  have hrun (e : Engine) := runOn_sleep duration e
  cases hrefusal : duration.refusal? with
  | none =>
      simp only [hrefusal] at hrun
      have hspared (e : Engine) :
          Engine.Spared P e { e with log := e.log.push (.sleep duration) } :=
        fun he => ⟨{ he with }, rfl, rfl⟩
      exact .of_runOn (hrun a) (hrun b) (h.spared (hspared a) (hspared b)) trivial
  | some f =>
      simp only [hrefusal] at hrun
      exact .error (hrun a) (hrun b) h (.inl (duration.refusal?_ordinary hrefusal))

theorem forM {f : α → Perform PUnit} {as : List α}
    (h : ∀ v ∈ as, Agrees P other (f v) (fun _ => True) F) :
    Agrees P other (as.forM f) (fun _ => True) F := by
  induction as with
  | nil => exact pure trivial
  | cons v as ih =>
      obtain ⟨hv, has⟩ := List.forall_mem_cons.1 h
      exact bind hv fun _ _ => ih has

theorem rounds {round : Nat → Perform Unit}
    (h : ∀ i, Agrees P other (round i) (fun _ => True) F) (i n : Nat) :
    Agrees P other (Perform.rounds round i n) (fun _ => True) F := by
  induction n generalizing i with
  | zero => exact pure trivial
  | succ n ih => exact bind (h i) fun _ _ => ih (i + 1)

theorem roundsWhile {round : Nat → Perform Unit}
    (h : ∀ i, Agrees P other (round i) (fun _ => True) F) (l : Logic) (done n : Nat) :
    Agrees P other (Perform.roundsWhile l.toNode round done n) (fun _ => True) F := by
  induction n generalizing done with
  | zero => exact bind (holds l) fun _ _ => pure trivial
  | succ n ih =>
      refine bind (holds l) fun go _ => ?_
      cases go with
      | true => exact bind (h _) fun _ _ => ih (done + 1)
      | false => exact pure trivial

end Agrees

/-- A failure for a divisor on an engine whose tempo equals zero. -/
def ZeroTempo (f : Failure) (e : Engine) : Prop :=
  f.family = .zeroDivision ∧ ∃ bpm, e.tempo = some bpm ∧ bpm.equal (.int 0) = true

theorem runOn_beat {e : Engine} {bpm : Value} (he : e.tempo = some bpm) :
    beat.runOn e = ((Value.float 60.0).div bpm, e) := by
  rw [beat, runOn_bind, tempo, runOn_part, he]
  exact runOn_lift _ e

namespace Agrees

/-- A beat is the only place where a failure for a divisor comes from. -/
theorem beat : Agrees P other Perform.beat (fun v => ∃ x, v = .float x) ZeroTempo := by
  intro a b h
  obtain ⟨bpm, htempo, htempo', -⟩ := h.tempo
  have ha := runOn_beat htempo
  have hb := runOn_beat htempo'
  cases hdiv : (Value.float 60.0).div bpm with
  | ok v =>
      rw [hdiv] at ha hb
      exact .ok ha hb h (Value.div_ok hdiv)
  | error f =>
      rw [hdiv] at ha hb
      refine .error ha hb h ?_
      rcases Value.div_error hdiv with hf | hf | ⟨hf, hzero⟩
      · exact .inl (.inl hf)
      · exact .inl (.inr (.inr hf))
      · exact .inr ⟨hf, bpm, htempo, hzero⟩

theorem twoBeats : Agrees P other Perform.twoBeats (fun v => ∃ x, v = .float x) ZeroTempo := by
  refine bind beat fun v hv => ?_
  obtain ⟨x, rfl⟩ := hv
  have htwo : Number.toFloat (.int 2) = .ok 2.0 := by decide
  have hmul : (Value.float x).mul (.int 2) = .ok (.float (x * 2.0)) := by
    change Except.map Number.toValue
      (Number.toFloat (.int 2) >>= fun y => Except.ok (.float (x * y))) = _
    rw [htwo]
    rfl
  rw [hmul]
  exact pure ⟨_, rfl⟩

end Agrees
end Perform
end TuneScript
