import TuneScript.Proofs.Agreement
import TuneScript.Proofs.Programs

/-!
What the run of a program can fail with. Apart from statements that nest too deep there are only
ordinary failures and divisions by zero, and a division by zero can be followed down to a note or
a chord without a duration that is reached while the tempo equals zero.
-/

namespace TuneScript

namespace Perform

open Engine (Twins)

/-- A failure of a statement comes from another one that is run with it, at any depth: each
statement on the way there fails alike and leaves the same engine. -/
inductive Blames (f : Failure) (d : Engine) : Stmt → Stmt → Prop where
  | self (depth : Nat) {s : Stmt} {e : Engine}
      (h : (perform depth s.toNode).runOn e = (.error f, d)) : Blames f d s s
  | inside (depth : Nat) {s u t : Stmt} {e : Engine}
      (h : (perform depth s.toNode).runOn e = (.error f, d)) (hu : s.Runs e u)
      (ht : Blames f d u t) : Blames f d s t

/-- What is not ordinary about the failure of a statement. -/
def Traced (s : Stmt) (f : Failure) (d : Engine) : Prop :=
  f = .nestedTooDeep ∨ ZeroTempo f d ∧ ∃ t, Blames f d s t ∧ t.untimed = true

variable {P : Stmt → Prop} {other : Palette} {F : Failure → Engine → Prop}

namespace Agrees

theorem perform (hcommon : other = .plain → ∀ s, P s → s.Common) (depth : Nat) {s : Stmt}
    (hs : s.Wholly P) :
    Agrees P other (Perform.perform depth s.toNode) (fun _ => True) (Traced s) := by
  induction depth generalizing s with
  | zero => exact fun a b hab => .error rfl rfl hab (.inr (.inl rfl))
  | succ depth ih =>
      intro a b hab
      cases statement hcommon (fun u hu => ih hu) hs hab with
      | ok ha hb h hv => exact .ok ha hb h hv
      | error ha hb h hf =>
          refine .error ha hb h (hf.imp_right ?_)
          rintro (⟨huntimed, hzero⟩ | ⟨u, hu, hdeep | ⟨hzero, t, ht, huntimed⟩⟩)
          · exact .inr ⟨hzero, s, .self (depth + 1) ha, huntimed⟩
          · exact .inl hdeep
          · exact .inr ⟨hzero, t, .inside (depth + 1) ha hu ht, huntimed⟩

theorem numbered {run : Value → Perform Unit} {nodes : List Value}
    (h : ∀ v ∈ nodes, Agrees P other (run v) (fun _ => True) F) (total i : Nat) :
    Agrees P other (Perform.numbered total run i nodes) (fun _ => True) F := by
  induction nodes generalizing i with
  | nil => exact pure trivial
  | cons v nodes ih =>
      obtain ⟨hv, hnodes⟩ := List.forall_mem_cons.1 h
      exact bind (say _) fun _ _ => bind hv fun _ _ => ih hnodes (i + 1)

theorem summary : Agrees P other Perform.summary (fun _ => True) F := by
  have halike {e : Engine} (he : e.Sane P) : Alike (Perform.summary.runOn e) (.ok (), e) := by
    obtain ⟨table, htable, htexts⟩ := he.tracks
    have h := alike_summary fun other hother => by
      rw [htable] at hother
      cases hother
      exact htexts
    rwa [runOn_requireTracks, htable] at h
  exact fun a b h => .of_alike (halike h.left) (halike h.right) h trivial

theorem execute (hcommon : other = .plain → ∀ s, P s → s.Common) {p : Program}
    (hp : Stmt.Throughout P p.executed) :
    Agrees P other (Perform.execute p.toNode) (fun _ => True)
      (fun f d => ∃ s ∈ p.executed, Traced s f d) := by
  have hnode : ∀ v ∈ Stmt.toNodes p.executed, Agrees P other (Perform.node v) (fun _ => True)
      (fun f d => ∃ s ∈ p.executed, Traced s f d) := by
    intro v hv
    rw [Stmt.toNodes_eq_map] at hv
    obtain ⟨s, hs, rfl⟩ := List.mem_map.1 hv
    exact (perform hcommon depthLimit (hp.wholly hs)).mono (fun _ h => h) fun f d hf => ⟨s, hs, hf⟩
  obtain ⟨hrecord, hbody⟩ := p.toNode_shape
  cases hv : p.toNode with
  | record fields =>
      rw [hv] at hbody
      unfold Perform.execute
      dsimp only
      rw [hbody]
      refine bind (say _) fun _ _ => lift_bind rfl (bind (say _) fun _ _ => lift_bind rfl ?_)
      exact bind (numbered hnode _ 1) fun _ _ => bind (say _) fun _ _ => summary
  | _ =>
      rw [hv] at hrecord
      cases hrecord

end Agrees

theorem AgreesAt.answer {x : Perform Unit} {a b : Engine}
    (h : AgreesAt P other x a b (fun _ => True) F) :
    Twins P other (x.answer a).2 (x.answer b).2 ∧ (x.answer b).1 = (x.answer a).1 ∧
      ∀ f, (x.answer a).1 = .failed f → f.Ordinary ∨ F f (x.answer a).2 := by
  cases h with
  | ok ha hb h hv =>
      rw [answer_ok ha, answer_ok hb]
      exact ⟨h, rfl, nofun⟩
  | error ha hb h hf =>
      rw [answer_error ha, answer_error hb]
      refine ⟨h, rfl, fun f hfailed => ?_⟩
      cases hfailed
      exact hf

end Perform

namespace Engine

variable {P : Stmt → Prop}

theorem sane_built (palette : Palette) (format : Option (List Value)) :
    (built palette (.working format)).Sane P := by
  refine .of_silent (silent_built_working palette format) ?_
  exact
    { synthesizer := ⟨_, rfl⟩
      tempo := ⟨_, rfl, .int _⟩
      volume := ⟨_, rfl⟩
      instrument := ⟨_, rfl⟩
      tracks := ⟨[], rfl, nofun⟩
      store := ⟨[], rfl, nofun⟩ }

/-- New engines are twins whatever their palettes and devices are. -/
theorem twins_built (other : Palette) (format format' : Option (List Value)) :
    Twins P other (built .soft (.working format)) (built other (.working format')) where
  left := sane_built .soft format
  right := sane_built other format'
  soft := palette_of_silent (silent_built_working .soft format)
  palette := palette_of_silent (silent_built_working other format')
  settings :=
    (read_of_silent settings (fun _ => rfl) (silent_built_working other format')).trans
      (read_of_silent settings (fun _ => rfl) (silent_built_working .soft format)).symm

end Engine

/-- The run of an accepted text on twins. -/
theorem Program.respond_twins {P : Stmt → Prop} {other : Palette} {text : String} {p : Program}
    (hread : Reader.read .full text = .ok p) (hcommon : other = .plain → ∀ s, P s → s.Common)
    (hp : Stmt.Throughout P p.executed) {a b : Engine} (hab : Engine.Twins P other a b) :
    let left := (Command.run .full text).respond a
    let right := (Command.run .full text).respond b
    Engine.Twins P other left.2 right.2 ∧ right.1 = left.1 ∧ ∀ f, left.1 = .failed f →
      f.Ordinary ∨ ∃ s ∈ p.executed, Perform.Traced s f left.2 := by
  rw [respond_run hread, respond_run hread]
  exact (Perform.Agrees.execute hcommon hp a b hab).answer

namespace Engine.Twins

variable {a b : Engine}

theorem run (h : Twins (fun _ => True) .soft a b) (text : String) :
    Twins (fun _ => True) .soft ((Command.run .full text).respond a).2
      ((Command.run .full text).respond b).2 := by
  cases hread : Reader.read .full text with
  | ok p => exact (p.respond_twins hread nofun (fun _ _ => trivial) h).1
  | error r =>
      have hrejected (e : Engine) : ((Command.run .full text).respond e).2.silent = e.silent := by
        unfold Command.respond
        dsimp only
        rw [hread]
        exact (Perform.Prints.say _).silent e
      exact h.of_silent (hrejected a) (hrejected b)

theorem session (h : Twins (fun _ => True) .soft a b) (texts : List String) :
    Twins (fun _ => True) .soft (Command.session (texts.map (.run .full)) a)
      (Command.session (texts.map (.run .full)) b) := by
  induction texts generalizing a b with
  | nil => exact h
  | cons text texts ih => exact ih (h.run text)

end Engine.Twins

namespace Program

end Program
end TuneScript
