import TuneScript.Proofs.Deeds
import TuneScript.Proofs.Tables
import TuneScript.Proofs.Printing

/-!
Running a program text against running its statements one by one. A program of exactly one
statement is the record of that statement, and what is run is the body of a record; so of
such a program only the statements between its braces are run, and mostly there are none.
Any other program is run as its statements are, provided that the engine has its tracks.
-/

namespace TuneScript

namespace Engine

/-- The states that an engine of the soft palette can come into. -/
inductive Reachable : Engine → Prop where
  | built (device : Device) : Reachable (Perform.build.runOn { palette := .soft, device }).2
  | command {e} (h : Reachable e) (c : Command) : Reachable (c.respond e).2

/-- An engine of the soft palette that calls its instruments, and so its tracks, by texts. -/
structure Tuned (e : Engine) : Prop where
  soft : e.palette = .soft
  instrument : ∀ v, e.instrument = some v → ∃ s, v = .text s
  tracks : ∀ table, e.tracks = some table → ∀ entry ∈ table, ∃ s, entry.1 = .text s

theorem Takes.text {e : Engine} {v : Value} (h : e.Takes v) : ∃ s, v = .text s := by
  rcases h with rfl | ⟨s, -, rfl, -⟩
  · exact ⟨_, rfl⟩
  · exact ⟨s, rfl⟩

theorem Step.tuned {e d : Engine} (h : e.Step d) (he : e.Tuned) : d.Tuned := by
  cases h with
  | emit _ | tempo _ | volume _ | store _ _ _ => exact ⟨he.soft, he.instrument, he.tracks⟩
  | instrument hv =>
      refine ⟨he.soft, fun v h => ?_, he.tracks⟩
      cases h
      exact (hv he.soft).text
  | record event ht hv _ =>
      refine ⟨he.soft, he.instrument, fun table h entry hentry => ?_⟩
      cases h
      rcases Table.mem_update hentry with hold | rfl | ⟨events, hold, -⟩
      · exact he.tracks _ ht entry hold
      · exact he.instrument _ hv
      · exact he.tracks _ ht (entry.1, events) hold

theorem Path.tuned {e d : Engine} (h : e.Path d) (he : e.Tuned) : d.Tuned := by
  induction h with
  | refl => exact he
  | tail _ hstep ih => exact hstep.tuned ih

/-- Tracks are never lost, nor made once an engine is built. -/
theorem Path.tracks_isSome {e d : Engine} (h : e.Path d) : d.tracks.isSome = e.tracks.isSome := by
  induction h with
  | refl => rfl
  | tail _ hstep ih =>
      rw [← ih]
      cases hstep with
      | record _ ht _ _ => rw [ht]; rfl
      | _ => rfl

theorem tuned_build (device : Device) :
    (Perform.build.runOn { palette := .soft, device }).2.Tuned := by
  cases device with
  | broken reason =>
      refine Path.tuned (Perform.Acts.say _ _).path ⟨rfl, ?_, ?_⟩ <;> exact fun _ h => by cases h
  | working format =>
      have hreport : Perform.Acts (do
          Perform.say "🎵 pygame mixer 初始化成功"
          Perform.say "🎵 多樂器音訊引擎初始化完成（支援休止符）"
          Perform.say ("📀 支援樂器: " ++ ", ".intercalate (← Perform.supported))
          Perform.say "🔇 支援休止符功能") :=
        .bind (.say _) fun _ => .bind (.say _) fun _ => .bind .supported fun _ =>
          .bind (.say _) fun _ => .say _
      have hfresh : (fresh .soft (.working format) Synthesizer.standardRate).Tuned := by
        refine ⟨rfl, fun v h => ?_, fun table h => ?_⟩
        · cases h
          exact ⟨_, rfl⟩
        · cases h
          exact fun _ hmem => by cases hmem
      exact Path.tuned (hreport _).path hfresh

theorem Reachable.tuned {e : Engine} (h : e.Reachable) : e.Tuned := by
  induction h with
  | built device => exact tuned_build device
  | command _ c ih => exact Path.tuned (c.path_respond _) ih

end Engine

namespace Perform

/-- The numbers of the statements are printed only. -/
theorem alike_numbered (total i : Nat) (nodes : List Value) (e : Engine) :
    Alike ((numbered total node i nodes).runOn e) ((nodes.forM node).runOn e) := by
  induction nodes generalizing i e with
  | nil => exact .refl _
  | cons v nodes ih =>
      have hrest : Acts (node v >>= fun _ => numbered total node (i + 1) nodes) :=
        (Acts.node v).bind fun _ => Acts.numbered .node total (i + 1) nodes
      exact (alike_say hrest _ e).trans (alike_bind_right fun _ d _ => ih (i + 1) d)

/-- What an engine that lacks its tracks fails on when all statements have been run. -/
def requireTracks : Perform Unit := do let _ ← tracks

theorem runOn_requireTracks (e : Engine) :
    requireTracks.runOn e =
      match e.tracks with
      | some _ => (.ok (), e)
      | none => (.error (e.missing "tracks"), e) := by
  rw [requireTracks, runOn_bind, tracks, runOn_part]
  cases e.tracks <;> rfl

/-- An entry that is called by a text gets its line. -/
theorem alike_entries {table : Tracks} (h : ∀ entry ∈ table, ∃ s, entry.1 = .text s)
    (line : List TrackEvent → String) (e : Engine) :
    Alike ((table.forM fun (instrument, events) => do
      say ("  🎹 " ++ (← shown instrument) ++ ": " ++ line events)).runOn e) (.ok (), e) := by
  induction table generalizing e with
  | nil => exact .refl _
  | cons entry table ih =>
      obtain ⟨⟨s, hs⟩, htable⟩ := List.forall_mem_cons.1 h
      obtain ⟨key, events⟩ := entry
      cases hs
      have hrest : Acts (table.forM fun (instrument, events) => do
          say ("  🎹 " ++ (← shown instrument) ++ ": " ++ line events)) :=
        .forM (fun _ => (Acts.shown _).bind fun _ => .say _) table
      exact (alike_say hrest _ e).trans (ih htable e)

theorem alike_summary {e : Engine}
    (he : ∀ table, e.tracks = some table → ∀ entry ∈ table, ∃ s, entry.1 = .text s) :
    Alike (summary.runOn e) (requireTracks.runOn e) := by
  refine alike_bind_right fun table d htable => ?_
  obtain ⟨ht, rfl⟩ := part_ok htable
  rw [runOn_get]
  split
  · have hlast : Acts (do
        table.forM fun (instrument, events) => do
          say ("  🎹 " ++ (← shown instrument) ++ ": " ++ trackLine d.palette events)
        say ("  🎵 總計: " ++ trackLine d.palette (table.flatMap (·.2)))) :=
      .bind (.forM (fun _ => (Acts.shown _).bind fun _ => .say _) table) fun _ => .say _
    refine (alike_say hlast _ d).trans ?_
    refine (alike_bind_left (alike_entries (he table ht) _ d) fun _ => .say _).trans ?_
    exact ⟨rfl, silent_say _ d⟩
  · exact .refl _

/-- Running a program is running the statements of its body, and then asking for the tracks. -/
theorem alike_execute {v : Value} {nodes : List Value} {e : Engine} (he : e.Tuned)
    (hv : v.isRecord = true) (hbody : (v.field? "body").getD (.list []) = .list nodes) :
    Alike ((execute v).runOn e) ((nodes.forM node >>= fun _ => requireTracks).runOn e) := by
  have hend (s : String) : Acts (say s >>= fun _ => summary) :=
    (Acts.say s).bind fun _ => .summary
  have hstart (s : String) :
      Acts (numbered nodes.length node 1 nodes >>= fun _ => say s >>= fun _ => summary) :=
    (Acts.numbered .node nodes.length 1 nodes).bind fun _ => hend s
  cases v with
  | record fields =>
      unfold execute
      dsimp only
      rw [hbody]
      -- two lines before the statements, one number before each, one line before the summary
      refine (alike_say ((Acts.say _).bind fun _ => hstart _) _ e).trans ?_
      refine (alike_say (hstart _) _ e).trans ?_
      refine (alike_bind_left (alike_numbered nodes.length 1 nodes e) fun _ => hend _).trans ?_
      refine alike_bind_right fun _ d hd => (alike_say .summary _ d).trans (alike_summary ?_)
      have hpath := (Acts.forM Acts.node nodes e).path
      rw [hd] at hpath
      exact (hpath.tuned he).tracks
  | _ => cases hv

/-- Runs statements one after the other. -/
def all (statements : List Stmt) : Perform Unit := (Stmt.toNodes statements).forM node

theorem Acts.all (statements : List Stmt) : Acts (Perform.all statements) := .forM .node _

/-- How a command that stands for an action answers. -/
def answer (x : Perform Unit) (e : Engine) : Outcome × Engine :=
  (Command.outcome ((Command.done x).runOn e).1, ((Command.done x).runOn e).2)

theorem alike_answer {x y : Perform Unit} {e : Engine} (h : Alike (x.runOn e) (y.runOn e)) :
    Alike (x.answer e) (y.answer e) := by
  have hdone := alike_bind_left (f := fun _ => pure Value.null) h fun _ => .pure _
  exact ⟨congrArg Command.outcome hdone.1, hdone.2⟩

theorem answer_ok {x : Perform Unit} {e d : Engine} (h : x.runOn e = (.ok (), d)) :
    x.answer e = (.returned .null, d) := by
  rw [answer, Command.done, runOn_bind, h]
  rfl

theorem answer_error {x : Perform Unit} {e d : Engine} {f : Failure}
    (h : x.runOn e = (.error f, d)) : x.answer e = (.failed f, d) := by
  rw [answer, Command.done, runOn_bind, h]
  rfl

/-- To ask for the tracks at the end makes a difference only if there are none and all went
well until then. -/
theorem alike_requireTracks_iff {x : Perform Unit} (hx : x.Acts) (e : Engine) :
    Alike ((x >>= fun _ => requireTracks).answer e) (x.answer e) ↔
      e.tracks.isSome = true ∨ ∃ f, (x.answer e).1 = .failed f := by
  have htracks := (hx e).path.tracks_isSome
  cases h : x.runOn e with
  | mk r d =>
      rw [h] at htracks
      cases r with
      | error f =>
          have hboth : (x >>= fun _ => requireTracks).runOn e = (.error f, d) := by
            rw [runOn_bind, h]
            rfl
          rw [answer_error h, answer_error hboth]
          exact ⟨fun _ => .inr ⟨f, rfl⟩, fun _ => .refl _⟩
      | ok u =>
          rw [answer_ok h, ← htracks]
          have hboth : (x >>= fun _ => requireTracks).runOn e = requireTracks.runOn d := by
            rw [runOn_bind, h]
            rfl
          rw [runOn_requireTracks] at hboth
          cases ht : d.tracks with
          | some table =>
              rw [ht] at hboth
              rw [answer_ok hboth]
              exact ⟨fun _ => .inl rfl, fun _ => .refl _⟩
          | none =>
              rw [ht] at hboth
              rw [answer_error hboth]
              refine ⟨fun halike => (by cases halike.1), ?_⟩
              rintro (hsome | ⟨f, hf⟩)
              · cases hsome
              · cases hf

end Perform

/-- The statements between the braces of a loop or of a function. -/
def Stmt.inner : Stmt → List Stmt
  | loop _ body | whileLoop _ body | forLoop _ _ _ body | define _ _ body => body
  | _ => []

theorem Arith.toNode_shape (a : Arith) :
    a.toNode.isRecord = true ∧ a.toNode.field? "body" = none := by
  cases a <;> exact ⟨rfl, rfl⟩

theorem Logic.toNode_shape (l : Logic) :
    l.toNode.isRecord = true ∧ l.toNode.field? "body" = none := by
  cases l with
  | arith a => exact a.toNode_shape
  | compare _ _ _ | negation _ | connect _ _ _ => exact ⟨rfl, rfl⟩

/-- The record of a statement has for its body the statements between its braces. A conditional
has its bodies in other fields. -/
theorem Stmt.toNode_shape (s : Stmt) :
    s.toNode.isRecord = true ∧
      (s.toNode.field? "body").getD (.list []) = .list (toNodes s.inner) := by
  cases s with
  | eval e =>
      cases e with
      | logic l =>
          obtain ⟨hrecord, hnone⟩ := l.toNode_shape
          refine ⟨hrecord, ?_⟩
          change (l.toNode.field? "body").getD (.list []) = .list []
          rw [hnone]
          rfl
      | chord _ => exact ⟨rfl, rfl⟩
  | _ => exact ⟨rfl, rfl⟩

namespace Program

/-- The statements that are run when a program is. -/
def executed : Program → List Stmt
  | [s] => s.inner
  | statements => statements

theorem executed_of_length_ne_one {p : Program} (h : p.length ≠ 1) : p.executed = p := by
  match p with
  | [] | _ :: _ :: _ => rfl
  | [s] => exact absurd rfl h

theorem toNode_shape (p : Program) :
    p.toNode.isRecord = true ∧
      (p.toNode.field? "body").getD (.list []) = .list (Stmt.toNodes p.executed) := by
  match p with
  | [] | _ :: _ :: _ => exact ⟨rfl, rfl⟩
  | [s] => exact s.toNode_shape

theorem respond_run {text : String} {p : Program} (h : Reader.read .full text = .ok p)
    (e : Engine) : (Command.run .full text).respond e = (Perform.execute p.toNode).answer e := by
  unfold Command.respond
  dsimp only
  rw [h]
  rfl

/-- Running a text runs the statements that `executed` keeps, and then asks for the tracks.
So a lone statement without braces is not run at all, and a text of any other number of
statements is run as they are one by one, unless all goes well on an engine without tracks. -/
theorem respond_alike_executed {text : String} {p : Program} {e : Engine}
    (hread : Reader.read .full text = .ok p) (he : e.Reachable) :
    Alike ((Command.run .full text).respond e)
        ((Perform.all p.executed >>= fun _ => Perform.requireTracks).answer e) ∧
      (∀ s, p = [s] → s.inner = [] → e.tracks.isSome = true →
        Alike ((Command.run .full text).respond e) (.returned .null, e)) ∧
      (p.length ≠ 1 →
        (Alike ((Command.run .full text).respond e) ((Perform.all p).answer e) ↔
          e.tracks.isSome = true ∨ ∃ f, ((Perform.all p).answer e).1 = .failed f)) := by
  obtain ⟨hrecord, hbody⟩ := p.toNode_shape
  have hrun : Alike ((Command.run .full text).respond e)
      ((Perform.all p.executed >>= fun _ => Perform.requireTracks).answer e) := by
    rw [respond_run hread]
    exact Perform.alike_answer (Perform.alike_execute he.tuned hrecord hbody)
  refine ⟨hrun, fun s hs hinner htracks => ?_, fun hlength => ?_⟩
  · -- nothing is left to be run but the question for the tracks
    subst hs
    rw [executed, hinner] at hrun
    have hnone := (Perform.alike_requireTracks_iff (.all []) e).2 (.inl htracks)
    exact hrun.trans hnone
  · rw [executed_of_length_ne_one hlength] at hrun
    rw [← Perform.alike_requireTracks_iff (.all p) e]
    exact ⟨hrun.symm.trans, hrun.trans⟩

theorem respond_alike_executed_pair :
    let p : Program := [.tempo ⟨['9', '0'], none⟩, .volume ⟨['5', '0'], none⟩]
    let e := (Perform.build.runOn { palette := .soft, device := .standard }).2
    Alike ((Command.run .full "tempo 90\nvolume 50").respond e) ((Perform.all p).answer e) := by
  intro p e
  have htext : p.render = "tempo 90\nvolume 50" := by decide
  have hread : Reader.read .full "tempo 90\nvolume 50" = .ok p := htext ▸ read_render (by decide)
  have h := respond_alike_executed hread (.built .standard)
  exact (h.2.2 (by decide)).2 (.inl rfl)

theorem not_respond_alike_tempo :
    let p : Program := [.tempo ⟨['9', '0'], none⟩]
    let e := (Perform.build.runOn { palette := .soft, device := .standard }).2
    e.Reachable ∧ Reader.read .full "tempo 90" = .ok p ∧
      ¬ Alike ((Command.run .full "tempo 90").respond e) ((Perform.all p).answer e) := by
  intro p e
  have htext : p.render = "tempo 90" := by decide
  have hread : Reader.read .full "tempo 90" = .ok p := htext ▸ read_render (by decide)
  refine ⟨.built _, hread, fun h => ?_⟩
  rw [respond_run hread] at h
  have hvalue : e.valueOf (Node.number (.int 90)) (.int 120) = .ok (.int 90) := by
    rw [Engine.valueOf]
    rfl
  have hnode : (Perform.node (Stmt.tempo ⟨['9', '0'], none⟩).toNode).runOn e =
      (Perform.setTempo false (.int 90)).runOn e := by
    change (Perform.lift (e.valueOf (Node.number (.int 90)) (.int 120)) >>= fun v =>
      Perform.setTempo false v).runOn e = _
    rw [hvalue]
    rfl
  have hall : ((Perform.all p).answer e).2.silent.tempo = some (.int 90) := by
    change ((Perform.node (Stmt.tempo ⟨['9', '0'], none⟩).toNode >>= fun _ => pure ⟨⟩).answer
      e).2.silent.tempo = _
    rw [Perform.answer_ok (d := ((Perform.setTempo false (.int 90)).runOn e).2)]
    · rfl
    · rw [Perform.runOn_bind, hnode]
      rfl
  have hrun : ((Perform.execute p.toNode).answer e).2.silent.tempo = some (.int 120) := rfl
  have htempo := congrArg Engine.tempo h.2
  rw [hrun, hall] at htempo
  cases htempo

end Program
end TuneScript
