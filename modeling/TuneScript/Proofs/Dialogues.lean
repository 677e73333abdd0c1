import Mathlib.Logic.Function.Iterate
import TuneScript.Shell.Checks

/-!
Dialogues and the end of input. Each line is answered whatever comes of it, and only a line that
asks to leave ends a dialogue. An end of input is answered too, with one line that reports it, and
then the next line is asked for; an input that has ended for good is reported again and again.
-/

namespace TuneScript

/-- The console after a text was printed. -/
def Console.print (c : Console) (s : String) : Console := { c with log := c.log.push (.text s) }

namespace Shell

variable {α β σ : Type}

def runOn (x : Shell α) (c : Console) : Except Trouble α × Console := x.run.run c

theorem runOn_bind_ok {x : Shell α} {f : α → Shell β} {c d : Console} {a : α}
    (h : x.runOn c = (.ok a, d)) : (x >>= f).runOn c = (f a).runOn d := by
  change (ExceptT.bindCont f (x.runOn c).1).run (x.runOn c).2 = _
  rw [h]
  rfl

theorem runOn_print (s : String) (c : Console) : (print s).runOn c = (.ok (), c.print s) := rfl

/-- An action that comes to an answer on every console. -/
def Settles (x : Shell α) : Prop := ∀ c, ∃ a d, x.runOn c = (.ok a, d)

namespace Settles

theorem pure (a : α) : Settles (Pure.pure a : Shell α) := fun c => ⟨a, c, rfl⟩

theorem bind {x : Shell α} {f : α → Shell β} (hx : Settles x) (hf : ∀ a, Settles (f a)) :
    Settles (x >>= f) := by
  intro c
  obtain ⟨a, d, ha⟩ := hx c
  obtain ⟨b, d', hb⟩ := hf a d
  exact ⟨b, d', (runOn_bind_ok ha).trans hb⟩

theorem say (s : String) : Settles (Shell.say s) := fun c => ⟨(), c.print (s ++ "\n"), rfl⟩

theorem get : Settles (MonadState.get : Shell Console) := fun c => ⟨c, c, rfl⟩

theorem conduct (e : Engine) (action : Perform α) : Settles (Shell.conduct e action) :=
  fun _ => ⟨_, _, rfl⟩

/-- With a report that settles, whatever is attempted does. -/
theorem attempt (action : Shell α) {report : Trouble → Shell α} (h : ∀ t, Settles (report t)) :
    Settles (Shell.attempt action report) := by
  intro c
  simp only [Shell.attempt, runOn, tryCatch, tryCatchThe, MonadExceptOf.tryCatch,
    ExceptT.tryCatch, ExceptT.run, ExceptT.mk, StateT.run, Bind.bind, StateT.bind]
  rcases action c with ⟨result, d⟩
  cases result with
  | ok a => exact ⟨a, d, rfl⟩
  | error t => exact h t d

theorem forM {items : List α} {f : α → Shell Unit} (h : ∀ a, Settles (f a)) :
    Settles (items.forM f) := by
  induction items with
  | nil => exact pure ()
  | cons a items ih => exact bind (h a) fun _ => ih

end Settles

theorem settles_performLine (e : Engine) (line : String) : Settles (performLine e line) := by
  refine .bind (.attempt _ fun t => .bind (.say _) fun _ => .pure _) fun program => ?_
  cases program with
  | none => exact .pure e
  | some program =>
      refine .bind (.conduct e _) fun p => ?_
      rcases p with ⟨result, d⟩
      cases result with
      | ok _ => exact .pure d
      | error f => exact .bind (.say _) fun _ => .pure d

theorem settles_testRests (e : Engine) : Settles (testRests e) := by
  refine .bind (.say _) fun _ => .bind (.conduct e _) fun p => ?_
  rcases p with ⟨result, d⟩
  cases result with
  | ok _ => exact .pure d
  | error f => exact .bind (.say _) fun _ => .pure d

theorem settles_showExamples : Settles showExamples :=
  .bind (.say _) fun _ => .bind (.forM fun _ => .say _) fun _ => .bind (.say _) fun _ =>
    .bind (.say _) fun _ => .bind (.say _) fun _ => .say _

theorem settles_announceParts : Settles announceParts :=
  .bind (.bind .get fun _ => .pure _) fun _ => .bind (.say _) fun _ => .bind (.say _) fun _ =>
    .say _

theorem settles_showStatus (engine : String) (instruments : Bool) :
    Settles (showStatus engine instruments) :=
  .bind .get fun _ => .bind (.say _) fun _ => .bind (.say _) fun _ => .bind (.say _) fun _ =>
    .bind (.say _) fun _ => .bind (.say _) fun _ => .bind (.say _) fun _ => .bind (.say _) fun _ =>
      .say _

/-- The lines that end the dialogue with an engine. -/
def leaves (line : String) : Bool := lowered line == "exit" || lowered line == "quit"

/-- The lines that end checking; blanks around them do not count. -/
def leavesChecking (line : String) : Bool :=
  let word := lowered (Text.trim line)
  word == "quit" || word == "exit" || word == "q"

/-- The dialogue goes on after what comes to an answer. -/
theorem Settles.goes_on {x : Shell α} (hx : Settles x) (f : α → σ) (c : Console) :
    ∃ next d, (x >>= fun a => Pure.pure (some (f a)) : Shell (Option σ)).runOn c =
      (.ok (some next), d) := by
  obtain ⟨a, d, ha⟩ := hx c
  exact ⟨f a, d, runOn_bind_ok ha⟩

theorem turn_leaves {line : String} (h : leaves line = true) (e : Engine) :
    turn e (some line) = pure none := by
  rw [leaves, Bool.or_eq_true, beq_iff_eq, beq_iff_eq] at h
  rcases h with h | h
  · rw [turn, h]
    rfl
  · rw [turn, h]
    rfl

theorem turn_stays {line : String} (h : leaves line = false) (e : Engine) (c : Console) :
    ∃ next d, (turn e (some line)).runOn c = (.ok (some next), d) := by
  simp only [turn]
  split
  · next hexit => simp [leaves, hexit] at h
  · next hquit => simp [leaves, hquit] at h
  · exact Settles.goes_on (.forM fun _ => .say _) (fun _ => e) c
  · exact settles_showExamples.goes_on (fun _ => e) c
  · exact (settles_showStatus _ _).goes_on (fun _ => e) c
  · exact (settles_testRests e).goes_on id c
  · split
    · exact ⟨e, c, rfl⟩
    · exact (settles_performLine e line).goes_on id c

theorem checkTurn_leaves {line : String} (h : leavesChecking line = true) (u : Unit) :
    checkTurn u (some line) = pure none := by
  simp only [leavesChecking, Bool.or_eq_true, beq_iff_eq] at h
  rcases h with (h | h) | h
  · rw [checkTurn, h]
    rfl
  · rw [checkTurn, h]
    rfl
  · rw [checkTurn, h]
    rfl

theorem checkTurn_stays {line : String} (h : leavesChecking line = false) (u : Unit)
    (c : Console) : ∃ next d, (checkTurn u (some line)).runOn c = (.ok (some next), d) := by
  simp only [checkTurn]
  split
  · next hquit => simp [leavesChecking, hquit] at h
  · next hexit => simp [leavesChecking, hexit] at h
  · next hq => simp [leavesChecking, hq] at h
  · exact ⟨(), c, rfl⟩
  · exact Settles.goes_on (.attempt _ fun t => .say _) (fun _ => ()) c

/-- A dialogue: how it opens, what it asks with, how it answers, and how it closes. -/
structure Talk (σ : Type) where
  greeting : Shell σ
  prompt : String
  turn : σ → Option String → Shell (Option σ)
  brokenOff : Shell Unit
  farewell : Shell Unit

namespace Talk

/-- What is left of a dialogue for an input. -/
def goOn (t : Talk σ) (input : Input) (s : σ) : Shell Unit := do
  converse t.prompt t.turn t.brokenOff input s
  t.farewell

def hold (t : Talk σ) (input : Input) : Shell Unit := do t.goOn input (← t.greeting)

/-- The console after an end of input was met. -/
def refuse (t : Talk σ) (c : Console) : Console :=
  (c.print t.prompt).print ("❌ 錯誤: " ++ Failure.endOfInput.message ++ "\n")

/-- A dialogue that answers an end of input and ends only with a line that asks for it. -/
structure Patient (t : Talk σ) (leaves : String → Bool) : Prop where
  ended : ∀ s c, (t.turn s none).runOn (c.print t.prompt) = (.ok (some s), t.refuse c)
  left : ∀ s line, leaves line = true → t.turn s (some line) = pure none
  stays : ∀ s line c, leaves line = false →
    ∃ next d, (t.turn s (some line)).runOn c = (.ok (some next), d)

/-- Lines that are answered one after the other, from a state and a console to others. -/
inductive Reaches (t : Talk σ) : Input → σ → Console → σ → Console → Prop where
  | nil (s : σ) (c : Console) : Reaches t [] s c s c
  | cons {line : Option String} {rest : Input} {s s' s'' : σ} {c d d' : Console}
      (h : (t.turn s line).runOn (c.print t.prompt) = (.ok (some s'), d))
      (hrest : Reaches t rest s' d s'' d') : Reaches t (line :: rest) s c s'' d'

variable {t : Talk σ} {leaves : String → Bool} {before : Input} {s next : σ} {c d : Console}

theorem goOn_cons (t : Talk σ) (line : Option String) (after : Input) (s : σ) :
    t.goOn (line :: after) s = (do
      print t.prompt
      match ← t.turn s line with
      | some next => t.goOn after next
      | none => t.farewell) := by
  simp only [goOn, converse, bind_assoc]
  congr
  funext _
  congr
  funext answer
  cases answer with
  | some next => rfl
  | none => exact pure_bind () _

theorem runOn_goOn_cons {line : Option String} (after : Input)
    (h : (t.turn s line).runOn (c.print t.prompt) = (.ok (some next), d)) :
    (t.goOn (line :: after) s).runOn c = (t.goOn after next).runOn d := by
  rw [goOn_cons, runOn_bind_ok (runOn_print t.prompt c), runOn_bind_ok h]

theorem Patient.runOn_left (h : t.Patient leaves) {line : String} (hline : leaves line = true)
    (after : Input) (s : σ) (c : Console) :
    (t.goOn (some line :: after) s).runOn c = t.farewell.runOn (c.print t.prompt) := by
  rw [goOn_cons, runOn_bind_ok (runOn_print t.prompt c), h.left s line hline, pure_bind]

theorem runOn_goOn_nil (t : Talk σ) (s : σ) (c : Console) :
    (t.goOn [] s).runOn c = (t.brokenOff >>= fun _ => t.farewell).runOn (c.print t.prompt) := by
  rw [goOn, converse, bind_assoc, runOn_bind_ok (runOn_print t.prompt c)]

/-- After the lines that were answered the dialogue goes on with the rest of its input. -/
theorem Reaches.runOn_goOn (h : t.Reaches before s c next d) (after : Input) :
    (t.goOn (before ++ after) s).runOn c = (t.goOn after next).runOn d := by
  induction h with
  | nil s c => rfl
  | cons hturn _ ih => exact (runOn_goOn_cons _ hturn).trans ih

theorem Patient.reaches (h : t.Patient leaves)
    (hstay : ∀ line, some line ∈ before → leaves line = false) (s : σ) (c : Console) :
    ∃ next d, t.Reaches before s c next d := by
  induction before generalizing s c with
  | nil => exact ⟨s, c, .nil s c⟩
  | cons line rest ih =>
      obtain ⟨s', c', hturn⟩ : ∃ s' c',
          (t.turn s line).runOn (c.print t.prompt) = (.ok (some s'), c') := by
        cases line with
        | none => exact ⟨s, _, h.ended s c⟩
        | some line => exact h.stays s line _ (hstay line List.mem_cons_self)
      have hlater (line : String) (hline : some line ∈ rest) : leaves line = false :=
        hstay line (List.mem_cons_of_mem _ hline)
      obtain ⟨next, d, hrest⟩ := ih hlater s' c'
      exact ⟨next, d, .cons hturn hrest⟩

/-- However often an input ends, each time is reported and the dialogue goes on. -/
theorem Patient.runOn_ended (h : t.Patient leaves) (n : Nat) (after : Input) (s : σ) (c : Console) :
    (t.goOn (List.replicate n none ++ after) s).runOn c =
      (t.goOn after s).runOn (t.refuse^[n] c) := by
  induction n generalizing c with
  | zero => rfl
  | succ n ih => exact (runOn_goOn_cons _ (h.ended s c)).trans (ih _)

/-- How a dialogue goes on after lines that do not end it: ends of input are reported and the rest
of the input is answered, a line that asks to leave ends it whatever follows, and so does breaking
off. -/
structure Continues (t : Talk σ) (leaves : String → Bool) (before : Input) (c : Console) (s : σ)
    (d : Console) : Prop where
  ended : ∀ n after, (t.hold (before ++ (List.replicate n none ++ after))).runOn c =
    (t.goOn after s).runOn (t.refuse^[n] d)
  left : ∀ line after, leaves line = true →
    (t.hold (before ++ some line :: after)).runOn c = t.farewell.runOn (d.print t.prompt)
  brokenOff : (t.hold before).runOn c =
    (t.brokenOff >>= fun _ => t.farewell).runOn (d.print t.prompt)

theorem Patient.continues (h : t.Patient leaves) {c' : Console}
    (hstay : ∀ line, some line ∈ before → leaves line = false)
    (hgreeting : t.greeting.runOn c = (.ok s, c')) :
    ∃ next d, t.Reaches before s c' next d ∧ t.Continues leaves before c next d := by
  obtain ⟨next, d, hreaches⟩ := h.reaches hstay s c'
  have hhold (after : Input) :
      (t.hold (before ++ after)).runOn c = (t.goOn after next).runOn d :=
    (runOn_bind_ok hgreeting).trans (hreaches.runOn_goOn after)
  refine ⟨next, d, hreaches, fun n after => ?_, fun line after hline => ?_, ?_⟩
  · rw [hhold, h.runOn_ended]
  · rw [hhold, h.runOn_left hline]
  · have hend := hhold []
    rw [List.append_nil] at hend
    rw [hend, runOn_goOn_nil]

end Talk

/-- The dialogue with an engine. -/
def performing : Talk Engine := {
  greeting := greet
  prompt := prompt
  turn := turn
  brokenOff := breakOff
  farewell := pure () }

def openChecking : Shell Unit := do
  readerReady
  say "🎵 互動式測試模式"
  say "輸入程式碼來測試，輸入 'quit' 結束"
  say (rule '=' 40)

/-- The dialogue that checks program texts. -/
def checking : Talk Unit := {
  greeting := openChecking
  prompt := "\n請輸入程式碼: "
  turn := checkTurn
  brokenOff := pure ()
  farewell := say "\n👋 再見!" }

theorem dialogue_eq (input : Input) : dialogue input = performing.hold input := by
  simp only [dialogue, Talk.hold, Talk.goOn, performing, bind_pure_unit]

theorem checkDialogue_eq (input : Input) : checkDialogue input = checking.hold input := by
  simp only [checkDialogue, Talk.hold, Talk.goOn, checking, openChecking, bind_assoc]

theorem patient_performing : performing.Patient leaves :=
  ⟨fun _ _ => rfl, fun e _ h => turn_leaves h e, fun e _ c h => turn_stays h e c⟩

theorem patient_checking : checking.Patient leavesChecking := by
  refine ⟨fun _ _ => rfl, fun u line h => ?_, fun u line c h => ?_⟩
  · simp only [checking]
    exact checkTurn_leaves h u
  · simp only [checking]
    exact checkTurn_stays h u c

theorem settles_openChecking : Settles openChecking :=
  .bind (.say _) fun _ => .bind (.say _) fun _ => .bind (.say _) fun _ => .say _

theorem Settles.perform {e : Engine} {action : Perform α} {a : α} {d : Engine}
    (h : action.run.run { e with log := #[] } = (.ok a, d)) : Settles (Shell.perform e action) := by
  intro c
  let finish (p : Result α × Engine) : Except Trouble (Result α × Engine) × Console :=
    (.ok (p.1, { p.2 with log := #[] }), { c with log := c.log ++ p.2.log })
  have hconduct : (Shell.conduct e action).runOn c = finish (.ok a, d) := by
    change finish (action.run.run { e with log := #[] }) = _
    rw [h]
  exact ⟨_, _, runOn_bind_ok hconduct⟩

/-- A new engine of the soft palette is there on every device. -/
theorem settles_newEngine : Settles (newEngine .soft) := by
  refine .bind .get fun c => ?_
  obtain ⟨d, hd⟩ : ∃ d, (do Perform.build; Perform.setRate c.rate : Perform Unit).run.run
      { palette := .soft, device := c.device } = (.ok (), d) := by
    cases c.device with
    | broken reason => exact ⟨_, rfl⟩
    | working format => exact ⟨_, rfl⟩
  exact .bind (.perform hd) fun p => .pure p.2

theorem settles_greet : Settles greet :=
  .bind (.say _) fun _ => .bind (.say _) fun _ => .bind (.say _) fun _ => .bind (.say _) fun _ =>
    .bind (.say _) fun _ => .bind (.say _) fun _ => .bind settles_announceParts fun _ =>
      .bind settles_newEngine fun e => .bind (.say _) fun _ => .bind (.say _) fun _ => .pure e

/-- An end of input does not end a dialogue. When no line before it asked to leave, all lines
before it have been answered, it is reported in one line, and the rest of the input is answered
from the same state; and this again for each further end of input. Only a line that asks to leave
or breaking off ends the dialogue. -/
theorem end_of_input_goes_on (before : Input) (c : Console) :
    (∀ input, dialogue input = performing.hold input) ∧
    (∀ input, checkDialogue input = checking.hold input) ∧
    ((∀ line, some line ∈ before → leaves line = false) →
      ∃ e c' next d, greet.runOn c = (.ok e, c') ∧ performing.Reaches before e c' next d ∧
        performing.Continues leaves before c next d) ∧
    ((∀ line, some line ∈ before → leavesChecking line = false) →
      ∃ c' d, openChecking.runOn c = (.ok (), c') ∧ checking.Reaches before () c' () d ∧
        checking.Continues leavesChecking before c () d) := by
  refine ⟨dialogue_eq, checkDialogue_eq, fun hstay => ?_, fun hstay => ?_⟩
  · obtain ⟨e, c', hgreet⟩ := settles_greet c
    obtain ⟨next, d, hreaches, hcontinues⟩ := patient_performing.continues hstay hgreet
    exact ⟨e, c', next, d, hgreet, hreaches, hcontinues⟩
  · obtain ⟨⟨⟩, c', hopen⟩ := settles_openChecking c
    obtain ⟨⟨⟩, d, hreaches, hcontinues⟩ := patient_checking.continues hstay hopen
    exact ⟨c', d, hopen, hreaches, hcontinues⟩

/-- A console on whose device nothing is known. -/
def plainConsole : Console :=
  { installation := ⟨"", ""⟩, folder := {}, device := .working none, rate := 44100 }

/-- The help is shown, two ends of input are reported, and then the dialogue is left. -/
theorem end_of_input_goes_on_twice :
    ∃ e c next d, greet.runOn plainConsole = (.ok e, c) ∧
      performing.Reaches [some "help", none, none] e c next d ∧
      (dialogue [some "help", none, none, some "Exit", some "status"]).runOn plainConsole =
        (.ok (), d.print prompt) := by
  obtain ⟨hdialogue, -, hperforming, -⟩ :=
    end_of_input_goes_on [some "help", none, none] plainConsole
  have hstay (line : String) (hline : some line ∈ [some "help", none, none]) :
      leaves line = false := by
    simp only [List.mem_cons, Option.some.injEq, reduceCtorEq, List.not_mem_nil, or_false] at hline
    rw [hline]
    rfl
  obtain ⟨e, c, next, d, hgreet, hreaches, hcontinues⟩ := hperforming hstay
  refine ⟨e, c, next, d, hgreet, hreaches, ?_⟩
  rw [hdialogue]
  exact hcontinues.left "Exit" [some "status"] rfl

/-- After an end of input the next line is asked for: it matters whether the dialogue is left in
that line or broken off. -/
theorem line_read_after_end :
    (dialogue [none, some "exit"]).runOn plainConsole ≠ (dialogue [none]).runOn plainConsole := by
  obtain ⟨e, c, hgreet⟩ := settles_greet plainConsole
  have hstay (line : String) (hline : some line ∈ ([none] : Input)) : leaves line = false := by
    simp at hline
  obtain ⟨next, d, -, hcontinues⟩ := patient_performing.continues hstay hgreet
  have hleft : (dialogue [none, some "exit"]).runOn plainConsole = (.ok (), d.print prompt) := by
    rw [dialogue_eq]
    exact hcontinues.left "exit" [] rfl
  have hbroken : (dialogue [none]).runOn plainConsole =
      (.ok (), (d.print prompt).print "\n👋 再見！\n") := by
    rw [dialogue_eq, hcontinues.brokenOff]
    rfl
  rw [hleft, hbroken]
  intro h
  have hsizes := congrArg (fun p => p.2.log.size) h
  simp only [Console.print, Array.size_push] at hsizes
  omega

end Shell
end TuneScript
