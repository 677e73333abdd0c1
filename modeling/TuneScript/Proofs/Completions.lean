import TuneScript.Proofs.Scanning
import TuneScript.Proofs.Statements

/-!
A program can be made of whatever the machine has read. For each phase a few words bring the
statement at hand to an end, and then the open bodies are closed one by one. There is one thing
that no words could mend, a chord that has been read for a condition; it never comes to that.
-/

namespace TuneScript

namespace Goal

/-- A condition is the only goal for which no chord is read. -/
def takesChord : Goal → Bool
  | condition _ => false
  | _ => true

end Goal

/-- Notes are read for what may be a chord. -/
def Bracket.Sensible : Bracket → Prop
  | expression goal => goal.takesChord = true
  | _ => True

/-- No chord has been read, even in part, for a condition. -/
def Phase.Sensible : Phase → Prop
  | notesOpen bracket | notesNext bracket _ _ | notesComma bracket _ _ => bracket.Sensible
  | chordExpression goal _ => goal.takesChord = true
  | _ => True

def Move.Sensible : Move → Prop
  | go phase _ => phase.Sensible
  | _ => True

namespace Phase

variable {goal : Goal} {s : Operands} {e : Expr} {l : Lexeme} {move : Move} {phase : Phase}

theorem closeNotes_sensible {bracket : Bracket} (h : bracket.Sensible) (notes : Notes) :
    (closeNotes notes bracket).Sensible := by
  cases bracket with
  | noteArray | chord => trivial
  | expression goal => exact h

theorem expressionEnd_sensible (h : expressionEnd goal e l = some move) : move.Sensible := by
  unfold expressionEnd at h
  split at h <;> cases h <;> trivial

theorem expressionStep_sensible (h : expressionStep goal s l = some move) : move.Sensible := by
  unfold expressionStep at h
  split at h
  · cases h
    trivial
  · obtain ⟨e, -, he⟩ := Option.bind_eq_some_iff.1 h
    exact expressionEnd_sensible he

theorem expressionStart_sensible (hgoal : goal.takesChord = true)
    (h : expressionStart goal l = some move) : move.Sensible := by
  unfold expressionStart at h
  split at h
  · cases h
    exact hgoal
  · obtain ⟨u, -, rfl⟩ := Option.map_eq_some_iff.1 h
    trivial

theorem starting_sensible (h : starting l = some move) : move.Sensible := by
  unfold starting at h
  split at h
  case h_13 => exact expressionStart_sensible rfl h
  all_goals
    cases h
    trivial

theorem advance_sensible (hphase : phase.Sensible) (h : phase.advance l = some move) :
    move.Sensible := by
  unfold advance at h
  split at h
  -- the notes of a list
  case h_4 | h_5 | h_7 =>
    cases h
    exact hphase
  case h_6 =>
    cases h
    exact closeNotes_sensible hphase _
  -- where an expression starts or goes on
  case h_39 | h_43 => exact expressionStep_sensible h
  case h_41 => exact expressionStart_sensible rfl h
  case h_42 goal s =>
    split at h
    · next hchord =>
      cases h
      cases goal with
      | condition clause => simp [admitsChord] at hchord
      | _ => rfl
    · exact expressionStep_sensible h
  case h_44 => exact expressionEnd_sensible h
  case h_45 => cases h
  all_goals
    cases h
    trivial

end Phase

namespace Machine

variable {m n : Machine} {l : Lexeme}

theorem apply_sensible {move : Move} (h : move.Sensible) : (m.apply move).phase.Sensible := by
  cases move with
  | go phase follow => exact h
  | finish s follow | enter header => trivial

theorem step_sensible (hm : m.phase.Sensible) (h : m.step l = some n) : n.phase.Sensible := by
  unfold step at h
  split at h
  · next move hmove =>
    cases h
    exact apply_sensible (Phase.advance_sensible hm hmove)
  · split at h
    · cases h
    · split at h
      · next move hmove =>
        cases h
        exact apply_sensible (Phase.starting_sensible hmove)
      · split at h
        · unfold close? at h
          split at h
          · cases h
          · next header _ _ _ => cases header <;> cases h <;> trivial
        · cases h

end Machine

/-- Words that do where any word of their class would. -/
def Lexeme.someName : Lexeme := .name "x"

def Lexeme.someNote : Lexeme := .note "C4"

def Lexeme.someNumeral : Lexeme := .numeral ⟨['0'], none⟩

open Lexeme

/-- The words that close all groups of an expression, after an operand if one has to follow. -/
def Operands.ending : Operands → List Lexeme
  | awaiting _ outer => someName :: List.replicate outer.length (.mark .closeParen)
  | arith _ outer _ | logic _ outer _ => List.replicate outer.length (.mark .closeParen)

/-- The words after a whole expression that end its statement. -/
def Goal.ending : Goal → List Lexeme
  | rest | assign _ => []
  | argument _ _ => [.mark .closeParen]
  | eval => [.mark .semicolon]
  | condition _ => .mark .closeParen :: braced []

def Bracket.ending : Bracket → List Lexeme
  | expression goal => .mark .closeBracket :: goal.ending
  | _ => [.mark .closeBracket]

/-- Words that end the statement at hand. -/
def Phase.ending : Phase → List Lexeme
  | start | played _ | branches _ => []
  | noteHead => [someNote]
  | chordHead => [.mark .openBracket, someNote, .mark .closeBracket]
  | notesOpen bracket | notesComma bracket _ _ => someNote :: bracket.ending
  | notesNext bracket _ _ => bracket.ending
  | duration _ | tempo | volume => [someNumeral]
  | instrument => [.mark .equals, someName]
  | instrumentName => [someName]
  | loopHead => someNumeral :: braced []
  | clauseHead _ => grouped [someName] ++ braced []
  | loopCount _ | clauseEnd _ _ | forEnd _ _ _ | parametersEnd _ _ | otherwiseHead _ => braced []
  | forHead =>
    grouped [someName, .mark .comma, someNumeral, .mark .colon, someNumeral] ++ braced []
  | forOpen =>
    [someName, .mark .comma, someNumeral, .mark .colon, someNumeral, .mark .closeParen] ++ braced []
  | forName _ =>
    [.mark .comma, someNumeral, .mark .colon, someNumeral, .mark .closeParen] ++ braced []
  | forComma _ => [someNumeral, .mark .colon, someNumeral, .mark .closeParen] ++ braced []
  | forStart _ _ => [.mark .colon, someNumeral, .mark .closeParen] ++ braced []
  | forColon _ _ => [someNumeral, .mark .closeParen] ++ braced []
  | forStop _ _ _ | parametersOpen _ | parametersNext _ _ => .mark .closeParen :: braced []
  | defineHead => someName :: (grouped [] ++ braced [])
  | defineName _ => grouped [] ++ braced []
  | parametersComma _ _ => someName :: .mark .closeParen :: braced []
  | name _ => [.mark .semicolon]
  | argumentsOpen _ => [.mark .closeParen]
  | expression goal s => s.ending ++ goal.ending
  | chordExpression goal _ => goal.ending

/-- Words that make a program of what has been read. -/
def Machine.ending (m : Machine) : List Lexeme :=
  m.phase.ending ++ List.replicate m.blocks.length (.mark .closeBrace)

namespace Operands

theorem run_closeParens {s : Operands} {g : Group} {outer : List Group} {e : Logic}
    (h : s.current? = some (g, outer, e)) :
    ∃ t c, s.run (List.replicate outer.length (.mark .closeParen)) = some t ∧
      t.finish? = some c := by
  induction outer generalizing s g e with
  | nil => exact ⟨s, _, rfl, finish?_eq h⟩
  | cons parent outer ih =>
      obtain ⟨t, follow, hstep, ht⟩ := step_closeParen h
      have hcurrent : ∃ e', t.current? = some (parent, outer, e') := by
        rcases ht with rfl | ⟨a, -, rfl⟩ <;> exact ⟨_, rfl⟩
      obtain ⟨e', hcurrent⟩ := hcurrent
      obtain ⟨u, c, hrun, hc⟩ := ih hcurrent
      refine ⟨u, c, ?_, hc⟩
      rw [List.length_cons, List.replicate_succ, run, hstep]
      exact hrun

theorem run_ending (s : Operands) : ∃ t c, s.run s.ending = some t ∧ t.finish? = some c := by
  cases s with
  | awaiting g outer =>
      have hname : (arith g outer (.name "x")).current? = some (g, outer, _) := rfl
      exact run_closeParens hname
  | arith g outer a | logic g outer a => exact run_closeParens rfl

end Operands

namespace Machine

variable {blocks : List Block} {done : List Stmt} {phase : Phase} {follow : Follow}

/-- The statement at hand comes to its end after these words. -/
def EndsAfter (m : Machine) (ls : List Lexeme) : Prop :=
  ∃ n done, m.run ls = some n ∧ n.Between m.blocks done

theorem close?_between (header : Header) (before : List Stmt) (blocks : List Block)
    (done : List Stmt) (follow : Follow) :
    ∃ n done', (⟨⟨header, before⟩ :: blocks, done, .start, follow⟩ : Machine).close? = some n ∧
      n.Between blocks done' := by
  cases header with
  | branch e | alternative b e => exact ⟨_, _, rfl, _, rfl, rfl, rfl⟩
  | loop _ | whileLoop _ | forLoop _ _ _ | define _ _ | otherwise _ =>
      exact ⟨_, _, rfl, between_start blocks _ _⟩

namespace EndsAfter

theorem nil {ended : List Stmt} (h : phase.ended? = some ended) :
    (⟨blocks, done, phase, follow⟩ : Machine).EndsAfter [] :=
  ⟨_, _, rfl, ended, h, rfl, rfl⟩

theorem cons {l : Lexeme} {ls : List Lexeme} {next : Phase} {f : Follow}
    (h : phase.advance l = some (.go next f))
    (hnext : (⟨blocks, done, next, f⟩ : Machine).EndsAfter ls) :
    (⟨blocks, done, phase, follow⟩ : Machine).EndsAfter (l :: ls) := by
  obtain ⟨n, done', hrun, hbetween⟩ := hnext
  refine ⟨n, done', ?_, hbetween⟩
  rw [run_cons_of_eq (step_of_advance h)]
  exact hrun

theorem finish {l : Lexeme} {s : Stmt} {f : Follow} (h : phase.advance l = some (.finish s f)) :
    (⟨blocks, done, phase, follow⟩ : Machine).EndsAfter [l] := by
  refine ⟨⟨blocks, s :: done, .start, f⟩, s :: done, ?_, between_start blocks _ f⟩
  rw [run_cons_of_eq (step_of_advance h)]
  rfl

/-- A body may be left empty. -/
theorem enter {header : Header} (h : phase.advance (.mark .openBrace) = some (.enter header)) :
    (⟨blocks, done, phase, follow⟩ : Machine).EndsAfter (braced []) := by
  obtain ⟨n, done', hclose, hbetween⟩ := close?_between header done blocks [] .statement
  have hstart := between_start (⟨header, done⟩ :: blocks) [] .statement
  refine ⟨n, done', ?_, hbetween⟩
  rw [braced, run_cons_of_eq (step_of_advance h)]
  exact run_cons_of_eq (hstart.step_closeBrace.trans hclose) []

theorem ofEnds {goal : Goal} {e : Expr} (h : phase.Ends goal e)
    (he : ∀ clause, goal = .condition clause → ∃ c, e = .logic c) :
    (⟨blocks, done, phase, follow⟩ : Machine).EndsAfter goal.ending := by
  cases goal with
  | rest | assign x => exact .nil (Phase.ended?_of_ends h rfl)
  | argument f before => exact .finish (Phase.advance_stop h (.inr (.inr rfl)))
  | eval => exact .finish (Phase.advance_stop h (.inl rfl))
  | condition clause =>
      obtain ⟨c, rfl⟩ := he clause rfl
      exact .cons (Phase.advance_stop h (.inr (.inr rfl))) (.enter rfl)

theorem expression (goal : Goal) (s : Operands) :
    (⟨blocks, done, .expression goal s, follow⟩ : Machine).EndsAfter (s.ending ++ goal.ending) := by
  obtain ⟨t, c, hrun, hc⟩ := s.run_ending
  obtain ⟨follow', hmachine⟩ := run_operands hrun blocks done goal follow
  have hends : Phase.Ends goal (.logic c) (.expression goal t) := .inl ⟨t, c, rfl, hc, rfl⟩
  obtain ⟨n, done', hgoal, hbetween⟩ :
      (⟨blocks, done, .expression goal t, follow'⟩ : Machine).EndsAfter goal.ending :=
    .ofEnds hends fun _ _ => ⟨c, rfl⟩
  exact ⟨n, done', (run_append_of_eq hmachine _).trans hgoal, hbetween⟩

theorem chord {goal : Goal} (hgoal : goal.takesChord = true) (notes : Notes) :
    (⟨blocks, done, .chordExpression goal notes, follow⟩ : Machine).EndsAfter goal.ending := by
  refine .ofEnds (.inr ⟨notes, rfl, rfl⟩) ?_
  rintro clause rfl
  cases hgoal

theorem bracket {bracket : Bracket} (h : bracket.Sensible) (first : String)
    (others : List String) :
    (⟨blocks, done, .notesNext bracket first others, follow⟩ : Machine).EndsAfter
      bracket.ending := by
  cases bracket with
  | noteArray | chord => exact .cons rfl (.nil rfl)
  | expression goal => exact .cons rfl (.chord h _)

end EndsAfter

/-- Every statement can be brought to its end. -/
theorem endsAfter_ending (h : phase.Sensible) :
    (⟨blocks, done, phase, follow⟩ : Machine).EndsAfter phase.ending := by
  cases phase with
  | start | played what | branches b => exact .nil rfl
  | noteHead => exact .cons rfl (.nil rfl)
  | chordHead => exact .cons rfl (.cons rfl (.cons rfl (.nil rfl)))
  | notesOpen bracket => exact .cons rfl (.bracket h _ _)
  | notesNext bracket first others => exact .bracket h first others
  | notesComma bracket first others => exact .cons rfl (.bracket h _ _)
  | duration what | tempo | volume | instrumentName | name x | argumentsOpen f =>
      exact .finish rfl
  | instrument => exact .cons rfl (.finish rfl)
  | loopHead => exact .cons rfl (.enter rfl)
  | loopCount n | clauseEnd clause e | forEnd x a b | parametersEnd f xs | otherwiseHead b =>
      exact .enter rfl
  | clauseHead clause => exact .cons rfl (.expression (.condition clause) .empty)
  | forHead =>
      exact .cons rfl (.cons rfl (.cons rfl (.cons rfl (.cons rfl (.cons rfl
        (.cons rfl (.enter rfl)))))))
  | forOpen =>
      exact .cons rfl (.cons rfl (.cons rfl (.cons rfl (.cons rfl (.cons rfl (.enter rfl))))))
  | forName x => exact .cons rfl (.cons rfl (.cons rfl (.cons rfl (.cons rfl (.enter rfl)))))
  | forComma x => exact .cons rfl (.cons rfl (.cons rfl (.cons rfl (.enter rfl))))
  | forStart x a => exact .cons rfl (.cons rfl (.cons rfl (.enter rfl)))
  | forColon x a => exact .cons rfl (.cons rfl (.enter rfl))
  | forStop x a b | parametersOpen f | parametersNext f xs => exact .cons rfl (.enter rfl)
  | defineHead => exact .cons rfl (.cons rfl (.cons rfl (.enter rfl)))
  | defineName f => exact .cons rfl (.cons rfl (.enter rfl))
  | parametersComma f xs => exact .cons rfl (.cons rfl (.enter rfl))
  | expression goal s => exact .expression goal s
  | chordExpression goal notes => exact .chord h notes

theorem Between.run_closeBraces {m : Machine} (h : m.Between blocks done) :
    ∃ n p, m.run (List.replicate blocks.length (.mark .closeBrace)) = some n ∧
      n.finish? = some p := by
  induction blocks generalizing m done with
  | nil => exact ⟨m, _, rfl, h.finish⟩
  | cons block blocks ih =>
      obtain ⟨n, done', hclose, hbetween⟩ :=
        close?_between block.header block.before blocks done m.follow
      obtain ⟨k, p, hrun, hfinish⟩ := ih hbetween
      refine ⟨k, p, ?_, hfinish⟩
      rw [List.length_cons, List.replicate_succ,
        run_cons_of_eq (h.step_closeBrace.trans hclose), hrun]

/-- Whatever has been read can be made a program. -/
theorem run_ending {m : Machine} (h : m.phase.Sensible) :
    ∃ n p, m.run m.ending = some n ∧ n.finish? = some p := by
  obtain ⟨n, done, hrun, hbetween⟩ : m.EndsAfter m.phase.ending := endsAfter_ending h
  obtain ⟨k, p, hclose, hfinish⟩ := hbetween.run_closeBraces
  exact ⟨k, p, (run_append_of_eq hrun _).trans hclose, hfinish⟩

end Machine

/-- A word that belongs to every dialect and means the same everywhere. -/
def Lexeme.IsPlain (l : Lexeme) : Prop :=
  l.isProper = true ∧ ∀ dialect, Follow.known dialect l.terminal = true

@[simp] theorem Lexeme.isPlain_mark (m : Mark) : (Lexeme.mark m).IsPlain := ⟨rfl, fun _ => rfl⟩

@[simp] theorem Lexeme.isPlain_someName : someName.IsPlain := ⟨by decide, fun _ => rfl⟩

@[simp] theorem Lexeme.isPlain_someNote : someNote.IsPlain := ⟨by decide, fun _ => rfl⟩

@[simp] theorem Lexeme.isPlain_someNumeral : someNumeral.IsPlain := ⟨by decide, fun _ => rfl⟩

theorem Goal.isPlain_ending (goal : Goal) : ∀ l ∈ goal.ending, l.IsPlain := by
  cases goal <;> simp [ending, braced]

theorem Bracket.isPlain_ending (bracket : Bracket) : ∀ l ∈ bracket.ending, l.IsPlain := by
  cases bracket with
  | expression goal => simpa [ending] using goal.isPlain_ending
  | _ => simp [ending]

theorem Operands.isPlain_ending (s : Operands) : ∀ l ∈ s.ending, l.IsPlain := by
  cases s <;> simp +contextual [ending, List.mem_replicate]

theorem Phase.isPlain_ending (phase : Phase) : ∀ l ∈ phase.ending, l.IsPlain := by
  cases phase with
  | notesOpen bracket | notesNext bracket _ _ | notesComma bracket _ _ =>
      simpa [ending] using bracket.isPlain_ending
  | expression goal s =>
      exact List.forall_mem_append.2 ⟨s.isPlain_ending, goal.isPlain_ending⟩
  | chordExpression goal _ => exact goal.isPlain_ending
  | _ => simp [ending, braced, grouped]

theorem Machine.isPlain_ending (m : Machine) : ∀ l ∈ m.ending, l.IsPlain := by
  refine List.forall_mem_append.2 ⟨m.phase.isPlain_ending, fun l hl => ?_⟩
  rw [List.eq_of_mem_replicate hl]
  exact Lexeme.isPlain_mark _

end TuneScript
