import TuneScript.Grammar.Machine
import TuneScript.Proofs.Expressions

/-!
Every spelling of a program is read as that program. Statements have no end mark of their
own, so the heart of the matter is that no word which starts a statement, and no closing
brace, goes on with a statement that may end: `Phase.advance_bounds`.
-/

namespace TuneScript

namespace Phase

/-- A phase in which a whole expression has been read for a goal. -/
def Ends (goal : Goal) (e : Expr) (phase : Phase) : Prop :=
  (∃ s c, phase = expression goal s ∧ s.finish? = some c ∧ e = .logic c) ∨
    ∃ notes, phase = chordExpression goal notes ∧ e = .chord notes

/-- Words that stand after an expression and are part of none. -/
def IsStop (l : Lexeme) : Prop :=
  l = .mark .semicolon ∨ l = .mark .comma ∨ l = .mark .closeParen

theorem step_stop {s : Operands} {c : Logic} {l : Lexeme} (hs : s.finish? = some c)
    (hl : IsStop l) : s.step l = none := by
  unfold Operands.finish? at hs
  split at hs
  · rcases hl with rfl | rfl | rfl <;> rfl
  · rcases hl with rfl | rfl | rfl <;> rfl
  · cases hs

theorem advance_stop {goal : Goal} {e : Expr} {phase : Phase} {l : Lexeme}
    (h : phase.Ends goal e) (hl : IsStop l) : phase.advance l = expressionEnd goal e l := by
  rcases h with ⟨s, c, rfl, hs, rfl⟩ | ⟨notes, rfl, rfl⟩
  · have hstep := step_stop hs hl
    rcases hl with rfl | rfl | rfl <;> simp [advance, expressionStep, hstep, hs]
  · rcases hl with rfl | rfl | rfl <;> rfl

theorem ended?_of_ends {goal : Goal} {e : Expr} {phase : Phase} {s : Stmt}
    (h : phase.Ends goal e) (hs : goalEnd? goal e = some s) : phase.ended? = some [s] := by
  rcases h with ⟨t, c, rfl, ht, rfl⟩ | ⟨notes, rfl, rfl⟩ <;> simp_all [ended?]

/-- The words that start a statement, and the brace that ends a body. -/
def Bounds (l : Lexeme) : Prop := (starting l).isSome = true ∨ l = .mark .closeBrace

theorem not_bounds_comma : ¬Bounds (.mark .comma) := by
  simp [Bounds, starting, expressionStart, Operands.empty, Operands.step]

theorem not_bounds_alternative : ¬Bounds (.keyword .alternative) := by
  simp [Bounds, starting, expressionStart, Operands.empty, Operands.step]

theorem not_bounds_otherwise : ¬Bounds (.keyword .otherwise) := by
  simp [Bounds, starting, expressionStart, Operands.empty, Operands.step]

theorem step_bounds {s : Operands} {c : Logic} {l : Lexeme} (hs : s.finish? = some c)
    (hl : Bounds l) : s.step l = none := by
  cases hstep : s.step l with
  | none => rfl
  | some r =>
      exfalso
      unfold Operands.finish? at hs
      split at hs
      · unfold Operands.step at hstep
        split at hstep <;> simp_all [Bounds, starting, expressionStart, Operands.empty,
          Operands.step, Operands.closeGroup]
      · unfold Operands.step at hstep
        split at hstep <;> simp_all [Bounds, starting, expressionStart, Operands.empty,
          Operands.step, Operands.closeGroup]
      · cases hs

theorem advance_expression (goal : Goal) (s : Operands) (l : Lexeme) :
    (expression goal s).advance l =
      if l = .mark .openBracket ∧ admitsChord goal s = true then
        some (openNotes (.expression goal))
      else expressionStep goal s l := by
  cases l with
  | mark m => cases m <;> simp [advance]
  | _ => simp [advance]

/-- The first word of an expression does the same wherever the expression stands. -/
theorem advance_empty {goal : Goal} (h : admitsChord goal .empty = true) (l : Lexeme) :
    (expression goal .empty).advance l = expressionStart goal l := by
  have hstep : expressionStep goal .empty l =
      (Operands.empty.step l).map fun next => .go (expression goal next.1) next.2 := by
    have hfinish : Operands.empty.finish? = none := rfl
    cases hl : Operands.empty.step l <;> simp [expressionStep, hl, hfinish]
  rw [advance_expression, hstep]
  cases l with
  | mark m => cases m <;> simp [expressionStart, h]
  | _ => simp [expressionStart]

theorem advance_argumentsOpen {f : String} {l : Lexeme} {move : Move}
    (h : (expression (.argument f []) .empty).advance l = some move) :
    (argumentsOpen f).advance l = some move := by
  rw [advance_empty rfl] at h
  cases l with
  | mark m => cases m <;> first | exact h | cases h
  | _ => exact h

theorem advance_name {x : String} {l : Lexeme} {move : Move}
    (h : (expression .eval (.ofArith (.name x))).advance l = some move) :
    (name x).advance l = some move := by
  rw [advance_expression] at h
  cases l with
  | mark m => cases m <;> first | exact h | cases h
  | _ => exact h

theorem starting_of_advance {l : Lexeme} {move : Move}
    (h : (expression .eval .empty).advance l = some move) :
    (∃ x, l = .name x) ∨ starting l = some move := by
  rw [advance_empty rfl] at h
  cases l with
  | name x => exact .inl ⟨x, rfl⟩
  | keyword k => cases k <;> first | exact .inr h | cases h
  | _ => exact .inr h

theorem expressionEnd_goalEnd {goal : Goal} {e : Expr} {s : Stmt} (h : goalEnd? goal e = some s)
    (l : Lexeme) : expressionEnd goal e l = none := by
  cases goal with
  | rest | assign _ => simp [expressionEnd]
  | _ => cases h

/-- A statement that may end is ended by every word that starts another statement, and by
the brace that ends its body. -/
theorem advance_bounds {phase : Phase} {ended : List Stmt} {l : Lexeme}
    (h : phase.ended? = some ended) (hl : Bounds l) : phase.advance l = none := by
  cases phase with
  | start => rfl
  | played what =>
      cases hadvance : (played what).advance l with
      | none => rfl
      | some move =>
          unfold advance at hadvance
          split at hadvance <;> first | exact absurd hl not_bounds_comma | simp_all
  | branches b =>
      cases hadvance : (branches b).advance l with
      | none => rfl
      | some move =>
          unfold advance at hadvance
          split at hadvance <;> first
            | exact absurd hl not_bounds_alternative
            | exact absurd hl not_bounds_otherwise
            | simp_all
  | expression goal s =>
      simp only [ended?, Option.map_eq_some_iff, Option.bind_eq_some_iff] at h
      obtain ⟨stmt, ⟨c, hc, hgoal⟩, -⟩ := h
      have hchord : admitsChord goal s = false := by
        cases s with
        | awaiting _ _ => cases hc
        | arith _ _ _ | logic _ _ _ => simp [admitsChord, Operands.empty]
      have hstep : expressionStep goal s l = none := by
        simp [expressionStep, step_bounds hc hl, hc, expressionEnd_goalEnd hgoal]
      unfold advance
      split <;> simp_all
  | chordExpression goal notes =>
      simp only [ended?, Option.map_eq_some_iff] at h
      obtain ⟨stmt, hgoal, -⟩ := h
      exact expressionEnd_goalEnd hgoal l
  | _ => cases h

end Phase

namespace Machine

/-- Reads several words. -/
def run : Machine → List Lexeme → Option Machine
  | m, [] => some m
  | m, l :: ls => (m.step l).bind fun m => m.run ls

theorem run_append (m : Machine) (ls ms : List Lexeme) :
    m.run (ls ++ ms) = (m.run ls).bind fun m => m.run ms := by
  induction ls generalizing m with
  | nil => rfl
  | cons l ls ih =>
      simp only [List.cons_append, run]
      cases m.step l with
      | none => rfl
      | some n => exact ih n

theorem run_append_of_eq {m n : Machine} {ls : List Lexeme} (h : m.run ls = some n)
    (ms : List Lexeme) : m.run (ls ++ ms) = n.run ms := by
  rw [run_append, h]
  rfl

theorem run_cons_of_eq {m n : Machine} {l : Lexeme} (h : m.step l = some n) (ls : List Lexeme) :
    m.run (l :: ls) = n.run ls := by
  rw [run, h]
  rfl

theorem step_of_advance {m : Machine} {l : Lexeme} {move : Move}
    (h : m.phase.advance l = some move) : m.step l = some (m.apply move) := by
  rw [step, h]

/-- The machine stands between two statements: these bodies are open, and these
statements of the innermost one are done once the statement at hand has ended. -/
def Between (m : Machine) (blocks : List Block) (done : List Stmt) : Prop :=
  ∃ ended, m.phase.ended? = some ended ∧ m.blocks = blocks ∧ ended ++ m.done = done

theorem between_start (blocks : List Block) (done : List Stmt) (follow : Follow) :
    (⟨blocks, done, .start, follow⟩ : Machine).Between blocks done :=
  ⟨[], rfl, rfl, rfl⟩

variable {m : Machine} {blocks : List Block} {done : List Stmt}

theorem Between.step_starting (h : m.Between blocks done) {l : Lexeme} {move : Move}
    (hl : Phase.starting l = some move) :
    m.step l = some ((⟨blocks, done, .start, m.follow⟩ : Machine).apply move) := by
  obtain ⟨ended, hended, rfl, rfl⟩ := h
  have hadvance : m.phase.advance l = none :=
    Phase.advance_bounds hended (.inl (by rw [hl]; rfl))
  simp [step, hadvance, settle?, hended, hl]

theorem Between.step_closeBrace (h : m.Between blocks done) :
    m.step (.mark .closeBrace) =
      (⟨blocks, done, .start, m.follow⟩ : Machine).close? := by
  obtain ⟨ended, hended, rfl, rfl⟩ := h
  have hadvance : m.phase.advance (.mark .closeBrace) = none :=
    Phase.advance_bounds hended (.inr rfl)
  have hstarting : Phase.starting (.mark .closeBrace) = none := rfl
  simp [step, hadvance, settle?, hended, hstarting]

theorem Between.finish (h : m.Between [] done) : m.finish? = some done.reverse := by
  obtain ⟨ended, hended, hblocks, rfl⟩ := h
  simp [finish?, settle?, hended, hblocks]

theorem run_operands {s t : Operands} {ls : List Lexeme} (h : s.run ls = some t)
    (blocks : List Block) (done : List Stmt) (goal : Goal) (follow : Follow) :
    ∃ follow', (⟨blocks, done, .expression goal s, follow⟩ : Machine).run ls =
      some ⟨blocks, done, .expression goal t, follow'⟩ := by
  induction ls generalizing s follow with
  | nil =>
      cases h
      exact ⟨follow, rfl⟩
  | cons l ls ih =>
      obtain ⟨⟨u, f⟩, hu, hrun⟩ := Option.bind_eq_some_iff.1 h
      have hadvance : (Phase.expression goal s).advance l = some (.go (.expression goal u) f) := by
        unfold Phase.advance
        split <;> simp_all [Phase.expressionStep, Operands.step]
      obtain ⟨f', hf'⟩ := ih hrun f
      exact ⟨f', by rw [run_cons_of_eq (step_of_advance hadvance)]; exact hf'⟩

/-- The further notes of a list and the bracket that ends it. -/
theorem run_notesNext (bracket : Bracket) (first : String) (before notes : List String)
    (follow : Follow) :
    (⟨blocks, done, .notesNext bracket first before, follow⟩ : Machine).run
      (afterCommas .note notes ++ [.mark .closeBracket]) =
      some ((⟨blocks, done, .start, follow⟩ : Machine).apply
        (Phase.closeNotes ⟨first, before.reverse ++ notes⟩ bracket)) := by
  induction notes generalizing before follow with
  | nil => cases bracket <;> simp [afterCommas, run, step, Phase.advance, Phase.closeNotes, apply]
  | cons n ns ih =>
      have hsteps : (⟨blocks, done, .notesNext bracket first before, follow⟩ : Machine).run
          (afterCommas .note (n :: ns) ++ [.mark .closeBracket]) =
          (⟨blocks, done, .notesNext bracket first (n :: before), .note⟩ : Machine).run
            (afterCommas .note ns ++ [.mark .closeBracket]) := rfl
      rw [hsteps, ih]
      cases bracket <;> simp [Phase.closeNotes, apply]

theorem run_notes {phase : Phase} {follow : Follow} {bracket : Bracket}
    (h : phase.advance (.mark .openBracket) = some (Phase.openNotes bracket)) (notes : Notes) :
    (⟨blocks, done, phase, follow⟩ : Machine).run notes.words =
      some ((⟨blocks, done, .start, follow⟩ : Machine).apply
        (Phase.closeNotes notes bracket)) := by
  rw [Notes.words, run_cons_of_eq (step_of_advance h)]
  have hsteps : ((⟨blocks, done, phase, follow⟩ : Machine).apply (Phase.openNotes bracket)).run
      (.note notes.first :: (afterCommas .note notes.others ++ [.mark .closeBracket])) =
      (⟨blocks, done, .notesNext bracket notes.first [], .note⟩ : Machine).run
        (afterCommas .note notes.others ++ [.mark .closeBracket]) := rfl
  rw [hsteps, run_notesNext]
  cases bracket <;> rfl

theorem run_logic {e : Logic} {ls : List Lexeme} (h : Spells (.disjunction e) ls)
    (blocks : List Block) (done : List Stmt) (goal : Goal) (follow : Follow) :
    ∃ phase follow', (⟨blocks, done, .expression goal .empty, follow⟩ : Machine).run ls =
      some ⟨blocks, done, phase, follow'⟩ ∧ phase.Ends goal (.logic e) := by
  obtain ⟨s, hs, he⟩ := h.run_empty
  obtain ⟨follow', hrun⟩ := run_operands hs blocks done goal follow
  exact ⟨_, follow', hrun, .inl ⟨s, e, rfl, he, rfl⟩⟩

theorem run_expression {e : Expr} {ls : List Lexeme} (h : Spells (.expression e) ls)
    (blocks : List Block) (done : List Stmt) (goal : Goal)
    (hgoal : Phase.admitsChord goal .empty = true) (follow : Follow) :
    ∃ phase follow', (⟨blocks, done, .expression goal .empty, follow⟩ : Machine).run ls =
      some ⟨blocks, done, phase, follow'⟩ ∧ phase.Ends goal e := by
  cases h with
  | logic h => exact run_logic h blocks done goal follow
  | chordLiteral notes =>
      refine ⟨.chordExpression goal notes, .chord, ?_, .inr ⟨notes, rfl, rfl⟩⟩
      have hopen : (Phase.expression goal .empty).advance (.mark .openBracket) =
          some (Phase.openNotes (.expression goal)) := by simp [Phase.advance, hgoal]
      exact run_notes hopen notes

/-- A phase that every word advances in the same way may stand in the place of another. -/
theorem run_of_advance {p q : Phase} (hp : p.ended? = none)
    (hpq : ∀ l move, p.advance l = some move → q.advance l = some move) {f f' : Follow}
    {ls : List Lexeme} (hls : ls ≠ []) {n : Machine}
    (h : (⟨blocks, done, p, f⟩ : Machine).run ls = some n) :
    (⟨blocks, done, q, f'⟩ : Machine).run ls = some n := by
  cases ls with
  | nil => exact absurd rfl hls
  | cons l ls =>
      obtain ⟨k, hk, hrun⟩ := Option.bind_eq_some_iff.1 h
      cases hmove : p.advance l with
      | none => simp [step, hmove, settle?, hp] at hk
      | some move =>
          rw [step_of_advance hmove] at hk
          rw [run_cons_of_eq (step_of_advance (hpq l move hmove))]
          cases hk
          cases move <;> exact hrun

theorem run_arguments {f : String} {before : List Expr} {e : Expr} {phase : Phase}
    (h : phase.Ends (.argument f before) e) {es : List Expr} {ls : List Lexeme}
    (hs : Spells (.furtherArguments es) ls) (follow : Follow) :
    (⟨blocks, done, phase, follow⟩ : Machine).run (ls ++ [.mark .closeParen]) =
      some ⟨blocks, .call f (before.reverse ++ e :: es) :: done, .start, .statement⟩ := by
  induction es generalizing before e phase ls follow with
  | nil =>
      cases hs
      have hadvance := Phase.advance_stop h (.inr (.inr rfl))
      simp [run, step, hadvance, Phase.expressionEnd, apply]
  | cons d ds ih =>
      cases hs with
      | argument hd hds =>
          have hadvance : phase.advance (.mark .comma) =
              some (.go (.expression (.argument f (e :: before)) .empty) .expression) :=
            Phase.advance_stop h (.inr (.inl rfl))
          obtain ⟨next, follow', hrun, hnext⟩ :=
            run_expression hd blocks done (.argument f (e :: before)) rfl .expression
          rw [List.cons_append, run_cons_of_eq (step_of_advance hadvance), List.append_assoc,
            apply, run_append_of_eq hrun, ih hnext hds]
          simp

theorem run_call {f : String} {e : Expr} {es : List Expr} {le ls : List Lexeme}
    (he : Spells (.expression e) le) (hs : Spells (.furtherArguments es) ls) (follow : Follow) :
    (⟨blocks, done, .name f, follow⟩ : Machine).run (grouped (le ++ ls)) =
      some ⟨blocks, .call f (e :: es) :: done, .start, .statement⟩ := by
  obtain ⟨phase, follow', hrun, hphase⟩ :=
    run_expression he blocks done (.argument f []) rfl .expression
  have hall : (⟨blocks, done, .expression (.argument f []) .empty, .expression⟩ : Machine).run
      (le ++ (ls ++ [.mark .closeParen])) =
      some ⟨blocks, .call f (e :: es) :: done, .start, .statement⟩ := by
    rw [run_append_of_eq hrun, run_arguments hphase hs]
    rfl
  have hopen : (Phase.name f).advance (.mark .openParen) =
      some (.go (.argumentsOpen f) .arguments) := rfl
  rw [grouped, run_cons_of_eq (step_of_advance hopen), List.append_assoc]
  exact run_of_advance rfl (fun l move => Phase.advance_argumentsOpen) (by simp) hall

/-- The first word of an expression that is a statement by itself may be a name, after
which the statement could still become a call or an assignment. -/
theorem Between.run_eval (h : m.Between blocks done) {e : Expr} {ls : List Lexeme}
    (he : Spells (.expression e) ls) :
    m.run (ls ++ [.mark .semicolon]) = some ⟨blocks, .eval e :: done, .start, .statement⟩ := by
  obtain ⟨phase, follow', hrun, hphase⟩ := run_expression he blocks done .eval rfl .expression
  have hend : phase.advance (.mark .semicolon) = some (.finish (.eval e) .statement) :=
    Phase.advance_stop hphase (.inl rfl)
  have hall : (⟨blocks, done, .expression .eval .empty, .expression⟩ : Machine).run
      (ls ++ [.mark .semicolon]) = some ⟨blocks, .eval e :: done, .start, .statement⟩ := by
    rw [run_append_of_eq hrun, run_cons_of_eq (step_of_advance hend)]
    rfl
  cases hls : ls ++ [.mark .semicolon] with
  | nil => simp at hls
  | cons l rest =>
      rw [hls] at hall
      cases hmove : (Phase.expression .eval .empty).advance l with
      | none =>
          have hended : (Phase.expression .eval .empty).ended? = none := rfl
          simp [run, step, hmove, settle?, hended] at hall
      | some move =>
          rw [run_cons_of_eq (step_of_advance hmove)] at hall
          rcases Phase.starting_of_advance hmove with ⟨x, rfl⟩ | hstart
          · have hrest : rest ≠ [] := by
              rintro rfl
              cases ls <;> simp at hls
            cases hmove
            have hname : Phase.starting (.name x) = some (.go (.name x) .name) := rfl
            rw [run_cons_of_eq (h.step_starting hname)]
            exact run_of_advance rfl (fun l move => Phase.advance_name) hrest hall
          · rw [run_cons_of_eq (h.step_starting hstart)]
            cases move <;> exact hall

theorem run_parametersNext (f : String) (before xs : List String) (follow : Follow) :
    (⟨blocks, done, .parametersNext f before, follow⟩ : Machine).run
      (afterCommas .name xs ++ [.mark .closeParen]) =
      some ⟨blocks, done, .parametersEnd f (before.reverse ++ xs), .only [.mark .openBrace]⟩ := by
  induction xs generalizing before follow with
  | nil => simp [afterCommas, run, step, Phase.advance, apply, Phase.wantMark]
  | cons x xs ih =>
      have hsteps : (⟨blocks, done, .parametersNext f before, follow⟩ : Machine).run
          (afterCommas .name (x :: xs) ++ [.mark .closeParen]) =
          (⟨blocks, done, .parametersNext f (x :: before), .name⟩ : Machine).run
            (afterCommas .name xs ++ [.mark .closeParen]) := rfl
      rw [hsteps, ih]
      simp

theorem run_parameters (f : String) (xs : List String) (follow : Follow) :
    (⟨blocks, done, .defineName f, follow⟩ : Machine).run (grouped (parameterWords xs)) =
      some ⟨blocks, done, .parametersEnd f xs, .only [.mark .openBrace]⟩ := by
  cases xs with
  | nil => rfl
  | cons x xs =>
      have hsteps : (⟨blocks, done, .defineName f, follow⟩ : Machine).run
          (grouped (parameterWords (x :: xs))) =
          (⟨blocks, done, .parametersNext f [x], .name⟩ : Machine).run
            (afterCommas .name xs ++ [.mark .closeParen]) := rfl
      rw [hsteps, run_parametersNext]
      rfl

/-- A body in braces, from the brace that opens it. -/
theorem run_braced {ss : List Stmt} {ls : List Lexeme}
    (h : ∀ m blocks done, Between m blocks done →
      ∃ n, m.run ls = some n ∧ n.Between blocks (ss.reverse ++ done))
    {phase : Phase} {header : Header}
    (hopen : phase.advance (.mark .openBrace) = some (.enter header)) (follow : Follow) :
    (⟨blocks, done, phase, follow⟩ : Machine).run (braced ls) =
      (⟨⟨header, done⟩ :: blocks, ss.reverse, .start, .statement⟩ : Machine).close? := by
  obtain ⟨n, hrun, hn⟩ := h ⟨⟨header, done⟩ :: blocks, [], .start, .statement⟩ _ []
    (between_start _ _ _)
  rw [braced, run_cons_of_eq (step_of_advance hopen)]
  rw [List.append_nil] at hn
  rw [apply, run_append_of_eq hrun, run, hn.step_closeBrace]
  cases header <;> rfl

/-- A condition in parentheses. -/
theorem run_grouped {e : Logic} {ls : List Lexeme} (h : Spells (.disjunction e) ls)
    (blocks : List Block) (done : List Stmt) (clause : Clause) (follow : Follow) :
    (⟨blocks, done, .clauseHead clause, follow⟩ : Machine).run (grouped ls) =
      some ⟨blocks, done, .clauseEnd clause e, .only [.mark .openBrace]⟩ := by
  obtain ⟨phase, follow', hrun, hphase⟩ :=
    run_logic h blocks done (.condition clause) (.operand true)
  have hopen : (Phase.clauseHead clause).advance (.mark .openParen) =
      some (.go (.expression (.condition clause) .empty) (.operand true)) := rfl
  have hclose : phase.advance (.mark .closeParen) =
      some (.go (.clauseEnd clause e) (.only [.mark .openBrace])) :=
    Phase.advance_stop hphase (.inr (.inr rfl))
  rw [grouped, run_cons_of_eq (step_of_advance hopen), apply, run_append_of_eq hrun,
    run_cons_of_eq (step_of_advance hclose)]
  rfl

end Machine

namespace Phrase

open Machine

/-- What the words of a statement, a body or the further branches of a conditional add to
the statements that are done. -/
def Builds : Phrase → List Lexeme → Prop
  | statement s, ls => ∀ m blocks done, Between m blocks done →
      ∃ n, m.run ls = some n ∧ n.Between blocks (s :: done)
  | body ss, ls => ∀ m blocks done, Between m blocks done →
      ∃ n, m.run ls = some n ∧ n.Between blocks (ss.reverse ++ done)
  | alternatives bs, ls => ∀ blocks done b follow, ∃ follow',
      (⟨blocks, done, .branches b, follow⟩ : Machine).run ls =
        some ⟨blocks, done, .branches ⟨b.condition, b.body, bs.reverse ++ b.alternatives⟩, follow'⟩
  | otherwise os, ls => ∀ blocks done b follow, ∃ n,
      (⟨blocks, done, .branches b, follow⟩ : Machine).run ls = some n ∧
        n.Between blocks (b.toStmt os :: done)
  | _, _ => True

/-- A statement from its first word, which fixes its kind, to the place where it has ended
or may end. -/
theorem builds_of_run {s : Stmt} {l : Lexeme} {ls : List Lexeme} {phase : Phase} {follow : Follow}
    (hl : Phase.starting l = some (.go phase follow))
    (h : ∀ blocks done, ∃ n, (⟨blocks, done, phase, follow⟩ : Machine).run ls = some n ∧
      n.Between blocks (s :: done)) :
    (statement s).Builds (l :: ls) := by
  intro m blocks done hm
  obtain ⟨n, hrun, hn⟩ := h blocks done
  exact ⟨n, by rw [run_cons_of_eq (hm.step_starting hl)]; exact hrun, hn⟩

theorem builds_played (what : Playing) {ls : List Lexeme} {l : Lexeme} {phase : Phase}
    {follow : Follow} (hl : Phase.starting l = some (.go phase follow))
    (h : ∀ blocks done, ∃ follow', (⟨blocks, done, phase, follow⟩ : Machine).run ls =
      some ⟨blocks, done, .played what, follow'⟩) (duration : Option Numeral) :
    (statement (what.toStmt duration)).Builds (l :: (ls ++ durationWords duration)) := by
  refine builds_of_run hl fun blocks done => ?_
  obtain ⟨follow', hrun⟩ := h blocks done
  rw [run_append_of_eq hrun]
  cases duration with
  | none => exact ⟨_, rfl, [what.toStmt none], rfl, rfl, rfl⟩
  | some n => exact ⟨_, rfl, between_start _ _ _⟩

theorem builds_note (pitch : Pitch) (duration : Option Numeral) :
    (statement (.note pitch duration)).Builds
      (.keyword .note :: (pitch.words ++ durationWords duration)) := by
  refine builds_played (.note pitch) rfl (fun blocks done => ?_) duration
  cases pitch with
  | single p => exact ⟨_, rfl⟩
  | several notes =>
      have hopen : Phase.noteHead.advance (.mark .openBracket) =
          some (Phase.openNotes .noteArray) := rfl
      exact ⟨_, run_notes hopen notes⟩

theorem builds_chord (notes : Notes) (duration : Option Numeral) :
    (statement (.chord notes duration)).Builds
      (.keyword .chord :: (notes.words ++ durationWords duration)) := by
  refine builds_played (.chord notes) rfl (fun blocks done => ?_) duration
  have hopen : Phase.chordHead.advance (.mark .openBracket) =
      some (Phase.openNotes .chord) := rfl
  exact ⟨_, run_notes hopen notes⟩

/-- Rests and assignments end where their expression may end. -/
theorem between_of_ends {goal : Goal} {e : Expr} {phase : Phase} {s : Stmt}
    (h : phase.Ends goal e) (hs : Phase.goalEnd? goal e = some s) (blocks : List Block)
    (done : List Stmt) (follow : Follow) :
    (⟨blocks, done, phase, follow⟩ : Machine).Between blocks (s :: done) :=
  ⟨[s], Phase.ended?_of_ends h hs, rfl, rfl⟩

theorem builds_rest {e : Expr} {ls : List Lexeme} (h : Spells (.expression e) ls) :
    (statement (.rest e)).Builds (.keyword .rest :: ls) := by
  refine builds_of_run rfl fun blocks done => ?_
  obtain ⟨phase, follow', hrun, hphase⟩ := run_expression h blocks done .rest rfl .expression
  exact ⟨_, hrun, between_of_ends hphase rfl blocks done follow'⟩

theorem builds_assign {x : String} {e : Expr} {ls : List Lexeme} (h : Spells (.expression e) ls) :
    (statement (.assign x e)).Builds (.name x :: .mark .equals :: ls) := by
  refine builds_of_run rfl fun blocks done => ?_
  obtain ⟨phase, follow', hrun, hphase⟩ := run_expression h blocks done (.assign x) rfl .expression
  exact ⟨_, hrun, between_of_ends hphase rfl blocks done follow'⟩

theorem builds_loop {n : Numeral} {ss : List Stmt} {ls : List Lexeme} (h : (body ss).Builds ls) :
    (statement (.loop n ss)).Builds (.keyword .loop :: .numeral n :: braced ls) := by
  refine builds_of_run rfl fun blocks done => ?_
  have hhead : Phase.loopHead.advance (.numeral n) = some (.go (.loopCount n) .numeral) := rfl
  rw [run_cons_of_eq (step_of_advance hhead), apply, run_braced h rfl, close?]
  exact ⟨_, rfl, by simpa using between_start _ _ _⟩

theorem builds_whileLoop {e : Logic} {ss : List Stmt} {le ls : List Lexeme}
    (he : Spells (.disjunction e) le) (h : (body ss).Builds ls) :
    (statement (.whileLoop e ss)).Builds (.keyword .whileLoop :: (grouped le ++ braced ls)) := by
  refine builds_of_run rfl fun blocks done => ?_
  rw [run_append_of_eq (run_grouped he blocks done .whileLoop _), run_braced h rfl, close?]
  exact ⟨_, rfl, by simpa using between_start _ _ _⟩

theorem builds_forLoop {x : String} {a b : Numeral} {ss : List Stmt} {ls : List Lexeme}
    (h : (body ss).Builds ls) :
    (statement (.forLoop x a b ss)).Builds (.keyword .forLoop ::
      (grouped [.name x, .mark .comma, .numeral a, .mark .colon, .numeral b] ++ braced ls)) := by
  refine builds_of_run rfl fun blocks done => ?_
  have hhead : (⟨blocks, done, .forHead, .only [.mark .openParen]⟩ : Machine).run
      (grouped [.name x, .mark .comma, .numeral a, .mark .colon, .numeral b]) =
      some ⟨blocks, done, .forEnd x a b, .only [.mark .openBrace]⟩ := rfl
  rw [Phase.wantMark, run_append_of_eq hhead, run_braced h rfl, close?]
  exact ⟨_, rfl, by simpa using between_start _ _ _⟩

theorem builds_define {f : String} {xs : List String} {ss : List Stmt} {ls : List Lexeme}
    (h : (body ss).Builds ls) :
    (statement (.define f xs ss)).Builds
      (.keyword .define :: .name f :: (grouped (parameterWords xs) ++ braced ls)) := by
  refine builds_of_run rfl fun blocks done => ?_
  have hhead : Phase.defineHead.advance (.name f) = some (.go (.defineName f) .name) := rfl
  rw [run_cons_of_eq (step_of_advance hhead), apply, run_append_of_eq (run_parameters f xs _),
    run_braced h rfl, close?]
  exact ⟨_, rfl, by simpa using between_start _ _ _⟩

theorem builds_alternative {e : Logic} {ss : List Stmt} {bs : List (Logic × List Stmt)}
    {le ls lb : List Lexeme} (he : Spells (.disjunction e) le) (h : (body ss).Builds ls)
    (hb : (alternatives bs).Builds lb) :
    (alternatives ((e, ss) :: bs)).Builds
      (.keyword .alternative :: (grouped le ++ braced ls ++ lb)) := by
  intro blocks done b follow
  have hhead : (Phase.branches b).advance (.keyword .alternative) =
      some (.go (.clauseHead (.alternative b)) (.only [.mark .openParen])) := rfl
  obtain ⟨follow', hrun⟩ :=
    hb blocks done ⟨b.condition, b.body, (e, ss) :: b.alternatives⟩ .branch
  refine ⟨follow', ?_⟩
  rw [run_cons_of_eq (step_of_advance hhead), apply, List.append_assoc,
    run_append_of_eq (run_grouped he blocks done (.alternative b) _), run_append,
    run_braced h rfl]
  simpa [close?, Clause.header] using hrun

theorem builds_otherwise {ss : List Stmt} {ls : List Lexeme} (h : (body ss).Builds ls) :
    (otherwise (some ss)).Builds (.keyword .otherwise :: braced ls) := by
  intro blocks done b follow
  have hhead : (Phase.branches b).advance (.keyword .otherwise) =
      some (.go (.otherwiseHead b) (.only [.mark .openBrace])) := rfl
  rw [run_cons_of_eq (step_of_advance hhead), apply, run_braced h rfl, close?]
  exact ⟨_, rfl, by simpa using between_start _ _ _⟩

theorem builds_branch {e : Logic} {ss : List Stmt} {bs : List (Logic × List Stmt)}
    {os : Option (List Stmt)} {le ls lb lo : List Lexeme} (he : Spells (.disjunction e) le)
    (h : (body ss).Builds ls) (hb : (alternatives bs).Builds lb) (ho : (otherwise os).Builds lo) :
    (statement (.branch e ss bs os)).Builds
      (.keyword .branch :: (grouped le ++ braced ls ++ lb ++ lo)) := by
  refine builds_of_run rfl fun blocks done => ?_
  obtain ⟨follow, hrun⟩ := hb blocks done ⟨e, ss, []⟩ .branch
  obtain ⟨n, hrun', hn⟩ := ho blocks done ⟨e, ss, bs.reverse⟩ follow
  refine ⟨n, ?_, by simpa [Branches.toStmt] using hn⟩
  rw [List.append_assoc, List.append_assoc,
    run_append_of_eq (run_grouped he blocks done .branch _), run_append, run_braced h rfl]
  rw [List.append_nil] at hrun
  simpa [close?, Clause.header, run_append_of_eq hrun] using hrun'

end Phrase

theorem Spells.builds {p : Phrase} {ls : List Lexeme} (h : Spells p ls) : p.Builds ls := by
  induction h with
  | note pitch duration => exact Phrase.builds_note pitch duration
  | chord notes duration => exact Phrase.builds_chord notes duration
  | rest h => exact Phrase.builds_rest h
  | tempo n | volume n | instrument x | callNone f =>
      exact Phrase.builds_of_run rfl fun blocks done => ⟨_, rfl, Machine.between_start _ _ _⟩
  | loop _ ih => exact Phrase.builds_loop ih
  | whileLoop he _ _ ih => exact Phrase.builds_whileLoop he ih
  | forLoop _ ih => exact Phrase.builds_forLoop ih
  | branch he _ _ _ _ ih ihb iho => exact Phrase.builds_branch he ih ihb iho
  | define _ ih => exact Phrase.builds_define ih
  | call he hs =>
      exact Phrase.builds_of_run rfl fun blocks done =>
        ⟨_, Machine.run_call he hs .name, Machine.between_start _ _ _⟩
  | assign h => exact Phrase.builds_assign h
  | eval h => exact fun m blocks done hm => ⟨_, hm.run_eval h, Machine.between_start _ _ _⟩
  | noStatement => exact fun m blocks done hm => ⟨m, rfl, hm⟩
  | statement _ _ ih ihs =>
      intro m blocks done hm
      obtain ⟨n, hrun, hn⟩ := ih m blocks done hm
      obtain ⟨k, hrun', hk⟩ := ihs n blocks _ hn
      exact ⟨k, by rw [Machine.run_append_of_eq hrun, hrun'], by simpa using hk⟩
  | noAlternative => exact fun blocks done b follow => ⟨follow, rfl⟩
  | alternative he _ _ _ ih ihb => exact Phrase.builds_alternative he ih ihb
  | noOtherwise => exact fun blocks done b follow => ⟨_, rfl, [b.toStmt none], rfl, rfl, rfl⟩
  | otherwise _ ih => exact Phrase.builds_otherwise ih
  -- operands and expressions build no statement by themselves
  | _ => trivial

/-- Every spelling of a program is read, to its end, as that program. -/
theorem Spells.run_program {p : Program} {ls : List Lexeme} (h : Spells (.body p) ls) :
    ∃ m, Machine.initial.run ls = some m ∧ m.finish? = some p := by
  obtain ⟨m, hrun, hm⟩ := h.builds Machine.initial [] [] (Machine.between_start _ _ _)
  exact ⟨m, hrun, by simpa using hm.finish⟩

end TuneScript
