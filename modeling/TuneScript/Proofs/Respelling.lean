import TuneScript.Grammar.Machine
import TuneScript.Proofs.Branches

/-!
Programs with other notes in the place of theirs. Reading never asks which note it is that a word
spells: with the notes respelled in the words and in what has been read, the machine takes the same
steps, looks for the same words and ends with the program respelled.
-/

namespace TuneScript

def Notes.respell (f : String → String) (notes : Notes) : Notes :=
  ⟨f notes.first, notes.others.map f⟩

def Pitch.respell (f : String → String) : Pitch → Pitch
  | single note => single (f note)
  | several notes => several (notes.respell f)

def Expr.respell (f : String → String) : Expr → Expr
  | logic e => logic e
  | chord notes => chord (notes.respell f)

namespace Stmt

mutual

/-- The statement with each of its notes as `f` spells it. -/
def respell (f : String → String) : Stmt → Stmt
  | note pitch duration => note (pitch.respell f) duration
  | chord notes duration => chord (notes.respell f) duration
  | rest length => rest (length.respell f)
  | tempo bpm => tempo bpm
  | volume level => volume level
  | instrument name => instrument name
  | loop count body => loop count (respellBody f body)
  | whileLoop condition body => whileLoop condition (respellBody f body)
  | forLoop counter start stop body => forLoop counter start stop (respellBody f body)
  | branch condition body alternatives otherwise =>
    branch condition (respellBody f body) (respellAlternatives f alternatives)
      (respellOtherwise f otherwise)
  | define name parameters body => define name parameters (respellBody f body)
  | call name arguments => call name (arguments.map (Expr.respell f))
  | assign name value => assign name (value.respell f)
  | eval e => eval (e.respell f)

def respellBody (f : String → String) : List Stmt → List Stmt
  | [] => []
  | s :: more => s.respell f :: respellBody f more

def respellAlternatives (f : String → String) : List (Logic × List Stmt) → List (Logic × List Stmt)
  | [] => []
  | (condition, body) :: more => (condition, respellBody f body) :: respellAlternatives f more

def respellOtherwise (f : String → String) : Option (List Stmt) → Option (List Stmt)
  | none => none
  | some body => some (respellBody f body)

end

@[simp]
theorem respellBody_eq_map (f : String → String) (body : List Stmt) :
    respellBody f body = body.map (respell f) := by
  induction body with
  | nil => rfl
  | cons s more ih => rw [respellBody, ih, List.map_cons]

@[simp]
theorem respellAlternatives_eq_map (f : String → String)
    (alternatives : List (Logic × List Stmt)) : respellAlternatives f alternatives =
      alternatives.map fun alternative => (alternative.1, alternative.2.map (respell f)) := by
  induction alternatives with
  | nil => rfl
  | cons alternative more ih =>
      rw [respellAlternatives, ih, respellBody_eq_map, List.map_cons]

@[simp]
theorem respellOtherwise_eq_map (f : String → String) (otherwise : Option (List Stmt)) :
    respellOtherwise f otherwise = otherwise.map (List.map (respell f)) := by
  cases otherwise with
  | none => rfl
  | some body => rw [respellOtherwise, respellBody_eq_map, Option.map_some]

/-- Respelling leaves the order in which bodies stand in a statement. -/
theorem bodies_respell (f : String → String) (s : Stmt) :
    (s.respell f).bodies = s.bodies.map (List.map (respell f)) := by
  cases s with
  | branch condition body alternatives otherwise =>
      cases otherwise <;> simp [respell, bodies, Function.comp_def]
  | _ => simp [respell, bodies]

end Stmt

def Program.respell (f : String → String) (p : Program) : Program := p.map (Stmt.respell f)

def Lexeme.respell (f : String → String) : Lexeme → Lexeme
  | note pitch => note (f pitch)
  | l => l

def Branches.respell (f : String → String) (b : Branches) : Branches :=
  ⟨b.condition, b.body.map (Stmt.respell f),
    b.alternatives.map fun alternative => (alternative.1, alternative.2.map (Stmt.respell f))⟩

def Header.respell (f : String → String) : Header → Header
  | alternative before condition => alternative (before.respell f) condition
  | otherwise before => otherwise (before.respell f)
  | header => header

def Clause.respell (f : String → String) : Clause → Clause
  | alternative before => alternative (before.respell f)
  | clause => clause

def Goal.respell (f : String → String) : Goal → Goal
  | argument function before => argument function (before.map (Expr.respell f))
  | condition clause => condition (clause.respell f)
  | goal => goal

def Bracket.respell (f : String → String) : Bracket → Bracket
  | expression goal => expression (goal.respell f)
  | bracket => bracket

def Playing.respell (f : String → String) : Playing → Playing
  | note pitch => note (pitch.respell f)
  | chord notes => chord (notes.respell f)

def Phase.respell (f : String → String) : Phase → Phase
  | notesOpen bracket => notesOpen (bracket.respell f)
  | notesNext bracket first others => notesNext (bracket.respell f) (f first) (others.map f)
  | notesComma bracket first others => notesComma (bracket.respell f) (f first) (others.map f)
  | played what => played (what.respell f)
  | duration what => duration (what.respell f)
  | clauseHead clause => clauseHead (clause.respell f)
  | clauseEnd clause condition => clauseEnd (clause.respell f) condition
  | branches b => branches (b.respell f)
  | otherwiseHead b => otherwiseHead (b.respell f)
  | expression goal operands => expression (goal.respell f) operands
  | chordExpression goal notes => chordExpression (goal.respell f) (notes.respell f)
  | phase => phase

def Move.respell (f : String → String) : Move → Move
  | go phase follow => go (phase.respell f) follow
  | finish s follow => finish (s.respell f) follow
  | enter header => enter (header.respell f)

def Block.respell (f : String → String) (b : Block) : Block :=
  ⟨b.header.respell f, b.before.map (Stmt.respell f)⟩

def Machine.respell (f : String → String) (m : Machine) : Machine :=
  ⟨m.blocks.map (Block.respell f), m.done.map (Stmt.respell f), m.phase.respell f, m.follow⟩

/-- Words that are no notes stay as they are. -/
theorem Lexeme.respell_of_terminal {f : String → String} {l : Lexeme} (h : l.terminal ≠ .note) :
    l.respell f = l := by
  cases l with
  | note pitch => exact absurd rfl h
  | _ => rfl

theorem Branches.toStmt_respell (f : String → String) (b : Branches)
    (otherwise : Option (List Stmt)) :
    (b.respell f).toStmt (otherwise.map (List.map (Stmt.respell f))) =
      (b.toStmt otherwise).respell f := by
  simp [toStmt, respell, Stmt.respell, List.map_reverse]

theorem Playing.toStmt_respell (f : String → String) (what : Playing)
    (duration : Option Numeral) :
    (what.respell f).toStmt duration = (what.toStmt duration).respell f := by
  cases what <;> simp [toStmt, respell, Stmt.respell]

theorem Clause.header_respell (f : String → String) (clause : Clause) (e : Logic) :
    (clause.respell f).header e = (clause.header e).respell f := by
  cases clause <;> rfl

theorem Operands.step_note (s : Operands) (pitch : String) : s.step (.note pitch) = none := by
  cases s <;> rfl

namespace Phase

variable (f : String → String)

theorem admitsChord_respell (goal : Goal) (s : Operands) :
    admitsChord (goal.respell f) s = admitsChord goal s := by
  cases goal <;> rfl

theorem closeNotes_respell (notes : Notes) (bracket : Bracket) :
    closeNotes (notes.respell f) (bracket.respell f) = (closeNotes notes bracket).respell f := by
  cases bracket <;> rfl

theorem expressionEnd_note (goal : Goal) (e : Expr) (pitch : String) :
    expressionEnd goal e (.note pitch) = none := by
  cases goal <;> rfl

theorem expressionEnd_respell (goal : Goal) (e : Expr) (l : Lexeme) :
    expressionEnd (goal.respell f) (e.respell f) (l.respell f) =
      (expressionEnd goal e l).map (Move.respell f) := by
  cases l with
  | mark mark =>
      cases goal with
      | argument function before =>
          cases mark with
          | closeParen =>
              simp [expressionEnd, Lexeme.respell, Goal.respell, Move.respell, Stmt.respell,
                List.map_reverse]
          | _ => rfl
      | condition clause =>
          cases mark with
          | closeParen => cases e <;> rfl
          | _ => rfl
      | eval =>
          cases mark with
          | semicolon =>
              simp [expressionEnd, Lexeme.respell, Goal.respell, Move.respell, Stmt.respell]
          | _ => rfl
      | rest | assign _ => rfl
  | _ => cases goal <;> rfl

theorem expressionStep_respell (goal : Goal) (s : Operands) (l : Lexeme) :
    expressionStep (goal.respell f) s (l.respell f) =
      (expressionStep goal s l).map (Move.respell f) := by
  by_cases hl : l.terminal = .note
  · cases l with
    | note pitch =>
        have hend (goal : Goal) (pitch : String) : expressionStep goal s (.note pitch) = none := by
          rw [expressionStep, Operands.step_note]
          cases hs : s.finish? with
          | none => rfl
          | some e => exact expressionEnd_note goal (.logic e) pitch
        rw [Lexeme.respell, hend, hend]
        rfl
    | _ => cases hl
  · rw [Lexeme.respell_of_terminal hl, expressionStep, expressionStep]
    cases s.step l with
    | some next => rfl
    | none =>
        cases s.finish? with
        | none => rfl
        | some e =>
            have hend := expressionEnd_respell f goal (.logic e) l
            rw [Lexeme.respell_of_terminal hl] at hend
            exact hend

theorem expressionStart_respell (goal : Goal) (l : Lexeme) :
    expressionStart (goal.respell f) (l.respell f) =
      (expressionStart goal l).map (Move.respell f) := by
  by_cases hl : l.terminal = .note
  · cases l with
    | note pitch => rfl
    | _ => cases hl
  · rw [Lexeme.respell_of_terminal hl]
    unfold expressionStart
    split
    · rfl
    · cases Operands.empty.step l <;> rfl

/-- The first word of a statement is never a note. -/
theorem starting_respell (l : Lexeme) :
    starting (l.respell f) = (starting l).map (Move.respell f) := by
  have hstart := expressionStart_respell f .eval l
  cases l with
  | keyword k =>
      cases k with
      | or | and | not | alternative | otherwise => exact hstart
      | _ => rfl
  | note _ | numeral _ | mark _ => exact hstart
  | name x => rfl

theorem goalEnd?_respell (goal : Goal) (e : Expr) :
    goalEnd? (goal.respell f) (e.respell f) = (goalEnd? goal e).map (Stmt.respell f) := by
  cases goal <;> simp [goalEnd?, Goal.respell, Stmt.respell]

theorem ended?_respell (phase : Phase) :
    (phase.respell f).ended? = phase.ended?.map (List.map (Stmt.respell f)) := by
  cases phase with
  | played what => simp [respell, ended?, Playing.toStmt_respell]
  | branches b => simp [respell, ended?, ← Branches.toStmt_respell]
  | chordExpression goal notes =>
      have hend := goalEnd?_respell f goal (.chord notes)
      rw [Expr.respell] at hend
      simp only [respell, ended?, hend]
      cases goalEnd? goal (.chord notes) <;> rfl
  | expression goal s =>
      simp only [respell, ended?]
      cases s.finish? with
      | none => rfl
      | some e =>
          have hend := goalEnd?_respell f goal (.logic e)
          rw [Expr.respell] at hend
          rw [Option.bind_some, Option.bind_some, hend]
          cases goalEnd? goal (.logic e) <;> rfl
  | _ => rfl

/-- What a word does is the same for respelled notes. The phases are gone through one by one; what
they have in common is that none tells one note from another. -/
theorem advance_respell (phase : Phase) (l : Lexeme) :
    (phase.respell f).advance (l.respell f) = (phase.advance l).map (Move.respell f) := by
  cases phase with
  | name x =>
      have hstep := expressionStep_respell f .eval (Operands.ofArith (.name x)) l
      cases l with
      | mark mark => cases mark <;> rfl
      | _ => exact hstep
  | argumentsOpen function =>
      have hstart := expressionStart_respell f (.argument function []) l
      cases l with
      | mark mark => cases mark <;> rfl
      | _ => exact hstart
  | expression goal s =>
      have hstep := expressionStep_respell f goal s l
      cases l with
      | mark mark =>
          cases mark with
          | openBracket =>
              simp only [respell, advance, Lexeme.respell, admitsChord_respell]
              split
              · rfl
              · exact hstep
          | _ => exact hstep
      | _ => exact hstep
  | chordExpression goal notes => exact expressionEnd_respell f goal (.chord notes) l
  | notesNext bracket first others =>
      cases l with
      | mark mark =>
          cases mark with
          | closeBracket =>
              simp only [respell, advance, Lexeme.respell, Option.map_some, ← closeNotes_respell]
              rw [Notes.respell, List.map_reverse]
          | _ => rfl
      | _ => rfl
  | duration what =>
      cases l with
      | numeral n => simp [respell, advance, Lexeme.respell, Move.respell, Playing.toStmt_respell]
      | _ => rfl
  | clauseEnd clause e =>
      cases l with
      | mark mark =>
          cases mark with
          | openBrace =>
              simp [respell, advance, Lexeme.respell, Move.respell, Clause.header_respell]
          | _ => rfl
      | _ => rfl
  | branches b =>
      cases l with
      | keyword k => cases k <;> rfl
      | _ => rfl
  | _ =>
      cases l with
      | mark mark => cases mark <;> rfl
      | _ => rfl

end Phase

namespace Machine

variable (f : String → String)

theorem apply_respell (m : Machine) (move : Move) :
    (m.respell f).apply (move.respell f) = (m.apply move).respell f := by
  cases move <;> simp [apply, respell, Move.respell, Block.respell, Phase.respell]

theorem close?_respell (m : Machine) :
    (m.respell f).close? = m.close?.map (respell f) := by
  obtain ⟨blocks, done, phase, follow⟩ := m
  cases blocks with
  | nil => rfl
  | cons block blocks =>
      obtain ⟨header, before⟩ := block
      cases header with
      | otherwise b =>
          have hstmt := Branches.toStmt_respell f b (some done.reverse)
          rw [Option.map_some, List.map_reverse] at hstmt
          simp [respell, close?, Block.respell, Header.respell, Phase.respell, hstmt]
      | _ =>
          simp [respell, close?, Block.respell, Header.respell, Phase.respell, Stmt.respell,
            Branches.respell, List.map_reverse]

theorem settle?_respell (m : Machine) :
    (m.respell f).settle? = m.settle?.map (respell f) := by
  obtain ⟨blocks, done, phase, follow⟩ := m
  simp only [respell, settle?, Phase.ended?_respell]
  cases phase.ended? with
  | none => rfl
  | some ended => simp [respell, Phase.respell]

/-- One step on respelled words. -/
theorem step_respell (m : Machine) (l : Lexeme) :
    (m.respell f).step (l.respell f) = (m.step l).map (respell f) := by
  have hadvance : (m.respell f).phase.advance (l.respell f) =
      (m.phase.advance l).map (Move.respell f) := Phase.advance_respell f m.phase l
  rw [step, step, hadvance, settle?_respell, Phase.starting_respell]
  cases m.phase.advance l with
  | some move => exact congrArg some (apply_respell f m move)
  | none =>
      cases m.settle? with
      | none => rfl
      | some n =>
          cases Phase.starting l with
          | some move => exact congrArg some (apply_respell f n move)
          | none =>
              have hbrace : l.respell f = .mark .closeBrace ↔ l = .mark .closeBrace := by
                cases l <;> simp [Lexeme.respell]
              by_cases hl : l = .mark .closeBrace
              · simp only [Option.map_some, Option.map_none, if_pos (hbrace.2 hl), if_pos hl]
                exact close?_respell f n
              · simp only [Option.map_some, Option.map_none, if_neg (mt hbrace.1 hl), if_neg hl]

/-- The end of respelled words. -/
theorem finish?_respell (m : Machine) :
    (m.respell f).finish? = m.finish?.map (Program.respell f) := by
  rw [finish?, finish?, settle?_respell]
  cases m.settle? with
  | none => rfl
  | some n =>
      obtain ⟨blocks, done, phase, follow⟩ := n
      cases blocks with
      | nil => simp [respell, Program.respell, List.map_reverse]
      | cons block blocks => rfl

end Machine
end TuneScript
