import TuneScript.Proofs.Statements

/-!
What is looked for after a word covers everything that the machine takes next. The sets
are wider than that, so the other direction does not hold; but where a note is taken no
name is looked for, since every note that holds no `#` also spells a name.
-/

namespace TuneScript

namespace Follow

theorem admits_iff {dialect : Dialect} {f : Follow} {t : Terminal} :
    f.admits dialect t = true ↔ known dialect t = true ∧ t ∈ f.terminals := by
  cases t <;> simp [admits, known]

/-- Words of this class are looked for, and where they are notes names are not. -/
def Covers (f : Follow) (t : Terminal) : Prop :=
  t ∈ f.terminals ∧ (t = .note → .name ∉ f.terminals)

instance (f : Follow) (t : Terminal) : Decidable (f.Covers t) := inferInstanceAs (Decidable (_ ∧ _))

/-- What is looked for where a statement may start or a body end. -/
def isOpen : Follow → Bool
  | statement | branch | noteArray | chord | note | name | numeral | arithGroup | logicGroup => true
  | _ => false

theorem mem_of_isOpen {f : Follow} {t : Terminal} (h : f.isOpen = true)
    (ht : t ∈ statementStarts) : t ∈ f.terminals := by
  cases f <;> simp_all [isOpen, terminals, afterOperand]

end Follow

namespace Operands

/-- What may be looked for while an expression is read for a goal. -/
def Expects (goal : Goal) : Operands → Follow → Prop
  | awaiting g outer, f =>
      (Phase.admitsChord goal (awaiting g outer) = true → f = .expression) ∧
        (f = .expression ∨ f = .operand true ∨
          f = .operand false ∧ (g.admitsLogic && g.pending.isNone) = false)
  | arith _ _ _, f => f = .name ∨ f = .numeral ∨ f = .arithGroup
  | logic _ _ _, f => f = .logicGroup

theorem not_admitsChord {goal : Goal} {s : Operands} (h : s ≠ empty) :
    Phase.admitsChord goal s = false := by
  simp [Phase.admitsChord, h]

/-- An operand that must follow a sign, where no chord may stand. -/
theorem expects_awaiting (goal : Goal) {g : Group} {outer : List Group} (logical : Bool)
    (hs : awaiting g outer ≠ empty)
    (hg : logical = false → (g.admitsLogic && g.pending.isNone) = false) :
    (awaiting g outer).Expects goal (.operand logical) := by
  refine ⟨fun h => ?_, ?_⟩
  · rw [not_admitsChord hs] at h
    cases h
  · cases logical with
    | true => exact .inr (.inl rfl)
    | false => exact .inr (.inr ⟨rfl, hg rfl⟩)

theorem covers_awaiting {goal : Goal} {g : Group} {outer : List Group} {f : Follow} {t : Terminal}
    (hf : (awaiting g outer).Expects goal f) (ht : t ∈ Follow.operandStarts) : f.Covers t := by
  refine ⟨?_, fun hn => ?_⟩
  · rcases hf.2 with rfl | rfl | ⟨rfl, -⟩ <;>
      simp [Follow.terminals, Follow.expressionStarts, ht]
  · simp [Follow.operandStarts, hn] at ht

theorem covers_operand {goal : Goal} {s : Operands} {f : Follow} {t : Terminal}
    (hf : s.Expects goal f) (hs : (s.current?).isSome = true) (ht : t ∈ Follow.afterOperand)
    (hn : t ≠ .note) : f.Covers t := by
  refine ⟨?_, fun h => absurd h hn⟩
  cases s with
  | awaiting _ _ => cases hs
  | arith _ _ _ => rcases hf with rfl | rfl | rfl <;> simp [Follow.terminals, ht]
  | logic _ _ _ =>
      cases hf
      exact ht

theorem covers_sign {goal : Goal} {g : Group} {outer : List Group} {a : Arith} {f : Follow}
    {t : Terminal} (hf : (arith g outer a).Expects goal f)
    (ht : t ∈ Follow.relations ++ Follow.operators) : f.Covers t := by
  refine ⟨?_, fun hn => ?_⟩
  · rcases List.mem_append.1 ht with ht | ht <;>
      rcases hf with rfl | rfl | rfl <;> simp [Follow.terminals, ht]
  · simp [hn, Follow.relations, Follow.operators] at ht

theorem step_connective_expects {goal : Goal} {s : Operands} {f : Follow} {g : Group}
    {outer : List Group} {e : Logic} {c : Connective} {u : Operands × Follow}
    (hf : s.Expects goal f) (hs : s.current? = some (g, outer, e))
    (hu : afterConnective g outer e c = some u) :
    f.Covers (.keyword c.keyword) ∧ u.1.Expects goal u.2 := by
  rw [afterConnective] at hu
  split at hu
  · cases hu
    refine ⟨covers_operand hf (by rw [hs]; rfl) ?_ (by simp), ?_⟩
    · cases c <;> decide
    · refine expects_awaiting goal true ?_ (fun h => by cases h)
      cases c <;> simp [connect, empty, outermost]
  · cases hu

theorem step_closeGroup_expects {goal : Goal} {s : Operands} {f : Follow} {u : Operands × Follow}
    (hf : s.Expects goal f) (hu : closeGroup s = some u) :
    f.Covers (.mark .closeParen) ∧ u.1.Expects goal u.2 := by
  have hclose : Terminal.mark .closeParen ∈ Follow.afterOperand := by decide
  unfold closeGroup at hu
  split at hu
  · refine ⟨covers_operand hf rfl hclose (by decide), ?_⟩
    split at hu
    · cases hu
      exact .inr (.inr rfl)
    · cases hu
      rfl
  · cases hu
    exact ⟨covers_operand hf rfl hclose (by decide), rfl⟩
  · cases hu

theorem step_expects {goal : Goal} {s : Operands} {f : Follow} {l : Lexeme} {u : Operands × Follow}
    (hf : s.Expects goal f) (hu : s.step l = some u) :
    f.Covers l.terminal ∧ u.1.Expects goal u.2 := by
  unfold step at hu
  split at hu
  case h_1 =>
    cases hu
    exact ⟨covers_awaiting hf (by simp only [Lexeme.terminal]; decide), .inl rfl⟩
  case h_2 =>
    cases hu
    exact ⟨covers_awaiting hf (by simp only [Lexeme.terminal]; decide), .inr (.inl rfl)⟩
  case h_3 g outer =>
    cases hu
    refine ⟨covers_awaiting hf (by simp only [Lexeme.terminal]; decide), ?_⟩
    refine expects_awaiting goal _ (by simp [empty]) fun h => ?_
    rw [h]
    rfl
  case h_4 g outer =>
    split at hu
    · next hg =>
      cases hu
      refine ⟨⟨?_, fun h => by cases h⟩, expects_awaiting goal _ (by simp [empty, outermost]) ?_⟩
      · rcases hf.2 with rfl | rfl | ⟨rfl, hlogic⟩
        · simp [Lexeme.terminal, Follow.terminals, Follow.expressionStarts]
        · simp [Lexeme.terminal, Follow.terminals]
        · rw [hlogic] at hg
          cases hg
      · simp
    · cases hu
  case h_5 g outer a o =>
    cases hu
    refine ⟨covers_sign hf (by cases o <;> simp [Lexeme.terminal, Follow.operators]), ?_⟩
    cases o <;>
      exact expects_awaiting goal false (by simp [empty, outermost]) (by simp [Group.admitsLogic])
  case h_6 g outer a r =>
    split at hu
    · cases hu
      refine ⟨covers_sign hf (by cases r <;> simp [Lexeme.terminal, Follow.relations]), ?_⟩
      exact expects_awaiting goal false (by simp [empty, outermost]) (by simp [Group.admitsLogic])
    · cases hu
  case h_7 => exact step_connective_expects hf rfl hu
  case h_8 => exact step_connective_expects hf rfl hu
  case h_9 => exact step_connective_expects hf rfl hu
  case h_10 => exact step_connective_expects hf rfl hu
  case h_11 => exact step_closeGroup_expects hf hu
  case h_12 => cases hu

end Operands

namespace Phase

/-- What is looked for while the statement at hand has come so far. -/
def Expects : Phase → Follow → Prop
  | start, f => f = .statement ∨ f = .numeral
  | noteHead, f => f = .only [.note, .mark .openBracket]
  | notesOpen _, f | notesComma _ _ _, f => f = wantNote
  | notesNext _ _ _, f | played (.note (.single _)), f => f = .note
  | played (.note (.several _)), f => f = .noteArray
  | played (.chord _), f | chordExpression _ _, f => f = .chord
  | duration _, f | tempo, f | volume, f | loopHead, f | forComma _, f | forColon _ _, f =>
      f = wantNumeral
  | chordHead, f => f = wantMark .openBracket
  | instrument, f => f = wantMark .equals
  | instrumentName, f | forOpen, f | defineHead, f | parametersComma _ _, f => f = wantName
  | loopCount _, f | forStart _ _, f | forStop _ _ _, f => f = .numeral
  | clauseHead _, f | forHead, f => f = wantMark .openParen
  | clauseEnd _ _, f | forEnd _ _ _, f | parametersEnd _ _, f | otherwiseHead _, f =>
      f = wantMark .openBrace
  | forName _, f | defineName _, f | parametersNext _ _, f | name _, f => f = .name
  | parametersOpen _, f => f = .only [.name, .mark .closeParen]
  | branches _, f => f = .branch
  | argumentsOpen _, f => f = .arguments
  | expression goal s, f => s.Expects goal f

end Phase

/-- What is looked for after a move is right for what the move leads to. -/
def Move.Expects : Move → Prop
  | go phase follow => phase.Expects follow
  | finish _ follow => follow = .statement ∨ follow = .numeral
  | enter _ => True

namespace Phase

variable {goal : Goal} {s : Operands} {e : Expr} {l : Lexeme} {move : Move} {phase : Phase}
  {f : Follow}

theorem expects_empty (goal : Goal) : (Operands.empty).Expects goal .expression :=
  ⟨fun _ => rfl, .inl rfl⟩

theorem expectsChord {what : Playing} (hf : (played what).Expects f) :
    f = .note ∨ f = .noteArray ∨ f = .chord := by
  rcases what with (_ | _) | _ <;> simp_all [Expects]

theorem expressionEnd_expects (h : expressionEnd goal e l = some move) :
    l.terminal ∈ [.mark .semicolon, .mark .comma, .mark .closeParen] ∧ move.Expects := by
  unfold expressionEnd at h
  split at h
  · cases h
    exact ⟨by simp [Lexeme.terminal], .inl rfl⟩
  · cases h
    exact ⟨by simp [Lexeme.terminal], expects_empty _⟩
  · cases h
    exact ⟨by simp [Lexeme.terminal], .inl rfl⟩
  · cases h
    exact ⟨by simp [Lexeme.terminal], rfl⟩
  · cases h

theorem expressionStep_expects (hf : s.Expects goal f) (h : expressionStep goal s l = some move) :
    f.Covers l.terminal ∧ move.Expects := by
  unfold expressionStep at h
  split at h
  · next t follow ht =>
    cases h
    exact Operands.step_expects hf ht
  · obtain ⟨c, hc, hmove⟩ := Option.bind_eq_some_iff.1 h
    obtain ⟨hl, hm⟩ := expressionEnd_expects hmove
    refine ⟨Operands.covers_operand hf ?_ ?_ ?_, hm⟩
    · unfold Operands.finish? at hc
      split at hc <;> first | rfl | cases hc
    · simp only [List.mem_cons, List.not_mem_nil, or_false] at hl
      rcases hl with hl | hl | hl <;> simp [hl, Follow.afterOperand]
    · intro hn
      simp [hn] at hl

theorem expressionStart_expects (h : expressionStart goal l = some move) :
    l.terminal ∈ Follow.expressionStarts ∧ l.terminal ≠ .note ∧ move.Expects := by
  unfold expressionStart at h
  split at h
  · cases h
    exact ⟨by simp [Lexeme.terminal, Follow.expressionStarts], by simp [Lexeme.terminal], rfl⟩
  · obtain ⟨⟨t, follow⟩, ht, rfl⟩ := Option.map_eq_some_iff.1 h
    obtain ⟨⟨hl, hn⟩, hm⟩ := Operands.step_expects (expects_empty goal) ht
    refine ⟨hl, fun h => hn h ?_, hm⟩
    simp [Follow.terminals, Follow.expressionStarts, Follow.operandStarts]

theorem starting_expects (h : starting l = some move) :
    l.terminal ∈ Follow.statementStarts ∧ l.terminal ≠ .note ∧ move.Expects := by
  unfold starting at h
  split at h
  case h_13 =>
    obtain ⟨hl, hn, hm⟩ := expressionStart_expects h
    exact ⟨by simp [Follow.statementStarts, hl], hn, hm⟩
  case h_3 =>
    cases h
    exact ⟨by decide, by decide, expects_empty _⟩
  case h_12 =>
    cases h
    exact ⟨by simp [Lexeme.terminal, Follow.statementStarts, Follow.expressionStarts,
      Follow.operandStarts], by simp [Lexeme.terminal], rfl⟩
  all_goals
    cases h
    exact ⟨by decide, by decide, rfl⟩

/-- Where the statement at hand may end, all that may stand after it is looked for. -/
theorem isOpen_of_ended {ended : List Stmt} (hf : phase.Expects f)
    (h : phase.ended? = some ended) : f.isOpen = true := by
  unfold ended? at h
  split at h
  · rcases hf with rfl | rfl <;> rfl
  · rcases expectsChord hf with rfl | rfl | rfl <;> rfl
  · cases hf
    rfl
  · obtain ⟨t, ht, -⟩ := Option.map_eq_some_iff.1 h
    obtain ⟨c, hc, -⟩ := Option.bind_eq_some_iff.1 ht
    unfold Operands.finish? at hc
    split at hc
    · rcases hf with rfl | rfl | rfl <;> rfl
    · cases hf
      rfl
    · cases hc
  · cases hf
    rfl
  · cases h

theorem closeNotes_expects (notes : Notes) (bracket : Bracket) :
    (closeNotes notes bracket).Expects := by
  cases bracket <;> rfl

theorem advance_expects (hf : phase.Expects f) (h : phase.advance l = some move) :
    f.Covers l.terminal ∧ move.Expects := by
  unfold advance at h
  split at h
  -- after a list of notes
  case h_6 bracket first others =>
    cases h
    cases hf
    exact ⟨⟨by simp [Lexeme.terminal, Follow.terminals], fun h => by cases h⟩,
      closeNotes_expects _ bracket⟩
  case h_8 what =>
    cases h
    refine ⟨⟨?_, fun h => by cases h⟩, rfl⟩
    rcases expectsChord hf with rfl | rfl | rfl <;> simp [Lexeme.terminal, Follow.terminals]
  -- where an expression starts
  case h_16 clause =>
    cases h
    cases hf
    exact ⟨⟨by simp [Lexeme.terminal, Follow.terminals, wantMark], fun h => by cases h⟩,
      fun h => by simp [admitsChord] at h, .inr (.inl rfl)⟩
  case h_37 x =>
    cases h
    cases hf
    exact ⟨⟨by simp [Lexeme.terminal, Follow.terminals], fun h => by cases h⟩, expects_empty _⟩
  -- inside an expression
  case h_39 x _ _ =>
    have hs : (Operands.ofArith (.name x)).Expects .eval f := .inl hf
    exact expressionStep_expects hs h
  case h_41 g _ =>
    cases hf
    obtain ⟨hl, hn, hm⟩ := expressionStart_expects h
    exact ⟨⟨by simp [Follow.terminals, hl], fun h => absurd h hn⟩, hm⟩
  case h_42 goal t =>
    split at h
    · next hchord =>
      cases h
      have ht : t = .empty := by
        simp only [admitsChord, Bool.and_eq_true, beq_iff_eq] at hchord
        exact hchord.1
      subst ht
      have hexpr : f = .expression := hf.1 hchord
      subst hexpr
      exact ⟨⟨by decide, fun h => by cases h⟩, rfl⟩
    · exact expressionStep_expects hf h
  case h_43 => exact expressionStep_expects hf h
  case h_44 goal notes =>
    cases hf
    obtain ⟨hl, hm⟩ := expressionEnd_expects h
    simp only [List.mem_cons, List.not_mem_nil, or_false] at hl
    refine ⟨⟨?_, fun hn => ?_⟩, hm⟩
    · rcases hl with hl | hl | hl <;> simp [hl, Follow.terminals]
    · simp [hn] at hl
  case h_45 => cases h
  -- one word, or one of two, is looked for by itself
  all_goals
    cases h
    cases hf
    refine ⟨by simp only [Lexeme.terminal]; decide, ?_⟩
    first | rfl | exact .inl rfl | exact .inr rfl | trivial

end Phase

/-- Everything that is ever looked for. -/
def Follow.all : List Follow :=
  [statement, branch, noteArray, chord, note, name, numeral, arithGroup, logicGroup, operand true,
    operand false, expression, arguments, only [.note, .mark .openBracket],
    only [.name, .mark .closeParen], Phase.wantNote, Phase.wantNumeral, Phase.wantName,
    Phase.wantMark .openBracket, Phase.wantMark .equals, Phase.wantMark .openParen,
    Phase.wantMark .openBrace]

theorem Operands.mem_all {goal : Goal} {s : Operands} {f : Follow} (h : s.Expects goal f) :
    f ∈ Follow.all := by
  cases s with
  | awaiting g outer => rcases h.2 with rfl | rfl | ⟨rfl, -⟩ <;> decide
  | arith g outer a => rcases h with rfl | rfl | rfl <;> decide
  | logic g outer e =>
      cases h
      decide

theorem Phase.mem_all {phase : Phase} {f : Follow} (h : phase.Expects f) : f ∈ Follow.all := by
  unfold Expects at h
  split at h
  case h_1 => rcases h with rfl | rfl <;> decide
  case h_38 => exact Operands.mem_all h
  all_goals
    cases h
    decide

namespace Follow

/-- Keywords are cut from a text as names are. -/
theorem name_of_keyword : ∀ f ∈ all, ∀ k ∈ Keyword.all,
    .keyword k ∈ f.terminals → .name ∈ f.terminals := by
  decide

end Follow

namespace Machine

variable {m n : Machine} {l : Lexeme}

/-- What is looked for covers the word that is taken, and is right again after it. -/
theorem step_expects (hm : m.phase.Expects m.follow) (h : m.step l = some n) :
    m.follow.Covers l.terminal ∧ n.phase.Expects n.follow := by
  have apply_expects {k : Machine} {move : Move} (hmove : move.Expects) :
      (k.apply move).phase.Expects (k.apply move).follow := by
    cases move with
    | go phase follow | finish s follow => exact hmove
    | enter header => exact .inl rfl
  unfold step at h
  split at h
  · next move hmove =>
    cases h
    obtain ⟨hcovers, hexpects⟩ := Phase.advance_expects hm hmove
    exact ⟨hcovers, apply_expects hexpects⟩
  · split at h
    · cases h
    · next k hk =>
      obtain ⟨ended, hended, rfl⟩ := Option.map_eq_some_iff.1 hk
      have hopen := Phase.isOpen_of_ended hm hended
      split at h
      · next move hmove =>
        cases h
        obtain ⟨hl, hn, hexpects⟩ := Phase.starting_expects hmove
        exact ⟨⟨Follow.mem_of_isOpen hopen hl, fun h => absurd h hn⟩, apply_expects hexpects⟩
      · split at h
        · next hl =>
          cases hl
          refine ⟨⟨Follow.mem_of_isOpen hopen (by decide), fun h => by cases h⟩, ?_⟩
          unfold close? at h
          split at h
          · cases h
          · next header _ _ _ => cases header <;> cases h <;> first | exact .inl rfl | rfl
        · cases h

theorem expects_initial : initial.phase.Expects initial.follow := .inl rfl

end Machine
end TuneScript
