import TuneScript.Proofs.Statements

/-!
What has been read is at every word the spelling of what the machine holds: the open
bodies up to their braces, the statements that are done, and the beginning of the
statement at hand. So a program is read only from one of its spellings.
-/

namespace TuneScript

/-- The words of the branches of a conditional. -/
def Branches.Read (b : Branches) (ws : List Lexeme) : Prop :=
  ∃ le ls la, ws = .keyword .branch :: (grouped le ++ braced ls ++ la) ∧
    Spells (.disjunction b.condition) le ∧ Spells (.body b.body) ls ∧
    Spells (.alternatives b.alternatives.reverse) la

/-- The words before a condition in parentheses. -/
def Clause.Read : Clause → List Lexeme → Prop
  | whileLoop, ws => ws = [.keyword .whileLoop]
  | branch, ws => ws = [.keyword .branch]
  | alternative b, ws => ∃ lb, ws = lb ++ [.keyword .alternative] ∧ b.Read lb

/-- The words before a body in braces. -/
def Header.Read : Header → List Lexeme → Prop
  | loop n, ws => ws = [.keyword .loop, .numeral n]
  | whileLoop e, ws => ∃ le, ws = .keyword .whileLoop :: grouped le ∧ Spells (.disjunction e) le
  | forLoop x a b, ws => ws = .keyword .forLoop ::
      grouped [.name x, .mark .comma, .numeral a, .mark .colon, .numeral b]
  | define f xs, ws => ws = .keyword .define :: .name f :: grouped (parameterWords xs)
  | branch e, ws => ∃ le, ws = .keyword .branch :: grouped le ∧ Spells (.disjunction e) le
  | alternative b e, ws => ∃ lb le, ws = lb ++ .keyword .alternative :: grouped le ∧ b.Read lb ∧
      Spells (.disjunction e) le
  | otherwise b, ws => ∃ lb, ws = lb ++ [.keyword .otherwise] ∧ b.Read lb

/-- The words before an expression. -/
def Goal.Read : Goal → List Lexeme → Prop
  | rest, ws => ws = [.keyword .rest]
  | assign x, ws => ws = [.name x, .mark .equals]
  | argument f [], ws => ws = [.name f, .mark .openParen]
  | argument f before, ws => ∃ e es le ls, before.reverse = e :: es ∧
      ws = .name f :: .mark .openParen :: (le ++ ls ++ [.mark .comma]) ∧
      Spells (.expression e) le ∧ Spells (.furtherArguments es) ls
  | eval, ws => ws = []
  | condition clause, ws => ∃ lc, ws = lc ++ [.mark .openParen] ∧ clause.Read lc

/-- The words before a list of notes. -/
def Bracket.Read : Bracket → List Lexeme → Prop
  | noteArray, ws => ws = [.keyword .note]
  | chord, ws => ws = [.keyword .chord]
  | expression goal, ws => goal.Read ws

def Playing.Read : Playing → List Lexeme → Prop
  | note pitch, ws => ws = .keyword .note :: pitch.words
  | chord notes, ws => ws = .keyword .chord :: notes.words

/-- The words of the statement at hand. -/
def Phase.Read : Phase → List Lexeme → Prop
  | start, ws => ws = []
  | noteHead, ws => ws = [.keyword .note]
  | chordHead, ws => ws = [.keyword .chord]
  | notesOpen bracket, ws => ∃ lb, ws = lb ++ [.mark .openBracket] ∧ bracket.Read lb
  | notesNext bracket first others, ws => ∃ lb, bracket.Read lb ∧
      ws = lb ++ .mark .openBracket :: .note first :: afterCommas .note others.reverse
  | notesComma bracket first others, ws => ∃ lb, bracket.Read lb ∧
      ws = lb ++ .mark .openBracket :: .note first ::
        (afterCommas .note others.reverse ++ [.mark .comma])
  | played what, ws => what.Read ws
  | duration what, ws => ∃ lw, ws = lw ++ [.mark .comma] ∧ what.Read lw
  | tempo, ws => ws = [.keyword .tempo]
  | volume, ws => ws = [.keyword .volume]
  | instrument, ws => ws = [.keyword .refinst]
  | instrumentName, ws => ws = [.keyword .refinst, .mark .equals]
  | loopHead, ws => ws = [.keyword .loop]
  | loopCount n, ws => ws = [.keyword .loop, .numeral n]
  | clauseHead clause, ws => clause.Read ws
  | clauseEnd clause e, ws => ∃ lc le, ws = lc ++ grouped le ∧ clause.Read lc ∧
      Spells (.disjunction e) le
  | forHead, ws => ws = [.keyword .forLoop]
  | forOpen, ws => ws = [.keyword .forLoop, .mark .openParen]
  | forName x, ws => ws = [.keyword .forLoop, .mark .openParen, .name x]
  | forComma x, ws => ws = [.keyword .forLoop, .mark .openParen, .name x, .mark .comma]
  | forStart x a, ws =>
      ws = [.keyword .forLoop, .mark .openParen, .name x, .mark .comma, .numeral a]
  | forColon x a, ws =>
      ws = [.keyword .forLoop, .mark .openParen, .name x, .mark .comma, .numeral a, .mark .colon]
  | forStop x a b, ws =>
      ws = [.keyword .forLoop, .mark .openParen, .name x, .mark .comma, .numeral a, .mark .colon,
        .numeral b]
  | forEnd x a b, ws => ws = .keyword .forLoop ::
      grouped [.name x, .mark .comma, .numeral a, .mark .colon, .numeral b]
  | defineHead, ws => ws = [.keyword .define]
  | defineName f, ws => ws = [.keyword .define, .name f]
  | parametersOpen f, ws => ws = [.keyword .define, .name f, .mark .openParen]
  | parametersNext f xs, ws => xs ≠ [] ∧
      ws = .keyword .define :: .name f :: .mark .openParen :: parameterWords xs.reverse
  | parametersComma f xs, ws => xs ≠ [] ∧
      ws = .keyword .define :: .name f :: .mark .openParen ::
        (parameterWords xs.reverse ++ [.mark .comma])
  | parametersEnd f xs, ws => ws = .keyword .define :: .name f :: grouped (parameterWords xs)
  | branches b, ws => b.Read ws
  | otherwiseHead b, ws => ∃ lb, ws = lb ++ [.keyword .otherwise] ∧ b.Read lb
  | name x, ws => ws = [.name x]
  | argumentsOpen f, ws => ws = [.name f, .mark .openParen]
  | expression goal s, ws => ∃ lg le, ws = lg ++ le ∧ goal.Read lg ∧ s.Begun le
  | chordExpression goal notes, ws => ∃ lg, ws = lg ++ notes.words ∧ goal.Read lg

/-- The words of the statement at hand after a move. -/
def Move.Read : Move → List Lexeme → Prop
  | go phase _, ws => phase.Read ws
  | finish s _, ws => Spells (.statement s) ws
  | enter header, ws => ∃ lh, ws = lh ++ [.mark .openBrace] ∧ header.Read lh

theorem Clause.header_read {clause : Clause} {e : Logic} {lc le : List Lexeme}
    (hc : clause.Read lc) (he : Spells (.disjunction e) le) :
    (clause.header e).Read (lc ++ grouped le) := by
  cases clause with
  | whileLoop | branch =>
      cases hc
      exact ⟨le, rfl, he⟩
  | alternative b =>
      obtain ⟨lb, rfl, hb⟩ := hc
      exact ⟨lb, le, by simp, hb, he⟩

theorem Playing.statement_read {what : Playing} {ws : List Lexeme} (h : what.Read ws)
    (duration : Option Numeral) :
    Spells (.statement (what.toStmt duration)) (ws ++ durationWords duration) := by
  cases what with
  | note pitch =>
      cases h
      exact .note pitch duration
  | chord notes =>
      cases h
      exact .chord notes duration

theorem Branches.statement_read {b : Branches} {os : Option (List Stmt)} {lb lo : List Lexeme}
    (h : b.Read lb) (ho : Spells (.otherwise os) lo) :
    Spells (.statement (b.toStmt os)) (lb ++ lo) := by
  obtain ⟨le, ls, la, rfl, he, hs, ha⟩ := h
  simpa [Branches.toStmt] using Spells.branch he hs ha ho

theorem afterCommas_last {α : Type} (word : α → Lexeme) (xs : List α) (x : α) :
    afterCommas word (xs ++ [x]) = afterCommas word xs ++ [.mark .comma, word x] := by
  simp [afterCommas]

theorem parameterWords_last {xs : List String} (h : xs ≠ []) (x : String) :
    parameterWords (xs ++ [x]) = parameterWords xs ++ [.mark .comma, .name x] := by
  cases xs with
  | nil => exact absurd rfl h
  | cons y ys => simp [parameterWords, afterCommas]

/-- The arguments of a call up to the one that has just ended. -/
theorem Goal.arguments_read {f : String} {before : List Expr} {e : Expr} {lg le : List Lexeme}
    (hg : (Goal.argument f before).Read lg) (he : Spells (.expression e) le) :
    ∃ d ds ld ls, (e :: before).reverse = d :: ds ∧
      lg ++ le = .name f :: .mark .openParen :: (ld ++ ls) ∧
      Spells (.expression d) ld ∧ Spells (.furtherArguments ds) ls := by
  cases before with
  | nil =>
      cases hg
      exact ⟨e, [], le, [], rfl, by simp, he, .noArgument⟩
  | cons b bs =>
      obtain ⟨d, ds, ld, ls, hd, rfl, hld, hls⟩ := hg
      have hrev : (b :: bs).reverse ++ [e] = d :: (ds ++ [e]) := by rw [hd]; rfl
      exact ⟨d, ds ++ [e], ld, ls ++ .mark .comma :: le, by rw [List.reverse_cons, hrev], by simp,
        hld, hls.argument_last he⟩

namespace Phase

variable {goal : Goal} {s : Operands} {e : Expr} {l : Lexeme} {move : Move} {phase : Phase}
  {lg le ws : List Lexeme}

theorem expressionEnd_read (hg : goal.Read lg) (he : Spells (.expression e) le)
    (h : expressionEnd goal e l = some move) : move.Read (lg ++ le ++ [l]) := by
  unfold expressionEnd at h
  split at h
  · cases h
    cases hg
    exact .eval he
  · cases h
    obtain ⟨d, ds, ld, ls, hd, hw, hld, hls⟩ := Goal.arguments_read hg he
    refine ⟨lg ++ le ++ [.mark .comma], [], by simp, ?_, Operands.begun_empty⟩
    exact ⟨d, ds, ld, ls, hd, by rw [hw]; simp, hld, hls⟩
  · cases h
    obtain ⟨d, ds, ld, ls, hd, hw, hld, hls⟩ := Goal.arguments_read hg he
    rw [hd, hw]
    simpa [grouped, Move.Read] using Spells.call hld hls
  · cases h
    obtain ⟨lc, rfl, hc⟩ := hg
    cases he with
    | logic he => exact ⟨lc, le, by simp [grouped], hc, he⟩
  · cases h

theorem expressionStep_read (hg : goal.Read lg) (hs : s.Begun le)
    (h : expressionStep goal s l = some move) : move.Read (lg ++ le ++ [l]) := by
  unfold expressionStep at h
  split at h
  · next t follow ht =>
    cases h
    exact ⟨lg, le ++ [l], by simp, hg, Operands.begun_step hs ht⟩
  · obtain ⟨c, hc, hmove⟩ := Option.bind_eq_some_iff.1 h
    exact expressionEnd_read hg (.logic (hs.finish hc)) hmove

theorem expressionStart_read (hg : goal.Read lg) (h : expressionStart goal l = some move) :
    move.Read (lg ++ [l]) := by
  unfold expressionStart at h
  split at h
  · cases h
    exact ⟨lg, rfl, hg⟩
  · obtain ⟨⟨t, follow⟩, ht, rfl⟩ := Option.map_eq_some_iff.1 h
    exact ⟨lg, [l], rfl, hg, Operands.begun_step Operands.begun_empty ht⟩

theorem starting_read (h : starting l = some move) : move.Read [l] := by
  unfold starting at h
  split at h
  case h_3 =>
    cases h
    exact ⟨[.keyword .rest], [], rfl, rfl, Operands.begun_empty⟩
  case h_13 =>
    have hg : Goal.Read .eval [] := rfl
    exact expressionStart_read hg h
  all_goals
    cases h
    rfl

theorem closeNotes_read {bracket : Bracket} (notes : Notes) {lb : List Lexeme}
    (h : bracket.Read lb) : (closeNotes notes bracket).Read (lb ++ notes.words) := by
  cases bracket with
  | noteArray | chord =>
      cases h
      rfl
  | expression goal => exact ⟨lb, rfl, h⟩

/-- A word that continues the statement at hand continues its spelling. -/
theorem advance_read (hw : phase.Read ws) (h : phase.advance l = some move) :
    move.Read (ws ++ [l]) := by
  unfold advance at h
  split at h
  -- a list of notes
  case h_2 | h_3 =>
    cases h
    exact ⟨_, rfl, hw⟩
  case h_4 =>
    cases h
    obtain ⟨lb, rfl, hb⟩ := hw
    exact ⟨lb, hb, by simp [afterCommas]⟩
  case h_5 =>
    cases h
    obtain ⟨lb, hb, rfl⟩ := hw
    exact ⟨lb, hb, by simp⟩
  case h_6 bracket first others =>
    cases h
    obtain ⟨lb, hb, rfl⟩ := hw
    simpa [Notes.words] using closeNotes_read ⟨first, others.reverse⟩ hb
  case h_7 bracket first others p =>
    cases h
    obtain ⟨lb, hb, rfl⟩ := hw
    exact ⟨lb, hb, by simp [afterCommas_last]⟩
  -- durations
  case h_8 =>
    cases h
    exact ⟨_, rfl, hw⟩
  case h_9 what n =>
    cases h
    obtain ⟨lw, rfl, hlw⟩ := hw
    simpa [durationWords, Move.Read] using Playing.statement_read hlw (some n)
  -- statements that end with this word
  case h_10 | h_11 | h_13 =>
    cases h
    cases hw
    constructor
  case h_40 =>
    cases h
    cases hw
    exact .callNone _
  -- headers and conditions
  case h_15 | h_25 | h_33 | h_36 =>
    cases h
    exact ⟨_, rfl, hw⟩
  case h_16 =>
    cases h
    exact ⟨_, [], by simp, ⟨_, rfl, hw⟩, Operands.begun_empty⟩
  case h_17 clause e =>
    cases h
    obtain ⟨lc, le, rfl, hc, he⟩ := hw
    exact ⟨_, rfl, Clause.header_read hc he⟩
  case h_34 | h_35 =>
    cases h
    exact ⟨_, rfl, hw⟩
  -- parameters
  case h_28 =>
    cases h
    cases hw
    exact ⟨by simp, rfl⟩
  case h_30 f xs =>
    cases h
    obtain ⟨hxs, rfl⟩ := hw
    exact ⟨hxs, rfl⟩
  case h_31 f xs =>
    cases h
    obtain ⟨hxs, rfl⟩ := hw
    simp [Move.Read, Phase.Read, grouped]
  case h_32 f xs x =>
    cases h
    obtain ⟨hxs, rfl⟩ := hw
    have hrev : xs.reverse ≠ [] := by simpa using hxs
    exact ⟨by simp, by simp [parameterWords_last hrev]⟩
  -- expressions
  case h_37 x =>
    cases h
    cases hw
    exact ⟨[.name x, .mark .equals], [], rfl, rfl, Operands.begun_empty⟩
  case h_39 x _ _ =>
    cases hw
    have hg : Goal.Read .eval [] := rfl
    have hx : Operands.empty.step (.name x) = some (Operands.ofArith (.name x), .name) := rfl
    exact expressionStep_read hg (Operands.begun_step Operands.begun_empty hx) h
  case h_41 f _ =>
    have hg : (Goal.argument f []).Read ws := hw
    exact expressionStart_read hg h
  case h_42 goal t =>
    obtain ⟨lg, le, rfl, hg, ht⟩ := hw
    split at h
    · next hchord =>
      cases h
      simp only [admitsChord, Bool.and_eq_true, beq_iff_eq] at hchord
      obtain ⟨rfl, -⟩ := hchord
      cases Operands.Begun.eq_nil ht
      exact ⟨lg, by simp, hg⟩
    · exact expressionStep_read hg ht h
  case h_43 goal t _ =>
    obtain ⟨lg, le, rfl, hg, ht⟩ := hw
    exact expressionStep_read hg ht h
  case h_44 goal notes =>
    obtain ⟨lg, rfl, hg⟩ := hw
    exact expressionEnd_read hg (.chordLiteral notes) h
  case h_45 => cases h
  all_goals
    cases h
    cases hw
    rfl

theorem goalEnd_read {t : Stmt} (hg : goal.Read lg) (he : Spells (.expression e) le)
    (h : goalEnd? goal e = some t) : Spells (.statement t) (lg ++ le) := by
  unfold goalEnd? at h
  split at h
  · cases h
    cases hg
    exact .rest he
  · cases h
    cases hg
    exact .assign he
  · cases h

theorem ended_read {ended : List Stmt} (hw : phase.Read ws) (h : phase.ended? = some ended) :
    Spells (.body ended.reverse) ws := by
  unfold ended? at h
  split at h
  · cases h
    cases hw
    exact .noStatement
  · cases h
    simpa [durationWords] using (Playing.statement_read hw none).single
  · cases h
    simpa using (Branches.statement_read hw .noOtherwise).single
  · obtain ⟨t, ht, rfl⟩ := Option.map_eq_some_iff.1 h
    obtain ⟨c, hc, hgoal⟩ := Option.bind_eq_some_iff.1 ht
    obtain ⟨lg, le, rfl, hg, hs⟩ := hw
    exact (goalEnd_read hg (.logic (hs.finish hc)) hgoal).single
  · next goal notes =>
    obtain ⟨t, ht, rfl⟩ := Option.map_eq_some_iff.1 h
    obtain ⟨lg, rfl, hg⟩ := hw
    exact (goalEnd_read hg (.chordLiteral notes) ht).single
  · cases h

end Phase

/-- The words of the open bodies, from the outermost header to the last open brace. -/
def BlocksRead : List Block → List Lexeme → Prop
  | [], ws => ws = []
  | ⟨header, before⟩ :: blocks, ws => ∃ lb ld lh, ws = lb ++ ld ++ lh ++ [.mark .openBrace] ∧
      BlocksRead blocks lb ∧ Spells (.body before.reverse) ld ∧ header.Read lh

namespace Machine

/-- The words that have been read. -/
def Read (m : Machine) (ws : List Lexeme) : Prop :=
  ∃ lb ld lp, ws = lb ++ ld ++ lp ∧ BlocksRead m.blocks lb ∧
    Spells (.body m.done.reverse) ld ∧ m.phase.Read lp

variable {m n : Machine} {l : Lexeme} {ws : List Lexeme}

theorem read_initial : initial.Read [] := ⟨[], [], [], rfl, rfl, .noStatement, rfl⟩

theorem apply_read {move : Move} {lb ld lp : List Lexeme} (hb : BlocksRead m.blocks lb)
    (hd : Spells (.body m.done.reverse) ld) (h : move.Read lp) :
    (m.apply move).Read (lb ++ ld ++ lp) := by
  cases move with
  | go phase follow => exact ⟨lb, ld, lp, rfl, hb, hd, h⟩
  | finish s follow =>
      refine ⟨lb, ld ++ lp, [], by simp, hb, ?_, rfl⟩
      simpa [apply] using hd.body_append (Spells.single h)
  | enter header =>
      obtain ⟨lh, rfl, hh⟩ := h
      exact ⟨lb ++ ld ++ lh ++ [.mark .openBrace], [], [], by simp,
        ⟨lb, ld, lh, rfl, hb, hd, hh⟩, .noStatement, rfl⟩

theorem settle_read (hm : m.Read ws) (h : m.settle? = some n) :
    ∃ lb ld, ws = lb ++ ld ∧ BlocksRead n.blocks lb ∧ Spells (.body n.done.reverse) ld ∧
      n.phase = .start := by
  obtain ⟨ended, hended, rfl⟩ := Option.map_eq_some_iff.1 h
  obtain ⟨lb, ld, lp, rfl, hb, hd, hp⟩ := hm
  refine ⟨lb, ld ++ lp, by simp, hb, ?_, rfl⟩
  simpa using hd.body_append (Phase.ended_read hp hended)

theorem close_read {lb ld : List Lexeme} (hb : BlocksRead m.blocks lb)
    (hd : Spells (.body m.done.reverse) ld) (h : m.close? = some n) :
    n.Read (lb ++ ld ++ [.mark .closeBrace]) := by
  unfold close? at h
  split at h
  · cases h
  · next header before blocks hblocks =>
    rw [hblocks] at hb
    obtain ⟨lo, lr, lh, rfl, ho, hr, hh⟩ := hb
    -- a body that ends a statement, and one after which another branch may come
    have ended {s : Stmt} (hs : Spells (.statement s) (lh ++ braced ld)) :
        Read ⟨blocks, s :: before, .start, .statement⟩
          (lo ++ lr ++ lh ++ [.mark .openBrace] ++ ld ++ [.mark .closeBrace]) := by
      refine ⟨lo, lr ++ (lh ++ braced ld), [], by simp [braced], ho, ?_, rfl⟩
      simpa using hr.body_append hs.single
    have further {b : Branches} (hs : b.Read (lh ++ braced ld)) :
        Read ⟨blocks, before, .branches b, .branch⟩
          (lo ++ lr ++ lh ++ [.mark .openBrace] ++ ld ++ [.mark .closeBrace]) :=
      ⟨lo, lr, lh ++ braced ld, by simp [braced], ho, hr, hs⟩
    cases header with
    | loop k =>
        cases h
        cases hh
        exact ended (.loop hd)
    | whileLoop e =>
        cases h
        obtain ⟨le, rfl, he⟩ := hh
        exact ended (.whileLoop he hd)
    | forLoop x a b =>
        cases h
        cases hh
        exact ended (.forLoop hd)
    | define f xs =>
        cases h
        cases hh
        exact ended (.define hd)
    | branch e =>
        cases h
        obtain ⟨le, rfl, he⟩ := hh
        exact further ⟨le, ld, [], by simp, he, hd, .noAlternative⟩
    | alternative b e =>
        cases h
        obtain ⟨lb, le, rfl, ⟨lc, ls, la, rfl, hc, hs, ha⟩, he⟩ := hh
        refine further ⟨lc, ls, la ++ .keyword .alternative :: (grouped le ++ braced ld), by simp,
          hc, hs, ?_⟩
        simpa using ha.alternative_last he hd
    | otherwise b =>
        cases h
        obtain ⟨lb, rfl, hb⟩ := hh
        refine ended ?_
        simpa using Branches.statement_read hb (.otherwise hd)

/-- One more word that is read is one more word of the spelling. -/
theorem step_read (hm : m.Read ws) (h : m.step l = some n) : n.Read (ws ++ [l]) := by
  unfold step at h
  split at h
  · next move hmove =>
    cases h
    obtain ⟨lb, ld, lp, rfl, hb, hd, hp⟩ := hm
    rw [List.append_assoc]
    exact apply_read hb hd (Phase.advance_read hp hmove)
  · split at h
    · cases h
    · next k hk =>
      obtain ⟨lb, ld, rfl, hb, hd, -⟩ := settle_read hm hk
      split at h
      · next move hmove =>
        cases h
        exact apply_read hb hd (Phase.starting_read hmove)
      · split at h
        · next hl =>
          cases hl
          exact close_read hb hd h
        · cases h

theorem run_read {ls : List Lexeme} (hm : m.Read ws) (h : m.run ls = some n) :
    n.Read (ws ++ ls) := by
  induction ls generalizing m ws with
  | nil =>
      cases h
      simpa using hm
  | cons l ls ih =>
      obtain ⟨k, hk, hrun⟩ := Option.bind_eq_some_iff.1 h
      simpa using ih (step_read hm hk) hrun

theorem Read.finish {p : Program} (hm : m.Read ws) (h : m.finish? = some p) :
    Spells (.body p) ws := by
  unfold finish? at h
  split at h
  · next done phase follow hk =>
    cases h
    obtain ⟨lb, ld, rfl, hb, hd, -⟩ := settle_read hm hk
    cases hb
    exact hd
  · cases h

/-- The words that are read as a program are the spellings of that program. -/
theorem run_iff_spells {p : Program} {ls : List Lexeme} :
    (∃ m, initial.run ls = some m ∧ m.finish? = some p) ↔ Spells (.body p) ls := by
  constructor
  · rintro ⟨m, hrun, hfinish⟩
    exact (run_read read_initial hrun).finish hfinish
  · exact Spells.run_program

end Machine
end TuneScript
