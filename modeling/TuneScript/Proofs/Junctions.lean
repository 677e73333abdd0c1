import Mathlib.Data.List.Forall2
import TuneScript.Proofs.Layouts

/-!
Texts that are put one behind the other. An accepted text is read to its last word whatever follows,
so what comes behind it meets the machine that the text has left. After a line feed that machine
reads a second text as the initial one does, with the statements of the first before it, unless the
second text starts like the rest of a statement. A semicolon it refuses: no statement but an
expression ends with one, and an expression has not ended before it.
-/

namespace TuneScript

namespace Scan

variable {wanted : Terminal → Bool} {b : Bool} {p q : Place} {cs body rest more : List Char}

/-- A comment stands in the text that no line feed ends. -/
def Unclosed (cs : List Char) : Prop := ∃ body, '/' :: '/' :: body <:+ cs ∧ '\n' ∉ body

theorem Unclosed.of_suffix {tail : List Char} (h : Unclosed tail) (htail : tail <:+ cs) :
    Unclosed cs := by
  obtain ⟨body, hbody, hline⟩ := h
  exact ⟨body, hbody.trans htail, hline⟩

theorem skip_line (h : '\n' ∉ body) (p : Place) : skip true p body = (p.after body, []) := by
  induction body generalizing p with
  | nil => rfl
  | cons c body ih =>
      obtain ⟨hc, hbody⟩ := not_or.1 (mt List.mem_cons.2 h)
      rw [skip, if_pos rfl, bne_iff_ne.2 (Ne.symm hc)]
      exact ih hbody (p.next c)

/-- Nothing is left of a comment that is not closed, unless a word stands before it. -/
theorem skip_unclosed {pre : List Char} (hbody : '\n' ∉ body)
    (h : skip b p (pre ++ '/' :: '/' :: body) = (q, rest)) :
    rest = [] ∨ '/' :: '/' :: body <:+ rest := by
  induction pre generalizing b p with
  | nil =>
      have hall : '\n' ∉ '/' :: body := by simp [hbody]
      have hskip : skip b p ('/' :: '/' :: body) = skip true (p.next '/') ('/' :: body) := by
        cases b <;> rfl
      rw [List.nil_append, hskip, skip_line hall] at h
      cases h
      exact .inl rfl
  | cons c pre ih =>
      rw [List.cons_append, skip] at h
      split at h
      · exact ih h
      · split at h
        · exact ih h
        · split at h
          · exact ih h
          · cases h
            exact .inr (List.suffix_append (c :: pre) _)

/-- Where a comment starts there is no word. -/
theorem skip_ne_slashes : skip b p cs ≠ (q, '/' :: '/' :: rest) := by
  intro h
  induction cs generalizing b p with
  | nil => cases h
  | cons c cs ih =>
      rw [skip] at h
      split at h
      · exact ih h
      · split at h
        · exact ih h
        · split at h
          · exact ih h
          · next hslash =>
            cases h
            exact hslash rfl

theorem not_mem_of_class {p : Char → Bool} {c : Char} {w : List Char} (hc : p c = false)
    (hw : ∀ d ∈ w, p d = true) : c ∉ w := by
  intro hmem
  rw [hw c hmem] at hc
  cases hc

theorem EndsBefore.not_slash {n : Numeral} (h : EndsBefore n rest) : '/' ∉ n.chars := by
  obtain ⟨whole, fraction⟩ := n
  have hwhole := not_mem_of_class (c := '/') (by decide) h.whole
  cases fraction with
  | none => exact hwhole
  | some digits =>
      obtain ⟨d, ds, rfl, hdigits⟩ := h.fraction digits rfl
      have hfraction := not_mem_of_class (c := '/') (by decide) hdigits
      simp [Numeral.chars, hwhole] at hfraction ⊢
      exact hfraction

theorem not_slash_of_isNote {w : List Char} (h : isNote w = true) : '/' ∉ w := by
  have hpitch : isPitch '/' = false := by decide
  have hdigit : Text.isDigit '/' = false := by decide
  unfold isNote at h
  split at h
  · rintro (_ | ⟨_, _ | ⟨_, ⟨⟩⟩⟩) <;> simp_all
  · rintro (_ | ⟨_, _ | ⟨_, _ | ⟨_, ⟨⟩⟩⟩⟩) <;> simp_all
  · cases h

/-- Only the slash itself is a word with a slash in it. -/
theorem chars_of_slash {l : Lexeme} (h : lexeme? wanted cs = some (l, rest))
    (hslash : '/' ∈ l.chars) : l.chars = ['/'] := by
  cases cs with
  | nil => cases h
  | cons c cs =>
      rw [lexeme?] at h
      split at h
      · next hc =>
        cases h
        rw [chars_word, List.mem_cons] at hslash
        rcases hslash with rfl | hslash
        · cases hc
        · have hparts : ∀ d ∈ cs.takeWhile isNamePart, isNamePart d = true :=
            List.all_eq_true.1 List.all_takeWhile
          exact absurd hslash (not_mem_of_class (by decide) hparts)
      · split at h
        · cases h
          exact absurd hslash (endsBefore_numeral (c :: cs)).not_slash
        · split at h
          · next found left hfound =>
            cases h
            split at hfound
            · rw [Lexeme.chars, String.toList_ofList] at hslash
              exact absurd hslash (not_slash_of_isNote (note?_eq_some hfound).1)
            · cases hfound
          · obtain ⟨⟨m, left⟩, -, heq⟩ := Option.map_eq_some_iff.1 h
            cases heq
            obtain ⟨d, ds, hm, -, -, hd, hds⟩ := text_cons m
            rw [Lexeme.chars, hm] at hslash ⊢
            rcases List.mem_cons.1 hslash with rfl | hslash
            · rw [hd rfl]
            · rcases hds with rfl | rfl
              · cases hslash
              · simp at hslash

/-- A comment that is open at the end of a text stands behind all of its words. -/
theorem Unclosed.behind_word {l : Lexeme} {gap : List Char}
    (hskip : skip false p (gap ++ (l.chars ++ rest)) = (q, l.chars ++ rest))
    (hcut : lexeme? wanted (l.chars ++ rest) = some (l, rest))
    (h : Unclosed (gap ++ (l.chars ++ rest))) : Unclosed rest := by
  obtain ⟨body, ⟨pre, hpre⟩, hline⟩ := h
  rw [← hpre] at hskip
  rcases skip_unclosed hline hskip with hnone | ⟨mid, hmid⟩
  · obtain ⟨c, w, hchars⟩ := chars_cons hcut
    simp [hchars] at hnone
  · rcases List.append_eq_append_iff.1 hmid with ⟨surplus, hchars, hrest⟩ | ⟨surplus, -, rfl⟩
    · cases surplus with
      | nil => exact ⟨body, hrest ▸ List.suffix_refl _, hline⟩
      | cons c surplus =>
          -- the first slash would be a word, and the second would stand behind it
          obtain ⟨rfl, hsurplus⟩ := List.cons.inj hrest
          have hslash := chars_of_slash hcut (by simp [hchars])
          rw [hslash] at hchars
          obtain ⟨rfl, hsurplus'⟩ | ⟨-, hsurplus'⟩ := List.append_eq_singleton_iff.1 hchars.symm
          · rw [← hmid] at hskip
            exact absurd hskip skip_ne_slashes
          · cases hsurplus'
    · exact ⟨body, List.suffix_append surplus _, hline⟩

theorem unclosed_of_skip (h : skip b p (cs ++ [';']) = (q, [])) :
    b = true ∧ '\n' ∉ cs ∨ Unclosed cs := by
  induction cs generalizing b p with
  | nil =>
      cases b with
      | true => exact .inl ⟨rfl, by simp⟩
      | false => cases h
  | cons c cs ih =>
      have hmore : Unclosed cs → Unclosed (c :: cs) := fun h => h.of_suffix (List.suffix_cons c cs)
      rw [List.cons_append, skip] at h
      split at h
      · next hb =>
        rcases ih h with ⟨hc, hline⟩ | hcs
        · exact .inl ⟨hb, by simp [Ne.symm (bne_iff_ne.1 hc), hline]⟩
        · exact .inr (hmore hcs)
      · split at h
        · rcases ih h with ⟨hfalse, -⟩ | hcs
          · cases hfalse
          · exact .inr (hmore hcs)
        · split at h
          · next hslash =>
            rcases ih h with ⟨-, hline⟩ | hcs
            · simp only [Bool.and_eq_true, decide_eq_true_eq, beq_iff_eq] at hslash
              obtain ⟨rfl, hhead⟩ := hslash
              cases cs with
              | nil => cases hhead
              | cons d cs =>
                  cases hhead
                  exact .inr ⟨cs, List.suffix_refl _, mt (List.mem_cons_of_mem _) hline⟩
            · exact .inr (hmore hcs)
          · cases h

/-- What stands behind the last word of a text ends in a comment or not, whatever follows. -/
theorem skip_ending {tail : List Char} (h : skip false p tail = (q, [])) :
    ∃ inside : Bool, (inside = true ↔ Unclosed tail) ∧
      ∀ place more, skip false place (tail ++ more) = skip inside (place.after tail) more := by
  rw [← List.append_nil tail] at h
  obtain ⟨inside, hinside⟩ := skip_gap h
  refine ⟨inside, ⟨fun htrue => ?_, fun hopen => ?_⟩, hinside⟩
  -- a semicolon behind the tail is passed over inside a comment and left standing outside
  · have hskip : skip false p (tail ++ [';']) = ((p.after tail).next ';', []) := by
      rw [hinside, htrue]
      rfl
    rcases unclosed_of_skip hskip with ⟨hfalse, -⟩ | htail
    · cases hfalse
    · exact htail
  · obtain ⟨body, ⟨pre, rfl⟩, hline⟩ := hopen
    cases inside with
    | true => rfl
    | false =>
        have hskip := hinside p [';']
        rw [List.append_assoc] at hskip
        have hbody : '\n' ∉ body ++ [';'] := by simp [hline]
        rcases skip_unclosed hbody hskip with hnone | hsuffix
        · cases hnone
        · have hle := hsuffix.length_le
          simp at hle

end Scan

namespace Phase

/-- A semicolon ends no statement but an expression, and that one may not end without it. -/
theorem advance_semicolon {phase : Phase} {ended : List Stmt} (h : phase.ended? = some ended) :
    phase.advance (.mark .semicolon) = none := by
  have hstop : IsStop (.mark .semicolon) := .inl rfl
  cases phase with
  | start | played _ | branches _ => rfl
  | expression goal s =>
      obtain ⟨stmt, hgoal, -⟩ := Option.map_eq_some_iff.1 h
      obtain ⟨c, hc, hgoal⟩ := Option.bind_eq_some_iff.1 hgoal
      rw [advance_stop (.inl ⟨s, c, rfl, hc, rfl⟩) hstop, expressionEnd_goalEnd hgoal]
  | chordExpression goal notes =>
      obtain ⟨stmt, hgoal, -⟩ := Option.map_eq_some_iff.1 h
      exact expressionEnd_goalEnd hgoal _
  | _ => cases h

end Phase

namespace Machine

theorem between_of_finish {m : Machine} {p : Program} (h : m.finish? = some p) :
    m.Between [] p.reverse := by
  unfold finish? settle? at h
  cases hended : m.phase.ended? with
  | none =>
      rw [hended] at h
      cases h
  | some ended =>
      obtain ⟨blocks, done, phase, follow⟩ := m
      rw [hended] at h
      cases blocks with
      | nil =>
          cases h
          exact ⟨ended, hended, rfl, (List.reverse_reverse _).symm⟩
      | cons block blocks => cases h

theorem step_semicolon {m : Machine} {p : Program} (h : m.finish? = some p) :
    m.step (.mark .semicolon) = none := by
  obtain ⟨ended, hended, -, -⟩ := between_of_finish h
  have hstarting : Phase.starting (.mark .semicolon) = none := rfl
  simp [step, Phase.advance_semicolon hended, settle?, hended, hstarting]

/-- The open bodies and the statements of the innermost one, with more statements before all of
them. -/
def placed (before : List Stmt) : List Block → List Stmt → List Block × List Stmt
  | [], done => ([], done ++ before)
  | ⟨header, outer⟩ :: blocks, done =>
    (⟨header, (placed before blocks outer).2⟩ :: (placed before blocks outer).1, done)

theorem placed_append (before : List Stmt) (blocks : List Block) (new done : List Stmt) :
    placed before blocks (new ++ done) =
      ((placed before blocks done).1, new ++ (placed before blocks done).2) := by
  cases blocks with
  | nil => exact congrArg (Prod.mk []) (List.append_assoc ..)
  | cons block blocks => rfl

/-- The machine that has read these statements, last first, before all others. -/
def behind (before : List Stmt) (m : Machine) : Machine :=
  ⟨(placed before m.blocks m.done).1, (placed before m.blocks m.done).2, m.phase, m.follow⟩

variable (before : List Stmt) (m : Machine)

theorem apply_behind (move : Move) :
    (m.behind before).apply move = (m.apply move).behind before := by
  cases move with
  | go phase follow => rfl
  | finish s follow =>
      have h := placed_append before m.blocks [s] m.done
      simp only [List.singleton_append] at h
      simp only [apply, behind, h]
  | enter header => rfl

theorem settle?_behind : (m.behind before).settle? = m.settle?.map (behind before) := by
  simp only [settle?, Option.map_map]
  cases hended : m.phase.ended? with
  | none => simp [behind, hended]
  | some ended => simp [behind, hended, placed_append]

theorem close?_behind : (m.behind before).close? = m.close?.map (behind before) := by
  obtain ⟨blocks, done, phase, follow⟩ := m
  cases blocks with
  | nil => rfl
  | cons block blocks =>
      obtain ⟨header, outer⟩ := block
      have h (s : Stmt) := placed_append before blocks [s] outer
      simp only [List.singleton_append] at h
      cases header <;> simp [close?, behind, placed, h]

theorem step_behind (l : Lexeme) : (m.behind before).step l = (m.step l).map (behind before) := by
  have hphase : (m.behind before).phase = m.phase := rfl
  rw [step, step, hphase, settle?_behind]
  cases m.phase.advance l with
  | some move => exact congrArg some (apply_behind before m move)
  | none =>
      cases m.settle? with
      | none => rfl
      | some n =>
          cases Phase.starting l with
          | some move => exact congrArg some (apply_behind before n move)
          | none =>
              simp only [Option.map_some]
              split
              · exact close?_behind before n
              · rfl

theorem finish?_behind : (m.behind before).finish? = m.finish?.map (before.reverse ++ ·) := by
  rw [finish?, finish?, settle?_behind]
  cases m.settle? with
  | none => rfl
  | some n =>
      obtain ⟨blocks, done, phase, follow⟩ := n
      cases blocks with
      | nil => simp [behind, placed]
      | cons block blocks => rfl

variable {before m}

/-- The first word of a program does the same after a program. -/
theorem Between.step_initial {n k : Machine} {l : Lexeme} (hn : n.Between [] before)
    (h : initial.step l = some k) : n.step l = some (k.behind before) := by
  cases hl : Phase.starting l with
  | none => simp [step, initial, Phase.advance, settle?, Phase.ended?, hl, close?] at h
  | some move =>
      have hinitial : initial.Between [] [] := between_start [] [] _
      rw [hinitial.step_starting hl] at h
      cases h
      rw [hn.step_starting hl]
      cases move <;> rfl

end Machine

namespace Scan

/-- A mark of one character that starts no other mark. -/
theorem mark?_alone {wanted : Terminal → Bool} {m : Mark} {c : Char} (hm : m.text.toList = [c])
    (halone : ∀ j ∈ Mark.all, j.text.toList.head? = some c → j = m) (rest : List Char) :
    mark? wanted (c :: rest) = if wanted (.mark m) = true then some (m, rest) else none := by
  cases hfound : mark? wanted (c :: rest) with
  | none =>
      have hnone := List.findSome?_eq_none_iff.1 hfound m (mem_marks m)
      split
      · next hwanted =>
        rw [if_pos hwanted, hm, after?, if_pos rfl] at hnone
        cases hnone
      · rfl
  | some found =>
      obtain ⟨j, hj, heq⟩ := List.exists_of_findSome?_eq_some hfound
      split at heq
      · next hwanted =>
        obtain ⟨left, hleft, rfl⟩ := Option.map_eq_some_iff.1 heq
        obtain ⟨d, ds, htext, -⟩ := text_cons j
        have hstart := after?_eq_some hleft
        rw [htext, List.cons_append] at hstart
        cases halone j hj (by rw [htext, (List.cons.inj hstart).1]; rfl)
        rw [hm, after?, if_pos rfl] at hleft
        cases hleft
        rw [if_pos hwanted]
      · cases heq

theorem lexeme?_alone {wanted : Terminal → Bool} {m : Mark} {c : Char} (hm : m.text.toList = [c])
    (halone : ∀ j ∈ Mark.all, j.text.toList.head? = some c → j = m) (rest : List Char) :
    lexeme? wanted (c :: rest) =
      if wanted (.mark m) = true then some (.mark m, rest) else none := by
  have hpart : isNamePart c = false := by
    obtain ⟨d, ds, hd, hpart, -⟩ := text_cons m
    cases hd.symm.trans hm
    exact hpart
  rw [lexeme?_of_not_part hpart, mark?_alone hm halone]
  split <;> rfl

theorem lexeme?_semicolon (wanted : Terminal → Bool) (rest : List Char) :
    lexeme? wanted (';' :: rest) =
      if wanted (.mark .semicolon) = true then some (.mark .semicolon, rest) else none :=
  lexeme?_alone rfl (by decide) rest

end Scan

/-- The keywords that go on with a statement that might have ended. -/
def Keyword.links : List Keyword := [.and, .or, .alternative, .otherwise]

namespace Follow

/-- Apart from these keywords, where a statement might have ended those are looked for that start
one. -/
theorem admits_keyword {dialect : Dialect} {f : Follow} {k : Keyword} (hf : f ∈ all)
    (hopen : f.isOpen = true) (hk : k ∉ Keyword.links) :
    f.admits dialect (.keyword k) = statement.admits dialect (.keyword k) := by
  have hsame : ∀ f ∈ all, f.isOpen = true → ∀ k ∈ Keyword.all, k ∉ Keyword.links →
      (.keyword k ∈ f.terminals ↔ .keyword k ∈ statement.terminals) := by decide
  rw [Bool.eq_iff_iff, admits_iff, admits_iff, hsame f hf hopen k (Reader.mem_keywords k) hk]

/-- No mark that starts a statement is the beginning of a longer one. -/
theorem mark_alone {m : Mark} (h : .mark m ∈ statementStarts) :
    ∃ c, m.text.toList = [c] ∧ ∀ j ∈ Mark.all, j.text.toList.head? = some c → j = m := by
  have hmarks : m ∈ [Mark.openParen, .openBracket, .closeBrace] := by
    simpa [statementStarts, expressionStarts, operandStarts, statementKeywords] using h
  rcases hmarks with _ | ⟨_, _ | ⟨_, _ | ⟨_, ⟨⟩⟩⟩⟩
  · exact ⟨_, rfl, by decide⟩
  · exact ⟨_, rfl, by decide⟩
  · exact ⟨_, rfl, by decide⟩

end Follow

namespace Scan

/-- The first word of the text is spelt like such a keyword. -/
def Links (cs : List Char) : Prop :=
  ∃ k ∈ Keyword.links, (skip false .first cs).2.takeWhile isNamePart = k.text.toList

instance (cs : List Char) : Decidable (Links cs) := inferInstanceAs (Decidable (∃ _ ∈ _, _))

/-- The first word of a statement is found in the same way where a statement might have ended,
unless it is spelt like a keyword that goes on with that statement. -/
theorem lexeme?_open {dialect : Dialect} {f : Follow} {cs rest : List Char} {l : Lexeme}
    (hf : f ∈ Follow.all) (hopen : f.isOpen = true)
    (hlinks : ¬ ∃ k ∈ Keyword.links, cs.takeWhile isNamePart = k.text.toList)
    (h : lexeme? (Follow.statement.admits dialect) cs = some (l, rest)) :
    lexeme? (f.admits dialect) cs = some (l, rest) := by
  have hmore {t : Terminal} (ht : Follow.statement.admits dialect t = true) :
      f.admits dialect t = true := by
    obtain ⟨hknown, ht⟩ := Follow.admits_iff.1 ht
    exact Follow.admits_iff.2 ⟨hknown, Follow.mem_of_isOpen hopen ht⟩
  have hname : Follow.statement.admits dialect .name = true := rfl
  have hnumeral : Follow.statement.admits dialect .numeral = true := rfl
  cases cs with
  | nil => cases h
  | cons c cs =>
      by_cases hstart : isNameStart c = true
      · have hpart : isNamePart c = true := (isNamePart_iff c).2 (.inl hstart)
        rw [List.takeWhile_cons_of_pos hpart] at hlinks
        rw [lexeme?, if_pos (by rw [hstart, hname]; rfl)] at h
        rw [lexeme?, if_pos (by rw [hstart, hmore hname]; rfl), ← h]
        refine congrArg (fun w => some (w, _)) (word_congr fun k hk => ?_)
        exact Follow.admits_keyword hf hopen fun hmem => hlinks ⟨k, hmem, hk⟩
      · by_cases hdigit : Text.isDigit c = true
        · simpa [lexeme?, hstart, hdigit, hnumeral, hmore hnumeral] using h
        · have hpart : isNamePart c = false := by
            rw [Bool.eq_false_iff, ne_eq, isNamePart_iff, not_or, ← isDigit_iff]
            exact ⟨hstart, hdigit⟩
          rw [lexeme?_of_not_part hpart] at h
          obtain ⟨⟨m, left⟩, hmark, heq⟩ := Option.map_eq_some_iff.1 h
          cases heq
          have hm := wanted_of_mark? hmark
          obtain ⟨d, hd, halone⟩ := Follow.mark_alone (Follow.admits_iff.1 hm).2
          rw [mark?_eq_some hmark, hd, List.singleton_append, lexeme?_alone hd halone,
            if_pos (hmore hm)]

end Scan

namespace Reader

variable {dialect : Dialect} {source : List Char} {m : Machine} {last : Option Token} {p : Program}

/-- Reading on depends on the text only from its first word on. -/
theorem readFrom_skip {start start' : Place} {text text' : List Char}
    (h : Scan.skip false start text = Scan.skip false start' text') :
    readFrom dialect source m last start text = readFrom dialect source m last start' text' := by
  obtain ⟨place, cs, hskip⟩ : ∃ place cs, Scan.skip false start text = (place, cs) := ⟨_, _, rfl⟩
  have hskip' : Scan.skip false start' text' = (place, cs) := by rw [← h, hskip]
  cases cs with
  | nil => rw [readFrom_done hskip, readFrom_done hskip']
  | cons c cs =>
      cases hcut : Scan.lexeme? (m.follow.admits dialect) (c :: cs) with
      | none => rw [readFrom_misplaced hskip hcut, readFrom_misplaced hskip' hcut]
      | some found => rw [readFrom_word hskip hcut, readFrom_word hskip' hcut]

/-- A text is read to the last of its words, and then as if only the blanks and comments behind that
word were left, whatever follows; `inside` tells whether the last comment is still open. -/
structure ReadsTo (dialect : Dialect) (m : Machine) (last : Option Token) (start : Place)
    (text : List Char) (n : Machine) (last' : Option Token) (start' : Place) (tail : List Char)
    (inside : Bool) : Prop where
  expects : n.phase.Expects n.follow
  short : overlong? last' = none
  inside_iff : inside = true ↔ Scan.Unclosed text
  ending : ∀ more, Scan.skip false start' (tail ++ more) = Scan.skip inside (start.after text) more
  onward : ∀ (source : List Char) (b : Char) (more : List Char), Scan.isBreak b = true → b ≠ '/' →
    readFrom dialect source m last start (text ++ b :: more) =
      readFrom dialect source n last' start' (tail ++ b :: more)

theorem exists_readsTo {m : Machine} {last : Option Token} {start : Place} {text : List Char}
    (hm : m.phase.Expects m.follow) (h : readFrom dialect source m last start text = .ok p) :
    ∃ n last' start' tail inside, n.finish? = some p ∧
      ReadsTo dialect m last start text n last' start' tail inside := by
  obtain ⟨hlast, ⟨place, hskip, hfinish⟩ | ⟨place, cs, l, rest, n, hskip, hcut, hstep, hread⟩⟩ :=
    readFrom_eq_ok_iff.1 h
  · obtain ⟨inside, hinside, hending⟩ := Scan.skip_ending hskip
    exact ⟨m, last, start, text, inside, hfinish, hm, hlast, hinside, hending start,
      fun _ _ _ _ _ => rfl⟩
  · have hshorter := Scan.length_rest_lt hskip hcut
    obtain ⟨k, last', start', tail, inside, hfinish, hto⟩ :=
      exists_readsTo (Machine.step_expects hm hstep).2 hread
    obtain ⟨gap, rfl, rfl⟩ := Scan.skip_eq hskip
    cases Scan.lexeme?_eq_some hcut
    refine ⟨k, last', start', tail, inside, hfinish, hto.expects, hto.short, ?_, ?_, ?_⟩
    · rw [hto.inside_iff]
      exact ⟨fun h => h.of_suffix ((List.suffix_append _ _).trans (List.suffix_append gap _)),
        .behind_word hskip hcut⟩
    · intro more
      rw [hto.ending]
      simp only [Place.after, List.foldl_append]
    · -- a break behind the text moves neither the start nor the end of a word in it
      intro source b more hb hslash
      rw [← List.append_nil rest] at hskip hcut
      have hskip' := Scan.skip_cut hskip hcut hslash more start
      have hcut' := Scan.lexeme?_cut hcut hb more
      rw [List.append_assoc, List.append_assoc, readFrom_word hskip' hcut', hlast, hstep]
      exact hto.onward source b more hb hslash
termination_by text.length

/-- After a whole program a semicolon is refused, also where it is looked for. -/
theorem readFrom_semicolon {text more : List Char} {start place : Place} (hm : m.finish? = some p)
    (hlast : overlong? last = none) (hskip : Scan.skip false start text = (place, ';' :: more)) :
    readFrom dialect source m last start text =
      .error (.unexpectedToken place (some (.mark .semicolon))) := by
  have hcut := Scan.lexeme?_semicolon (m.follow.admits dialect) more
  split at hcut
  · rw [readFrom_word hskip hcut, hlast, Machine.step_semicolon hm]
  · have hknown : Scan.lexeme? (Follow.known dialect) (';' :: more) =
        some (.mark .semicolon, more) := Scan.lexeme?_semicolon _ more
    rw [readFrom_misplaced hskip hcut, misplaced, hknown]

theorem read_semicolon {text : String} (h : read dialect text = .ok p)
    (hclosed : ¬ Scan.Unclosed text.toList) {whole : String} {more : List Char}
    (hwhole : whole.toList = text.toList ++ ';' :: more) :
    read dialect whole =
      .error (.unexpectedToken (Place.first.after text.toList) (some (.mark .semicolon))) := by
  obtain ⟨n, last, start, tail, inside, hfinish, hto⟩ := exists_readsTo Machine.expects_initial h
  have hoff : inside = false := by rwa [← hto.inside_iff, Bool.not_eq_true] at hclosed
  have hskip : Scan.skip false start (tail ++ ';' :: more) =
      (Place.first.after text.toList, ';' :: more) := by
    rw [hto.ending, hoff]
    rfl
  rw [read, hwhole, hto.onward _ _ _ (by decide) (by decide)]
  exact readFrom_semicolon hfinish hto.short hskip

/-- What follows a comment that is open is lost up to the end of its line. -/
theorem read_unclosed {text : String} (h : read dialect text = .ok p)
    (hopen : Scan.Unclosed text.toList) {whole : String} {b : Char} {more : List Char}
    (hb : Scan.isBreak b = true) (hslash : b ≠ '/') (hline : b ≠ '\n')
    (hwhole : whole.toList = text.toList ++ b :: more) {q : Program} :
    read dialect whole = .ok q ↔
      read dialect (text ++ String.ofList (more.dropWhile (· != '\n'))) = .ok q := by
  obtain ⟨n, last, start, tail, inside, hfinish, hto⟩ := exists_readsTo Machine.expects_initial h
  have hskip := hto.ending
  rw [hto.inside_iff.2 hopen] at hskip
  have hlost : '\n' ∉ b :: more.takeWhile (· != '\n') := by
    have htake : ∀ c ∈ more.takeWhile (· != '\n'), (c != '\n') = true :=
      List.all_eq_true.1 List.all_takeWhile
    rw [List.mem_cons, not_or]
    exact ⟨hline.symm, Scan.not_mem_of_class (by decide) htake⟩
  have hsplit : b :: more = (b :: more.takeWhile (· != '\n')) ++ more.dropWhile (· != '\n') := by
    rw [List.cons_append, List.takeWhile_append_dropWhile]
  rw [read, hwhole, hto.onward _ _ _ hb hslash, hsplit]
  cases hdrop : more.dropWhile (· != '\n') with
  | nil =>
      have hdone := (hskip (b :: more.takeWhile (· != '\n'))).trans (Scan.skip_line hlost _)
      rw [List.append_nil, readFrom_done hdone, hto.short, hfinish, String.ofList_nil,
        String.append_empty, h]
  | cons c rest =>
      obtain rfl : c = '\n' := by
        have hc := List.head?_dropWhile_not (· != '\n') more
        rw [hdrop] at hc
        simpa using hc
      have hwhole' : (text ++ String.ofList ('\n' :: rest)).toList =
          text.toList ++ '\n' :: rest := by simp
      have hcomment := (hskip ((b :: more.takeWhile (· != '\n')) ++ '\n' :: rest)).trans
        (Scan.skip_comment hlost _ rest)
      have hfeed := (hskip ('\n' :: rest)).trans (Scan.skip_newline true _ rest)
      rw [read, hwhole', hto.onward _ _ _ (by decide) (by decide), readFrom_skip hcomment,
        readFrom_skip hfeed]
      constructor <;> exact fun h => readFrom_elsewhere h hto.short _ _

theorem overlong?_of_readFrom {l : Lexeme} {place start : Place} {text : List Char}
    (h : readFrom dialect source m (some ⟨l, place⟩) start text = .ok p) (place' : Place) :
    overlong? (some ⟨l, place'⟩) = none := by
  rw [overlong?_place l place' place]
  exact (readFrom_eq_ok_iff.1 h).1

/-- What has been read before a text stands before what it is read as. -/
theorem readFrom_behind {m : Machine} {last : Option Token} {start : Place} {text : List Char}
    (before : List Stmt) (h : readFrom dialect source m last start text = .ok p)
    {last' : Option Token} (hlast' : overlong? last' = none) (source' : List Char)
    (start' : Place) :
    readFrom dialect source' (m.behind before) last' start' text = .ok (before.reverse ++ p) := by
  obtain ⟨-, ⟨place, hskip, hfinish⟩ | ⟨place, cs, l, rest, n, hskip, hcut, hstep, hread⟩⟩ :=
    readFrom_eq_ok_iff.1 h
  · obtain ⟨place', hskip'⟩ := Scan.skip_anywhere hskip start'
    refine readFrom_eq_ok_iff.2 ⟨hlast', .inl ⟨place', hskip', ?_⟩⟩
    rw [Machine.finish?_behind, hfinish]
    rfl
  · have hshorter := Scan.length_rest_lt hskip hcut
    obtain ⟨place', hskip'⟩ := Scan.skip_anywhere hskip start'
    have hl := overlong?_of_readFrom hread place'
    refine readFrom_eq_ok_iff.2 ⟨hlast', .inr ⟨place', cs, l, rest, n.behind before, hskip', hcut,
      ?_, readFrom_behind before hread hl _ _⟩⟩
    rw [Machine.step_behind, hstep]
    rfl
termination_by text.length

/-- After a program a text is read as after nothing, unless its first word goes on with the last
statement. -/
theorem readFrom_after {n : Machine} {q : Program} {text : String} (hn : n.finish? = some p)
    (hexpects : n.phase.Expects n.follow) (h : read dialect text = .ok q)
    (hlinks : ¬ Scan.Links text.toList) (hlast : overlong? last = none) (source : List Char)
    (start : Place) : readFrom dialect source n last start text.toList = .ok (p ++ q) := by
  obtain ⟨-, ⟨place, hskip, hfinish⟩ | ⟨place, cs, l, rest, k, hskip, hcut, hstep, hread⟩⟩ :=
    readFrom_eq_ok_iff.1 h
  · obtain rfl : [] = q := Option.some.inj hfinish
    obtain ⟨place', hskip'⟩ := Scan.skip_anywhere hskip start
    exact readFrom_eq_ok_iff.2 ⟨hlast, .inl ⟨place', hskip', by rwa [List.append_nil]⟩⟩
  · obtain ⟨place', hskip'⟩ := Scan.skip_anywhere hskip start
    obtain ⟨ended, hended, -⟩ := Machine.between_of_finish hn
    have hopen := Phase.isOpen_of_ended hexpects hended
    have hl := overlong?_of_readFrom hread place'
    rw [Scan.Links, hskip] at hlinks
    have hcut' := Scan.lexeme?_open (Phase.mem_all hexpects) hopen hlinks hcut
    have hstep' := (Machine.between_of_finish hn).step_initial hstep
    refine readFrom_eq_ok_iff.2 ⟨hlast, .inr ⟨place', cs, l, rest, k.behind p.reverse, hskip',
      hcut', hstep', ?_⟩⟩
    simpa using readFrom_behind p.reverse hread hl source _

theorem read_line {t u : String} {q : Program} (ht : read dialect t = .ok p)
    (hu : read dialect u = .ok q) (hlinks : ¬ Scan.Links u.toList) :
    read dialect (t ++ "\n" ++ u) = .ok (p ++ q) := by
  obtain ⟨n, last, start, tail, inside, hfinish, hto⟩ := exists_readsTo Machine.expects_initial ht
  have hwhole : (t ++ "\n" ++ u).toList = t.toList ++ '\n' :: u.toList := by simp
  have hfeed := (hto.ending ('\n' :: u.toList)).trans (Scan.skip_newline inside _ u.toList)
  rw [read, hwhole, hto.onward _ _ _ (by decide) (by decide), readFrom_skip hfeed]
  exact readFrom_after hfinish hto.expects hu hlinks hto.short _ _

theorem read_lines {t : String} (ht : read dialect t = .ok p) {us : List String}
    {qs : List Program} (h : List.Forall₂ (fun u q => read dialect u = .ok q) us qs)
    (hlinks : ∀ u ∈ us, ¬ Scan.Links u.toList) :
    read dialect ("\n".intercalate (t :: us)) = .ok (p ++ qs.flatten) := by
  induction h generalizing t p with
  | nil => simpa using ht
  | @cons u q us qs hu _ ih =>
      obtain ⟨hfirst, hlinks⟩ := List.forall_mem_cons.1 hlinks
      have hline := read_line ht hu hfirst
      have hjoin : "\n".intercalate (t :: u :: us) =
          "\n".intercalate ((t ++ "\n" ++ u) :: us) := rfl
      rw [hjoin, ih hline hlinks]
      simp

/-- Statements on lines of their own are read one after the other. On one line with semicolons
between them they are not: the first semicolon is refused wherever it stands behind a statement, and
where the text before it ends in a comment the rest of the line is lost. -/
theorem read_joined {dialect : Dialect} {t u : String} {more : List String} {ss : List Stmt}
    (h : List.Forall₂ (fun text s => read dialect text = .ok [s]) (t :: u :: more) ss) :
    ((∀ text ∈ u :: more, ¬ Scan.Links text.toList) →
      read dialect ("\n".intercalate (t :: u :: more)) = .ok ss) ∧
    (¬ Scan.Unclosed t.toList → read dialect ("; ".intercalate (t :: u :: more)) =
      .error (.unexpectedToken (Place.first.after t.toList) (some (.mark .semicolon)))) ∧
    (Scan.Unclosed t.toList → ∀ p, read dialect ("; ".intercalate (t :: u :: more)) = .ok p ↔
      read dialect (t ++ String.ofList
        (("; ".intercalate (u :: more)).toList.dropWhile (· != '\n'))) = .ok p) := by
  obtain ⟨s, ss, ht, hmore, rfl⟩ := List.forall₂_cons_left_iff.1 h
  have hjoin : ("; ".intercalate (t :: u :: more)).toList =
      t.toList ++ ';' :: ' ' :: ("; ".intercalate (u :: more)).toList := by
    simp [String.intercalate_cons_cons]
  refine ⟨fun hlinks => ?_, fun hclosed => read_semicolon ht hclosed hjoin, fun hopen p => ?_⟩
  · have hprograms : List.Forall₂ (fun text q => read dialect text = .ok q) (u :: more)
        (ss.map ([·])) := List.forall₂_map_right_iff.2 hmore
    have hsingle : (ss.map ([·])).flatten = ss := List.flatMap_singleton' ss
    rw [read_lines ht hprograms hlinks, hsingle]
    rfl
  · exact read_unclosed ht hopen (by decide) (by decide) (by decide) hjoin

theorem read_joined_song :
    read .full "tempo 120\nnote C4, 1.0\nchord [C4, E4, G4], 2.0" =
      .ok [.tempo ⟨['1', '2', '0'], none⟩, .note (.single "C4") (some ⟨['1'], some ['0']⟩),
        .chord ⟨"C4", ["E4", "G4"]⟩ (some ⟨['2'], some ['0']⟩)] ∧
    read .full "tempo 120; note C4, 1.0; chord [C4, E4, G4], 2.0" =
      .error (.unexpectedToken ⟨1, 10⟩ (some (.mark .semicolon))) ∧
    read .full "tempo 120//; note C4, 1.0" = .ok [.tempo ⟨['1', '2', '0'], none⟩] := by
  have htempo : read .full "tempo 120" = .ok [.tempo ⟨['1', '2', '0'], none⟩] := by
    refine (readFrom_word (l := .keyword .tempo) rfl rfl).trans ?_
    refine (readFrom_word (l := .numeral _) rfl rfl).trans ?_
    exact readFrom_done rfl
  have hopen : read .full "tempo 120//" = .ok [.tempo ⟨['1', '2', '0'], none⟩] := by
    refine (readFrom_word (l := .keyword .tempo) rfl rfl).trans ?_
    refine (readFrom_word (l := .numeral _) rfl rfl).trans ?_
    exact readFrom_done rfl
  have hnote : read .full "note C4, 1.0" =
      .ok [.note (.single "C4") (some ⟨['1'], some ['0']⟩)] := by
    refine (readFrom_word (l := .keyword .note) rfl rfl).trans ?_
    refine (readFrom_word (l := .note "C4") rfl rfl).trans ?_
    refine (readFrom_word (l := .mark .comma) rfl rfl).trans ?_
    refine (readFrom_word (l := .numeral _) rfl rfl).trans ?_
    exact readFrom_done rfl
  have hchord : read .full "chord [C4, E4, G4], 2.0" =
      .ok [.chord ⟨"C4", ["E4", "G4"]⟩ (some ⟨['2'], some ['0']⟩)] := by
    refine (readFrom_word (l := .keyword .chord) rfl rfl).trans ?_
    refine (readFrom_word (l := .mark .openBracket) rfl rfl).trans ?_
    refine (readFrom_word (l := .note "C4") rfl rfl).trans ?_
    refine (readFrom_word (l := .mark .comma) rfl rfl).trans ?_
    refine (readFrom_word (l := .note "E4") rfl rfl).trans ?_
    refine (readFrom_word (l := .mark .comma) rfl rfl).trans ?_
    refine (readFrom_word (l := .note "G4") rfl rfl).trans ?_
    refine (readFrom_word (l := .mark .closeBracket) rfl rfl).trans ?_
    refine (readFrom_word (l := .mark .comma) rfl rfl).trans ?_
    refine (readFrom_word (l := .numeral _) rfl rfl).trans ?_
    exact readFrom_done rfl
  have hclosed : ¬ Scan.Unclosed "tempo 120".toList := by
    rintro ⟨body, hbody, -⟩
    exact absurd (hbody.subset (List.mem_cons_self ..)) (by decide)
  obtain ⟨hlines, hsemicolon, -⟩ := read_joined (.cons htempo (.cons hnote (.cons hchord .nil)))
  obtain ⟨-, -, hlost⟩ := read_joined (.cons hopen (.cons hnote .nil))
  exact ⟨hlines (by decide), hsemicolon hclosed,
    (hlost ⟨[], ⟨"tempo 120".toList, rfl⟩, by decide⟩ _).2 hopen⟩

/-- A line that is refused at its semicolon, and the same statements on two lines. -/
theorem read_semicolon_note :
    read .full "note C4, 1.0; rest 0.5" =
      .error (.unexpectedToken ⟨1, 13⟩ (some (.mark .semicolon))) ∧
    read .full "note C4, 1.0\nrest 0.5" = .ok [.note (.single "C4") (some ⟨['1'], some ['0']⟩),
      .rest (.logic (.arith (.number ⟨['0'], some ['5']⟩)))] := by
  refine ⟨?_, ?_⟩
  · refine (readFrom_word (l := .keyword .note) rfl rfl).trans ?_
    refine (readFrom_word (l := .note "C4") rfl rfl).trans ?_
    refine (readFrom_word (l := .mark .comma) rfl rfl).trans ?_
    refine (readFrom_word (l := .numeral _) rfl rfl).trans ?_
    exact readFrom_word (l := .mark .semicolon) rfl rfl
  · refine (readFrom_word (l := .keyword .note) rfl rfl).trans ?_
    refine (readFrom_word (l := .note "C4") rfl rfl).trans ?_
    refine (readFrom_word (l := .mark .comma) rfl rfl).trans ?_
    refine (readFrom_word (l := .numeral _) rfl rfl).trans ?_
    refine (readFrom_word (l := .keyword .rest) rfl rfl).trans ?_
    refine (readFrom_word (l := .numeral _) rfl rfl).trans ?_
    exact readFrom_done rfl

end Reader
end TuneScript
