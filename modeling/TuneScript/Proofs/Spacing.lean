import TuneScript.Grammar.Reader
import TuneScript.Proofs.Lookouts
import TuneScript.Proofs.Readings
import TuneScript.Proofs.Scanning

/-!
Reading a text whose words stand apart. The words of such a text are read one by one, so
it is accepted with a program exactly if the machine runs through words so spelt to that
program.
-/

namespace TuneScript

/-- A text of words with at least one blank between two of them. -/
inductive Spaced : List (List Char) → List Char → Prop where
  | done {blanks} (h : ∀ c ∈ blanks, Text.isBlank c = true) : Spaced [] blanks
  | word {blanks w ws rest} (h : ∀ c ∈ blanks, Text.isBlank c = true) (hparted : Scan.Parted rest)
      (hrest : Spaced ws rest) : Spaced (w :: ws) (blanks ++ (w ++ rest))

namespace Spaced

variable {w : List Char} {ws vs : List (List Char)} {text more : List Char} {c : Char}

theorem cons_inv (h : Spaced (w :: ws) text) : ∃ blanks rest, text = blanks ++ (w ++ rest) ∧
    (∀ c ∈ blanks, Text.isBlank c = true) ∧ Scan.Parted rest ∧ Spaced ws rest := by
  cases h with
  | word hblanks hparted hrest => exact ⟨_, _, rfl, hblanks, hparted, hrest⟩

theorem blanks_append {blanks : List Char} (hblanks : ∀ c ∈ blanks, Text.isBlank c = true)
    (h : Spaced ws text) : Spaced ws (blanks ++ text) := by
  cases h with
  | done h => exact .done (List.forall_mem_append.2 ⟨hblanks, h⟩)
  | word h hparted hrest =>
      rw [← List.append_assoc]
      exact .word (List.forall_mem_append.2 ⟨hblanks, h⟩) hparted hrest

theorem append_blank (h : Spaced ws text) (hc : Text.isBlank c = true) (hmore : Spaced vs more) :
    Spaced (ws ++ vs) (text ++ c :: more) := by
  induction h with
  | done hblanks =>
      have hnext : Spaced vs ([c] ++ more) := blanks_append (by simpa using hc) hmore
      exact blanks_append hblanks hnext
  | @word blanks w ws rest hblanks hparted hrest ih =>
      have hrest' : Scan.Parted (rest ++ c :: more) := by
        cases rest with
        | nil => exact Scan.parted_cons hc more
        | cons d rest => exact Scan.parted_cons (hparted d rfl) _
      simpa using Spaced.word hblanks hrest' ih

theorem single (w : List Char) : Spaced [w] w := by
  have h : Spaced [w] ([] ++ (w ++ [])) := .word (by simp) Scan.parted_nil (.done (by simp))
  simpa using h

/-- Texts of words are joined by a blank. -/
theorem intercalate {α : Type} {words : α → List (List Char)} {line : α → List Char}
    (hc : Text.isBlank c = true) (h : ∀ a, Spaced (words a) (line a)) (lines : List α) :
    Spaced (lines.flatMap words) ([c].intercalate (lines.map line)) := by
  induction lines with
  | nil => exact .done (by simp)
  | cons a lines ih =>
      cases lines with
      | nil => simpa using h a
      | cons b lines => simpa [List.intercalate] using append_blank (h a) hc ih

theorem intercalate_words (hc : Text.isBlank c = true) (ws : List (List Char)) :
    Spaced ws ([c].intercalate ws) := by
  simpa using intercalate hc single ws

end Spaced

namespace Reader

variable {dialect : Dialect} {source text : List Char} {m : Machine} {last : Option Token}
  {start : Place} {p : Program}

theorem readFrom_done {place : Place} (hskip : Scan.skip false start text = (place, [])) :
    readFrom dialect source m last start text =
      match overlong? last, m.finish? with
      | some digits, _ => .error (.numeralTooLong digits)
      | none, some program => .ok program
      | none, none => .error (.unexpectedToken (endPlace last) none) := by
  rw [readFrom]
  split
  · cases overlong? last <;> cases m.finish? <;> rfl
  · next h =>
    rw [hskip] at h
    cases h

theorem readFrom_misplaced {place : Place} {c : Char} {cs : List Char}
    (hskip : Scan.skip false start text = (place, c :: cs))
    (hcut : Scan.lexeme? (m.follow.admits dialect) (c :: cs) = none) :
    readFrom dialect source m last start text = .error (misplaced dialect source place c cs) := by
  rw [readFrom]
  split
  · next h =>
    rw [hskip] at h
    cases h
  · next h =>
    rw [hskip] at h
    cases h
    split
    · rfl
    · next h =>
      rw [hcut] at h
      cases h

theorem readFrom_word {place : Place} {l : Lexeme} {cs rest : List Char}
    (hskip : Scan.skip false start text = (place, cs))
    (hcut : Scan.lexeme? (m.follow.admits dialect) cs = some (l, rest)) :
    readFrom dialect source m last start text =
      match overlong? last, m.step l with
      | some digits, _ => .error (.numeralTooLong digits)
      | none, none => .error (.unexpectedToken place (some l))
      | none, some n =>
        readFrom dialect source n (some ⟨l, place⟩) (place.after l.chars) rest := by
  rw [readFrom]
  split
  · next h =>
    rw [hskip] at h
    cases h
    cases hcut
  · next h =>
    rw [hskip] at h
    cases h
    split
    · next h =>
      rw [hcut] at h
      cases h
    · next h =>
      rw [hcut] at h
      cases h
      cases overlong? last <;> cases m.step l <;> rfl

/-- A program is read by taking the next word, or by ending where only blanks are left. -/
theorem readFrom_eq_ok_iff :
    readFrom dialect source m last start text = .ok p ↔
      overlong? last = none ∧
        ((∃ place, Scan.skip false start text = (place, []) ∧ m.finish? = some p) ∨
          ∃ place cs l rest n, Scan.skip false start text = (place, cs) ∧
            Scan.lexeme? (m.follow.admits dialect) cs = some (l, rest) ∧ m.step l = some n ∧
            readFrom dialect source n (some ⟨l, place⟩) (place.after l.chars) rest = .ok p) := by
  rw [readFrom]
  split
  · next place hskip =>
    cases hlast : overlong? last with
    | some digits => simp
    | none =>
        cases hfinish : m.finish? with
        | none => simp [hskip, Scan.lexeme?]
        | some q => simp [hskip, Scan.lexeme?]
  · next place c cs hskip =>
    split
    · next hl => simp [hskip, hl]
    · next l rest hl =>
      cases hlast : overlong? last with
      | some digits => simp
      | none =>
          cases hm : m.step l with
          | none => simp [hskip, hl, hm]
          | some n =>
              constructor
              · intro h
                exact ⟨rfl, .inr ⟨place, c :: cs, l, rest, n, hskip, hl, hm, h⟩⟩
              · rintro ⟨-, ⟨_, hskip', -⟩ | ⟨_, _, _, _, _, hskip', hl', hm', h⟩⟩
                · rw [hskip] at hskip'
                  cases hskip'
                · rw [hskip] at hskip'
                  cases hskip'
                  rw [hl] at hl'
                  cases hl'
                  rw [hm] at hm'
                  cases hm'
                  exact h

theorem skip_spaced {l : Lexeme} {blanks rest : List Char} (hl : l.isFormed = true)
    (hblanks : ∀ c ∈ blanks, Text.isBlank c = true) (hparted : Scan.Parted rest) (place : Place) :
    Scan.skip false place (blanks ++ (l.chars ++ rest)) =
      (place.after blanks, l.chars ++ rest) := by
  rw [Scan.skip_blanks hblanks, Scan.skip_word hl _ hparted]

theorem skip_done {blanks : List Char} (h : ∀ c ∈ blanks, Text.isBlank c = true) (place : Place) :
    Scan.skip false place blanks = (place.after blanks, []) := by
  have hskip := Scan.skip_blanks h place []
  rwa [List.append_nil] at hskip

theorem isFormed_of_isProper {l : Lexeme} (h : l.isProper = true) : l.isFormed = true := by
  unfold Lexeme.isProper at h
  exact (Bool.and_eq_true_iff.1 h).1

theorem overlong?_of_isProper {l : Lexeme} (h : l.isProper = true) (place : Place) :
    overlong? (some ⟨l, place⟩) = none := by
  cases l with
  | numeral n =>
      simp only [Lexeme.isProper, Bool.and_eq_true, Option.isNone_iff_eq_none] at h
      exact h.2
  | name _ | note _ | keyword _ | mark _ => rfl

theorem mem_keywords (k : Keyword) : k ∈ Keyword.all := by
  cases k <;> decide

theorem lexeme?_covered {f : Follow} {l : Lexeme} {rest : List Char} (hf : f ∈ Follow.all)
    (hcovers : f.Covers l.terminal) (hknown : Follow.known dialect l.terminal = true)
    (hl : l.isProper = true) (hparted : Scan.Parted rest) :
    Scan.lexeme? (f.admits dialect) (l.chars ++ rest) = some (l, rest) := by
  refine Scan.lexeme?_proper hl (Follow.admits_iff.2 ⟨hknown, hcovers.1⟩) (fun h => ?_)
    (fun k hk => ?_) hparted
  · rw [Bool.eq_false_iff, ne_eq, Follow.admits_iff]
    exact fun hname => hcovers.2 h hname.2
  · rw [Follow.admits_iff]
    have hmem := hcovers.1
    rw [hk] at hmem
    exact ⟨rfl, Follow.name_of_keyword f hf k (mem_keywords k) hmem⟩

/-- Words that run through the machine are read one by one. -/
theorem readFrom_of_run {ls : List Lexeme} {n : Machine}
    (hls : ∀ l ∈ ls, l.isProper = true ∧ Follow.known dialect l.terminal = true)
    (hspaced : Spaced (ls.map Lexeme.chars) text) (hm : m.phase.Expects m.follow)
    (hlast : overlong? last = none) (hrun : m.run ls = some n) (hfinish : n.finish? = some p) :
    readFrom dialect source m last start text = .ok p := by
  induction ls generalizing m last start text with
  | nil =>
      cases hspaced with
      | done hblanks =>
          cases hrun
          exact readFrom_eq_ok_iff.2 ⟨hlast, .inl ⟨_, skip_done hblanks start, hfinish⟩⟩
  | cons l ls ih =>
      obtain ⟨⟨hproper, hknown⟩, hls⟩ := List.forall_mem_cons.1 hls
      obtain ⟨k, hk, hrun⟩ := Option.bind_eq_some_iff.1 hrun
      obtain ⟨hcovers, hexpects⟩ := Machine.step_expects hm hk
      obtain ⟨blanks, rest, rfl, hblanks, hparted, hrest⟩ := hspaced.cons_inv
      exact readFrom_eq_ok_iff.2 ⟨hlast, .inr ⟨_, _, l, _, k,
        skip_spaced (isFormed_of_isProper hproper) hblanks hparted start,
        lexeme?_covered (Phase.mem_all hm) hcovers hknown hproper hparted, hk,
        ih hls hrest hexpects (overlong?_of_isProper hproper _) hrun⟩⟩

end Reader

/-- Only `refinst` looks for `=` and not for `==`. -/
theorem Follow.wanted_of_shortened : ∀ f ∈ Follow.all, ∀ m ∈ Mark.all, ∀ j ∈ Mark.all,
    m.shortened? = some j → .mark j ∈ f.terminals →
      .mark m ∈ f.terminals ∨ f = Phase.wantMark .equals := by
  have hshort : ∀ f ∈ Follow.all, ∀ m ∈ Mark.all.filter (·.shortened?.isSome), ∀ j ∈ m.shortened?,
      .mark j ∈ f.terminals → .mark m ∈ f.terminals ∨ f = Phase.wantMark .equals := by decide
  intro f hf m hm j _ hj hmem
  exact hshort f hf m (List.mem_filter.2 ⟨hm, by rw [hj]; rfl⟩) j hj hmem

theorem Phase.eq_instrument {phase : Phase} (h : phase.Expects (wantMark .equals)) :
    phase = .instrument := by
  cases phase with
  | instrument => rfl
  | start => rcases h with h | h <;> cases h
  | played what => rcases what with (_ | _) | _ <;> cases h
  | expression goal s =>
      cases s with
      | awaiting g outer => rcases h.2 with h | h | ⟨h, -⟩ <;> cases h
      | arith g outer a => rcases h with h | h | h <;> cases h
      | logic g outer e => cases h
  | _ => cases h

theorem Machine.step_instrument {m n : Machine} {j : Mark} (hm : m.phase = .instrument)
    (h : m.step (.mark j) = some n) : n.follow = Phase.wantName := by
  obtain ⟨blocks, done, phase, follow⟩ := m
  cases hm
  cases j <;> cases h
  rfl

theorem Lexeme.StandsApart.isFormed {l : Lexeme} (h : l.StandsApart) : l.isFormed = true := by
  cases l with
  | name x | numeral n => exact h.1
  | note p => exact h
  | keyword k | mark m => rfl

namespace Reader

variable {dialect : Dialect} {source text : List Char} {m n : Machine} {last : Option Token}
  {start : Place} {p : Program}

/-- No program is read where no word can be cut. -/
theorem readFrom_ne_ok {c : Char} {cs : List Char} (hblank : Text.isBlank c = false)
    (hslash : c ≠ '/') (hl : Scan.lexeme? (m.follow.admits dialect) (c :: cs) = none) :
    readFrom dialect source m last start (c :: cs) ≠ .ok p := by
  intro h
  have hskip : Scan.skip false start (c :: cs) = (start, c :: cs) := by
    simp [Scan.skip, hblank, hslash]
  obtain ⟨-, ⟨_, hs, -⟩ | ⟨_, _, _, _, _, hs, hl', -⟩⟩ := readFrom_eq_ok_iff.1 h
  · rw [hskip] at hs
    cases hs
  · rw [hskip] at hs
    cases hs
    rw [hl] at hl'
    cases hl'

/-- The word that is cut where a program is read is the whole word that stands there. -/
theorem cut_whole {l k : Lexeme} {rest left : List Char} {place : Place}
    (hl : l.StandsApart) (hm : m.phase.Expects m.follow) (hparted : Scan.Parted rest)
    (hcut : Scan.lexeme? (m.follow.admits dialect) (l.chars ++ rest) = some (k, left))
    (hstep : m.step k = some n) (h : readFrom dialect source n last place left = .ok p) :
    left = rest ∧ k.chars = l.chars ∧ k.isFormed = true := by
  rcases Scan.lexeme?_apart hl hparted hcut with
    hwhole | hsharp | ⟨j, i, hshort, hno, hyes, rfl, rfl⟩
  · exact hwhole
  · obtain ⟨cs, rfl⟩ : ∃ cs, left = '#' :: cs := List.head?_eq_some_iff.1 hsharp
    exact absurd h (readFrom_ne_ok (by decide) (by decide) (Scan.lexeme?_sharp cs))
  · rw [Follow.admits_iff] at hyes
    rcases Follow.wanted_of_shortened _ (Phase.mem_all hm) j (Scan.mem_marks j) i (Scan.mem_marks i)
      hshort hyes.2 with hmem | hf
    · rw [Follow.admits_iff.2 ⟨rfl, hmem⟩] at hno
      cases hno
    · -- `==` is cut in two only after `refinst`, and its second half starts no name
      rw [hf] at hm
      have hfollow := Machine.step_instrument (Phase.eq_instrument hm) hstep
      refine absurd h (readFrom_ne_ok (by decide) (by decide) ?_)
      refine Scan.lexeme?_no_mark (by decide) (fun k => ?_) rest
      rw [hfollow]
      simp [Follow.admits, Follow.terminals, Phase.wantName]

/-- The words of a text that is read as a program run through the machine to it. -/
theorem run_of_readFrom {ls : List Lexeme} (hls : ∀ l ∈ ls, l.StandsApart)
    (hspaced : Spaced (ls.map Lexeme.chars) text) (hm : m.phase.Expects m.follow)
    (h : readFrom dialect source m last start text = .ok p) :
    ∃ ks n, ks.map Lexeme.chars = ls.map Lexeme.chars ∧ (∀ k ∈ ks, k.isFormed = true) ∧
      m.run ks = some n ∧ n.finish? = some p := by
  induction ls generalizing m last start text with
  | nil =>
      cases hspaced with
      | done hblanks =>
          obtain ⟨-, ⟨_, -, hfinish⟩ | ⟨_, _, _, _, _, hskip, hcut, -⟩⟩ := readFrom_eq_ok_iff.1 h
          · exact ⟨[], m, rfl, by simp, rfl, hfinish⟩
          · rw [skip_done hblanks] at hskip
            cases hskip
            cases hcut
  | cons l ls ih =>
      obtain ⟨hl, hls⟩ := List.forall_mem_cons.1 hls
      obtain ⟨blanks, rest, rfl, hblanks, hparted, hrest⟩ := hspaced.cons_inv
      have hskip := skip_spaced hl.isFormed hblanks hparted start
      obtain ⟨-, ⟨_, hs, -⟩ | ⟨_, _, k, _, n, hs, hcut, hstep, hread⟩⟩ := readFrom_eq_ok_iff.1 h
      · obtain ⟨c, cs, hchars, -⟩ := Scan.isFormed_cons hl.isFormed
        rw [hskip, hchars] at hs
        cases hs
      · rw [hskip] at hs
        cases hs
        -- the same characters, but perhaps another class: a keyword may be read as a name
        obtain ⟨rfl, hchars, hk⟩ := cut_whole hl hm hparted hcut hstep hread
        have hexpects := (Machine.step_expects hm hstep).2
        obtain ⟨ks, e, hks, hformed, hrun, hfinish⟩ := ih hls hrest hexpects hread
        refine ⟨k :: ks, e, by simp [hchars, hks], ?_, ?_, hfinish⟩
        · exact List.forall_mem_cons.2 ⟨hk, hformed⟩
        · rw [Machine.run_cons_of_eq hstep, hrun]

/-- A text of proper words is read as the program that they spell. -/
theorem read_of_spells {ls : List Lexeme} {text : String} (h : Spells (.body p) ls)
    (hls : ∀ l ∈ ls, l.isProper = true) (hspaced : Spaced (ls.map Lexeme.chars) text.toList) :
    read .full text = .ok p := by
  obtain ⟨n, hrun, hfinish⟩ := h.run_program
  have hknown : ∀ l : Lexeme, Follow.known .full l.terminal = true := by
    intro l
    cases l <;> rfl
  exact readFrom_of_run (fun l hl => ⟨hls l hl, hknown l⟩) hspaced Machine.expects_initial rfl
    hrun hfinish

/-- A text of words that stand apart spells the program that it is read as. -/
theorem spells_of_read {ls : List Lexeme} {text : String} (hls : ∀ l ∈ ls, l.StandsApart)
    (hspaced : Spaced (ls.map Lexeme.chars) text.toList) (h : read dialect text = .ok p) :
    ∃ ks, ks.map Lexeme.chars = ls.map Lexeme.chars ∧ (∀ k ∈ ks, k.isFormed = true) ∧
      Spells (.body p) ks := by
  obtain ⟨ks, n, hks, hformed, hrun, hfinish⟩ :=
    run_of_readFrom hls hspaced Machine.expects_initial h
  exact ⟨ks, hks, hformed, Machine.run_iff_spells.1 ⟨n, hrun, hfinish⟩⟩

end Reader
end TuneScript
