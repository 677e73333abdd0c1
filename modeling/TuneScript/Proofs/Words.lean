import TuneScript.Proofs.Readings
import TuneScript.Proofs.Spacing

/-!
The words of any text that can be read. Between them stand white space and comments only,
and the program that the text is read as is spelt by them.
-/

namespace TuneScript

/-- A text holds words and, between them, white space and comments. The flag tells whether
the text starts inside a comment. -/
inductive Written : Bool → List Lexeme → List Char → Prop where
  | done (inComment : Bool) : Written inComment [] []
  | comment {ls c cs} (h : Written (c != '\n') ls cs) : Written true ls (c :: cs)
  | blank {ls c cs} (hc : Text.isBlank c = true) (h : Written false ls cs) :
      Written false ls (c :: cs)
  | slashes {ls cs} (h : Written true ls cs) : Written false ls ('/' :: '/' :: cs)
  | word (l : Lexeme) {ls cs} (h : Written false ls cs) : Written false (l :: ls) (l.chars ++ cs)

namespace Scan

variable {wanted : Terminal → Bool}

theorem after?_eq_some {ps cs rest : List Char} (h : after? ps cs = some rest) :
    cs = ps ++ rest := by
  induction ps generalizing cs with
  | nil => exact Option.some.inj h
  | cons p ps ih =>
      cases cs with
      | nil => cases h
      | cons c cs =>
          rw [after?] at h
          split at h
          · next heq => rw [heq, ih h, List.cons_append]
          · cases h

theorem mark?_eq_some {cs rest : List Char} {m : Mark} (h : mark? wanted cs = some (m, rest)) :
    cs = m.text.toList ++ rest := by
  obtain ⟨k, -, hk⟩ := List.exists_of_findSome?_eq_some h
  split at hk
  · obtain ⟨left, hleft, heq⟩ := Option.map_eq_some_iff.1 hk
    cases heq
    exact after?_eq_some hleft
  · cases hk

theorem chars_numeral (cs : List Char) : (numeral cs).1.chars ++ (numeral cs).2 = cs := by
  have hwhole := List.takeWhile_append_dropWhile (p := Text.isDigit) (l := cs)
  unfold numeral
  split
  · next c rest hdrop =>
    have hrest := List.takeWhile_append_dropWhile (p := Text.isDigit) (l := rest)
    rw [hdrop] at hwhole
    split
    · simpa [Numeral.chars, hrest] using hwhole
    · exact hwhole
  · exact hwhole

/-- A word is cut from the start of the text. -/
theorem lexeme?_eq_some {cs rest : List Char} {l : Lexeme}
    (h : lexeme? wanted cs = some (l, rest)) : cs = l.chars ++ rest := by
  cases cs with
  | nil => cases h
  | cons c cs =>
      rw [lexeme?] at h
      split at h
      · cases h
        rw [chars_word, List.cons_append, List.takeWhile_append_dropWhile]
      · split at h
        · cases h
          exact (chars_numeral (c :: cs)).symm
        · split at h
          · next p left hp =>
            cases h
            split at hp
            · rw [(note?_eq_some hp).2, Lexeme.chars, String.toList_ofList]
            · cases hp
          · obtain ⟨⟨m, left⟩, hm, heq⟩ := Option.map_eq_some_iff.1 h
            cases heq
            exact mark?_eq_some hm

theorem skip_eq {inComment : Bool} {place place' : Place} {cs rest : List Char}
    (h : skip inComment place cs = (place', rest)) :
    ∃ gap, cs = gap ++ rest ∧ place' = place.after gap := by
  induction cs generalizing inComment place with
  | nil =>
      cases h
      exact ⟨[], rfl, rfl⟩
  | cons c cs ih =>
      have hnext : ∀ {b}, skip b (place.next c) cs = (place', rest) →
          ∃ gap, c :: cs = gap ++ rest ∧ place' = place.after gap := by
        intro b hb
        obtain ⟨gap, rfl, rfl⟩ := ih hb
        exact ⟨c :: gap, rfl, rfl⟩
      rw [skip] at h
      split at h
      · exact hnext h
      · split at h
        · exact hnext h
        · split at h
          · exact hnext h
          · cases h
            exact ⟨[], rfl, rfl⟩

/-- What is passed over holds no word. -/
theorem written_skip {inComment : Bool} {place place' : Place} {ls : List Lexeme}
    {cs rest : List Char} (hskip : skip inComment place cs = (place', rest))
    (h : Written false ls rest) (hend : rest = [] → ls = []) : Written inComment ls cs := by
  induction cs generalizing inComment place with
  | nil =>
      -- the text may end inside a comment
      cases hskip
      rw [hend rfl]
      exact .done inComment
  | cons c cs ih =>
      rw [skip] at hskip
      split at hskip
      · next hc =>
        rw [hc]
        exact .comment (ih hskip)
      · next hc =>
        rw [Bool.not_eq_true] at hc
        rw [hc]
        split at hskip
        · next hblank => exact .blank hblank (ih hskip)
        · split at hskip
          · next hslash =>
            simp only [Bool.and_eq_true, decide_eq_true_eq, beq_iff_eq] at hslash
            obtain ⟨rfl, hhead⟩ := hslash
            obtain ⟨cs, rfl⟩ := List.head?_eq_some_iff.1 hhead
            cases ih hskip with
            | comment hrest => exact .slashes hrest
          · cases hskip
            exact h

end Scan

namespace Reader

variable {dialect : Dialect} {p : Program}

theorem written_of_readFrom {source text : List Char} {m : Machine} {last : Option Token}
    {start : Place} (h : readFrom dialect source m last start text = .ok p) :
    ∃ ls n, Written false ls text ∧ m.run ls = some n ∧ n.finish? = some p := by
  obtain ⟨-, ⟨place, hskip, hfinish⟩ | ⟨place, cs, l, rest, n, hskip, hcut, hstep, hread⟩⟩ :=
    readFrom_eq_ok_iff.1 h
  · exact ⟨[], m, Scan.written_skip hskip (.done false) fun _ => rfl, rfl, hfinish⟩
  · have hshorter := Scan.length_rest_lt hskip hcut
    obtain ⟨ls, k, hwritten, hrun, hfinish⟩ := written_of_readFrom hread
    refine ⟨l :: ls, k, Scan.written_skip hskip ?_ ?_, ?_, hfinish⟩
    · rw [Scan.lexeme?_eq_some hcut]
      exact .word l hwritten
    · rintro rfl
      cases hcut
    · rw [Machine.run, hstep]
      exact hrun
termination_by text.length

/-- The words of a text spell the program that it is read as. -/
theorem written_of_read {text : String} (h : read dialect text = .ok p) :
    ∃ ls, Written false ls text.toList ∧ Spells (.body p) ls := by
  obtain ⟨ls, n, hwritten, hrun, hfinish⟩ := written_of_readFrom h
  exact ⟨ls, hwritten, Machine.run_iff_spells.1 ⟨n, hrun, hfinish⟩⟩

end Reader
end TuneScript
