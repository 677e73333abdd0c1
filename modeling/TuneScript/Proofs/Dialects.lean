import TuneScript.Program.Rule
import TuneScript.Proofs.Words

/-!
The two dialects beside each other. They look for the same classes of words except one
keyword, so a text that does not contain the letters of this keyword is cut into the same
words, and is read as the same program or refused for the same reason at the same place.
-/

namespace TuneScript
namespace Scan

variable {k : Keyword} {wanted other : Terminal → Bool} {cs : List Char}

theorem mark?_congr (h : ∀ t, t ≠ .keyword k → wanted t = other t) :
    mark? wanted cs = mark? other cs := by
  unfold mark?
  congr 1
  funext m
  rw [h (.mark m) (by simp)]

/-- A keyword that does not stand in the text does not have to be looked for. -/
theorem lexeme?_congr (h : ∀ t, t ≠ .keyword k → wanted t = other t)
    (hcs : ¬ k.text.toList <:+: cs) : lexeme? wanted cs = lexeme? other cs := by
  cases cs with
  | nil => rfl
  | cons c cs =>
      have hword : word wanted (c :: cs.takeWhile isNamePart) =
          word other (c :: cs.takeWhile isNamePart) := by
        refine word_congr fun j hj => h _ ?_
        rintro ⟨⟩
        refine hcs (List.IsPrefix.isInfix ⟨cs.dropWhile isNamePart, ?_⟩)
        rw [← hj, List.cons_append, List.takeWhile_append_dropWhile]
      have hname : wanted .name = other .name := h _ (by simp)
      have hnumeral : wanted .numeral = other .numeral := h _ (by simp)
      have hnote : wanted .note = other .note := h _ (by simp)
      simp only [lexeme?, hword, mark?_congr h, hname, hnumeral, hnote]

end Scan

theorem Follow.known_congr {t : Terminal} (h : t ≠ .keyword .rest) :
    known .restless t = known .full t := by
  cases t with
  | keyword k =>
      cases k with
      | rest => exact absurd rfl h
      | _ => rfl
  | _ => rfl

theorem Follow.admits_congr (f : Follow) {t : Terminal} (h : t ≠ .keyword .rest) :
    f.admits .restless t = f.admits .full t := by
  rw [Bool.eq_iff_iff, admits_iff, admits_iff, known_congr h]

namespace Reader

theorem misplaced_congr {source cs : List Char} {place : Place} {c : Char}
    (h : ¬ Keyword.rest.text.toList <:+: c :: cs) :
    misplaced .restless source place c cs = misplaced .full source place c cs := by
  unfold misplaced
  rw [Scan.lexeme?_congr (fun _ => Follow.known_congr) h]

theorem readFrom_congr {source text : List Char} {m : Machine} {last : Option Token}
    {start : Place} (h : ¬ Keyword.rest.text.toList <:+: text) :
    readFrom .restless source m last start text = readFrom .full source m last start text := by
  obtain ⟨place, left, hskip⟩ : ∃ place left, Scan.skip false start text = (place, left) :=
    ⟨_, _, rfl⟩
  obtain ⟨gap, rfl, -⟩ := Scan.skip_eq hskip
  cases left with
  | nil => rw [readFrom_done hskip, readFrom_done hskip]
  | cons c cs =>
      have hleft : ¬ Keyword.rest.text.toList <:+: c :: cs := fun hin =>
        h (hin.trans (List.suffix_append gap _).isInfix)
      have hcut := Scan.lexeme?_congr (fun _ => m.follow.admits_congr) hleft
      cases hfull : Scan.lexeme? (m.follow.admits .full) (c :: cs) with
      | none =>
          rw [readFrom_misplaced hskip (hcut.trans hfull), readFrom_misplaced hskip hfull,
            misplaced_congr hleft]
      | some cut =>
          obtain ⟨l, rest⟩ := cut
          have hshorter : rest.length < (gap ++ c :: cs).length := by
            have hlt := Scan.length_lexeme?_lt hfull
            rw [List.length_append]
            omega
          have hrest : ¬ Keyword.rest.text.toList <:+: rest := by
            rw [Scan.lexeme?_eq_some hfull] at hleft
            exact fun hin => hleft (hin.trans (List.suffix_append _ rest).isInfix)
          rw [readFrom_word hskip (hcut.trans hfull), readFrom_word hskip hfull]
          cases overlong? last with
          | some digits => rfl
          | none =>
              cases m.step l with
              | none => rfl
              | some n => exact readFrom_congr hrest
termination_by text.length

end Reader

theorem Rule.ofName?_congr {name : String} (h : name ≠ "rest_stmt") :
    ofName? .restless name = ofName? .full name := by
  have hname : ∀ entry ∈ names, entry.2 = .rest → entry.1 = "rest_stmt" := by decide
  unfold ofName?
  split
  · next hlookup =>
    obtain ⟨before, after, hnames, -⟩ := List.lookup_eq_some_iff.1 hlookup
    have hmem : (name, Rule.rest) ∈ names := by rw [hnames]; simp
    exact absurd (hname _ hmem rfl) h
  · rfl

/-- A text without the letters of `rest` means the same in both dialects, or is refused by
both for the same reason at the same place. The rules that build its records are the same too. -/
theorem Reader.dialects_agree {text : String}
    (h : ¬ Keyword.rest.text.toList <:+: text.toList) :
    read .restless text = read .full text ∧
      ∀ name, name ≠ "rest_stmt" → Rule.ofName? .restless name = Rule.ofName? .full name :=
  ⟨readFrom_congr h, fun _ => Rule.ofName?_congr⟩

theorem Reader.dialects_agree_refused :
    let text := "tempo re"
    ¬ Keyword.rest.text.toList <:+: text.toList ∧
      read .restless text = .error (.unexpectedToken ⟨1, 7⟩ (some (.name "re"))) ∧
      read .full text = .error (.unexpectedToken ⟨1, 7⟩ (some (.name "re"))) := by
  intro text
  have hs : 's' ∉ text.toList := by decide
  have h : ¬ Keyword.rest.text.toList <:+: text.toList := fun hin => hs (hin.subset (by decide))
  have hread : read .restless text = .error (.unexpectedToken ⟨1, 7⟩ (some (.name "re"))) := by
    have hskip : Scan.skip false .first "tempo re".toList = (.first, "tempo re".toList) := rfl
    have hcut : Scan.lexeme? (Machine.initial.follow.admits .restless) "tempo re".toList =
        some (.keyword .tempo, " re".toList) := rfl
    have hskip' : Scan.skip false ⟨1, 6⟩ " re".toList = (⟨1, 7⟩, ['r', 'e']) := rfl
    rw [read, readFrom_word hskip hcut]
    exact readFrom_misplaced hskip' rfl
  exact ⟨h, hread, (dialects_agree h).1.symm.trans hread⟩

end TuneScript
