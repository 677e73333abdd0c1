import TuneScript.Grammar.Scan

/-!
Words that stand apart are found again. A word is followed by a blank or by the end of
the text, so neither a longer word nor a comment starts there; which of its classes it is
read as still hangs on what is looked for.
-/

namespace TuneScript

namespace Scan

def isName : List Char → Bool
  | [] => false
  | c :: cs => isNameStart c && cs.all isNamePart

def isPitch (c : Char) : Bool := "ABCDEFGabcdefg".toList.contains c

def isNote : List Char → Bool
  | [a, b] => isPitch a && Text.isDigit b
  | [a, b, c] => isPitch a && (b == '#' || b == 'b') && Text.isDigit c
  | _ => false

end Scan

/-- There is a digit before the point and, if there is a point, one after it. -/
def Numeral.isWritten (n : Numeral) : Bool :=
  !n.whole.isEmpty && n.whole.all Text.isDigit &&
    (match n.fraction with
    | none => true
    | some digits => !digits.isEmpty && digits.all Text.isDigit)

/-- The mark of one character that a mark of two starts with. -/
def Mark.shortened? : Mark → Option Mark
  | relation .eq => some equals
  | relation .le => some (relation .lt)
  | relation .ge => some (relation .gt)
  | _ => none

/-- Whether a word has the form of its class. -/
def Lexeme.isFormed : Lexeme → Bool
  | name x => Scan.isName x.toList
  | numeral n => n.isWritten
  | note p => Scan.isNote p.toList
  | keyword _ | mark _ => true

/-- The words that mean the same wherever they stand: a name is no keyword, and a whole
number is not too long to be read. -/
def Lexeme.isProper (l : Lexeme) : Bool :=
  l.isFormed &&
    match l with
    | name x => (Keyword.ofText? x).isNone
    | numeral n => n.overlong?.isNone
    | _ => true

namespace Scan

theorem isNameStart_iff (c : Char) : isNameStart c = true ↔
    (65 ≤ c.toNat ∧ c.toNat ≤ 90) ∨ c.toNat = 95 ∨ (97 ≤ c.toNat ∧ c.toNat ≤ 122) := by
  have hupper : c.isUpper = true ↔ 65 ≤ c.toNat ∧ c.toNat ≤ 90 := decide_eq_true_iff
  have hlower : c.isLower = true ↔ 97 ≤ c.toNat ∧ c.toNat ≤ 122 :=
    Bool.and_eq_true_iff.trans (and_congr decide_eq_true_iff decide_eq_true_iff)
  have hline : c = '_' ↔ c.toNat = 95 := Char.toNat_inj.symm
  change (c.isUpper || c.isLower || c == '_') = true ↔ _
  rw [Bool.or_eq_true, Bool.or_eq_true, beq_iff_eq, hupper, hlower, hline]
  omega

theorem isNamePart_iff (c : Char) : isNamePart c = true ↔
    isNameStart c = true ∨ (48 ≤ c.toNat ∧ c.toNat ≤ 57) := by
  simp only [isNamePart, isNameStart, Char.isAlphanum, Char.isDigit, UInt32.le_iff_toNat_le,
    Bool.or_eq_true, Bool.and_eq_true, decide_eq_true_eq]
  change (c.isAlpha = true ∨ 48 ≤ c.toNat ∧ c.toNat ≤ 57) ∨ _ ↔ _
  constructor
  · rintro ((h | h) | h)
    · exact .inl (.inl h)
    · exact .inr h
    · exact .inl (.inr h)
  · rintro ((h | h) | h)
    · exact .inl (.inl h)
    · exact .inr h
    · exact .inl (.inr h)

theorem isDigit_iff (c : Char) : Text.isDigit c = true ↔ 48 ≤ c.toNat ∧ c.toNat ≤ 57 := by
  simp only [Text.isDigit, Bool.and_eq_true, decide_eq_true_eq, Char.le_def,
    UInt32.le_iff_toNat_le]
  exact Iff.rfl

theorem isNameStart_of_isPitch {c : Char} (h : isPitch c = true) : isNameStart c = true := by
  have hall : "ABCDEFGabcdefg".toList.all isNameStart = true := by decide
  rw [isPitch, List.contains_iff_mem] at h
  exact List.all_eq_true.1 hall c h

theorem not_isDigit_of_isNameStart {c : Char} (h : isNameStart c = true) :
    Text.isDigit c = false := by
  rw [isNameStart_iff] at h
  rw [Bool.eq_false_iff, ne_eq, isDigit_iff]
  omega

theorem not_isNameStart_of_isDigit {c : Char} (h : Text.isDigit c = true) :
    isNameStart c = false := by
  rw [isDigit_iff] at h
  rw [Bool.eq_false_iff, ne_eq, isNameStart_iff]
  omega

theorem isNamePart_of_isDigit {c : Char} (h : Text.isDigit c = true) : isNamePart c = true :=
  (isNamePart_iff c).2 (.inr ((isDigit_iff c).1 h))

theorem not_isBlank_of_isNamePart {c : Char} (h : isNamePart c = true) :
    Text.isBlank c = false := by
  rw [isNamePart_iff, isNameStart_iff] at h
  rw [Bool.eq_false_iff, ne_eq]
  simp only [Text.isBlank, Bool.or_eq_true, Bool.and_eq_true, decide_eq_true_eq, beq_iff_eq]
  omega

/-- The end of the text or a blank. -/
def Parted (rest : List Char) : Prop := ∀ c ∈ rest.head?, Text.isBlank c = true

theorem parted_nil : Parted [] := fun _ h => by cases h

theorem parted_cons {c : Char} (h : Text.isBlank c = true) (cs : List Char) : Parted (c :: cs) := by
  intro d hd
  cases hd
  exact h

/-- A run of characters of a class that has no blanks ends where a blank stands. -/
theorem span_parted {p : Char → Bool} (hp : ∀ c, p c = true → Text.isBlank c = false)
    {cs rest : List Char} (hcs : ∀ c ∈ cs, p c = true) (hrest : Parted rest) :
    (cs ++ rest).takeWhile p = cs ∧ (cs ++ rest).dropWhile p = rest := by
  have hstop : rest.takeWhile p = [] ∧ rest.dropWhile p = rest := by
    cases rest with
    | nil => exact ⟨rfl, rfl⟩
    | cons c cs =>
        have hc : p c = false := by
          cases hpc : p c with
          | false => rfl
          | true =>
              have := hp c hpc
              rw [hrest c rfl] at this
              cases this
        simp [hc]
  rw [List.takeWhile_append_of_pos hcs, List.dropWhile_append_of_pos hcs, hstop.1, hstop.2]
  exact ⟨List.append_nil cs, rfl⟩

variable {wanted : Terminal → Bool} {rest : List Char}

/-- A run of letters, digits and lines is one word, a name or a keyword. -/
theorem lexeme?_word {cs : List Char} (h : isName cs = true) (hwanted : wanted .name = true)
    (hrest : Parted rest) : lexeme? wanted (cs ++ rest) = some (word wanted cs, rest) := by
  cases cs with
  | nil => cases h
  | cons c cs =>
      simp only [isName, Bool.and_eq_true, List.all_eq_true] at h
      obtain ⟨htake, hdrop⟩ :=
        span_parted (fun _ => not_isBlank_of_isNamePart) h.2 hrest
      simp [lexeme?, h.1, hwanted, htake, hdrop]

theorem isName_text (k : Keyword) : isName k.text.toList = true := by
  cases k <;> decide

theorem ofText?_text (k : Keyword) : Keyword.ofText? k.text = some k := by
  cases k <;> rfl

theorem word_keyword {k : Keyword} :
    word wanted k.text.toList =
      if wanted (.keyword k) then .keyword k else .name k.text := by
  simp [word, ofText?_text]

theorem word_name {x : String} (h : Keyword.ofText? x = none) :
    word wanted x.toList = .name x := by
  simp [word, h]

theorem numeral_parted {n : Numeral} (h : n.isWritten = true) (hrest : Parted rest) :
    numeral (n.chars ++ rest) = (n, rest) := by
  have hdigit : ∀ c, Text.isDigit c = true → Text.isBlank c = false := by
    intro c hc
    exact not_isBlank_of_isNamePart (isNamePart_of_isDigit hc)
  obtain ⟨whole, fraction⟩ := n
  cases fraction with
  | none =>
      simp only [Numeral.isWritten, Bool.and_eq_true, List.all_eq_true] at h
      obtain ⟨htake, hdrop⟩ := span_parted hdigit h.1.2 hrest
      have hpoint : ∀ c cs, rest ≠ '.' :: c :: cs := by
        rintro c cs rfl
        have := hrest '.' rfl
        revert this
        decide
      simp only [Numeral.chars, numeral, htake, hdrop]
  | some digits =>
      cases digits with
      | nil => simp [Numeral.isWritten] at h
      | cons d ds =>
          simp only [Numeral.isWritten, Bool.and_eq_true, List.all_eq_true] at h
          obtain ⟨-, hds⟩ := h.2
          have hd : Text.isDigit d = true := hds d List.mem_cons_self
          obtain ⟨htake, hdrop⟩ :=
            span_parted hdigit (fun c hc => hds c (List.mem_cons_of_mem _ hc)) hrest
          have hpoint : Text.isDigit '.' = false := by decide
          have hwhole : (whole ++ '.' :: d :: (ds ++ rest)).takeWhile Text.isDigit = whole ∧
              (whole ++ '.' :: d :: (ds ++ rest)).dropWhile Text.isDigit =
                '.' :: d :: (ds ++ rest) := by
            rw [List.takeWhile_append_of_pos h.1.2, List.dropWhile_append_of_pos h.1.2]
            simp [hpoint]
          have hchars : Numeral.chars ⟨whole, some (d :: ds)⟩ ++ rest =
              whole ++ '.' :: d :: (ds ++ rest) := by simp [Numeral.chars]
          simp only [hchars, numeral, hwhole.1, hwhole.2, hd, htake, hdrop, if_true]

theorem isWritten_cons {n : Numeral} (h : n.isWritten = true) :
    ∃ c cs, n.chars = c :: cs ∧ Text.isDigit c = true := by
  obtain ⟨whole, fraction⟩ := n
  cases whole with
  | nil => simp [Numeral.isWritten] at h
  | cons c cs =>
      simp only [Numeral.isWritten, Bool.and_eq_true, List.all_eq_true] at h
      have hc : Text.isDigit c = true := h.1.2 c List.mem_cons_self
      cases fraction with
      | none => exact ⟨c, cs, rfl, hc⟩
      | some digits => exact ⟨c, cs ++ '.' :: digits, rfl, hc⟩

theorem lexeme?_numeral {n : Numeral} (h : n.isWritten = true) (hwanted : wanted .numeral = true)
    (hrest : Parted rest) : lexeme? wanted (n.chars ++ rest) = some (.numeral n, rest) := by
  have hread := numeral_parted h hrest
  obtain ⟨c, cs, hchars, hc⟩ := isWritten_cons h
  have hname := not_isNameStart_of_isDigit hc
  rw [hchars, List.cons_append] at hread ⊢
  simp [lexeme?, hname, hc, hwanted, hread]

theorem isNote_cons {p : List Char} (h : isNote p = true) :
    ∃ c cs, p = c :: cs ∧ isPitch c = true := by
  unfold isNote at h
  split at h
  · next a b =>
    simp only [Bool.and_eq_true] at h
    exact ⟨a, _, rfl, h.1⟩
  · next a b c =>
    simp only [Bool.and_eq_true] at h
    exact ⟨a, _, rfl, h.1.1⟩
  · cases h

theorem note?_append {p : List Char} (h : isNote p = true) (cs : List Char) :
    note? (p ++ cs) = some (p, cs) := by
  unfold isNote at h
  split at h
  · next a b =>
    simp only [Bool.and_eq_true] at h
    have ha : "ABCDEFGabcdefg".toList.contains a = true := h.1
    simp only [note?, List.cons_append, List.nil_append, ha, h.2]
    rfl
  · next a b c =>
    simp only [Bool.and_eq_true, isPitch, Bool.or_eq_true, beq_iff_eq] at h
    obtain ⟨⟨ha, hb⟩, hc⟩ := h
    have hdigit : Text.isDigit b = false := by rcases hb with rfl | rfl <;> decide
    have hsign : (decide (b = '#') || decide (b = 'b')) = true := by simpa using hb
    simp only [note?, List.cons_append, List.nil_append, ha, hdigit, hsign, hc]
    rfl
  · cases h

theorem lexeme?_note {p : String} (h : isNote p.toList = true) (hwanted : wanted .note = true)
    (hname : wanted .name = false) (cs : List Char) :
    lexeme? wanted (p.toList ++ cs) = some (.note p, cs) := by
  have hread := note?_append h cs
  obtain ⟨c, ds, hchars, hc⟩ := isNote_cons h
  have hdigit := not_isDigit_of_isNameStart (isNameStart_of_isPitch hc)
  have hp : String.ofList (c :: ds) = p := by rw [← hchars, String.ofList_toList]
  rw [hchars, List.cons_append] at hread ⊢
  simp [lexeme?, hname, hdigit, hwanted, hread, hp]

/-- No mark starts like a name, a numeral or a note. -/
theorem text_cons (m : Mark) : ∃ c cs, m.text.toList = c :: cs ∧ isNamePart c = false ∧
    Text.isBlank c = false ∧ (c = '/' → cs = []) ∧ (cs = [] ∨ cs = ['=']) := by
  cases m with
  | relation r => cases r <;> exact ⟨_, _, rfl, by decide⟩
  | operator o => cases o <;> exact ⟨_, _, rfl, by decide⟩
  | _ => exact ⟨_, _, rfl, by decide⟩

theorem mark?_eq_none {c : Char} (h : ∀ m ∈ Mark.all, m.text.toList.head? ≠ some c)
    (cs : List Char) : mark? wanted (c :: cs) = none := by
  refine List.findSome?_eq_none_iff.2 fun m hm => ?_
  obtain ⟨d, ds, htext, -⟩ := text_cons m
  have hne : d ≠ c := by
    rintro rfl
    exact h m hm (by rw [htext]; rfl)
  simp [htext, after?, hne]

theorem mark?_of_isNamePart {c : Char} (h : isNamePart c = true) (cs : List Char) :
    mark? wanted (c :: cs) = none := by
  refine mark?_eq_none (fun m _ hm => ?_) cs
  obtain ⟨d, ds, htext, hd, -⟩ := text_cons m
  rw [htext] at hm
  cases hm
  rw [h] at hd
  cases hd

/-- A run without blanks is found before a blank only if it is found without the rest. -/
theorem after?_parted {ps : List Char} (hps : ∀ c ∈ ps, Text.isBlank c = false) (cs : List Char)
    (hrest : Parted rest) : after? ps (cs ++ rest) = (after? ps cs).map (· ++ rest) := by
  induction ps generalizing cs with
  | nil => rfl
  | cons p ps ih =>
      have hp := hps p List.mem_cons_self
      cases cs with
      | nil =>
          cases rest with
          | nil => rfl
          | cons c rest =>
              have hne : p ≠ c := by
                rintro rfl
                rw [hrest p rfl] at hp
                cases hp
              simp [after?, hne]
      | cons c cs =>
          simp only [List.cons_append, after?]
          split
          · exact ih (fun d hd => hps d (List.mem_cons_of_mem _ hd)) cs
          · rfl

theorem mark?_parted (wanted : Terminal → Bool) (cs : List Char) (hrest : Parted rest) :
    mark? wanted (cs ++ rest) = (mark? wanted cs).map fun (m, left) => (m, left ++ rest) := by
  unfold mark?
  induction Mark.all with
  | nil => rfl
  | cons m ms ih =>
      have hm : ∀ c ∈ m.text.toList, Text.isBlank c = false := by
        obtain ⟨c, cs, hm, -, hc, -, hcs⟩ := text_cons m
        rw [hm, List.forall_mem_cons]
        refine ⟨hc, fun d hd => ?_⟩
        rcases hcs with rfl | rfl
        · cases hd
        · cases List.mem_singleton.1 hd
          decide
      simp only [List.findSome?_cons, after?_parted hm cs hrest, ih]
      cases wanted (.mark m) <;> cases after? m.text.toList cs <;> rfl

theorem mem_marks (m : Mark) : m ∈ Mark.all := by
  cases m with
  | relation r => cases r <;> decide
  | operator o => cases o <;> decide
  | _ => decide

/-- Of two marks one starts the other only if they are equal or the other is the same mark
with `=` after it. -/
theorem after?_text : ∀ m ∈ Mark.all, ∀ k ∈ Mark.all,
    after? k.text.toList m.text.toList =
      if k = m then some [] else if m.shortened? = some k then some ['='] else none := by
  decide

theorem find?_text : ∀ m ∈ Mark.all,
    Mark.all.find? (fun k => (after? k.text.toList m.text.toList).isSome) = some m := by
  decide

theorem mark?_text {m : Mark} (h : wanted (.mark m) = true) :
    mark? wanted m.text.toList = some (m, []) := by
  have hfirst := find?_text m (mem_marks m)
  obtain ⟨-, ks, ls, hall, hks⟩ := List.find?_eq_some_iff_append.1 hfirst
  refine List.findSome?_eq_some_iff.2 ⟨ks, m, ls, hall, ?_, fun k hk => ?_⟩
  · simp [h, after?_text m (mem_marks m) m (mem_marks m)]
  · have hnone : after? k.text.toList m.text.toList = none := by simpa using hks k hk
    simp [hnone]

theorem wanted_of_mark? {cs left : List Char} {m : Mark} (h : mark? wanted cs = some (m, left)) :
    wanted (.mark m) = true := by
  obtain ⟨j, -, hj⟩ := List.exists_of_findSome?_eq_some h
  split at hj
  · next hwanted =>
    obtain ⟨_, -, heq⟩ := Option.map_eq_some_iff.1 hj
    cases heq
    exact hwanted
  · cases hj

theorem mark?_text_of_not_wanted {m k : Mark} {left : List Char} (h : wanted (.mark m) = false)
    (hread : mark? wanted m.text.toList = some (k, left)) :
    m.shortened? = some k ∧ left = ['='] ∧ wanted (.mark k) = true := by
  obtain ⟨j, -, hj⟩ := List.exists_of_findSome?_eq_some hread
  split at hj
  · next hwanted =>
    obtain ⟨left, hleft, heq⟩ := Option.map_eq_some_iff.1 hj
    cases heq
    rw [after?_text m (mem_marks m) k (mem_marks k)] at hleft
    split at hleft
    · next hkm =>
      rw [hkm, h] at hwanted
      cases hwanted
    · split at hleft
      · next hshort =>
        cases hleft
        exact ⟨hshort, rfl, hwanted⟩
      · cases hleft
  · cases hj

theorem note?_eq_some {cs p left : List Char} (h : note? cs = some (p, left)) :
    isNote p = true ∧ cs = p ++ left := by
  unfold note? at h
  split at h
  · next a b cs =>
    split at h
    · cases h
    · next ha =>
      have hpitch : isPitch a = true := by
        simpa only [isPitch, Bool.not_eq_true', Bool.not_eq_false] using ha
      split at h
      · next hb =>
        cases h
        exact ⟨by simp [isNote, hpitch, hb], rfl⟩
      · split at h
        · next hb =>
          have hsign : (b == '#' || b == 'b') = true := by simpa using hb
          split at h
          · split at h
            · next hc =>
              cases h
              exact ⟨by simp only [isNote, hpitch, hsign, hc, Bool.and_self], rfl⟩
            · cases h
          · cases h
        · cases h
  · cases h

/-- Where no name, numeral or note starts only marks are left. -/
theorem lexeme?_of_not_part {c : Char} (h : isNamePart c = false) (cs : List Char) :
    lexeme? wanted (c :: cs) = (mark? wanted (c :: cs)).map fun (m, left) => (.mark m, left) := by
  have hpart : ¬ isNamePart c = true := by simp [h]
  rw [isNamePart_iff, not_or, ← isDigit_iff] at hpart
  have hnote : note? (c :: cs) = none := by
    cases hn : note? (c :: cs) with
    | none => rfl
    | some found =>
        obtain ⟨hp, hcs⟩ := note?_eq_some hn
        obtain ⟨d, ds, hd, hpitch⟩ := isNote_cons hp
        rw [hd, List.cons_append] at hcs
        cases hcs
        exact absurd (isNameStart_of_isPitch hpitch) hpart.1
  simp [lexeme?, hpart.1, hpart.2, hnote]

theorem lexeme?_mark {m : Mark} (h : wanted (.mark m) = true) (hrest : Parted rest) :
    lexeme? wanted (m.text.toList ++ rest) = some (.mark m, rest) := by
  obtain ⟨c, cs, hm, hc, -⟩ := text_cons m
  have hread := mark?_parted wanted m.text.toList hrest
  rw [mark?_text h] at hread
  rw [hm, List.cons_append] at hread ⊢
  rw [lexeme?_of_not_part hc, hread]
  rfl

/-- A proper word is found where it is looked for. -/
theorem lexeme?_proper {l : Lexeme} (hl : l.isProper = true) (hwanted : wanted l.terminal = true)
    (hnote : l.terminal = .note → wanted .name = false)
    (hkeyword : ∀ k, l.terminal = .keyword k → wanted .name = true) (hrest : Parted rest) :
    lexeme? wanted (l.chars ++ rest) = some (l, rest) := by
  cases l with
  | name x =>
      simp only [Lexeme.isProper, Lexeme.isFormed, Bool.and_eq_true,
        Option.isNone_iff_eq_none] at hl
      have hread := lexeme?_word hl.1 hwanted hrest
      rwa [word_name hl.2] at hread
  | numeral n =>
      simp only [Lexeme.isProper, Lexeme.isFormed, Bool.and_eq_true] at hl
      exact lexeme?_numeral hl.1 hwanted hrest
  | note p =>
      simp only [Lexeme.isProper, Lexeme.isFormed, Bool.and_true] at hl
      exact lexeme?_note hl hwanted (hnote rfl) rest
  | keyword k =>
      have hread := lexeme?_word (isName_text k) (hkeyword k rfl) hrest
      have hk : wanted (.keyword k) = true := hwanted
      rwa [word_keyword, if_pos hk] at hread
  | mark m => exact lexeme?_mark hwanted hrest

end Scan

/-- The words that may stand between blanks: a name does not go on after a note, and a whole
number is not too long to be read. A name may be spelt like a note or like a keyword. -/
def Lexeme.StandsApart : Lexeme → Prop
  | name x => Scan.isName x.toList = true ∧
      ∀ p, Scan.isNote p = true → p <+: x.toList → p = x.toList
  | numeral n => n.isWritten = true ∧ n.overlong? = none
  | note p => Scan.isNote p.toList = true
  | keyword _ | mark _ => True

namespace Scan

theorem text_of_ofText? {k : Keyword} {x : String} (h : Keyword.ofText? x = some k) :
    k.text = x := by
  simpa using List.find?_some h

/-- A name is the same word where the keyword that it may spell is looked for alike. -/
theorem word_congr {wanted other : Terminal → Bool} {cs : List Char}
    (h : ∀ k : Keyword, cs = k.text.toList → wanted (.keyword k) = other (.keyword k)) :
    word wanted cs = word other cs := by
  simp only [word]
  split
  · next k hk => rw [h k (by rw [text_of_ofText? hk, String.toList_ofList])]
  · rfl

theorem chars_word (cs : List Char) : (word wanted cs).chars = cs := by
  simp only [word]
  split
  · next k hk =>
    have hspelt := text_of_ofText? hk
    split
    · simp [Lexeme.chars, hspelt]
    · simp [Lexeme.chars]
  · simp [Lexeme.chars]

theorem isFormed_word {cs : List Char} (h : isName cs = true) :
    (word wanted cs).isFormed = true := by
  simp only [word]
  split
  · split
    · rfl
    · simpa [Lexeme.isFormed] using h
  · simpa [Lexeme.isFormed] using h

theorem not_isBlank_of_isNote {p : List Char} (h : isNote p = true) :
    ∀ c ∈ p, Text.isBlank c = false := by
  have hpart : ∀ c, isPitch c = true ∨ Text.isDigit c = true → Text.isBlank c = false := by
    rintro c (hc | hc)
    · exact not_isBlank_of_isNamePart ((isNamePart_iff c).2 (.inl (isNameStart_of_isPitch hc)))
    · exact not_isBlank_of_isNamePart (isNamePart_of_isDigit hc)
  unfold isNote at h
  split at h
  · next a b =>
    simp only [Bool.and_eq_true] at h
    simp [hpart a (.inl h.1), hpart b (.inr h.2)]
  · next a b c =>
    simp only [Bool.and_eq_true, Bool.or_eq_true, beq_iff_eq] at h
    obtain ⟨⟨ha, hb⟩, hc⟩ := h
    have hsign : Text.isBlank b = false := by rcases hb with rfl | rfl <;> decide
    simp [hpart a (.inl ha), hsign, hpart c (.inr hc)]
  · cases h

theorem prefix_of_append_eq {p cs left : List Char} (hp : ∀ c ∈ p, Text.isBlank c = false)
    (hrest : Parted rest) (h : cs ++ rest = p ++ left) : p <+: cs := by
  rcases List.append_eq_append_iff.1 h with ⟨more, rfl, hmore⟩ | ⟨more, rfl, -⟩
  · cases more with
    | nil => simp
    | cons c more =>
        subst hmore
        have hc := hp c (by simp)
        rw [hrest c rfl] at hc
        cases hc
  · exact List.prefix_append p more

/-- The words that are found where no name is looked for. -/
theorem lexeme?_not_name {c : Char} {cs left : List Char} {k : Lexeme}
    (hc : isNamePart c = true) (hname : (isNameStart c && wanted .name) = false)
    (h : lexeme? wanted (c :: cs) = some (k, left)) :
    (Text.isDigit c = true ∧ wanted .numeral = true ∧
        (.numeral (numeral (c :: cs)).1, (numeral (c :: cs)).2) = (k, left)) ∨
      ∃ p, note? (c :: cs) = some (p, left) ∧ k = .note (String.ofList p) := by
  simp only [lexeme?, hname, Bool.false_eq_true, if_false] at h
  split at h
  · next hd =>
    simp only [Bool.and_eq_true] at hd
    exact .inl ⟨hd.1, hd.2, Option.some.inj h⟩
  · split at h
    · next p left' hp =>
      split at hp
      · cases h
        exact .inr ⟨p, hp, rfl⟩
      · cases hp
    · rw [mark?_of_isNamePart hc] at h
      cases h

theorem lexeme?_name_apart {cs left : List Char} {k : Lexeme} (hcs : isName cs = true)
    (hnotes : ∀ p, isNote p = true → p <+: cs → p = cs) (hrest : Parted rest)
    (h : lexeme? wanted (cs ++ rest) = some (k, left)) :
    left = rest ∧ k.chars = cs ∧ k.isFormed = true := by
  cases hname : wanted .name with
  | true =>
      rw [lexeme?_word hcs hname hrest] at h
      cases h
      exact ⟨rfl, chars_word cs, isFormed_word hcs⟩
  | false =>
      cases cs with
      | nil => cases hcs
      | cons c cs =>
          simp only [isName, Bool.and_eq_true] at hcs
          have hpart : isNamePart c = true := (isNamePart_iff c).2 (.inl hcs.1)
          rw [List.cons_append] at h
          rcases lexeme?_not_name hpart (by simp [hname]) h with ⟨hd, -⟩ | ⟨p, hp, rfl⟩
          · rw [not_isDigit_of_isNameStart hcs.1] at hd
            cases hd
          · obtain ⟨hnote, happend⟩ := note?_eq_some hp
            rw [← List.cons_append] at happend
            have hpre := prefix_of_append_eq (not_isBlank_of_isNote hnote) hrest happend
            have hwhole := hnotes p hnote hpre
            subst hwhole
            refine ⟨(List.append_cancel_left happend).symm, ?_, ?_⟩
            · simp [Lexeme.chars]
            · simpa [Lexeme.isFormed] using hnote

theorem lexeme?_numeral_apart {n : Numeral} {left : List Char} {k : Lexeme}
    (hn : n.isWritten = true) (hrest : Parted rest)
    (h : lexeme? wanted (n.chars ++ rest) = some (k, left)) :
    left = rest ∧ k.chars = n.chars ∧ k.isFormed = true := by
  cases hwanted : wanted .numeral with
  | true =>
      rw [lexeme?_numeral hn hwanted hrest] at h
      cases h
      exact ⟨rfl, rfl, hn⟩
  | false =>
      obtain ⟨c, cs, hchars, hc⟩ := isWritten_cons hn
      have hname := not_isNameStart_of_isDigit hc
      rw [hchars, List.cons_append] at h
      rcases lexeme?_not_name (isNamePart_of_isDigit hc) (by simp [hname]) h with
        ⟨-, hno, -⟩ | ⟨p, hp, -⟩
      · rw [hwanted] at hno
        cases hno
      · obtain ⟨hnote, happend⟩ := note?_eq_some hp
        obtain ⟨d, ds, rfl, hd⟩ := isNote_cons hnote
        rw [List.cons_append, List.cons.injEq] at happend
        rw [happend.1, isNameStart_of_isPitch hd] at hname
        cases hname

theorem isNote_cases {p : List Char} (h : isNote p = true) :
    isName p = true ∨ ∃ a c, p = [a, '#', c] ∧ isPitch a = true := by
  unfold isNote at h
  split at h
  · next a b =>
    simp only [Bool.and_eq_true] at h
    exact .inl (by simp [isName, isNameStart_of_isPitch h.1, isNamePart_of_isDigit h.2])
  · next a b c =>
    simp only [Bool.and_eq_true, Bool.or_eq_true, beq_iff_eq] at h
    obtain ⟨⟨ha, rfl | rfl⟩, hc⟩ := h
    · exact .inr ⟨a, c, rfl, ha⟩
    · have hb : isNamePart 'b' = true := by decide
      exact .inl (by simp [isName, isNameStart_of_isPitch ha, isNamePart_of_isDigit hc, hb])
  · cases h

/-- No note starts another. -/
theorem eq_of_isNote_prefix {p q : List Char} (hp : isNote p = true) (hq : isNote q = true)
    (h : p <+: q) : p = q := by
  obtain ⟨more, rfl⟩ := h
  have hread := note?_append hq []
  rw [List.append_nil, note?_append hp more] at hread
  exact (Prod.mk.inj (Option.some.inj hread)).1

/-- A sharp note is cut after its letter where a name is looked for; any other word of the
text is taken whole. -/
theorem lexeme?_note_apart {p left : List Char} {k : Lexeme} (hp : isNote p = true)
    (hrest : Parted rest) (h : lexeme? wanted (p ++ rest) = some (k, left)) :
    left.head? = some '#' ∨ left = rest ∧ k.chars = p ∧ k.isFormed = true := by
  rcases isNote_cases hp with hname | ⟨a, c, rfl, ha⟩
  · exact .inr (lexeme?_name_apart hname (fun q hq hpre => eq_of_isNote_prefix hq hp hpre) hrest h)
  · have hstart := isNameStart_of_isPitch ha
    have hsharp : isNamePart '#' = false := by decide
    cases hname : wanted .name with
    | true =>
        simp [lexeme?, hstart, hname, hsharp] at h
        exact .inl (by simp [← h.2])
    | false =>
        rw [List.cons_append] at h
        rcases lexeme?_not_name ((isNamePart_iff a).2 (.inl hstart)) (by simp [hname]) h with
          ⟨hd, -⟩ | ⟨q, hq, rfl⟩
        · rw [not_isDigit_of_isNameStart hstart] at hd
          cases hd
        · have hread := note?_append hp rest
          rw [List.cons_append, hq] at hread
          cases hread
          exact .inr ⟨rfl, by simp [Lexeme.chars], by simpa [Lexeme.isFormed] using hp⟩

theorem not_isNote_prefix_text (k : Keyword) {p : List Char} (hp : isNote p = true) :
    ¬ p <+: k.text.toList := by
  rintro ⟨more, hmore⟩
  have hread := note?_append hp more
  rw [hmore] at hread
  have hnone : note? k.text.toList = none := by cases k <;> decide
  rw [hnone] at hread
  cases hread

theorem lexeme?_mark_apart {m : Mark} {left : List Char} {k : Lexeme} (hrest : Parted rest)
    (h : lexeme? wanted (m.text.toList ++ rest) = some (k, left)) :
    left = rest ∧ k = .mark m ∨
      ∃ j, m.shortened? = some j ∧ wanted (.mark m) = false ∧ wanted (.mark j) = true ∧
        k = .mark j ∧ left = '=' :: rest := by
  cases hwanted : wanted (.mark m) with
  | true =>
      rw [lexeme?_mark hwanted hrest] at h
      cases h
      exact .inl ⟨rfl, rfl⟩
  | false =>
      obtain ⟨c, cs, hm, hc, -⟩ := text_cons m
      have hread := mark?_parted wanted m.text.toList hrest
      rw [hm, List.cons_append, lexeme?_of_not_part hc, ← List.cons_append, ← hm, hread] at h
      rw [Option.map_map] at h
      obtain ⟨⟨j, more⟩, hj, heq⟩ := Option.map_eq_some_iff.1 h
      cases heq
      obtain ⟨hshort, rfl, hwant⟩ := mark?_text_of_not_wanted hwanted hj
      exact .inr ⟨j, hshort, rfl, hwant, rfl, rfl⟩

/-- What is cut from a text at a word that stands apart: the whole word, the letter of a
sharp note or the first half of a mark. -/
theorem lexeme?_apart {l k : Lexeme} {left : List Char} (hl : l.StandsApart) (hrest : Parted rest)
    (h : lexeme? wanted (l.chars ++ rest) = some (k, left)) :
    (left = rest ∧ k.chars = l.chars ∧ k.isFormed = true) ∨ left.head? = some '#' ∨
      ∃ m j, m.shortened? = some j ∧ wanted (.mark m) = false ∧ wanted (.mark j) = true ∧
        k = .mark j ∧ left = '=' :: rest := by
  cases l with
  | name x => exact .inl (lexeme?_name_apart hl.1 hl.2 hrest h)
  | numeral n => exact .inl (lexeme?_numeral_apart hl.1 hrest h)
  | note p => exact (lexeme?_note_apart hl hrest h).symm.imp_right .inl
  | keyword k =>
      refine .inl (lexeme?_name_apart (isName_text k) (fun p hp hpre => ?_) hrest h)
      exact absurd hpre (not_isNote_prefix_text k hp)
  | mark m =>
      rcases lexeme?_mark_apart hrest h with ⟨rfl, rfl⟩ | ⟨j, hj⟩
      · exact .inl ⟨rfl, rfl, rfl⟩
      · exact .inr (.inr ⟨m, j, hj⟩)

theorem lexeme?_sharp (cs : List Char) : lexeme? wanted ('#' :: cs) = none := by
  rw [lexeme?_of_not_part (by decide), mark?_eq_none (by decide)]
  rfl

theorem lexeme?_no_mark {c : Char} (hc : isNamePart c = false)
    (h : ∀ m, wanted (.mark m) = false) (cs : List Char) : lexeme? wanted (c :: cs) = none := by
  have hmark : mark? wanted (c :: cs) = none :=
    List.findSome?_eq_none_iff.2 fun m _ => by simp [h m]
  rw [lexeme?_of_not_part hc, hmark]
  rfl

theorem isFormed_cons {l : Lexeme} (h : l.isFormed = true) :
    ∃ c cs, l.chars = c :: cs ∧ Text.isBlank c = false ∧ (c = '/' → cs = []) := by
  have part {c : Char} (cs : List Char) (hc : isNamePart c = true) :
      Text.isBlank c = false ∧ (c = '/' → cs = []) := by
    refine ⟨not_isBlank_of_isNamePart hc, ?_⟩
    rintro rfl
    have hslash : isNamePart '/' = false := by decide
    rw [hslash] at hc
    cases hc
  have start {cs : List Char} (hname : isName cs = true) :
      ∃ c ds, cs = c :: ds ∧ Text.isBlank c = false ∧ (c = '/' → ds = []) := by
    cases cs with
    | nil => cases hname
    | cons c cs =>
        simp only [isName, Bool.and_eq_true] at hname
        exact ⟨c, cs, rfl, part cs ((isNamePart_iff c).2 (.inl hname.1))⟩
  cases l with
  | name x => exact start h
  | numeral n =>
      obtain ⟨c, cs, hn, hc⟩ := isWritten_cons h
      exact ⟨c, cs, hn, part cs (isNamePart_of_isDigit hc)⟩
  | note p =>
      obtain ⟨c, cs, hp, hc⟩ := isNote_cons h
      exact ⟨c, cs, hp, part cs ((isNamePart_iff c).2 (.inl (isNameStart_of_isPitch hc)))⟩
  | keyword k => exact start (isName_text k)
  | mark m =>
      obtain ⟨c, cs, hm, -, hblank, hslash, -⟩ := text_cons m
      exact ⟨c, cs, hm, hblank, hslash⟩

theorem skip_blanks {blanks : List Char} (h : ∀ c ∈ blanks, Text.isBlank c = true) (p : Place)
    (cs : List Char) : skip false p (blanks ++ cs) = skip false (p.after blanks) cs := by
  induction blanks generalizing p with
  | nil => rfl
  | cons c blanks ih =>
      have hc := h c List.mem_cons_self
      simp only [List.cons_append, skip, hc]
      exact ih (fun d hd => h d (List.mem_cons_of_mem _ hd)) (p.next c)

/-- Nothing of a word is passed over: the sign of division starts no comment. -/
theorem skip_word {l : Lexeme} (h : l.isFormed = true) (p : Place) (hrest : Parted rest) :
    skip false p (l.chars ++ rest) = (p, l.chars ++ rest) := by
  obtain ⟨c, cs, hl, hblank, hslash⟩ := isFormed_cons h
  have hcomment : (c = '/' && (cs ++ rest).head? == some '/') = false := by
    rw [Bool.and_eq_false_iff]
    by_cases hc : c = '/'
    · refine .inr ?_
      rw [hslash hc]
      cases rest with
      | nil => rfl
      | cons d rest =>
          have hd := hrest d rfl
          simp only [List.nil_append, List.head?_cons, beq_eq_false_iff_ne, ne_eq,
            Option.some.injEq]
          rintro rfl
          revert hd
          decide
    · exact .inl (by simp [hc])
  simp only [hl, List.cons_append, skip, hblank, hcomment, Bool.false_eq_true, if_false]

end Scan
end TuneScript
