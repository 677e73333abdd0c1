import TuneScript.Proofs.Layouts
import TuneScript.Proofs.Respelling

/-!
Texts with other notes in the place of theirs. To find the end of a word at most one more character
is looked at, and there all notes look alike: they start with a letter of the same class. So every
note of an accepted text may be replaced by any other note: the words before and behind are cut as
they were, and what is read is the same program with the notes respelled.
-/

namespace TuneScript

namespace Scan

variable {wanted : Terminal → Bool} {rest rest' : List Char}

/-- Texts that look alike from the end of a word: their first characters are the same, or both
start a note. -/
inductive Kindred : List Char → List Char → Prop where
  | refl (cs : List Char) : Kindred cs cs
  | head {c : Char} (cs ds : List Char) (hc : c ≠ '.') : Kindred (c :: cs) (c :: ds)
  | pitches {c d : Char} (cs ds : List Char) (hc : isPitch c = true) (hd : isPitch d = true) :
      Kindred (c :: cs) (d :: ds)

theorem isNamePart_of_isPitch {c : Char} (h : isPitch c = true) : isNamePart c = true := by
  rw [isNamePart_iff]
  exact .inl (isNameStart_of_isPitch h)

theorem not_isPitch_of_not_part {c : Char} (h : isNamePart c = false) : isPitch c = false := by
  rw [Bool.eq_false_iff]
  intro hpitch
  rw [isNamePart_of_isPitch hpitch] at h
  cases h

theorem Stops.kindred {p : Char → Bool} (h : Stops p rest) (hk : Kindred rest rest')
    (hpitches : ∀ c d, isPitch c = true → isPitch d = true → p c = p d) : Stops p rest' := by
  cases hk with
  | refl => exact h
  | head cs ds hc => exact h
  | pitches cs ds hc hd =>
      intro b hb
      cases hb
      rw [← hpitches _ _ hc hd]
      exact h _ rfl

theorem NoFraction.kindred (h : NoFraction rest) (hk : Kindred rest rest') :
    NoFraction rest' := by
  cases hk with
  | refl => exact h
  | head cs ds hc =>
      intro b bs heq
      cases heq
      exact absurd rfl hc
  | pitches cs ds hc hd =>
      intro b bs heq
      cases heq
      cases hd

theorem EndsBefore.kindred {n : Numeral} (h : EndsBefore n rest) (hk : Kindred rest rest') :
    EndsBefore n rest' := by
  refine ⟨h.whole, h.fraction, h.stops.kindred hk fun c d hc hd => ?_,
    fun hn => (h.noFraction hn).kindred hk⟩
  rw [not_isDigit_of_isNameStart (isNameStart_of_isPitch hc),
    not_isDigit_of_isNameStart (isNameStart_of_isPitch hd)]

/-- A run that is at most one character longer than what stands before. -/
theorem after?_kindred {ps qs : List Char} (hlength : ps.length ≤ qs.length + 1)
    (hps : ∀ c ∈ ps, isPitch c = false) (hk : Kindred rest rest') :
    (after? ps (qs ++ rest)).isSome = (after? ps (qs ++ rest')).isSome := by
  induction qs generalizing ps with
  | nil =>
      cases ps with
      | nil => rfl
      | cons p ps =>
          obtain rfl : ps = [] :=
            List.length_eq_zero_iff.1 (Nat.le_zero.1 (Nat.le_of_succ_le_succ hlength))
          cases hk with
          | refl => rfl
          | @head c cs ds hc =>
              simp only [List.nil_append, after?]
              split <;> rfl
          | @pitches c d cs ds hc hd =>
              have hne {b : Char} (hb : isPitch b = true) : p ≠ b := by
                rintro rfl
                rw [hps p List.mem_cons_self] at hb
                cases hb
              simp only [List.nil_append, after?, if_neg (hne hc), if_neg (hne hd)]
  | cons q qs ih =>
      cases ps with
      | nil => rfl
      | cons p ps =>
          simp only [List.cons_append, after?]
          split
          · refine ih ?_ fun c hc => hps c (List.mem_cons_of_mem p hc)
            simpa using hlength
          · rfl

/-- A mark has one or two characters. -/
theorem length_text_le (m n : Mark) : m.text.toList.length ≤ n.text.toList.length + 1 := by
  obtain ⟨c, cs, hm, -, -, -, hcs⟩ := text_cons m
  obtain ⟨d, ds, hn, -⟩ := text_cons n
  rw [hm, hn]
  rcases hcs with rfl | rfl <;> simp

theorem not_isPitch_text (m : Mark) : ∀ c ∈ m.text.toList, isPitch c = false := by
  obtain ⟨d, ds, hm, hd, -, -, hds⟩ := text_cons m
  rw [hm, List.forall_mem_cons]
  refine ⟨not_isPitch_of_not_part hd, fun c hc => ?_⟩
  rcases hds with rfl | rfl
  · cases hc
  · cases List.mem_singleton.1 hc
    decide

theorem mark?_kindred {m : Mark} (h : mark? wanted (m.text.toList ++ rest) = some (m, rest))
    (hk : Kindred rest rest') : mark? wanted (m.text.toList ++ rest') = some (m, rest') := by
  obtain ⟨before, k, after, hall, hfound, hbefore⟩ := List.findSome?_eq_some_iff.1 h
  refine List.findSome?_eq_some_iff.2 ⟨before, k, after, hall, ?_, fun j hj => ?_⟩
  · split at hfound
    · next hwanted =>
      obtain ⟨left, -, heq⟩ := Option.map_eq_some_iff.1 hfound
      cases heq
      rw [if_pos hwanted, after?_append]
      rfl
    · cases hfound
  · have hnone := hbefore j hj
    split at hnone
    · next hwanted =>
      have hsame := after?_kindred (length_text_le j m) (not_isPitch_text j) hk
      rw [Option.map_eq_none_iff.1 hnone] at hsame
      rw [if_pos hwanted, Option.isNone_iff_eq_none.1 (Option.isSome_eq_false_iff.1 hsame.symm)]
      rfl
    · next hwanted => rw [if_neg hwanted]

/-- A name ends where it did. -/
theorem span_kindred {w : List Char} (htake : (w ++ rest).takeWhile isNamePart = w)
    (hdrop : (w ++ rest).dropWhile isNamePart = rest) (hk : Kindred rest rest') :
    (w ++ rest').takeWhile isNamePart = w ∧ (w ++ rest').dropWhile isNamePart = rest' := by
  have hparts : ∀ d ∈ w, isNamePart d = true := by
    rw [← htake]
    exact List.all_eq_true.1 List.all_takeWhile
  have hstops : Stops isNamePart rest := by
    rw [← hdrop]
    exact stops_dropWhile _ _
  refine span_stops hparts (hstops.kindred hk fun c d hc hd => ?_)
  rw [isNamePart_of_isPitch hc, isNamePart_of_isPitch hd]

/-- The same word is found before texts that look alike. -/
theorem lexeme?_kindred {l : Lexeme} (h : lexeme? wanted (l.chars ++ rest) = some (l, rest))
    (hk : Kindred rest rest') : lexeme? wanted (l.chars ++ rest') = some (l, rest') := by
  obtain ⟨c, w, hchars⟩ := chars_cons h
  rw [hchars, List.cons_append] at h ⊢
  by_cases hname : (isNameStart c && wanted .name) = true
  · rw [lexeme?, if_pos hname] at h ⊢
    simp only [Option.some.injEq, Prod.mk.injEq] at h
    obtain ⟨rfl, hdrop⟩ := h
    rw [chars_word] at hchars
    have htake : (w ++ rest).takeWhile isNamePart = w := List.tail_eq_of_cons_eq hchars
    obtain ⟨htake', hdrop'⟩ := span_kindred htake hdrop hk
    rw [htake', hdrop', htake]
  · by_cases hdigit : (Text.isDigit c && wanted .numeral) = true
    · rw [lexeme?, if_neg hname, if_pos hdigit] at h ⊢
      have hends := endsBefore_numeral (c :: (w ++ rest))
      simp only [Option.some.injEq, Prod.mk.injEq] at h
      obtain ⟨rfl, hrest⟩ := h
      rw [Lexeme.chars] at hchars
      rw [hrest] at hends
      have hread := numeral_append (hends.kindred hk)
      rw [hchars, List.cons_append] at hread
      simp only [hread]
    · cases hpart : isNamePart c with
      | true =>
          cases hk with
          | refl => exact h
          | @head b cs ds _ | @pitches b _ cs ds _ _ =>
              rw [← List.nil_append (b :: cs)] at h
              exact lexeme?_cut_note hchars h ds hname hdigit hpart
      | false =>
          rw [lexeme?_of_not_part hpart] at h ⊢
          obtain ⟨found, hmark, heq⟩ := Option.map_eq_some_iff.1 h
          obtain ⟨m, left⟩ := found
          cases heq
          rw [Lexeme.chars] at hchars
          rw [← List.cons_append, ← hchars] at hmark ⊢
          rw [mark?_kindred hmark hk]
          rfl

/-- No word starts with a point. -/
theorem lexeme?_point (cs : List Char) : lexeme? wanted ('.' :: cs) = none := by
  rw [lexeme?_of_not_part (by decide), mark?_eq_none (by decide)]
  rfl

/-- A note is looked for where a note was found, and no name is. -/
theorem wanted_of_note {pitch : String}
    (h : lexeme? wanted (pitch.toList ++ rest) = some (.note pitch, rest)) :
    isNote pitch.toList = true ∧ wanted .note = true ∧ wanted .name = false := by
  obtain ⟨c, w, hchars⟩ : ∃ c w, pitch.toList = c :: w := chars_cons (l := .note pitch) h
  rw [hchars, List.cons_append, lexeme?] at h
  split at h
  · simp only [word, Option.some.injEq, Prod.mk.injEq] at h
    split at h
    · split at h <;> cases h.1
    · cases h.1
  · next hname =>
    split at h
    · cases h
    · split at h
      · next found left hfound =>
        cases h
        split at hfound
        · next hwanted =>
          obtain ⟨hnote, -⟩ := note?_eq_some hfound
          rw [String.toList_ofList] at hchars ⊢
          obtain ⟨d, ds, hd, hpitch⟩ := isNote_cons hnote
          cases hd.symm.trans hchars
          rw [isNameStart_of_isPitch hpitch, Bool.true_and, Bool.not_eq_true] at hname
          exact ⟨hnote, hwanted, hname⟩
        · cases hfound
      · obtain ⟨found, -, heq⟩ := Option.map_eq_some_iff.1 h
        cases heq

theorem Kindred.head?_slash (hk : Kindred rest rest') (w : List Char)
    (h : (w ++ rest').head? = some '/') : (w ++ rest).head? = some '/' := by
  cases w with
  | cons c w => exact h
  | nil =>
      cases hk with
      | refl | head _ _ _ => exact h
      | pitches cs ds hc hd =>
          cases h
          cases hd

/-- Where a note starts nothing is passed over. -/
theorem skip_pitch {c : Char} (hc : isPitch c = true) (p : Place) (cs : List Char) :
    skip false p (c :: cs) = (p, c :: cs) := by
  have hblank := not_isBlank_of_isNamePart (isNamePart_of_isPitch hc)
  have hslash : c ≠ '/' := by
    rintro rfl
    cases hc
  simp [skip, hblank, hslash]

theorem not_inComment {inComment : Bool} {p q : Place} {c : Char} {cs : List Char}
    (h : skip inComment p (c :: cs) = (q, c :: cs)) : inComment = false := by
  cases inComment with
  | false => rfl
  | true =>
      have hle := length_skip_le (c != '\n') (p.next c) cs
      rw [skip, if_pos rfl] at h
      rw [h, List.length_cons] at hle
      omega

end Scan

/-- What stands for a note in the place that was left open, which no note is spelled like. -/
def instead (note : String) (pitch : String) : String := if pitch = "" then note else pitch

/-- A note that is a note again when it is respelled; any other word is left as it is. -/
def Lexeme.Notes (g : String → String) : Lexeme → Prop
  | note pitch => Scan.isNote (g pitch).toList = true
  | _ => True

theorem Lexeme.Notes.instead_eq {pitch : String} (h : (Lexeme.note pitch).Notes id)
    (note : String) : instead note pitch = pitch := by
  refine if_neg fun hempty => ?_
  rw [hempty] at h
  cases h

theorem Lexeme.Notes.respell_instead {l : Lexeme} (h : l.Notes id) (note : String) :
    l.respell (instead note) = l := by
  cases l with
  | note pitch => exact congrArg Lexeme.note (h.instead_eq note)
  | _ => rfl

theorem Lexeme.Notes.instead {l : Lexeme} (h : l.Notes id) (note : String) :
    l.Notes (instead note) := by
  cases l with
  | note pitch =>
      change Scan.isNote (TuneScript.instead note pitch).toList = true
      rw [h.instead_eq note]
      exact h
  | _ => trivial

namespace Scan

variable {f g : String → String} {wanted : Terminal → Bool} {l : Lexeme} {rest rest' : List Char}
  (hcut : lexeme? wanted ((l.respell f).chars ++ rest) = some (l.respell f, rest))
  (hg : l.Notes g) (hk : Kindred rest rest')

include hcut hg hk

/-- A note is cut where another one was, and any other word is cut again. -/
theorem lexeme?_respell :
    lexeme? wanted ((l.respell g).chars ++ rest') = some (l.respell g, rest') := by
  cases l with
  | note pitch =>
      obtain ⟨-, hnote, hname⟩ := wanted_of_note hcut
      exact lexeme?_note hg hnote hname rest'
  | _ => exact lexeme?_kindred hcut hk

/-- The gap before a word is passed over as it was. -/
theorem skip_respell {gap : List Char} {start place : Place}
    (hskip : skip false start (gap ++ ((l.respell f).chars ++ rest)) =
      (place, (l.respell f).chars ++ rest)) (p : Place) :
    skip false p (gap ++ ((l.respell g).chars ++ rest')) =
      (p.after gap, (l.respell g).chars ++ rest') := by
  obtain ⟨inside, hinside⟩ := skip_gap hskip
  obtain ⟨c, w, hchars⟩ := chars_cons hcut
  rw [hinside, hchars, List.cons_append] at hskip
  rw [hinside]
  by_cases hl : l.terminal = .note
  · cases l with
    | note pitch =>
        obtain ⟨d, v, hd, hpitch⟩ := isNote_cons hg
        change skip inside _ ((g pitch).toList ++ rest') = (_, (g pitch).toList ++ rest')
        rw [not_inComment hskip, hd]
        exact skip_pitch hpitch _ _
    | _ => cases hl
  · rw [Lexeme.respell_of_terminal hl] at hchars ⊢
    rw [hchars, List.cons_append]
    exact skip_start hskip (hk.head?_slash w) _

end Scan

namespace Reader

variable {dialect : Dialect} {f g : String → String}

/-- The text that consists of these words with the gaps before them. -/
def unite (words : List (List Char × Lexeme)) (tail : List Char) : List Char :=
  words.foldr (fun word rest => word.1 ++ (word.2.chars ++ rest)) tail

def respellWords (f : String → String) (words : List (List Char × Lexeme)) :
    List (List Char × Lexeme) :=
  words.map fun word => (word.1, word.2.respell f)

theorem unite_respellWords_cons (gap tail : List Char) (l : Lexeme)
    (words : List (List Char × Lexeme)) : unite (respellWords f ((gap, l) :: words)) tail =
      gap ++ ((l.respell f).chars ++ unite (respellWords f words) tail) := rfl

theorem Cuts.eq_unite {m : Machine} {text tail : List Char} {words : List (List Char × Lexeme)}
    (h : Cuts dialect m text words tail) : text = unite words tail := by
  induction h with
  | done _ => rfl
  | word _ _ _ _ ih => rw [ih]; rfl

/-- The first word of a text and what is cut behind it. -/
theorem Cuts.uncons {m : Machine} {text tail gap : List Char} {l : Lexeme}
    {words : List (List Char × Lexeme)} (h : Cuts dialect m text ((gap, l) :: words) tail) :
    ∃ n start place,
      Scan.skip false start (gap ++ (l.chars ++ unite words tail)) =
        (place, l.chars ++ unite words tail) ∧
      Scan.lexeme? (m.follow.admits dialect) (l.chars ++ unite words tail) =
        some (l, unite words tail) ∧
      m.step l = some n ∧ Cuts dialect n (unite words tail) words tail := by
  cases h with
  | word hskip hcut hstep hrest =>
      obtain rfl := hrest.eq_unite
      exact ⟨_, _, _, hskip, hcut, hstep, hrest⟩

/-- From the end of a word, the rest of a text looks as it does with other notes. -/
theorem Cuts.kindred {m : Machine} {text tail : List Char} {words : List (List Char × Lexeme)}
    (h : Cuts dialect m text (respellWords f words) tail) (hg : ∀ word ∈ words, word.2.Notes g) :
    Scan.Kindred (unite (respellWords f words) tail) (unite (respellWords g words) tail) := by
  cases words with
  | nil => exact .refl _
  | cons word words =>
      obtain ⟨gap, l⟩ := word
      obtain ⟨n, start, place, hskip, hcut, -, -⟩ := h.uncons
      rw [unite_respellWords_cons, unite_respellWords_cons]
      cases gap with
      | cons b gap =>
          refine .head _ _ fun hb => ?_
          subst hb
          -- a point would not have been passed over
          have hblank : Text.isBlank '.' = false := by decide
          have hlength := congrArg (fun found => found.2.length) hskip
          simp [Scan.skip, hblank] at hlength
          omega
      | nil =>
          by_cases hl : l.terminal = .note
          · cases l with
            | note pitch =>
                obtain ⟨hnote, -⟩ := Scan.wanted_of_note hcut
                obtain ⟨a, v, ha, hpitch⟩ := Scan.isNote_cons hnote
                obtain ⟨b, u, hb, hpitch'⟩ := Scan.isNote_cons (hg _ List.mem_cons_self)
                change Scan.Kindred ((f pitch).toList ++ _) ((g pitch).toList ++ _)
                rw [ha, hb]
                exact .pitches _ _ hpitch hpitch'
            | _ => cases hl
          · rw [Lexeme.respell_of_terminal hl] at hcut ⊢
            rw [Lexeme.respell_of_terminal hl]
            obtain ⟨c, w, hchars⟩ := Scan.chars_cons hcut
            rw [hchars] at hcut ⊢
            refine .head _ _ fun hc => ?_
            rw [hc, List.cons_append, Scan.lexeme?_point] at hcut
            cases hcut

theorem readFrom_respell_done {m : Machine} {tail : List Char}
    (h : Cuts dialect (m.respell f) tail [] tail) {source : List Char}
    {last last' : Option Token} {start : Place} {p : Program} (hlast' : overlong? last' = none)
    (hread : readFrom dialect source (m.respell f) last start tail = .ok p)
    (source' : List Char) (start' : Place) :
    ∃ q : Program, p = q.respell f ∧
      readFrom dialect source' (m.respell g) last' start' tail = .ok (q.respell g) := by
  cases h with
  | done hskip =>
      obtain ⟨place, hskip'⟩ := Scan.skip_anywhere hskip start'
      obtain ⟨_, hskip⟩ := Scan.skip_anywhere hskip start
      obtain ⟨hlast, -⟩ := readFrom_eq_ok_iff.1 hread
      rw [readFrom_done hskip, hlast, Machine.finish?_respell] at hread
      rw [readFrom_done hskip', hlast', Machine.finish?_respell]
      cases hq : m.finish? with
      | none =>
          rw [hq] at hread
          cases hread
      | some q =>
          rw [hq] at hread
          cases hread
          exact ⟨q, rfl, rfl⟩

/-- Reading on with other notes. The induction is on the words that are still to come; `m` is what
has been read of them, with the notes left open. -/
theorem readFrom_respell {m : Machine} {tail : List Char} {words : List (List Char × Lexeme)}
    (h : Cuts dialect (m.respell f) (unite (respellWords f words) tail) (respellWords f words) tail)
    (hg : ∀ word ∈ words, word.2.Notes g) {source : List Char} {last last' : Option Token}
    {start : Place} {p : Program} (hlast' : overlong? last' = none)
    (hread : readFrom dialect source (m.respell f) last start (unite (respellWords f words) tail) =
      .ok p) (source' : List Char) (start' : Place) :
    ∃ q : Program, p = q.respell f ∧
      readFrom dialect source' (m.respell g) last' start' (unite (respellWords g words) tail) =
        .ok (q.respell g) := by
  induction words generalizing m last last' start start' with
  | nil => exact readFrom_respell_done h hlast' hread source' start'
  | cons word words ih =>
      obtain ⟨gap, l⟩ := word
      obtain ⟨hl, hwords⟩ := List.forall_mem_cons.1 hg
      obtain ⟨n, _, _, hskip, hcut, hstep, hrest⟩ := h.uncons
      have hk := hrest.kindred hwords
      rw [unite_respellWords_cons] at hread ⊢
      obtain ⟨place, hlong, hread⟩ := readFrom_of_cut hskip hcut hstep hread
      rw [Machine.step_respell] at hstep
      obtain ⟨k, hopen, rfl⟩ := Option.map_eq_some_iff.1 hstep
      have hlong' (q : Place) : overlong? (some ⟨l.respell g, q⟩) = none := by
        rw [overlong?_place _ q place]
        cases l with
        | numeral _ => exact hlong
        | _ => rfl
      obtain ⟨q, hq, hread'⟩ := ih hrest hwords (hlong' (start'.after gap)) hread
        ((start'.after gap).after (l.respell g).chars)
      refine ⟨q, hq, readFrom_eq_ok_iff.2 ⟨hlast', .inr ⟨_, _, _, _, _,
        Scan.skip_respell hcut hl hk hskip start', Scan.lexeme?_respell hcut hl hk, ?_, hread'⟩⟩⟩
      rw [Machine.step_respell, hopen]
      rfl

/-- Every note that is cut from a text is one. -/
theorem Cuts.notes {m : Machine} {text tail : List Char} {words : List (List Char × Lexeme)}
    (h : Cuts dialect m text words tail) : ∀ word ∈ words, word.2.Notes id := by
  induction h with
  | done _ => exact List.forall_mem_nil _
  | @word _ _ l _ _ _ _ _ _ _ hcut _ _ ih =>
      refine List.forall_mem_cons.2 ⟨?_, ih⟩
      cases l with
      | note pitch => exact (Scan.wanted_of_note hcut).1
      | _ => trivial

theorem respellWords_instead {words : List (List Char × Lexeme)}
    (h : ∀ word ∈ words, word.2.Notes id) (note : String) :
    respellWords (instead note) words = words := by
  refine (List.map_congr_left fun word hword => ?_).trans (List.map_id words)
  exact Prod.ext rfl ((h word hword).respell_instead note)

/-- One note of an accepted text replaced by another one: the new text is accepted. Both programs
are spelled from one, in which the place of the note is left open. -/
theorem read_replaced {text : String} {p : Program} (hread : read dialect text = .ok p)
    {before after : List (List Char × Lexeme)} {gap tail : List Char} {note other : String}
    (hcuts : Cuts dialect .initial text.toList (before ++ (gap, .note note) :: after) tail)
    (hother : Scan.isNote other.toList = true) :
    ∃ q : Program, p = q.respell (instead note) ∧
      read dialect (String.ofList (unite (before ++ (gap, .note other) :: after) tail)) =
        .ok (q.respell (instead other)) := by
  obtain ⟨hbefore, hrest⟩ := List.forall_mem_append.1 hcuts.notes
  obtain ⟨-, hafter⟩ := List.forall_mem_cons.1 hrest
  have hspelled (x : String) : respellWords (instead x) (before ++ (gap, .note "") :: after) =
      before ++ (gap, .note x) :: after := by
    have hb := respellWords_instead hbefore x
    have ha := respellWords_instead hafter x
    rw [respellWords] at ha hb ⊢
    rw [List.map_append, List.map_cons, ha, hb]
    rfl
  have hnotes : ∀ word ∈ before ++ (gap, .note "") :: after, word.2.Notes (instead other) := by
    refine List.forall_mem_append.2 ⟨fun word h => (hbefore word h).instead other,
      List.forall_mem_cons.2 ⟨hother, fun word h => (hafter word h).instead other⟩⟩
  have htext := hcuts.eq_unite
  rw [read, htext] at hread
  rw [htext, ← hspelled note] at hcuts
  rw [← hspelled note] at hread
  have hlast : overlong? none = none := rfl
  obtain ⟨q, hq, hreplaced⟩ := readFrom_respell (m := .initial) hcuts hnotes hlast hread
    (unite (before ++ (gap, .note other) :: after) tail) .first
  refine ⟨q, hq, ?_⟩
  rw [hspelled] at hreplaced
  rw [read, String.toList_ofList]
  exact hreplaced

end Reader
end TuneScript
