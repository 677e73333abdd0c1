import TuneScript.Proofs.Completions
import TuneScript.Proofs.Words

/-!
A text is refused at the first place from which no program goes on. What stands before that place
is cut into the same words whatever follows, once a line feed ends a comment or a word that
may be open there; so with the words that end what the machine has read it makes a program.
-/

namespace TuneScript

namespace Place

/-- One place comes before another in the text. -/
def Before (p q : Place) : Prop := p.line < q.line ∨ p.line = q.line ∧ p.column < q.column

theorem before_next (p : Place) (c : Char) : p.Before (p.next c) := by
  unfold next
  split
  · exact .inl (Nat.lt_succ_self p.line)
  · exact .inr ⟨rfl, Nat.lt_succ_self p.column⟩

theorem Before.trans {p q r : Place} (h : p.Before q) (h' : q.Before r) : p.Before r := by
  unfold Before at *
  omega

theorem before_after (p : Place) (c : Char) (cs : List Char) : p.Before (p.after (c :: cs)) := by
  induction cs generalizing p c with
  | nil => exact before_next p c
  | cons d cs ih => exact (before_next p c).trans (ih (p.next c) d)

theorem after_ne (p : Place) (c : Char) (cs : List Char) : p.after (c :: cs) ≠ p := by
  intro h
  have hbefore := before_after p c cs
  rw [h] at hbefore
  unfold Before at hbefore
  omega

/-- How many characters stand between a place and the place looked for. -/
def index? (target p : Place) : List Char → Option Nat
  | [] => if p = target then some 0 else none
  | c :: cs => if p = target then some 0 else (index? target (p.next c) cs).map (· + 1)

/-- Places are all different, so each is found again. -/
theorem index?_after (p : Place) (cs rest : List Char) :
    index? (p.after cs) p (cs ++ rest) = some cs.length := by
  induction cs generalizing p with
  | nil => cases rest <;> exact if_pos rfl
  | cons c cs ih =>
      rw [List.cons_append, index?, if_neg (after_ne p c cs).symm]
      exact congrArg (Option.map (· + 1)) (ih (p.next c))

end Place

namespace Scan

variable {p : Char → Bool} {wanted : Terminal → Bool} {cs pre post more rest : List Char}

/-- The text does not go on with a character of the class. -/
def Stops (p : Char → Bool) (cs : List Char) : Prop := ∀ c ∈ cs.head?, p c = false

theorem stops_dropWhile (p : Char → Bool) (cs : List Char) : Stops p (cs.dropWhile p) := by
  intro c hc
  have h := List.head?_dropWhile_not p cs
  rw [hc] at h
  exact h

theorem Stops.cut {b : Char} (h : Stops p (pre ++ post)) (hp : p b = false) (more : List Char) :
    Stops p (pre ++ b :: more) := by
  cases pre with
  | nil =>
      intro c hc
      cases hc
      exact hp
  | cons d pre => exact h

theorem head?_cut {b c : Char} (hc : c ≠ b) (h : (pre ++ b :: more).head? = some c) :
    (pre ++ post).head? = some c := by
  cases pre with
  | nil =>
      cases h
      exact absurd rfl hc
  | cons d pre => exact h

theorem span_stops (hcs : ∀ c ∈ cs, p c = true) (hrest : Stops p rest) :
    (cs ++ rest).takeWhile p = cs ∧ (cs ++ rest).dropWhile p = rest := by
  have hstop : rest.takeWhile p = [] ∧ rest.dropWhile p = rest := by
    cases rest with
    | nil => exact ⟨rfl, rfl⟩
    | cons c cs => simp [hrest c rfl]
  rw [List.takeWhile_append_of_pos hcs, List.dropWhile_append_of_pos hcs, hstop.1, hstop.2]
  exact ⟨List.append_nil cs, rfl⟩

/-- A character that no word goes on with. -/
def isBreak (b : Char) : Bool := !isNamePart b && b != '.' && b != '='

theorem isBreak_iff {b : Char} : isBreak b = true ↔ isNamePart b = false ∧ b ≠ '.' ∧ b ≠ '=' := by
  simp [isBreak, and_assoc]

theorem isBreak_of_isBlank {b : Char} (hb : Text.isBlank b = true) : isBreak b = true := by
  have hne {c : Char} (hc : Text.isBlank c = false) : b ≠ c := by
    rintro rfl
    rw [hb] at hc
    cases hc
  refine isBreak_iff.2 ⟨?_, hne (by decide), hne (by decide)⟩
  rw [Bool.eq_false_iff]
  exact fun hpart => hne (not_isBlank_of_isNamePart hpart) rfl

theorem not_isDigit_of_isBreak {b : Char} (hb : isBreak b = true) : Text.isDigit b = false := by
  rw [Bool.eq_false_iff]
  intro hdigit
  have hpart := isNamePart_of_isDigit hdigit
  rw [(isBreak_iff.1 hb).1] at hpart
  cases hpart

/-- No point with a digit after it. -/
def NoFraction (cs : List Char) : Prop := ∀ d ds, cs = '.' :: d :: ds → Text.isDigit d = false

theorem NoFraction.cut {b : Char} (h : NoFraction (pre ++ post)) (hb : isBreak b = true)
    (more : List Char) : NoFraction (pre ++ b :: more) := by
  intro d ds heq
  match pre with
  | [] =>
      cases heq
      cases hb
  | [c] =>
      cases heq
      exact not_isDigit_of_isBreak hb
  | c :: d' :: pre =>
      cases heq
      exact h d _ rfl

/-- A numeral goes on as long as it can. -/
structure EndsBefore (n : Numeral) (rest : List Char) : Prop where
  whole : ∀ c ∈ n.whole, Text.isDigit c = true
  fraction : ∀ digits, n.fraction = some digits →
    ∃ d ds, digits = d :: ds ∧ ∀ c ∈ d :: ds, Text.isDigit c = true
  stops : Stops Text.isDigit rest
  noFraction : n.fraction = none → NoFraction rest

theorem endsBefore_numeral (cs : List Char) : EndsBefore (numeral cs).1 (numeral cs).2 := by
  have hdigits : ∀ ds : List Char, ∀ c ∈ ds.takeWhile Text.isDigit, Text.isDigit c = true :=
    fun _ => List.all_eq_true.1 List.all_takeWhile
  have hstops := stops_dropWhile Text.isDigit cs
  unfold numeral
  split
  · next d rest hdrop =>
    split
    · next hd =>
      refine ⟨hdigits cs, fun digits h => ?_, stops_dropWhile _ rest, fun h => by cases h⟩
      cases h
      exact ⟨d, _, rfl, List.forall_mem_cons.2 ⟨hd, hdigits rest⟩⟩
    · next hd =>
      rw [hdrop] at hstops
      refine ⟨hdigits cs, (fun _ h => by cases h), hstops, fun _ d' ds heq => ?_⟩
      cases heq
      exact Bool.not_eq_true _ ▸ hd
  · next rest hrest =>
    exact ⟨hdigits cs, (fun _ h => by cases h), hstops, fun _ d ds heq => (hrest d ds heq).elim⟩

theorem numeral_append {n : Numeral} (h : EndsBefore n rest) :
    numeral (n.chars ++ rest) = (n, rest) := by
  obtain ⟨whole, fraction⟩ := n
  cases fraction with
  | none =>
      obtain ⟨htake, hdrop⟩ := span_stops h.whole h.stops
      simp only [Numeral.chars, numeral, htake, hdrop]
      split
      · next d ds =>
        rw [h.noFraction rfl d ds rfl]
        rfl
      · rfl
  | some digits =>
      obtain ⟨d, ds, rfl, hdigits⟩ := h.fraction digits rfl
      obtain ⟨hd, hds⟩ := List.forall_mem_cons.1 hdigits
      obtain ⟨htake, hdrop⟩ := span_stops hds h.stops
      have hpoint : Stops Text.isDigit ('.' :: d :: (ds ++ rest)) := by
        intro c hc
        cases hc
        decide
      obtain ⟨hwhole, hpast⟩ := span_stops h.whole hpoint
      have hchars : Numeral.chars ⟨whole, some (d :: ds)⟩ ++ rest =
          whole ++ '.' :: d :: (ds ++ rest) := by simp [Numeral.chars]
      simp only [hchars, numeral, hwhole, hpast, hd, htake, hdrop, if_true]

theorem EndsBefore.cut {b : Char} {n : Numeral} (h : EndsBefore n (pre ++ post))
    (hb : isBreak b = true) (more : List Char) : EndsBefore n (pre ++ b :: more) :=
  ⟨h.whole, h.fraction, h.stops.cut (not_isDigit_of_isBreak hb) more,
    fun hn => (h.noFraction hn).cut hb more⟩

theorem after?_append (ps rest : List Char) : after? ps (ps ++ rest) = some rest := by
  induction ps with
  | nil => rfl
  | cons p ps ih => rw [List.cons_append, after?, if_pos rfl, ih]

/-- A mark that reaches a break does not hold it. -/
theorem text_prefix {m : Mark} {b : Char} {cs left : List Char} (hcs : cs ≠ [])
    (hb : isBreak b = true) (h : cs ++ b :: more = m.text.toList ++ left) :
    m.text.toList <+: cs := by
  rcases List.append_eq_append_iff.1 h with ⟨surplus, hsurplus, hleft⟩ | ⟨surplus, rfl, -⟩
  · cases surplus with
    | nil => simp [hsurplus]
    | cons c surplus =>
        -- only `=` can stand behind the first character of a mark
        cases hleft
        obtain ⟨d, ds, hm, -, -, -, hds⟩ := text_cons m
        obtain ⟨e, es, rfl⟩ := List.exists_cons_of_ne_nil hcs
        rw [hm, List.cons_append] at hsurplus
        cases hsurplus
        rcases hds with hds | hds
        · simp at hds
        · obtain ⟨-, rfl, -⟩ := List.append_eq_singleton_iff.1 hds |>.resolve_right (by simp)
          cases hb
  · exact List.prefix_append _ _

/-- The mark that is found does not hang on what stands some way behind it. -/
theorem mark?_cut {m : Mark} {b : Char}
    (h : mark? wanted (m.text.toList ++ (pre ++ post)) = some (m, pre ++ post))
    (hb : isBreak b = true) (more : List Char) :
    mark? wanted (m.text.toList ++ (pre ++ b :: more)) = some (m, pre ++ b :: more) := by
  obtain ⟨before, k, after, hall, hk, hbefore⟩ := List.findSome?_eq_some_iff.1 h
  refine List.findSome?_eq_some_iff.2 ⟨before, k, after, hall, ?_, fun j hj => ?_⟩
  · split at hk
    · next hwanted =>
      obtain ⟨left, -, heq⟩ := Option.map_eq_some_iff.1 hk
      cases heq
      rw [if_pos hwanted, after?_append]
      rfl
    · cases hk
  · have hnone := hbefore j hj
    split at hnone
    · next hwanted =>
      rw [if_pos hwanted]
      cases hj' : after? j.text.toList (m.text.toList ++ (pre ++ b :: more)) with
      | none => rfl
      | some left =>
          -- what stands at the start of one text before the break stands at that of the other
          obtain ⟨c, cs, hm, -⟩ := text_cons m
          have hfound := after?_eq_some hj'
          rw [← List.append_assoc] at hfound
          obtain ⟨surplus, hsurplus⟩ := text_prefix (by simp [hm]) hb hfound
          rw [← List.append_assoc, ← hsurplus, List.append_assoc, after?_append] at hnone
          cases hnone
    · next hwanted => rw [if_neg hwanted]

section Cut

variable {b c : Char} {w : List Char} {l : Lexeme} (hchars : l.chars = c :: w)
  (h : lexeme? wanted (c :: (w ++ (pre ++ post))) = some (l, pre ++ post))
  (hb : isBreak b = true) (more : List Char)

include hchars h hb

theorem lexeme?_cut_word (hname : (isNameStart c && wanted .name) = true) :
    lexeme? wanted (c :: (w ++ (pre ++ b :: more))) = some (l, pre ++ b :: more) := by
  rw [lexeme?, if_pos hname] at h ⊢
  simp only [Option.some.injEq, Prod.mk.injEq] at h
  obtain ⟨rfl, hdrop⟩ := h
  rw [chars_word] at hchars
  have htake : (w ++ (pre ++ post)).takeWhile isNamePart = w := List.tail_eq_of_cons_eq hchars
  have hparts : ∀ d ∈ w, isNamePart d = true := by
    rw [← htake]
    exact List.all_eq_true.1 List.all_takeWhile
  have hstops : Stops isNamePart (pre ++ post) := by
    rw [← hdrop]
    exact stops_dropWhile _ _
  obtain ⟨htake', hdrop'⟩ := span_stops hparts
    (hstops.cut (isBreak_iff.1 hb).1 more)
  rw [htake', hdrop', htake]

theorem lexeme?_cut_numeral (hname : ¬ (isNameStart c && wanted .name) = true)
    (hdigit : (Text.isDigit c && wanted .numeral) = true) :
    lexeme? wanted (c :: (w ++ (pre ++ b :: more))) = some (l, pre ++ b :: more) := by
  rw [lexeme?, if_neg hname, if_pos hdigit] at h ⊢
  have hends := endsBefore_numeral (c :: (w ++ (pre ++ post)))
  simp only [Option.some.injEq, Prod.mk.injEq] at h
  obtain ⟨rfl, hrest⟩ := h
  rw [Lexeme.chars] at hchars
  rw [hrest] at hends
  have hread := numeral_append (hends.cut hb more)
  rw [hchars, List.cons_append] at hread
  simp only [hread]

omit hb in
theorem lexeme?_cut_note (hname : ¬ (isNameStart c && wanted .name) = true)
    (hdigit : ¬ (Text.isDigit c && wanted .numeral) = true) (hpart : isNamePart c = true) :
    lexeme? wanted (c :: (w ++ (pre ++ b :: more))) = some (l, pre ++ b :: more) := by
  rw [lexeme?, if_neg hname, if_neg hdigit] at h ⊢
  split at h
  · next pitch left hpitch =>
    cases h
    split at hpitch
    · next hnote =>
      obtain ⟨hp, -⟩ := note?_eq_some hpitch
      rw [Lexeme.chars, String.toList_ofList] at hchars
      have hread := note?_append hp (pre ++ b :: more)
      rw [hchars, List.cons_append] at hread
      rw [if_pos hnote, hread, hchars]
    · cases hpitch
  · rw [mark?_of_isNamePart hpart] at h
    cases h

theorem lexeme?_cut_mark (hpart : isNamePart c = false) :
    lexeme? wanted (c :: (w ++ (pre ++ b :: more))) = some (l, pre ++ b :: more) := by
  rw [lexeme?_of_not_part hpart] at h ⊢
  obtain ⟨⟨m, left⟩, hmark, heq⟩ := Option.map_eq_some_iff.1 h
  cases heq
  rw [Lexeme.chars] at hchars
  rw [← List.cons_append, ← hchars] at hmark ⊢
  rw [mark?_cut hmark hb]
  rfl

end Cut

theorem chars_cons {l : Lexeme} (h : lexeme? wanted (l.chars ++ rest) = some (l, rest)) :
    ∃ c w, l.chars = c :: w := by
  cases hchars : l.chars with
  | nil =>
      have hlt := length_lexeme?_lt h
      rw [hchars] at hlt
      exact absurd hlt (Nat.lt_irrefl _)
  | cons c w => exact ⟨c, w, rfl⟩

/-- The word that is found does not hang on what stands some way behind it. -/
theorem lexeme?_cut {b : Char} {l : Lexeme}
    (h : lexeme? wanted (l.chars ++ (pre ++ post)) = some (l, pre ++ post))
    (hb : isBreak b = true) (more : List Char) :
    lexeme? wanted (l.chars ++ (pre ++ b :: more)) = some (l, pre ++ b :: more) := by
  obtain ⟨c, w, hchars⟩ := chars_cons h
  rw [hchars, List.cons_append] at h ⊢
  by_cases hname : (isNameStart c && wanted .name) = true
  · exact lexeme?_cut_word hchars h hb more hname
  · by_cases hdigit : (Text.isDigit c && wanted .numeral) = true
    · exact lexeme?_cut_numeral hchars h hb more hname hdigit
    · cases hpart : isNamePart c with
      | true => exact lexeme?_cut_note hchars h more hname hdigit hpart
      | false => exact lexeme?_cut_mark hchars h hb more hpart

/-- What is passed over does not hang on what comes after it. The text may have come into a
comment there. -/
theorem skip_gap {inComment : Bool} {place place' : Place} {gap rest : List Char}
    (h : skip inComment place (gap ++ rest) = (place', rest)) :
    ∃ inside, ∀ p more, skip inComment p (gap ++ more) = skip inside (p.after gap) more := by
  induction gap generalizing inComment place with
  | nil => exact ⟨inComment, fun _ _ => rfl⟩
  | cons c gap ih =>
      rw [List.cons_append, skip] at h
      split at h
      · next hc =>
        obtain ⟨inside, hinside⟩ := ih h
        refine ⟨inside, fun p more => ?_⟩
        rw [List.cons_append, skip, if_pos hc]
        exact hinside (p.next c) more
      · next hc =>
        split at h
        · next hblank =>
          obtain ⟨inside, hinside⟩ := ih h
          refine ⟨inside, fun p more => ?_⟩
          rw [List.cons_append, skip, if_neg hc, if_pos hblank]
          exact hinside (p.next c) more
        · next hblank =>
          split at h
          · next hslash =>
            obtain ⟨inside, hinside⟩ := ih h
            refine ⟨inside, fun p more => ?_⟩
            rw [List.cons_append, skip, if_neg hc, if_neg hblank]
            cases gap with
            | nil =>
                -- the second slash is passed over with the first
                simp only [Bool.and_eq_true, beq_iff_eq] at hslash
                obtain ⟨tail, rfl⟩ := List.head?_eq_some_iff.1 hslash.2
                have hle := length_skip_le ('/' != '\n') ((place.next c).next '/') tail
                rw [List.nil_append, skip, if_pos rfl] at h
                rw [h, List.length_cons] at hle
                omega
            | cons d gap =>
                rw [List.cons_append, List.head?_cons] at hslash ⊢
                rw [if_pos hslash]
                exact hinside (p.next c) more
          · -- less would be passed over than the gap
            have hlength := congrArg (fun found => found.2.length) h
            simp only [List.length_cons, List.length_append] at hlength
            omega

theorem skip_newline (inComment : Bool) (place : Place) (more : List Char) :
    skip inComment place ('\n' :: more) = skip false (place.next '\n') more := by
  cases inComment <;> rfl

/-- Where a word starts nothing is passed over, whatever comes after its first character, unless
that makes a comment of it. -/
theorem skip_start {inComment : Bool} {place place' : Place} {c : Char} {cs cs' : List Char}
    (h : skip inComment place (c :: cs) = (place', c :: cs))
    (hslash : cs'.head? = some '/' → cs.head? = some '/') (p : Place) :
    skip inComment p (c :: cs') = (p, c :: cs') := by
  have hshort : ∀ {inside next}, skip inside next cs ≠ (place', c :: cs) := by
    intro inside next heq
    have hle := length_skip_le inside next cs
    rw [heq, List.length_cons] at hle
    omega
  rw [skip] at h ⊢
  split at h
  · exact absurd h hshort
  · next hc =>
    split at h
    · exact absurd h hshort
    · next hblank =>
      split at h
      · exact absurd h hshort
      · next hcomment =>
        have hcomment' : ¬ (decide (c = '/') && cs'.head? == some '/') = true := by
          simp only [Bool.and_eq_true, decide_eq_true_eq, beq_iff_eq] at hcomment ⊢
          exact fun h => hcomment ⟨h.1, hslash h.2⟩
        rw [if_neg hc, if_neg hblank, if_neg hcomment']

/-- The gap before a word is passed over as before where the text behind the word is cut. -/
theorem skip_cut {wanted : Terminal → Bool} {l : Lexeme} {gap pre post : List Char} {b : Char}
    {start place : Place}
    (hskip : skip false start (gap ++ (l.chars ++ (pre ++ post))) =
      (place, l.chars ++ (pre ++ post)))
    (hcut : lexeme? wanted (l.chars ++ (pre ++ post)) = some (l, pre ++ post)) (hslash : b ≠ '/')
    (more : List Char) (p : Place) :
    skip false p (gap ++ (l.chars ++ (pre ++ b :: more))) =
      (p.after gap, l.chars ++ (pre ++ b :: more)) := by
  obtain ⟨inside, hinside⟩ := skip_gap hskip
  obtain ⟨c, w, hchars⟩ := chars_cons hcut
  rw [hinside, hchars, List.cons_append] at hskip ⊢
  refine skip_start hskip (fun hhead => ?_) (p.after gap)
  rw [← List.append_assoc] at hhead ⊢
  exact head?_cut hslash.symm hhead

end Scan

namespace Reader

variable {dialect : Dialect}

/-- A word is found when a text is read on. -/
inductive Finds (dialect : Dialect) (l : Lexeme) : Machine → List Char → Prop where
  | here {m : Machine} {start place : Place} {text cs rest : List Char}
      (hskip : Scan.skip false start text = (place, cs))
      (hcut : Scan.lexeme? (m.follow.admits dialect) cs = some (l, rest)) : Finds dialect l m text
  | later {m n : Machine} {k : Lexeme} {start place : Place} {text cs rest : List Char}
      (hskip : Scan.skip false start text = (place, cs))
      (hcut : Scan.lexeme? (m.follow.admits dialect) cs = some (k, rest))
      (hstep : m.step k = some n) (h : Finds dialect l n rest) : Finds dialect l m text

theorem Finds.infix {l : Lexeme} {m : Machine} {text : List Char} (h : Finds dialect l m text) :
    l.chars <:+: text := by
  induction h with
  | here hskip hcut =>
      obtain ⟨gap, rfl, -⟩ := Scan.skip_eq hskip
      rw [Scan.lexeme?_eq_some hcut]
      exact (List.prefix_append _ _).isInfix.trans (List.suffix_append gap _).isInfix
  | later hskip hcut _ _ ih =>
      obtain ⟨gap, rfl, -⟩ := Scan.skip_eq hskip
      rw [Scan.lexeme?_eq_some hcut]
      exact ih.trans ((List.suffix_append _ _).trans (List.suffix_append gap _)).isInfix

/-- A whole number in a short text is not too long. -/
theorem Finds.overlong?_eq_none {n : Numeral} {m : Machine} {text : List Char}
    (h : Finds dialect (.numeral n) m text) (htext : text.length ≤ digitLimit) :
    n.overlong? = none := by
  have hlength : n.chars.length ≤ text.length := h.infix.length_le
  unfold Numeral.overlong?
  split
  · next hlong =>
    simp only [Bool.and_eq_true, Option.isNone_iff_eq_none, decide_eq_true_eq] at hlong
    rw [Numeral.chars, hlong.1] at hlength
    dsimp only at hlength
    omega
  · rfl

end Reader

namespace Rejection

/-- What is refused stands at the start of this text: a word, a character or the end. -/
def Meets (rest : List Char) : Rejection → Prop
  | unexpectedToken _ (some l) => l.chars <+: rest
  | unexpectedToken _ none => rest = []
  | unexpectedCharacter _ c _ _ => rest.head? = some c
  | numeralTooLong _ => False

/-- The place that is told is this one; that of the end of a text is told otherwise. -/
def IsAt (place : Place) : Rejection → Prop
  | unexpectedToken p (some _) | unexpectedCharacter p _ _ _ => p = place
  | unexpectedToken _ none => True
  | numeralTooLong _ => False

/-- How many characters of the text stand before what is refused. -/
def offset? (text : List Char) : Rejection → Option Nat
  | unexpectedToken place (some _) | unexpectedCharacter place _ _ _ => place.index? .first text
  | unexpectedToken _ none => some text.length
  | numeralTooLong _ => none

theorem offset?_eq {r : Rejection} {pre post : List Char} (hat : r.IsAt (Place.first.after pre))
    (hmeets : r.Meets post) : r.offset? (pre ++ post) = some pre.length := by
  cases r with
  | unexpectedToken place lexeme =>
      cases lexeme with
      | none =>
          cases hmeets
          rw [offset?, List.append_nil]
      | some l =>
          cases hat
          exact Place.index?_after .first pre post
  | unexpectedCharacter place c before after =>
      cases hat
      exact Place.index?_after .first pre post
  | numeralTooLong digits => exact hat.elim

end Rejection

namespace Reader

variable {dialect : Dialect} {m : Machine} {start : Place}

/-- Wherever a program is read from this machine after a line feed, it is so after the text too. -/
def LeadsTo (dialect : Dialect) (m : Machine) (pre : List Char) (n : Machine) : Prop :=
  ∀ more p, (∀ source last start, overlong? last = none →
      readFrom dialect source n last start ('\n' :: more) = .ok p) →
    ∀ source last start, overlong? last = none →
      readFrom dialect source m last start (pre ++ '\n' :: more) = .ok p

theorem leadsTo_gap {gap rest : List Char} {place : Place}
    (hskip : Scan.skip false start (gap ++ rest) = (place, rest)) : LeadsTo dialect m gap m := by
  intro more p h source last start hlast
  obtain ⟨inside, hinside⟩ := Scan.skip_gap hskip
  have hsame : Scan.skip false start (gap ++ '\n' :: more) =
      Scan.skip false (start.after gap) ('\n' :: more) := by
    rw [hinside, Scan.skip_newline, Scan.skip_newline]
  have hread := h source last (start.after gap) hlast
  rw [readFrom_eq_ok_iff] at hread ⊢
  rwa [hsame]

theorem leadsTo_word {gap pre post : List Char} {place : Place} {l : Lexeme} {n k : Machine}
    (hskip : Scan.skip false start (gap ++ (l.chars ++ (pre ++ post))) =
      (place, l.chars ++ (pre ++ post)))
    (hcut : Scan.lexeme? (m.follow.admits dialect) (l.chars ++ (pre ++ post)) =
      some (l, pre ++ post))
    (hstep : m.step l = some n) (hl : ∀ place, overlong? (some ⟨l, place⟩) = none)
    (h : LeadsTo dialect n pre k) : LeadsTo dialect m (gap ++ (l.chars ++ pre)) k := by
  intro more p hmore source last start hlast
  have hstart := Scan.skip_cut hskip hcut (show '\n' ≠ '/' by decide) more start
  have htext : gap ++ (l.chars ++ pre) ++ '\n' :: more =
      gap ++ (l.chars ++ (pre ++ '\n' :: more)) := by simp
  rw [htext]
  exact readFrom_eq_ok_iff.2 ⟨hlast, .inr ⟨_, _, l, _, n, hstart,
    Scan.lexeme?_cut hcut (by decide) more, hstep, h more p hmore source _ _ (hl _)⟩⟩

theorem meets_misplaced (source : List Char) (place : Place) (c : Char) (cs : List Char) :
    (misplaced dialect source place c cs).Meets (c :: cs) ∧
      (misplaced dialect source place c cs).IsAt place := by
  unfold misplaced
  split
  · next l rest hl =>
    refine ⟨?_, rfl⟩
    rw [Scan.lexeme?_eq_some hl]
    exact List.prefix_append _ _
  · exact ⟨rfl, rfl⟩

/-- A refused text up to what is refused leads to a machine from which a program can be made. -/
theorem leadsTo_of_error {source text : List Char} {m : Machine} {last : Option Token}
    {start : Place} {r : Rejection} (hm : m.phase.Expects m.follow)
    (hsensible : m.phase.Sensible) (hlast : overlong? last = none)
    (hshort : ∀ n, Finds dialect (.numeral n) m text → n.overlong? = none)
    (h : readFrom dialect source m last start text = .error r) :
    ∃ pre post n, text = pre ++ post ∧ r.IsAt (start.after pre) ∧ r.Meets post ∧
      n.phase.Expects n.follow ∧ n.phase.Sensible ∧ LeadsTo dialect m pre n := by
  obtain ⟨place, left, hskip⟩ : ∃ place left, Scan.skip false start text = (place, left) :=
    ⟨_, _, rfl⟩
  obtain ⟨gap, rfl, rfl⟩ := Scan.skip_eq hskip
  cases left with
  | nil =>
      rw [readFrom_done hskip, hlast] at h
      cases hfinish : m.finish? with
      | some p =>
          rw [hfinish] at h
          cases h
      | none =>
          rw [hfinish] at h
          cases h
          exact ⟨gap, [], m, rfl, trivial, rfl, hm, hsensible, leadsTo_gap hskip⟩
  | cons c cs =>
      cases hcut : Scan.lexeme? (m.follow.admits dialect) (c :: cs) with
      | none =>
          rw [readFrom_misplaced hskip hcut] at h
          cases h
          obtain ⟨hmeets, hat⟩ := meets_misplaced source (start.after gap) c cs
          exact ⟨gap, c :: cs, m, rfl, hat, hmeets, hm, hsensible, leadsTo_gap hskip⟩
      | some cut =>
          obtain ⟨l, rest⟩ := cut
          have hleft := Scan.lexeme?_eq_some hcut
          rw [readFrom_word hskip hcut, hlast] at h
          cases hstep : m.step l with
          | none =>
              rw [hstep] at h
              cases h
              refine ⟨gap, c :: cs, m, rfl, rfl, ?_, hm, hsensible, leadsTo_gap hskip⟩
              rw [hleft]
              exact List.prefix_append _ _
          | some n =>
              rw [hstep] at h
              have hshorter : rest.length < (gap ++ c :: cs).length := by
                have hlt := Scan.length_lexeme?_lt hcut
                rw [List.length_append]
                omega
              have hl : ∀ place, overlong? (some ⟨l, place⟩) = none := by
                intro place
                cases l with
                | numeral n => exact hshort n (.here hskip hcut)
                | _ => rfl
              obtain ⟨pre, post, k, rfl, hat, hmeets, hk, hks, hleads⟩ :=
                leadsTo_of_error (Machine.step_expects hm hstep).2
                  (Machine.step_sensible hsensible hstep) (hl _)
                  (fun n hn => hshort n (.later hskip hcut hstep hn)) h
              rw [hleft] at hskip hcut
              have hplace : start.after (gap ++ (l.chars ++ pre)) =
                  ((start.after gap).after l.chars).after pre := by
                simp only [Place.after, List.foldl_append]
              exact ⟨gap ++ (l.chars ++ pre), post, k, by simp [hleft], hplace ▸ hat, hmeets, hk,
                hks, leadsTo_word hskip hcut hstep hl hleads⟩
termination_by text.length

/-- Words apart from each other that make a program of what has been read. -/
def endingText (m : Machine) : List Char := [' '].intercalate (m.ending.map Lexeme.chars)

theorem readFrom_endingText (dialect : Dialect) (hm : m.phase.Expects m.follow)
    (hsensible : m.phase.Sensible) :
    ∃ p, ∀ source last start, overlong? last = none →
      readFrom dialect source m last start ('\n' :: endingText m) = .ok p := by
  obtain ⟨n, p, hrun, hfinish⟩ := Machine.run_ending hsensible
  have hspaced : Spaced (m.ending.map Lexeme.chars) (['\n'] ++ endingText m) :=
    .blanks_append (by simp [Text.isBlank]) (Spaced.intercalate_words (by decide) _)
  have hplain : ∀ l ∈ m.ending, l.isProper = true ∧ Follow.known dialect l.terminal = true :=
    fun l hl => ⟨(m.isPlain_ending l hl).1, (m.isPlain_ending l hl).2 dialect⟩
  exact ⟨p, fun source last start hlast =>
    readFrom_of_run hplain hspaced hm hlast hrun hfinish⟩

/-- A text is refused at the first place where no program goes on: after a line feed, what stands
before that place can be continued to a program. The text must be free of whole numbers that are
too long, up to that place. -/
theorem continued_of_refused {text : String} {r : Rejection} (h : read dialect text = .error r)
    (hshort : ∀ n, Finds dialect (.numeral n) .initial text.toList → n.overlong? = none) :
    ∃ p, r.offset? text.toList = some p ∧ r.Meets (text.toList.drop p) ∧
      ∃ c program,
        read dialect (String.ofList (text.toList.take p) ++ "\n" ++ c) = .ok program := by
  obtain ⟨pre, post, n, htext, hat, hmeets, hn, hsensible, hleads⟩ :=
    leadsTo_of_error Machine.expects_initial trivial rfl hshort h
  obtain ⟨p, hread⟩ := readFrom_endingText dialect hn hsensible
  refine ⟨pre.length, ?_, ?_, String.ofList (endingText n), p, ?_⟩
  · rw [htext]
    exact Rejection.offset?_eq hat hmeets
  · rw [htext, List.drop_left]
    exact hmeets
  · have hwhole : (String.ofList (text.toList.take pre.length) ++ "\n" ++
        String.ofList (endingText n)).toList = pre ++ '\n' :: endingText n := by
      simp [htext]
    rw [read, hwhole]
    exact hleads _ p hread _ _ _ rfl

theorem continued_of_refused_comment :
    let text := "loop //a"
    let r := Rejection.unexpectedToken .first none
    read .full text = .error r ∧
      (∀ n, Finds .full (.numeral n) .initial text.toList → n.overlong? = none) ∧
      r.offset? text.toList = some 8 ∧
      ∃ c program, read .full ("loop //a" ++ "\n" ++ c) = .ok program := by
  intro text r
  have hread : read .full text = .error r := by
    have hskip : Scan.skip false .first "loop //a".toList = (.first, "loop //a".toList) := rfl
    have hcut : Scan.lexeme? (Machine.initial.follow.admits .full) "loop //a".toList =
        some (.keyword .loop, " //a".toList) := rfl
    have hend : Scan.skip false ⟨1, 5⟩ " //a".toList = (⟨1, 9⟩, []) := rfl
    rw [read, readFrom_word hskip hcut]
    exact readFrom_done hend
  have hshort : ∀ n, Finds .full (.numeral n) .initial text.toList → n.overlong? = none :=
    fun n hn => hn.overlong?_eq_none (by decide)
  have hoffset : r.offset? text.toList = some 8 := by decide
  obtain ⟨p, hp, -, c, program, hcontinued⟩ := continued_of_refused hread hshort
  cases hoffset.symm.trans hp
  have htake : String.ofList (text.toList.take 8) = "loop //a" := by decide
  rw [htake] at hcontinued
  exact ⟨hread, hshort, hoffset, c, program, hcontinued⟩

end Reader
end TuneScript
