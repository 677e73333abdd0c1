import TuneScript.Proofs.Prefixes

/-!
White space and comments between the words of a text. Where a word of an accepted text ends, a blank
may follow and after it any number of blanks and comments: the words before and behind are cut as
they were, whatever class they are looked for in, so the text is read as the same program.
-/

namespace TuneScript

/-- Blanks, and comments that end with their lines. -/
inductive Padding : List Char → Prop where
  | nil : Padding []
  | blank {c cs} (hc : Text.isBlank c = true) (h : Padding cs) : Padding (c :: cs)
  | comment {body cs} (hbody : '\n' ∉ body) (h : Padding cs) :
      Padding ('/' :: '/' :: (body ++ '\n' :: cs))

/-- What may be put behind a word: a comment only after a blank. -/
structure Layout (cs : List Char) : Prop where
  padding : Padding cs
  parted : Scan.Parted cs

namespace Scan

theorem skip_comment {body : List Char} (hbody : '\n' ∉ body) (p : Place) (cs : List Char) :
    skip true p (body ++ '\n' :: cs) = skip false (p.after (body ++ ['\n'])) cs := by
  induction body generalizing p with
  | nil => rfl
  | cons c body ih =>
      obtain ⟨hc, hbody⟩ := not_or.1 (mt List.mem_cons.2 hbody)
      rw [List.cons_append, skip, if_pos rfl, bne_iff_ne.2 (Ne.symm hc)]
      exact ih hbody (p.next c)

/-- Padding is passed over, whatever follows it. -/
theorem skip_padding {padding : List Char} (h : Padding padding) (p : Place) (cs : List Char) :
    skip false p (padding ++ cs) = skip false (p.after padding) cs := by
  induction h generalizing p with
  | nil => rfl
  | blank hc _ ih =>
      rw [List.cons_append, skip, if_neg Bool.false_ne_true, if_pos hc]
      exact ih (p.next _)
  | @comment body padding hbody _ ih =>
      have hslashes : skip false p ('/' :: '/' :: (body ++ '\n' :: (padding ++ cs))) =
          skip true ((p.next '/').next '/') (body ++ '\n' :: (padding ++ cs)) := rfl
      rw [List.cons_append, List.cons_append, List.append_assoc, List.cons_append, hslashes,
        skip_comment hbody, ih]
      simp [Place.after]

/-- What is left does not hang on the place. -/
theorem skip_snd (inComment : Bool) (p q : Place) (cs : List Char) :
    (skip inComment p cs).2 = (skip inComment q cs).2 := by
  induction cs generalizing inComment p q with
  | nil => rfl
  | cons c cs ih =>
      rw [skip, skip]
      split
      · exact ih (c != '\n') (p.next c) (q.next c)
      · split
        · exact ih false (p.next c) (q.next c)
        · split
          · exact ih true (p.next c) (q.next c)
          · rfl

theorem skip_anywhere {inComment : Bool} {place place' : Place} {cs rest : List Char}
    (h : skip inComment place cs = (place', rest)) (p : Place) :
    ∃ p', skip inComment p cs = (p', rest) := by
  have hsame := skip_snd inComment p place cs
  rw [h] at hsame
  exact ⟨_, Prod.ext rfl hsame⟩

theorem skip_unique {inComment : Bool} {p p' q q' : Place} {cs rest rest' : List Char}
    (h : skip inComment p cs = (p', rest)) (h' : skip inComment q cs = (q', rest')) :
    rest = rest' := by
  have hsame := skip_snd inComment p q cs
  rw [h, h'] at hsame
  exact hsame

/-- Two texts that are the same up to a place where the second goes on with a blank. -/
def Reaches (text other : List Char) : Prop :=
  other = text ∨ ∃ pre post b more, Text.isBlank b = true ∧ text = pre ++ post ∧
    other = pre ++ b :: more

namespace Reaches

variable {text other : List Char}

theorem append (h : Reaches text other) (pre : List Char) :
    Reaches (pre ++ text) (pre ++ other) := by
  rcases h with rfl | ⟨mid, post, b, more, hb, rfl, rfl⟩
  · exact .inl rfl
  · exact .inr ⟨pre ++ mid, post, b, more, hb, (List.append_assoc ..).symm,
      (List.append_assoc ..).symm⟩

theorem layout (h : Reaches text other) {layout : List Char} (hlayout : Layout layout) :
    Reaches text (layout ++ other) := by
  cases layout with
  | nil => exact h
  | cons b layout => exact .inr ⟨[], text, b, layout ++ other, hlayout.parted b rfl, rfl, rfl⟩

theorem lexeme? {wanted : Terminal → Bool} {l : Lexeme} (h : Reaches text other)
    (hcut : Scan.lexeme? wanted (l.chars ++ text) = some (l, text)) :
    Scan.lexeme? wanted (l.chars ++ other) = some (l, other) := by
  rcases h with rfl | ⟨pre, post, b, more, hb, rfl, rfl⟩
  · exact hcut
  · exact lexeme?_cut hcut (isBreak_of_isBlank hb) more

/-- The gap before a word is passed over as before, and no more than that. -/
theorem skip {wanted : Terminal → Bool} {l : Lexeme} {gap : List Char} {start place : Place}
    (h : Reaches text other)
    (hskip : Scan.skip false start (gap ++ (l.chars ++ text)) = (place, l.chars ++ text))
    (hcut : Scan.lexeme? wanted (l.chars ++ text) = some (l, text)) (p : Place) :
    Scan.skip false p (gap ++ (l.chars ++ other)) = (p.after gap, l.chars ++ other) := by
  rcases h with rfl | ⟨pre, post, b, more, hb, rfl, rfl⟩
  · obtain ⟨place', hskip'⟩ := skip_anywhere hskip p
    obtain ⟨gap', hgap, rfl⟩ := skip_eq hskip'
    cases List.append_cancel_right hgap
    exact hskip'
  · refine skip_cut hskip hcut ?_ more p
    rintro rfl
    cases hb

end Reaches
end Scan

namespace Reader

variable {dialect : Dialect}

/-- How a text is cut into words: each of them with the gap before it, and what is left behind the
last one. -/
inductive Cuts (dialect : Dialect) :
    Machine → List Char → List (List Char × Lexeme) → List Char → Prop where
  | done {m : Machine} {start place : Place} {tail : List Char}
      (hskip : Scan.skip false start tail = (place, [])) : Cuts dialect m tail [] tail
  | word {m n : Machine} {l : Lexeme} {start place : Place} {gap rest tail : List Char}
      {words : List (List Char × Lexeme)}
      (hskip : Scan.skip false start (gap ++ (l.chars ++ rest)) = (place, l.chars ++ rest))
      (hcut : Scan.lexeme? (m.follow.admits dialect) (l.chars ++ rest) = some (l, rest))
      (hstep : m.step l = some n) (h : Cuts dialect n rest words tail) :
      Cuts dialect m (gap ++ (l.chars ++ rest)) ((gap, l) :: words) tail

/-- The words with their gaps as they were, and a layout behind each of them. -/
inductive Spread (tail : List Char) : List (List Char × Lexeme) → List Char → Prop where
  | done : Spread tail [] tail
  | word {gap : List Char} {l : Lexeme} {words : List (List Char × Lexeme)} {rest : List Char}
      (layout : List Char) (hlayout : Layout layout) (h : Spread tail words rest) :
      Spread tail ((gap, l) :: words) (gap ++ (l.chars ++ (layout ++ rest)))

/-- There is only one way to cut a text into words. -/
theorem Cuts.unique {m : Machine} {text tail tail' : List Char}
    {words words' : List (List Char × Lexeme)} (h : Cuts dialect m text words tail)
    (h' : Cuts dialect m text words' tail') : words' = words ∧ tail' = tail := by
  induction h generalizing words' tail' with
  | done hskip =>
      cases h' with
      | done _ => exact ⟨rfl, rfl⟩
      | word hskip' hcut' _ _ =>
          rw [← Scan.skip_unique hskip hskip'] at hcut'
          cases hcut'
  | @word m n l start place gap rest tail words hskip hcut hstep hrest ih =>
      generalize htext : gap ++ (l.chars ++ rest) = text at h' hskip
      cases h' with
      | done hskip' =>
          rw [Scan.skip_unique hskip hskip'] at hcut
          cases hcut
      | @word _ n' l' start' place' gap' rest' tail' words' hskip' hcut' hstep' hrest' =>
          have hleft := Scan.skip_unique hskip hskip'
          rw [← hleft] at htext hcut'
          cases hcut.symm.trans hcut'
          cases hstep.symm.trans hstep'
          cases List.append_cancel_right htext
          obtain ⟨rfl, rfl⟩ := ih hrest'
          exact ⟨rfl, rfl⟩

theorem Cuts.reaches {m : Machine} {text tail other : List Char}
    {words : List (List Char × Lexeme)} (h : Cuts dialect m text words tail)
    (hother : Spread tail words other) : Scan.Reaches text other := by
  induction h generalizing other with
  | done _ =>
      cases hother
      exact .inl rfl
  | word _ _ _ _ ih =>
      cases hother with
      | word layout hlayout hrest => exact (((ih hrest).layout hlayout).append _).append _

theorem Cuts.spread {m : Machine} {text tail : List Char} {words : List (List Char × Lexeme)}
    (h : Cuts dialect m text words tail) : Spread tail words text := by
  induction h with
  | done _ => exact .done
  | word _ _ _ _ ih => exact .word [] ⟨.nil, Scan.parted_nil⟩ ih

/-- Every accepted text is cut into words. -/
theorem cuts_of_readFrom {source text : List Char} {m : Machine} {last : Option Token}
    {start : Place} {p : Program} (h : readFrom dialect source m last start text = .ok p) :
    ∃ words tail, Cuts dialect m text words tail := by
  obtain ⟨-, ⟨place, hskip, -⟩ | ⟨place, cs, l, rest, n, hskip, hcut, hstep, hread⟩⟩ :=
    readFrom_eq_ok_iff.1 h
  · exact ⟨[], text, .done hskip⟩
  · have hshorter := Scan.length_rest_lt hskip hcut
    obtain ⟨words, tail, hcuts⟩ := cuts_of_readFrom hread
    obtain ⟨gap, rfl, -⟩ := Scan.skip_eq hskip
    cases Scan.lexeme?_eq_some hcut
    exact ⟨(gap, l) :: words, tail, .word hskip hcut hstep hcuts⟩
termination_by text.length

theorem overlong?_place (l : Lexeme) (p q : Place) :
    overlong? (some ⟨l, p⟩) = overlong? (some ⟨l, q⟩) := by
  cases l <;> rfl

/-- Where a text is cut into a word, reading goes on behind that word. -/
theorem readFrom_of_cut {source cs rest : List Char} {m n : Machine} {l : Lexeme}
    {last : Option Token} {start₀ place₀ start : Place} {text : List Char} {p : Program}
    (hskip : Scan.skip false start₀ text = (place₀, cs))
    (hcut : Scan.lexeme? (m.follow.admits dialect) cs = some (l, rest)) (hstep : m.step l = some n)
    (h : readFrom dialect source m last start text = .ok p) :
    ∃ place, overlong? (some ⟨l, place⟩) = none ∧
      readFrom dialect source n (some ⟨l, place⟩) (place.after l.chars) rest = .ok p := by
  obtain ⟨place, hskip⟩ := Scan.skip_anywhere hskip start
  have hlast := (readFrom_eq_ok_iff.1 h).1
  rw [readFrom_word hskip hcut, hlast, hstep] at h
  exact ⟨place, (readFrom_eq_ok_iff.1 h).1, h⟩

/-- Reading on from any word: what is read does not change with the layout before and behind. The
induction is on the words that are still to come. -/
theorem readFrom_spread {m : Machine} {text tail other : List Char}
    {words : List (List Char × Lexeme)} (h : Cuts dialect m text words tail)
    (hother : Spread tail words other) {padding : List Char} (hpadding : Padding padding)
    {source : List Char} {last last' : Option Token} {start : Place} {p : Program}
    (hlast' : overlong? last' = none) (hread : readFrom dialect source m last start text = .ok p)
    (source' : List Char) (start' : Place) :
    readFrom dialect source' m last' start' (padding ++ other) = .ok p := by
  induction h generalizing other padding last last' start start' with
  | @done m _ _ tail hskip =>
      cases hother
      obtain ⟨place, hskip'⟩ := Scan.skip_anywhere hskip (start'.after padding)
      obtain ⟨_, hskip⟩ := Scan.skip_anywhere hskip start
      have hlast := (readFrom_eq_ok_iff.1 hread).1
      rw [← Scan.skip_padding hpadding] at hskip'
      rw [readFrom_done hskip, hlast] at hread
      rw [readFrom_done hskip', hlast']
      cases hfinish : m.finish? with
      | none =>
          rw [hfinish] at hread
          cases hread
      | some program =>
          rw [hfinish] at hread
          exact hread
  | word hskip hcut hstep hrest ih =>
      cases hother with
      | word layout hlayout hspread =>
          have hreaches := (hrest.reaches hspread).layout hlayout
          obtain ⟨place, hlong, hread⟩ := readFrom_of_cut hskip hcut hstep hread
          have hskip' := hreaches.skip hskip hcut (start'.after padding)
          rw [← Scan.skip_padding hpadding] at hskip'
          refine readFrom_eq_ok_iff.2 ⟨hlast', .inr ⟨_, _, _, _, _, hskip', hreaches.lexeme? hcut,
            hstep, ih hspread hlayout.padding ?_ hread _⟩⟩
          rw [overlong?_place _ _ place]
          exact hlong

/-- What is read does not hang on the place where the text stands. -/
theorem readFrom_elsewhere {source text : List Char} {m : Machine} {last last' : Option Token}
    {start : Place} {p : Program} (h : readFrom dialect source m last start text = .ok p)
    (hlast' : overlong? last' = none) (source' : List Char) (start' : Place) :
    readFrom dialect source' m last' start' text = .ok p := by
  obtain ⟨words, tail, hcuts⟩ := cuts_of_readFrom h
  exact readFrom_spread hcuts hcuts.spread .nil hlast' h source' start'

/-- An accepted text is cut into words in one way, and a layout at its start and behind each of its
words, be it nothing, blanks, or a blank with blanks and comments after it, leaves it accepted with
the same program. -/
theorem read_of_layout {text : String} {p : Program} (hread : read dialect text = .ok p) :
    ∃ words tail, Cuts dialect .initial text.toList words tail ∧
      (∀ words' tail', Cuts dialect .initial text.toList words' tail' →
        words' = words ∧ tail' = tail) ∧
      ∀ layout other, Layout layout → Spread tail words other →
        read dialect (String.ofList (layout ++ other)) = .ok p := by
  obtain ⟨words, tail, hcuts⟩ := cuts_of_readFrom hread
  refine ⟨words, tail, hcuts, fun _ _ => hcuts.unique, fun layout other hlayout hother => ?_⟩
  rw [read, String.toList_ofList]
  exact readFrom_spread hcuts hother hlayout.padding rfl hread _ _

/-- Words that touch each other, and the same ones apart with comments between them. -/
theorem read_of_layout_apart :
    let p : Program := [.assign "x" (.logic (.arith (.binary .div (.number ⟨['4'], none⟩)
      (.number ⟨['2'], none⟩))))]
    read .full "x=4/2" = .ok p ∧ read .full "\tx = //a\n4/ //b\n//\n 2" = .ok p := by
  intro p
  have hname : Scan.skip false .first "x=4/2".toList = (.first, "x=4/2".toList) := rfl
  have hequals : Scan.skip false ⟨1, 2⟩ "=4/2".toList = (⟨1, 2⟩, "=4/2".toList) := rfl
  have hfour : Scan.skip false ⟨1, 3⟩ "4/2".toList = (⟨1, 3⟩, "4/2".toList) := rfl
  have hslash : Scan.skip false ⟨1, 4⟩ "/2".toList = (⟨1, 4⟩, "/2".toList) := rfl
  have htwo : Scan.skip false ⟨1, 5⟩ "2".toList = (⟨1, 5⟩, "2".toList) := rfl
  have hend : Scan.skip false ⟨1, 6⟩ [] = (⟨1, 6⟩, []) := rfl
  have hread : read .full "x=4/2" = .ok p := by
    rw [read, readFrom_word hname (l := .name "x") rfl]
    refine (readFrom_word hequals (l := .mark .equals) rfl).trans ?_
    refine (readFrom_word hfour (l := .numeral ⟨['4'], none⟩) rfl).trans ?_
    refine (readFrom_word hslash (l := .mark (.operator .div)) rfl).trans ?_
    refine (readFrom_word htwo (l := .numeral ⟨['2'], none⟩) rfl).trans ?_
    exact readFrom_done hend
  have hcuts : Cuts .full .initial "x=4/2".toList [([], .name "x"), ([], .mark .equals),
      ([], .numeral ⟨['4'], none⟩), ([], .mark (.operator .div)),
      ([], .numeral ⟨['2'], none⟩)] [] := by
    change Cuts .full .initial ([] ++ ((Lexeme.name "x").chars ++ "=4/2".toList)) _ _
    refine .word hname rfl rfl ?_
    change Cuts .full _ ([] ++ ((Lexeme.mark .equals).chars ++ "4/2".toList)) _ _
    refine .word hequals rfl rfl ?_
    change Cuts .full _ ([] ++ ((Lexeme.numeral ⟨['4'], none⟩).chars ++ "/2".toList)) _ _
    refine .word hfour rfl rfl ?_
    change Cuts .full _ ([] ++ ((Lexeme.mark (.operator .div)).chars ++ "2".toList)) _ _
    refine .word hslash rfl rfl ?_
    change Cuts .full _ ([] ++ ((Lexeme.numeral ⟨['2'], none⟩).chars ++ [])) _ _
    exact .word htwo rfl rfl (.done hend)
  have hblank {cs : List Char} (h : Padding cs) : Layout (' ' :: cs) :=
    ⟨.blank (by decide) h, Scan.parted_cons (by decide) cs⟩
  have hnone : Layout [] := ⟨.nil, Scan.parted_nil⟩
  have htab : Layout ['\t'] := ⟨.blank (by decide) .nil, Scan.parted_cons (by decide) []⟩
  have ha : Layout " //a\n".toList := hblank (@Padding.comment ['a'] [] (by decide) .nil)
  have hb : Layout " //b\n//\n ".toList :=
    hblank (@Padding.comment ['b'] _ (by decide) (@Padding.comment [] _ (by decide)
      (.blank (by decide) .nil)))
  obtain ⟨words, tail, -, hunique, h⟩ := read_of_layout hread
  obtain ⟨rfl, rfl⟩ := hunique _ _ hcuts
  refine ⟨hread, h ['\t'] "x = //a\n4/ //b\n//\n 2".toList htab ?_⟩
  exact .word [' '] (hblank .nil) (.word _ ha (.word [] hnone (.word _ hb (.word [] hnone .done))))

end Reader
end TuneScript
