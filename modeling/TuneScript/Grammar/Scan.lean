import TuneScript.Grammar.Lexeme
import TuneScript.Text.Blank

/-!
Cutting a text into words. Which classes of words are looked for is given from outside;
names come before everything else, and a name is a keyword only where that keyword is
looked for. Main statement: a word is never empty, so what is left gets shorter.
-/

namespace TuneScript.Scan

def isNameStart (c : Char) : Bool := c.isAlpha || c == '_'

def isNamePart (c : Char) : Bool := c.isAlphanum || c == '_'

/-- A letter from A to G in either case, perhaps `#` or `b`, and one digit. -/
def note? : List Char → Option (List Char × List Char)
  | a :: b :: rest =>
    if !("ABCDEFGabcdefg".toList.contains a) then none
    else if Text.isDigit b then some ([a, b], rest)
    else if b = '#' || b = 'b' then
      match rest with
      | c :: rest => if Text.isDigit c then some ([a, b, c], rest) else none
      | [] => none
    else none
  | _ => none

/-- Digits, and a point only if digits follow it. -/
def numeral (cs : List Char) : Numeral × List Char :=
  let whole := cs.takeWhile Text.isDigit
  match cs.dropWhile Text.isDigit with
  | '.' :: c :: rest =>
    if Text.isDigit c then
      (⟨whole, some (c :: rest.takeWhile Text.isDigit)⟩, rest.dropWhile Text.isDigit)
    else (⟨whole, none⟩, '.' :: c :: rest)
  | rest => (⟨whole, none⟩, rest)

/-- What is left of a text after the given characters, if it starts with them. -/
def after? : List Char → List Char → Option (List Char)
  | [], cs => some cs
  | _ :: _, [] => none
  | p :: ps, c :: cs => if p = c then after? ps cs else none

def mark? (wanted : Terminal → Bool) (cs : List Char) : Option (Mark × List Char) :=
  Mark.all.findSome? fun m =>
    if wanted (.mark m) then (after? m.text.toList cs).map fun rest => (m, rest) else none

/-- A name, or the keyword that it spells where that keyword is looked for. -/
def word (wanted : Terminal → Bool) (cs : List Char) : Lexeme :=
  let spelling := String.ofList cs
  match Keyword.ofText? spelling with
  | some k => if wanted (.keyword k) then .keyword k else .name spelling
  | none => .name spelling

/-- The word at the start of a text among the classes looked for. -/
def lexeme? (wanted : Terminal → Bool) : List Char → Option (Lexeme × List Char)
  | [] => none
  | c :: cs =>
    if isNameStart c && wanted .name then
      some (word wanted (c :: cs.takeWhile isNamePart), cs.dropWhile isNamePart)
    else if Text.isDigit c && wanted .numeral then
      let (n, rest) := numeral (c :: cs)
      some (.numeral n, rest)
    else
      match (if wanted .note then note? (c :: cs) else none) with
      | some (pitch, rest) => some (.note (String.ofList pitch), rest)
      | none => (mark? wanted (c :: cs)).map fun (m, rest) => (.mark m, rest)

/-- Passes over white space and over comments, which run from `//` to the end of the line. -/
def skip (inComment : Bool) (p : Place) : List Char → Place × List Char
  | [] => (p, [])
  | c :: cs =>
    if inComment then skip (c != '\n') (p.next c) cs
    else if Text.isBlank c then skip false (p.next c) cs
    else if c = '/' && cs.head? == some '/' then skip true (p.next c) cs
    else (p, c :: cs)

theorem length_dropWhile_le (p : Char → Bool) (cs : List Char) :
    (cs.dropWhile p).length ≤ cs.length :=
  (List.dropWhile_sublist p).length_le

theorem length_after? {ps cs rest : List Char} (h : after? ps cs = some rest) :
    rest.length + ps.length = cs.length := by
  induction ps generalizing cs with
  | nil => simp_all [after?]
  | cons p ps ih =>
    cases cs with
    | nil => simp [after?] at h
    | cons c cs =>
      simp only [after?] at h
      split at h
      · have := ih h
        simp only [List.length_cons]
        omega
      · simp at h

theorem length_text_pos (m : Mark) : 0 < m.text.toList.length := by
  cases m with
  | relation r => cases r <;> decide
  | operator o => cases o <;> decide
  | _ => decide

theorem length_mark?_lt {wanted : Terminal → Bool} {cs rest : List Char} {m : Mark}
    (h : mark? wanted cs = some (m, rest)) : rest.length < cs.length := by
  obtain ⟨k, _, hk⟩ := List.exists_of_findSome?_eq_some h
  split at hk
  · obtain ⟨r, hr, heq⟩ := Option.map_eq_some_iff.1 hk
    cases heq
    have := length_after? hr
    have := length_text_pos m
    omega
  · simp at hk

theorem length_note?_lt {cs pitch rest : List Char} (h : note? cs = some (pitch, rest)) :
    rest.length < cs.length := by
  unfold note? at h
  split at h <;> (try split at h) <;> (try split at h) <;> (try split at h) <;> (try split at h)
  all_goals simp_all
  all_goals omega

theorem length_numeral_le (cs : List Char) :
    (numeral cs).2.length ≤ (cs.dropWhile Text.isDigit).length := by
  unfold numeral
  split
  · rename_i c rest heq
    split
    · have := length_dropWhile_le Text.isDigit rest
      simp only [heq, List.length_cons]
      omega
    · simp [heq]
  · exact Nat.le_refl _

/-- A word is never empty. -/
theorem length_lexeme?_lt {wanted : Terminal → Bool} {cs rest : List Char} {l : Lexeme}
    (h : lexeme? wanted cs = some (l, rest)) : rest.length < cs.length := by
  cases cs with
  | nil => simp [lexeme?] at h
  | cons c cs =>
    simp only [lexeme?] at h
    split at h
    · simp only [Option.some.injEq, Prod.mk.injEq] at h
      have := length_dropWhile_le isNamePart cs
      simp only [← h.2, List.length_cons]
      omega
    · split at h
      · rename_i hc
        simp only [Option.some.injEq, Prod.mk.injEq] at h
        have h1 := length_numeral_le (c :: cs)
        have hd : Text.isDigit c = true := by simp_all
        have h2 := length_dropWhile_le Text.isDigit cs
        simp only [List.dropWhile_cons, hd, if_true] at h1
        simp only [← h.2, List.length_cons]
        omega
      · split at h
        · rename_i hn
          simp only [Option.some.injEq, Prod.mk.injEq] at h
          split at hn
          · exact h.2 ▸ length_note?_lt hn
          · simp at hn
        · obtain ⟨⟨m, r⟩, hm, heq⟩ := Option.map_eq_some_iff.1 h
          cases heq
          exact length_mark?_lt hm

theorem length_skip_le (inComment : Bool) (p : Place) (cs : List Char) :
    (skip inComment p cs).2.length ≤ cs.length := by
  induction cs generalizing inComment p with
  | nil => simp [skip]
  | cons c cs ih =>
    simp only [skip, List.length_cons]
    split
    · have := ih (c != '\n') (p.next c)
      omega
    · split
      · have := ih false (p.next c)
        omega
      · split
        · have := ih true (p.next c)
          omega
        · simp

/-- What is left behind the next word is shorter than the text. -/
theorem length_rest_lt {wanted : Terminal → Bool} {inComment : Bool} {p q : Place}
    {text cs rest : List Char} {l : Lexeme} (hskip : skip inComment p text = (q, cs))
    (hcut : lexeme? wanted cs = some (l, rest)) : rest.length < text.length := by
  have hle := length_skip_le inComment p text
  rw [hskip] at hle
  exact Nat.lt_of_lt_of_le (length_lexeme?_lt hcut) hle

end TuneScript.Scan
