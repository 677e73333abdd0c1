import TuneScript.Proofs.Echoes
import TuneScript.Proofs.Rewording
import TuneScript.Proofs.Voices

/-!
Small and capital letters of notes. A text may have either, but only names in capital letters are
known, and a note in a small letter sounds as the A of its octave. So a capital in the place of a
small letter is accepted, and the run of the new text asks for the same notes in the same order;
the frequency of that one note is another one, unless the note sounds as an A either way.
-/

namespace TuneScript

namespace Pitch

/-- The note with a capital for its letter. -/
def capital (note : String) : String := String.ofList (note.toList.modifyHead Char.toUpper)

def isSmall (note : String) : Bool := note.toList.head?.any Char.isLower

/-- The names that sound as A: besides A itself those that are not known. -/
def likeA : List String := ["A", "E#", "Fb", "B#", "Cb"]

def smallLetters : List Char := ['a', 'b', 'c', 'd', 'e', 'f', 'g']

def capitalLetters : List Char := ['A', 'B', 'C', 'D', 'E', 'F', 'G']

/-- What a note can have between its letter and its digit. -/
def accidentals : List (List Char) := [[], ['#'], ['b']]

/-- The frequency of a name in an octave. -/
def sounding (name : List Char) (octave : Nat) : Float :=
  shift ((names.lookup (String.ofList name)).getD standard) (octave - 4)

theorem frequency_snoc {s : String} {name : List Char} {c : Char} {octave : Nat}
    (hs : s.toList = name ++ [c]) (hname : name ≠ []) (hc : Text.digitValue? c = some octave) :
    frequency (.text s) = .ok (sounding name octave) := by
  have hlength : s.length = name.length + 1 := by
    rw [← String.length_toList, hs, List.length_append, List.length_singleton]
  have hlong : ¬s.length < 2 := by
    have := List.length_pos_iff.2 hname
    omega
  have hval : (Value.text s).length = .ok s.length := rfl
  have htake : s.toList.take (s.length - 1) = name := by
    rw [hs, hlength, Nat.add_sub_cancel, List.take_left]
  have hdrop : s.toList.drop (s.length - 1) = [c] := by
    rw [hs, hlength, Nat.add_sub_cancel, List.drop_left]
  rw [frequency, hval, Result.bind_of_ok rfl, if_neg hlong]
  dsimp only
  rw [htake, hdrop, Value.toInt, Reading.int_digit hc]
  rfl

theorem digitValue?_of_isDigit {c : Char} (h : Text.isDigit c = true) :
    ∃ octave < 10, Text.digitValue? c = some octave := by
  obtain ⟨hlow, hhigh⟩ := (Scan.isDigit_iff c).1 h
  have hfind : (Text.zeroPoints.find? fun first => first ≤ c.toNat && c.toNat < first + 10) =
      some 48 := by
    refine List.find?_cons_of_pos (p := fun first => first ≤ c.toNat && c.toNat < first + 10) ?_
    simp only [Bool.and_eq_true, decide_eq_true_eq]
    omega
  refine ⟨c.toNat - 48, by omega, ?_⟩
  rw [Text.digitValue?, hfind]
  rfl

/-- A note is a letter, perhaps an accidental, and a digit. -/
theorem parts_of_isNote {cs : List Char} (h : Scan.isNote cs = true) :
    ∃ letter accidental digit, cs = letter :: accidental ++ [digit] ∧
      Scan.isPitch letter = true ∧ accidental ∈ accidentals ∧ Text.isDigit digit = true := by
  unfold Scan.isNote at h
  split at h
  · next a b =>
    simp only [Bool.and_eq_true] at h
    exact ⟨a, [], b, rfl, h.1, by simp [accidentals], h.2⟩
  · next a b c =>
    simp only [Bool.and_eq_true, Bool.or_eq_true, beq_iff_eq] at h
    refine ⟨a, [b], c, rfl, h.1.1, ?_, h.2⟩
    rcases h.1.2 with rfl | rfl <;> simp [accidentals]
  · cases h

theorem isPitch_iff (c : Char) :
    Scan.isPitch c = true ↔ c ∈ capitalLetters ∨ c ∈ smallLetters := by
  have hletters : "ABCDEFGabcdefg".toList = capitalLetters ++ smallLetters := by decide
  rw [Scan.isPitch, List.contains_iff_mem, hletters, List.mem_append]

theorem isLower_capital {c : Char} (h : c ∈ capitalLetters) : c.isLower = false := by
  fin_cases h <;> rfl

theorem parts_of_isSmall {note : String} (hnote : Scan.isNote note.toList = true)
    (hsmall : isSmall note = true) :
    ∃ letter ∈ smallLetters, ∃ accidental ∈ accidentals, ∃ digit,
      note.toList = letter :: accidental ++ [digit] ∧ Text.isDigit digit = true := by
  obtain ⟨letter, accidental, digit, hcs, hpitch, haccidental, hdigit⟩ := parts_of_isNote hnote
  have hlower : letter.isLower = true := by
    rw [isSmall, hcs] at hsmall
    exact hsmall
  rcases (isPitch_iff letter).1 hpitch with h | h
  · rw [isLower_capital h] at hlower
    cases hlower
  · exact ⟨letter, h, accidental, haccidental, digit, hcs, hdigit⟩

/-- No name in a small letter is known. -/
theorem lookup_small {letter : Char} (hletter : letter ∈ smallLetters)
    {accidental : List Char} (haccidental : accidental ∈ accidentals) :
    names.lookup (String.ofList (letter :: accidental)) = none := by
  fin_cases hletter <;> fin_cases haccidental <;> rfl

theorem lookup_capital {letter : Char} (hletter : letter ∈ capitalLetters)
    {accidental : List Char} (haccidental : accidental ∈ accidentals) :
    (names.lookup (String.ofList (letter :: accidental))).getD standard = standard ↔
      String.ofList (letter :: accidental) ∈ likeA := by
  fin_cases hletter <;> fin_cases haccidental <;> decide +kernel

/-- In no octave two different frequencies of the table come to sound alike. -/
theorem shift_eq_iff : ∀ base ∈ names.map Prod.snd, ∀ octave ∈ List.range 10,
    shift standard (octave - 4) = shift base (octave - 4) ↔ base = standard := by
  decide +kernel

theorem isNote_of_parts {letter digit : Char} {accidental : List Char}
    (hletter : Scan.isPitch letter = true) (haccidental : accidental ∈ accidentals)
    (hdigit : Text.isDigit digit = true) :
    Scan.isNote (letter :: accidental ++ [digit]) = true := by
  fin_cases haccidental <;> simp [Scan.isNote, hletter, hdigit]

theorem toUpper_small {c : Char} (h : c ∈ smallLetters) : c.toUpper ∈ capitalLetters := by
  fin_cases h <;> decide

theorem sounding_standard {name : List Char}
    (h : (names.lookup (String.ofList name)).getD standard = standard) (octave : Nat) :
    sounding name octave = shift standard (octave - 4) := by
  rw [sounding, h]

theorem sounding_A (octave : Nat) : sounding ['A'] octave = shift standard (octave - 4) :=
  sounding_standard (by decide +kernel) octave

theorem sounding_eq_iff {letter : Char} (hletter : letter ∈ capitalLetters)
    {accidental : List Char} (haccidental : accidental ∈ accidentals) {octave : Nat}
    (hoctave : octave < 10) : sounding ['A'] octave = sounding (letter :: accidental) octave ↔
      String.ofList (letter :: accidental) ∈ likeA := by
  rw [← lookup_capital hletter haccidental, sounding_A, sounding]
  cases h : names.lookup (String.ofList (letter :: accidental)) with
  | none => exact ⟨fun _ => rfl, fun _ => rfl⟩
  | some base =>
      obtain ⟨before, after, hnames, -⟩ := List.lookup_eq_some_iff.1 h
      have hbase : base ∈ names.map Prod.snd := by
        rw [hnames]
        exact List.mem_map_of_mem List.mem_append_cons_self
      exact shift_eq_iff base hbase octave (List.mem_range.2 hoctave)

/-- A note in a small letter has the frequency of the A of its octave, and with a capital that of
its name. -/
theorem frequency_small {note : String} (hnote : Scan.isNote note.toList = true)
    (hsmall : isSmall note = true) :
    Scan.isNote (capital note).toList = true ∧ ∃ low high digit,
      frequency (.text note) = .ok low ∧ frequency (.text (capital note)) = .ok high ∧
      note.toList.getLast? = some digit ∧
      frequency (.text (String.ofList ['A', digit])) = .ok low ∧
      (low = high ↔ String.ofList (capital note).toList.dropLast ∈ likeA) := by
  obtain ⟨letter, hletter, accidental, haccidental, digit, hcs, hdigit⟩ :=
    parts_of_isSmall hnote hsmall
  obtain ⟨octave, hoctave, hvalue⟩ := digitValue?_of_isDigit hdigit
  have hupper := toUpper_small hletter
  have hcapital : (capital note).toList = letter.toUpper :: accidental ++ [digit] := by
    rw [capital, String.toList_ofList, hcs]
    rfl
  have hlow : sounding (letter :: accidental) octave = sounding ['A'] octave := by
    rw [sounding_A, sounding_standard (by rw [lookup_small hletter haccidental, Option.getD_none])]
  have hnote' := isNote_of_parts ((isPitch_iff _).2 (.inl hupper)) haccidental hdigit
  refine ⟨hcapital ▸ hnote', sounding ['A'] octave,
    sounding (letter.toUpper :: accidental) octave, digit, ?_, ?_, ?_, ?_, ?_⟩
  · rw [frequency_snoc hcs (List.cons_ne_nil _ _) hvalue, hlow]
  · exact frequency_snoc hcapital (List.cons_ne_nil _ _) hvalue
  · rw [hcs, List.getLast?_concat]
  · have hA : (String.ofList ['A', digit]).toList = ['A'] ++ [digit] := String.toList_ofList
    exact frequency_snoc hA (List.cons_ne_nil _ _) hvalue
  · rw [hcapital, List.dropLast_concat]
    exact sounding_eq_iff hupper haccidental hoctave

end Pitch

theorem frequency_instead_both {note other : String} {x y : Float}
    (hnote : Pitch.frequency (.text note) = .ok x) (hother : Pitch.frequency (.text other) = .ok y)
    (name : String) : Result.Both (fun _ _ => True) (Pitch.frequency (.text (instead note name)))
      (Pitch.frequency (.text (instead other name))) := by
  rw [instead, instead]
  split
  · rw [hnote, hother]
    exact .ok trivial
  · exact (Result.Both.refl _).mono fun _ _ _ => trivial

/-- Only in the place that was left open two spellings can differ. -/
theorem frequency_instead_iff {note other : String} (names : List String) :
    (∀ name ∈ names, Pitch.frequency (.text (instead note name)) =
        Pitch.frequency (.text (instead other name))) ↔
      Pitch.frequency (.text note) = Pitch.frequency (.text other) ∨ "" ∉ names := by
  constructor
  · intro h
    by_cases hopen : "" ∈ names
    · exact .inl (h "" hopen)
    · exact .inr hopen
  · intro h name hname
    by_cases hopen : name = ""
    · subst hopen
      exact h.resolve_right fun h => h hname
    · rw [instead, instead, if_neg hopen, if_neg hopen]

/-- A capital in the place of the small letter of one note. The new text is accepted, and both
programs are spelled from one, in which the place of the note is left open. The small letter has the
frequency of the A of its octave, which few capitals have. Unless functions compare differently,
both runs ask for the same notes in the same order. They ask for the same frequencies exactly if
those of the two letters are the same or the place left open is never asked for, and then they make
the same sounds. -/
theorem capital_for_small {dialect : Dialect} {text : String} {p : Program}
    (hread : Reader.read dialect text = .ok p) {before after : List (List Char × Lexeme)}
    {gap tail : List Char} {note : String}
    (hcuts : Reader.Cuts dialect .initial text.toList (before ++ (gap, .note note) :: after) tail)
    (hsmall : Pitch.isSmall note = true) :
    ∃ (q : Program) (low high : Float) (digit : Char),
      p = q.respell (instead note) ∧
      Reader.read dialect (String.ofList
          (Reader.unite (before ++ (gap, .note (Pitch.capital note)) :: after) tail)) =
        .ok (q.respell (instead (Pitch.capital note))) ∧
      Pitch.frequency (.text note) = .ok low ∧
      Pitch.frequency (.text (Pitch.capital note)) = .ok high ∧
      note.toList.getLast? = some digit ∧
      Pitch.frequency (.text (String.ofList ['A', digit])) = .ok low ∧
      (low = high ↔ String.ofList (Pitch.capital note).toList.dropLast ∈ Pitch.likeA) ∧
      (q.ComparesAlike (instead note) (instead (Pitch.capital note)) → ∀ device,
        let e := Engine.built .soft device
        let p' := q.respell (instead (Pitch.capital note))
        ∃ names : List String,
          List.Forall₂ (fun name x => Pitch.frequency (.text (instead note name)) = .ok x)
            names (p.asks e) ∧
          List.Forall₂ (fun name x =>
            Pitch.frequency (.text (instead (Pitch.capital note) name)) = .ok x)
            names (p'.asks e) ∧
          (p.asks e = p'.asks e ↔ low = high ∨ "" ∉ names) ∧
          (p.asks e = p'.asks e → p.sounds e = p'.sounds e)) := by
  have hnote : Scan.isNote note.toList = true :=
    hcuts.notes (gap, .note note) List.mem_append_cons_self
  obtain ⟨hcapital, low, high, digit, hlow, hhigh, hdigit, hA, hlike⟩ :=
    Pitch.frequency_small hnote hsmall
  obtain ⟨q, rfl, hreplaced⟩ := Reader.read_replaced hread hcuts hcapital
  refine ⟨q, low, high, digit, rfl, hreplaced, hlow, hhigh, hdigit, hA, hlike,
    fun halike device => ?_⟩
  obtain ⟨names, hechoes⟩ :=
    Program.echoes_marked halike (frequency_instead_both hlow hhigh) .soft device
  have hsame : low = high ∨ "" ∉ names ↔ ∀ name ∈ names,
      Pitch.frequency (.text (instead note name)) =
        Pitch.frequency (.text (instead (Pitch.capital note) name)) := by
    rw [frequency_instead_iff, hlow, hhigh, Except.ok.injEq]
  refine ⟨names, hechoes.left, hechoes.right, hechoes.marks_eq_iff.trans hsame.symm, fun h => ?_⟩
  rw [← Program.sounds_marked, ← Program.sounds_marked, Engine.sounds_eq_heard,
    Engine.sounds_eq_heard]
  exact hechoes.sounds (hechoes.marks_eq_iff.1 h)

/-- An E sharp sounds as an A with either letter, so nothing is heard of the capital. -/
theorem capital_for_small_sharp :
    ∃ p p', Reader.read .full "tempo 90 note e#4" = .ok p ∧
      Reader.read .full "tempo 90 note E#4" = .ok p' ∧
      p.asks (.built .soft .standard) = p'.asks (.built .soft .standard) ∧
      p.sounds (.built .soft .standard) = p'.sounds (.built .soft .standard) := by
  have htempo : Scan.skip false .first "tempo 90 note e#4".toList =
      (.first, "tempo 90 note e#4".toList) := rfl
  have hninety : Scan.skip false ⟨1, 6⟩ " 90 note e#4".toList =
      (⟨1, 7⟩, "90 note e#4".toList) := rfl
  have hkeyword : Scan.skip false ⟨1, 9⟩ " note e#4".toList = (⟨1, 10⟩, "note e#4".toList) := rfl
  have hnote : Scan.skip false ⟨1, 14⟩ " e#4".toList = (⟨1, 15⟩, "e#4".toList) := rfl
  have hend : Scan.skip false ⟨1, 18⟩ [] = (⟨1, 18⟩, []) := rfl
  have hread : Reader.read .full "tempo 90 note e#4" =
      .ok [.tempo ⟨['9', '0'], none⟩, .note (.single "e#4") none] := by
    rw [Reader.read, Reader.readFrom_word htempo (l := .keyword .tempo) rfl]
    refine (Reader.readFrom_word hninety (l := .numeral ⟨['9', '0'], none⟩) rfl).trans ?_
    refine (Reader.readFrom_word hkeyword (l := .keyword .note) rfl).trans ?_
    refine (Reader.readFrom_word hnote (l := .note "e#4") rfl).trans ?_
    exact Reader.readFrom_done hend
  have hcuts : Reader.Cuts .full .initial "tempo 90 note e#4".toList
      ([([], .keyword .tempo), ([' '], .numeral ⟨['9', '0'], none⟩), ([' '], .keyword .note)] ++
        ([' '], .note "e#4") :: []) [] := by
    change Reader.Cuts .full .initial
      ([] ++ ((Lexeme.keyword .tempo).chars ++ " 90 note e#4".toList)) _ _
    refine .word htempo rfl rfl ?_
    change Reader.Cuts .full _
      ([' '] ++ ((Lexeme.numeral ⟨['9', '0'], none⟩).chars ++ " note e#4".toList)) _ _
    refine .word hninety rfl rfl ?_
    change Reader.Cuts .full _ ([' '] ++ ((Lexeme.keyword .note).chars ++ " e#4".toList)) _ _
    refine .word hkeyword rfl rfl ?_
    change Reader.Cuts .full _ ([' '] ++ ((Lexeme.note "e#4").chars ++ [])) _ _
    exact .word hnote rfl rfl (.done hend)
  obtain ⟨q, low, high, digit, hq, hread', -, -, -, -, hlike, h⟩ :=
    capital_for_small hread hcuts (by decide)
  have hundefined (name : String) (xs : List String) (body : List Stmt) :
      ¬(Stmt.define name xs body).Within (q.respell (instead "e#4")) := by
    rw [← hq]
    intro hdefine
    cases hdefine with
    | here h => simp at h
    | inside ht hinner _ =>
        rcases List.mem_pair.1 ht with rfl | rfl <;> cases hinner
  obtain ⟨names, -, -, hasks, hsounds⟩ :=
    h (Program.comparesAlike_of_undefined hundefined _ _) .standard
  have hsame := hasks.2 (.inl (hlike.2 (by decide)))
  exact ⟨_, _, hread, hread', hsame, hsounds hsame⟩

/-- A beat of the first tempo has a length. -/
theorem Value.div_first_tempo : ∃ y, (Value.float 60.0).div (.int 120) = .ok (.float y) := by
  have hok : ((Value.float 60.0).div (.int 120)).isOk = true := by decide +kernel
  cases h : (Value.float 60.0).div (.int 120) with
  | ok v =>
      obtain ⟨y, rfl⟩ := Value.div_ok h
      exact ⟨y, rfl⟩
  | error f =>
      rw [h] at hok
      cases hok

/-- A new engine that has chosen the piano asks for the frequency of the one note. -/
theorem asks_note {note : String} {x : Float} (hx : Pitch.frequency (.text note) = .ok x) :
    Program.asks [.instrument "piano", .note (.single note) none] (.built .soft .standard) =
      [x] := by
  let e := Engine.built .soft .standard
  let first (rest : Perform Unit) : Perform Unit := do
    Perform.say "🎵 開始執行音樂程式..."
    Perform.say ("📊 程式包含 " ++ toString 2 ++ " 個語句")
    Perform.say ("\n--- 執行語句 " ++ toString 1 ++ "/" ++ toString 2 ++ " ---")
    Perform.setInstrument false (.text "piano")
    Perform.say ("\n--- 執行語句 " ++ toString 2 ++ "/" ++ toString 2 ++ " ---")
    rest
  let c := ((first (pure ())).runOn e).2
  let run := Perform.performWith Perform.asking Perform.depthLimit
  let last := run (Stmt.note (.single note) none).toNode
  have hperformed : Program.performed run [.instrument "piano", .note (.single note) none] =
      first (do last; pure ()) := rfl
  have hfirst (rest : Perform Unit) : (first rest).runOn e = rest.runOn c := rfl
  obtain ⟨y, hy⟩ := Value.div_first_tempo
  have hlast : last.runOn c = (Perform.asking (.text note) (.float y)).runOn c := by
    change (Perform.beat >>= fun d => get >>= fun e => if (e.palette == .plain) = true then _
      else Perform.asking (.text note) d : Perform Unit).runOn c = _
    have hbpm : c.tempo = some (.int 120) := rfl
    rw [Perform.runOn_bind, Perform.runOn_beat hbpm, hy]
    rfl
  have hasked : c.frequency? (.text note) (.float y) = some x := by
    change ((Perform.lift (Pitch.frequency (.text note))).runOn _).1.toOption = some x
    rw [hx]
    rfl
  have hend : ((do last; pure () : Perform Unit).runOn c).2 = (last.runOn c).2 := by
    rw [Perform.runOn_bind]
    cases (last.runOn c).1 <;> rfl
  have hsilence : c.heard = [] := rfl
  rw [Program.asks, Program.marked, Engine.heard_of_silent (Program.silent_executeWith run _ e),
    hperformed, hfirst, hend, hlast, Perform.heard_asking, hasked, hsilence]
  cases c.tone? (.text note) (.float y) <;> rfl

/-- A small c asks for the frequency of an A, and a capital one for that of a C. -/
theorem small_letter_asks_for_A :
    ∃ p p', Reader.read .full "refinst = piano\nnote c4" = .ok p ∧
      Reader.read .full "refinst = piano\nnote C4" = .ok p' ∧
      p.asks (.built .soft .standard) = [440.0] ∧ p'.asks (.built .soft .standard) = [261.63] := by
  let p (note : String) : Program := [.instrument "piano", .note (.single note) none]
  have hlower : (p "c4").render = "refinst = piano\nnote c4" := by decide
  have hupper : (p "C4").render = "refinst = piano\nnote C4" := by decide
  exact ⟨p "c4", p "C4", hlower ▸ Program.read_render (by decide),
    hupper ▸ Program.read_render (by decide), asks_note rfl, asks_note rfl⟩

end TuneScript
