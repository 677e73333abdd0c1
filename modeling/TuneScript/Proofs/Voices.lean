import TuneScript.Proofs.Tones
import TuneScript.Voice.Player

/-!
Notes on the voices. A note is looked for under its name in capitals, while the table writes the
second letter of a flat small. So exactly the naturals and the sharps can be found, in any spelling
and with an octave digit of any script, and the flats never. What is found is played whenever the
duration and the volume make a wave, and what is not found is passed over.
-/

namespace TuneScript

namespace Text

theorem mem_zeroPoints_of_digitValue? {c : Char} {d : Nat} (h : digitValue? c = some d) :
    ∃ first ∈ zeroPoints, first ≤ c.toNat ∧ c.toNat < first + 10 ∧ d = c.toNat - first := by
  obtain ⟨first, hfind, rfl⟩ := Option.map_eq_some_iff.1 h
  have hrange := List.find?_some hfind
  simp only [Bool.and_eq_true, decide_eq_true_eq] at hrange
  exact ⟨first, List.mem_of_find?_eq_some hfind, hrange.1, hrange.2, rfl⟩

/-- The digits of no script are blanks. -/
theorem isNumberBlank_digit {c : Char} {d : Nat} (h : digitValue? c = some d) :
    isNumberBlank c = false := by
  obtain ⟨first, hfirst, hlow, hhigh, -⟩ := mem_zeroPoints_of_digitValue? h
  have hapart : ∀ first ∈ zeroPoints, 32 < first ∧ (first + 10 ≤ 133 ∨ 160 < first) ∧
      (first + 10 ≤ 5760 ∨ 5760 < first) ∧ (first + 10 ≤ 8192 ∨ 12288 < first) := by decide
  have hruns := hapart first hfirst
  have hblank : isBlank c = false := by
    simp only [isBlank, Bool.or_eq_false_iff, Bool.and_eq_false_iff, decide_eq_false_iff_not,
      beq_eq_false_iff_ne]
    omega
  rw [isNumberBlank, hblank, Bool.false_and]

end Text

namespace Reading

theorem int_digit {c : Char} {d : Nat} (h : Text.digitValue? c = some d) :
    int (String.ofList [c]) = .ok d := by
  have htrim : Text.trimBy Text.isNumberBlank [c] = [c] := by
    simp [Text.trimBy, Text.isNumberBlank_digit h]
  have hsign : splitSign [c] = (false, [c]) := by
    unfold splitSign
    split
    · next heq => cases heq; cases h
    · next heq => cases heq; cases h
    · rfl
  simp [int, htrim, hsign, groupedDigits?, h, digitLimit, Text.natOfDigits]

theorem int_no_digit {c : Char} (h : Text.digitValue? c = none) :
    int (String.ofList [c]) = .error (.invalidInteger (String.ofList [c])) := by
  have hbody : groupedDigits? (splitSign (Text.trimBy Text.isNumberBlank [c])).2 = none := by
    cases hblank : Text.isNumberBlank c with
    | true => simp [Text.trimBy, hblank, splitSign, groupedDigits?]
    | false =>
        have htrim : Text.trimBy Text.isNumberBlank [c] = [c] := by
          simp [Text.trimBy, hblank]
        rw [htrim, splitSign.eq_def]
        split <;> simp_all [groupedDigits?]
  simp [int, hbody]

end Reading

namespace Voice

/-- A text that writes a note: its name in letters of any case, and one digit for the octave. -/
def Writes (s name : String) (octave : Nat) : Prop :=
  ∃ w c, s.toList = w ++ [c] ∧ w.map Char.toUpper = name.toList.map Char.toUpper ∧
    Text.digitValue? c = some octave

/-- The names of flats have a small letter. -/
def isFlat (name : String) : Bool := name.toList.contains 'b'

/-- The frequency of a note that is no flat, in the octaves of the table. -/
def Finds (s : String) (f : Float) : Prop :=
  ∃ name row octave, (name, row) ∈ noteTable ∧ isFlat name = false ∧ octave ≤ 8 ∧
    Writes s name octave ∧ row[octave]? = some f

section Table

variable {name : String} {row : List Float}

theorem lookup_noteTable : noteTable.lookup name = some row ↔ (name, row) ∈ noteTable := by
  constructor
  · intro h
    obtain ⟨before, after, htable, -⟩ := List.lookup_eq_some_iff.1 h
    rw [htable]
    exact List.mem_append_right _ List.mem_cons_self
  · intro h
    fin_cases h <;> rfl

/-- In capitals a name stays what it is exactly if it is no flat, and a flat in capitals is not in
the table. -/
theorem capitals_noteTable : noteTable.all (fun p =>
    if isFlat p.1 then (noteTable.lookup (String.ofList (p.1.toList.map Char.toUpper))).isNone
    else p.1.toList.map Char.toUpper == p.1.toList) = true := by
  decide +kernel

theorem toList_ne_nil (h : (name, row) ∈ noteTable) : name.toList ≠ [] := by
  fin_cases h <;> exact List.cons_ne_nil _ _

theorem length_row (h : (name, row) ∈ noteTable) : row.length = 9 := by
  fin_cases h <;> rfl

theorem capitals_of_mem (h : (name, row) ∈ noteTable) (hflat : isFlat name = false) :
    name.toList.map Char.toUpper = name.toList := by
  simpa [hflat] using List.all_eq_true.1 capitals_noteTable _ h

theorem lookup_flat (h : (name, row) ∈ noteTable) (hflat : isFlat name = true) :
    noteTable.lookup (String.ofList (name.toList.map Char.toUpper)) = none := by
  simpa [hflat] using List.all_eq_true.1 capitals_noteTable _ h

theorem toUpper_ne_small (c : Char) : c.toUpper ≠ 'b' := by
  intro h
  have hpoint := congrArg (fun c : Char => c.val.toNat) h
  simp only [Char.toUpper] at hpoint
  split at hpoint <;> grind [UInt32.toNat_add, UInt32.le_iff_toNat_le]

/-- A name in capitals is never that of a flat. -/
theorem isFlat_capitals (w : List Char) : isFlat (String.ofList (w.map Char.toUpper)) = false := by
  rw [isFlat, String.toList_ofList, List.contains_eq_mem, decide_eq_false_iff_not, List.mem_map]
  rintro ⟨c, -, hc⟩
  exact toUpper_ne_small c hc

end Table

variable {s : String} {w : List Char} {c : Char}

theorem frequency?_short (h : s.length < 2) : frequency? (.text s) = .ok none := by
  have hlength : (Value.text s).length = .ok s.length := rfl
  rw [frequency?, hlength]
  exact if_pos h

theorem frequency?_snoc (hs : s.toList = w ++ [c]) (hw : w ≠ []) :
    frequency? (.text s) = .ok ((Text.digitValue? c).bind fun octave =>
      (noteTable.lookup (String.ofList (w.map Char.toUpper))).bind fun row => row[octave]?) := by
  have hlength : s.length = w.length + 1 := by
    rw [← String.length_toList, hs, List.length_append, List.length_singleton]
  have hlong : ¬s.length < 2 := by
    have := List.length_pos_iff.2 hw
    omega
  have hval : (Value.text s).length = .ok s.length := rfl
  have hname : s.toList.take (s.length - 1) = w := by
    rw [hs, hlength, Nat.add_sub_cancel, List.take_left]
  have hdigit : s.toList.drop (s.length - 1) = [c] := by
    rw [hs, hlength, Nat.add_sub_cancel, List.drop_left]
  rw [frequency?, hval, Result.bind_of_ok rfl, if_neg hlong, hname, hdigit]
  cases hc : Text.digitValue? c with
  | none =>
      rw [Reading.int_no_digit hc]
      rfl
  | some octave =>
      rw [Reading.int_digit hc]
      dsimp only
      cases noteTable.lookup (String.ofList (w.map Char.toUpper)) with
      | none => rfl
      | some row =>
          dsimp only
          rw [if_neg (by omega), Int.toNat_natCast]
          rfl

theorem exists_snoc (h : ¬s.length < 2) : ∃ w c, s.toList = w ++ [c] ∧ w ≠ [] := by
  rw [← String.length_toList] at h
  have hne : s.toList ≠ [] := by
    intro hnil
    rw [hnil] at h
    exact h (by decide)
  refine ⟨_, _, (List.dropLast_concat_getLast hne).symm, fun hnil => h ?_⟩
  have hlength : s.toList.dropLast.length = s.toList.length - 1 := List.length_dropLast
  rw [hnil, List.length_nil] at hlength
  omega

theorem frequency?_eq_some_iff {f : Float} :
    frequency? (.text s) = .ok (some f) ↔ Finds s f := by
  constructor
  · intro h
    have hlong : ¬s.length < 2 := by
      intro hshort
      rw [frequency?_short hshort] at h
      cases h
    obtain ⟨w, c, hs, hw⟩ := exists_snoc hlong
    rw [frequency?_snoc hs hw] at h
    obtain ⟨octave, hc, h⟩ := Option.bind_eq_some_iff.1 (Except.ok.inj h)
    obtain ⟨row, hrow, hf⟩ := Option.bind_eq_some_iff.1 h
    have hmem := lookup_noteTable.1 hrow
    have hflat := isFlat_capitals w
    have hoctave : octave < row.length := (List.getElem?_eq_some_iff.1 hf).1
    rw [length_row hmem] at hoctave
    refine ⟨_, row, octave, hmem, hflat, by omega, ⟨w, c, hs, ?_, hc⟩, hf⟩
    rw [capitals_of_mem hmem hflat, String.toList_ofList]
  · rintro ⟨name, row, octave, hmem, hflat, -, ⟨w, c, hs, hw, hc⟩, hf⟩
    rw [capitals_of_mem hmem hflat] at hw
    have hne : w ≠ [] := by
      rintro rfl
      exact toList_ne_nil hmem hw.symm
    rw [frequency?_snoc hs hne, hc, hw, String.ofList_toList, Option.bind_some]
    exact congrArg Except.ok (Option.bind_eq_some_iff.2 ⟨row, lookup_noteTable.2 hmem, hf⟩)

theorem exists_finds_iff : (∃ f, Finds s f) ↔ ∃ name row octave, (name, row) ∈ noteTable ∧
    isFlat name = false ∧ octave ≤ 8 ∧ Writes s name octave := by
  constructor
  · rintro ⟨f, name, row, octave, hmem, hflat, hoctave, hs, -⟩
    exact ⟨name, row, octave, hmem, hflat, hoctave, hs⟩
  · rintro ⟨name, row, octave, hmem, hflat, hoctave, hs⟩
    have hlt : octave < row.length := by
      rw [length_row hmem]
      omega
    exact ⟨_, name, row, octave, hmem, hflat, hoctave, hs, List.getElem?_eq_getElem hlt⟩

/-- Looking for a text always comes to an answer. -/
theorem frequency?_text (s : String) : ∃ found, frequency? (.text s) = .ok found := by
  by_cases h : s.length < 2
  · exact ⟨none, frequency?_short h⟩
  · obtain ⟨w, c, hs, hw⟩ := exists_snoc h
    exact ⟨_, frequency?_snoc hs hw⟩

theorem frequency?_eq_none_iff : frequency? (.text s) = .ok none ↔ ∀ f, ¬Finds s f := by
  obtain ⟨found, hfound⟩ := frequency?_text s
  simp only [← frequency?_eq_some_iff, hfound, Except.ok.injEq]
  cases found <;> simp

/-- A flat is never found, however it is written. -/
theorem frequency?_flat {name : String} {row : List Float} {octave : Nat}
    (hmem : (name, row) ∈ noteTable) (hflat : isFlat name = true) (hs : Writes s name octave) :
    frequency? (.text s) = .ok none := by
  obtain ⟨w, c, hs, hw, hc⟩ := hs
  have hne : w ≠ [] := by
    rintro rfl
    exact toList_ne_nil hmem (List.map_eq_nil_iff.1 hw.symm)
  rw [frequency?_snoc hs hne, hc, hw, lookup_flat hmem hflat]
  rfl

/-- A duration of `n` samples at the standard rate. -/
structure Lasts (duration : Value) (n : Nat) : Prop where
  number : duration.number?.isSome = true
  samples : sampleCount Synthesizer.standardRate duration = .ok n
  room : n ≤ Wave.capacity

/-- A volume that can be given to `n` samples. -/
def Scales (volume : Value) (n : Nat) : Prop :=
  ∃ o shape, Operand.ofValue volume = .ok o ∧ o.productShape false n = .ok shape

/-- Whether a note of this frequency can be filtered at a multiple of it. -/
def filters (f : Float) (k : Int) : Bool :=
  ((Value.float f).mul (.int k) >>= filterWeight Synthesizer.standardRate).toOption.isSome

theorem filters_noteTable :
    noteTable.all (fun p => isFlat p.1 || p.2.all fun f => [4, 8].all (filters f)) = true := by
  -- row by row, since the whole table at once takes much memory
  refine List.all_eq_true.2 fun p hp => ?_
  fin_cases hp <;> decide +kernel

/-- At the standard rate each stage of a voice has a length. -/
theorem stages_standard : Voice.all.all (fun v => ["attack", "decay", "release"].all fun key =>
    (stageLength Synthesizer.standardRate v.preset.toValue key).toOption.any (0 ≤ ·)) = true := by
  decide +kernel

theorem mem_all (v : Voice) : v ∈ Voice.all := by
  cases v <;> decide

theorem stageLength_ok (v : Voice) (key : String) (hkey : key ∈ ["attack", "decay", "release"]) :
    ∃ k : Nat, stageLength Synthesizer.standardRate v.preset.toValue key = .ok k := by
  have hstage := List.all_eq_true.1 (List.all_eq_true.1 stages_standard v (mem_all v)) key hkey
  cases h : stageLength Synthesizer.standardRate v.preset.toValue key with
  | error f =>
      rw [h] at hstage
      cases hstage
  | ok k =>
      rw [h] at hstage
      obtain ⟨j, rfl⟩ := Int.eq_ofNat_of_zero_le (of_decide_eq_true hstage)
      exact ⟨j, rfl⟩

theorem filters_of_finds {f : Float} (h : Finds s f) {k : Int} (hk : k ∈ [4, 8]) :
    filters f k = true := by
  obtain ⟨name, row, octave, hmem, hflat, -, -, hf⟩ := h
  have hrow := List.all_eq_true.1 filters_noteTable _ hmem
  rw [hflat, Bool.false_or] at hrow
  have hall := List.all_eq_true.1 hrow f (List.mem_of_getElem? hf)
  exact List.all_eq_true.1 hall k hk

theorem mul_int {f y : Float} {k : Int} (hy : (Number.int k).toFloat = .ok y) :
    (Value.float f).mul (.int k) = .ok (.float (f * y)) := by
  have hmul : (Number.float f).mul (.int k) = .ok (.float (f * y)) :=
    Result.bind_eq_ok.2 ⟨f, rfl, Result.bind_eq_ok.2 ⟨y, hy, rfl⟩⟩
  change ((Number.float f).mul (.int k)).map Number.toValue = _
  rw [hmul]
  rfl

theorem tones_ok (f : Float) {overtones : List Float} {i : Nat}
    (h : i + overtones.length ≤ Wave.capacity) : ∃ ts, tones (.float f) i overtones = .ok ts := by
  induction overtones generalizing i with
  | nil => exact ⟨[], rfl⟩
  | cons loudness rest ih =>
      rw [List.length_cons] at h
      obtain ⟨y, hy⟩ := Synthesizer.toFloat_of_le_capacity (n := i) (by omega)
      obtain ⟨ts, hts⟩ := ih (i := i + 1) (by omega)
      exact ⟨_, Result.bind_eq_ok.2 ⟨_, mul_int hy, Result.bind_eq_ok.2 ⟨_, rfl,
        Result.bind_eq_ok.2 ⟨_, rfl, Result.bind_eq_ok.2 ⟨ts, hts, rfl⟩⟩⟩⟩⟩

theorem tuned_ok (timbre : Timbre) (n : Nat) (f : Float) :
    ∃ g, tuned timbre n (.float f) = .ok g := by
  cases timbre <;> exact ⟨_, rfl⟩

theorem cutoffMultiple?_mem {timbre : Timbre} {k : Int} (h : cutoffMultiple? timbre = some k) :
    k ∈ [4, 8] := by
  cases timbre <;> cases h <;> decide

theorem lowpass_ok {f : Float} {k : Int} (h : filters f k = true) (signal : List Float) :
    ∃ cutoff xs, (Value.float f).mul (.int k) = .ok cutoff ∧
      lowpass Synthesizer.standardRate signal cutoff = .ok xs ∧ xs.length = signal.length := by
  unfold filters at h
  cases hcutoff : (Value.float f).mul (.int k) with
  | error failure =>
      rw [hcutoff] at h
      cases h
  | ok cutoff =>
      rw [hcutoff, Result.bind_of_ok rfl] at h
      cases hweight : filterWeight Synthesizer.standardRate cutoff with
      | error failure =>
          rw [hweight] at h
          cases h
      | ok weight =>
          exact ⟨cutoff, _, rfl, Result.bind_eq_ok.2 ⟨weight, hweight, rfl⟩,
            Filter.length_smooth weight signal⟩

section Waves

variable {duration volume : Value} {n : Nat} {f : Float}

theorem timbreWave_eq (timbre : Timbre) (overtones : List Float)
    (hn : sampleCount Synthesizer.standardRate duration = .ok n) :
    timbreWave Synthesizer.standardRate timbre overtones (.float f) duration = (do
      let length ← Operand.span n duration
      (if timbre.hasTones then tones (.float f) 1 overtones else pure []) >>= fun tones => do
        let g ← tuned timbre n (.float f)
        let raw := (Wave.sample length n fun m => timbreAt timbre tones (g m.index) n m).toList
        match cutoffMultiple? timbre with
        | some k => do lowpass Synthesizer.standardRate raw (← (Value.float f).mul (.int k))
        | none => return raw) := by
  have hrelated : Value.related .lt (.float f) (.int 80) =
      .ok (((Number.float f).compare? (.int 80)).any Relation.lt.holds) := by
    rw [Value.related]
    · rfl
    · intro a b h
      cases h
    · intro a b h
      cases h
  rw [timbreWave, Result.bind_of_ok hn]
  cases timbre with
  | drum =>
      rw [if_pos rfl, Result.bind_of_ok hrelated]
      rfl
  | _ => rfl

theorem length_sample (length : Float) (n : Nat) (value : Wave.Moment → Float) :
    (Wave.sample length n value).toList.length = n := by
  rw [Array.length_toList, Wave.sample, Array.size_ofFn]

theorem timbreWave_ok (timbre : Timbre) {overtones : List Float} (h : Lasts duration n)
    (hf : ∀ k ∈ [4, 8], filters f k = true) (hovertones : overtones.length < Wave.capacity) :
    ∃ xs, timbreWave Synthesizer.standardRate timbre overtones (.float f) duration = .ok xs ∧
      xs.length = n := by
  obtain ⟨m, hm⟩ := Option.isSome_iff_exists.1 h.number
  obtain ⟨length, -, hspan⟩ := Synthesizer.seconds_ok hm h.samples h.room
  obtain ⟨ts, hts⟩ : ∃ ts, (if timbre.hasTones then tones (.float f) 1 overtones else pure []) =
      .ok ts := by
    cases timbre.hasTones with
    | false => exact ⟨[], rfl⟩
    | true => exact tones_ok f (by omega)
  obtain ⟨g, hg⟩ := tuned_ok timbre n f
  rw [timbreWave_eq timbre overtones h.samples, Result.bind_of_ok hspan, Result.bind_of_ok hts,
    Result.bind_of_ok hg]
  cases hcutoff : cutoffMultiple? timbre with
  | none => exact ⟨_, rfl, length_sample length n _⟩
  | some k =>
      obtain ⟨cutoff, xs, hmul, hxs, hlength⟩ := lowpass_ok (hf k (cutoffMultiple?_mem hcutoff))
        (Wave.sample length n fun m => timbreAt timbre ts (g m.index) n m).toList
      refine ⟨xs, ?_, hlength.trans (length_sample length n _)⟩
      exact Result.bind_eq_ok.2 ⟨cutoff, hmul, hxs⟩

theorem envelope_ok (v : Voice) (h : Lasts duration n) :
    ∃ xs, envelope Synthesizer.standardRate duration v.preset.toValue = .ok xs ∧
      xs.length = n := by
  obtain ⟨a, ha⟩ := stageLength_ok v "attack" (by decide)
  obtain ⟨d, hd⟩ := stageLength_ok v "decay" (by decide)
  obtain ⟨r, hr⟩ := stageLength_ok v "release" (by decide)
  have hlevel : v.preset.toValue.item "sustain" = .ok (.float v.preset.sustain) := rfl
  have hdecay := Synthesizer.plain_decay hlevel rfl d
  have hsustain := Synthesizer.sustain_stages hlevel rfl .plain
  have hrelease := Synthesizer.plain_release hlevel rfl (n - max (a + d) (n - r))
  obtain ⟨xs, hxs, hlength, -⟩ := Stages.getElem?_layoutWithin (Wave.length_ramp 0.0 1.0 a) hdecay
    (Wave.length_ramp _ _ d) hsustain hrelease (Wave.length_ramp _ _ _)
  refine ⟨xs, ?_, hlength⟩
  rw [envelope_eq h.samples ha hd hr, Result.bind_of_ok (Wave.allot_ok h.room)]
  exact hxs

/-- A note that lasts is a row of samples to which the volume is given. -/
theorem wave_eq (v : Voice) (h : Lasts duration n) (hf : ∀ k ∈ [4, 8], filters f k = true) :
    ∃ xs : List Float, xs.length = n ∧
      v.wave Synthesizer.standardRate (.float f) duration volume = (do
        let o ← Operand.ofValue volume
        return (← o.product xs).2.toArray) := by
  have hovertones : v.preset.overtones.length < Wave.capacity := by
    cases v <;> decide
  obtain ⟨body, hbody, hlength⟩ := timbreWave_ok v.preset.timbre h hf hovertones
  obtain ⟨shape, hshape, hlength'⟩ := envelope_ok v h
  refine ⟨List.zipWith (· * ·) body shape, ?_, ?_⟩
  · rw [List.length_zipWith, hlength, hlength', Nat.min_self]
  · rw [wave, Result.bind_of_ok hbody, Result.bind_of_ok hshape]

theorem span_ok {m : Int} {x : Float} (h : Operand.span m duration = .ok x) :
    0 ≤ m ∧ m.toNat ≤ Wave.capacity ∧ duration.number?.isSome = true := by
  have hnonneg : ¬m < 0 := by
    intro hneg
    rw [Operand.span, if_pos hneg] at h
    cases h
  have hwide : Operand.isWide duration = false := by
    cases hwide : Operand.isWide duration with
    | false => rfl
    | true =>
        rw [Operand.span, if_neg hnonneg, hwide] at h
        cases h
  have hroom : (do
      Wave.allot "size" m.toNat
      duration.number?.elim (throw (.notAFloat duration.kind)) Number.toFloat) = Except.ok x := by
    rw [Operand.span, if_neg hnonneg, hwide] at h
    cases duration with
    | text s => cases h
    | _ => exact h
  obtain ⟨⟨⟩, hallot, hnumber⟩ := Result.bind_eq_ok.1 hroom
  refine ⟨Int.not_lt.1 hnonneg, Nat.le_of_not_lt fun hlt => Wave.allot_oversized hlt hallot, ?_⟩
  cases hm : duration.number? with
  | some d => rfl
  | none =>
      rw [hm] at hnumber
      cases hnumber

theorem lasts_of_wave {v : Voice} {frequency : Value} {w : Wave}
    (h : v.wave Synthesizer.standardRate frequency duration volume = .ok w) :
    ∃ n, Lasts duration n := by
  obtain ⟨body, hbody, -⟩ := Result.bind_eq_ok.1 h
  obtain ⟨m, hm, hbody⟩ := Result.bind_eq_ok.1 hbody
  obtain ⟨x, hspan⟩ : ∃ x, Operand.span m duration = .ok x := by
    dsimp only at hbody
    by_cases hdrum : v.preset.timbre = .drum
    · rw [if_pos hdrum] at hbody
      obtain ⟨-, -, hbody⟩ := Result.bind_eq_ok.1 hbody
      obtain ⟨x, hx, -⟩ := Result.bind_eq_ok.1 hbody
      exact ⟨x, hx⟩
    · rw [if_neg hdrum] at hbody
      obtain ⟨x, hx, -⟩ := Result.bind_eq_ok.1 hbody
      exact ⟨x, hx⟩
  obtain ⟨hnonneg, hroom, hnumber⟩ := span_ok hspan
  obtain ⟨n, rfl⟩ := Int.eq_ofNat_of_zero_le hnonneg
  exact ⟨n, hnumber, hm, hroom⟩

/-- Which durations and volumes make a wave does not depend on the voice. -/
theorem wave_iff (v : Voice) (hf : ∀ k ∈ [4, 8], filters f k = true) :
    (∃ w, v.wave Synthesizer.standardRate (.float f) duration volume = .ok w) ↔
      ∃ n, Lasts duration n ∧ Scales volume n := by
  constructor
  · rintro ⟨w, hw⟩
    obtain ⟨n, hn⟩ := lasts_of_wave hw
    obtain ⟨xs, rfl, heq⟩ := wave_eq v hn hf
    obtain ⟨o, ho, h⟩ := Result.bind_eq_ok.1 (heq.symm.trans hw)
    obtain ⟨ys, hproduct, -⟩ := Result.bind_eq_ok.1 h
    obtain ⟨shape, hshape, -⟩ := Result.bind_eq_ok.1 hproduct
    exact ⟨_, hn, o, shape, ho, hshape⟩
  · rintro ⟨n, hn, o, shape, ho, hshape⟩
    obtain ⟨xs, rfl, heq⟩ := wave_eq v hn hf
    rw [heq]
    exact ⟨_, Result.bind_eq_ok.2 ⟨o, ho, Result.bind_eq_ok.2 ⟨_,
      Result.bind_eq_ok.2 ⟨shape, hshape, rfl⟩, rfl⟩⟩⟩

end Waves

end Voice

namespace Player

/-- The sounds that were played, in their order. -/
def sounds (p : Player) : List Sound := p.log.toList.filterMap Effect.sound?

end Player

namespace Play

variable {p : Player} {note duration volume : Value}

def runOn {α : Type} (x : Play α) (p : Player) : Except Failure α × Player := x.run.run p

theorem runOn_get {α : Type} (f : Player → Play α) (p : Player) :
    (get >>= f : Play α).runOn p = (f p).runOn p := rfl

theorem runOn_lift_ok {α β : Type} {r : Result α} {a : α} (h : r = .ok a) (f : α → Play β)
    (p : Player) : (lift r >>= f).runOn p = (f a).runOn p := by
  rw [h]
  rfl

theorem runOn_lift_error {α β : Type} {r : Result α} {failure : Failure} (h : r = .error failure)
    (f : α → Play β) (p : Player) : (lift r >>= f).runOn p = (.error failure, p) := by
  rw [h]
  rfl

/-- What follows a sound that was played. -/
def waitFor (seconds : Result Value) : Play Unit := do
  emit (.wait (← lift (← lift ((← lift seconds).mul (.int 1000))).toInt))

theorem sounds_waitFor (seconds : Result Value) (p : Player) :
    ((waitFor seconds).runOn p).2.sounds = p.sounds := by
  unfold waitFor
  cases hseconds : seconds with
  | error failure => rfl
  | ok v =>
      cases hmul : v.mul (.int 1000) with
      | error failure =>
          rw [runOn_lift_ok rfl, runOn_lift_error hmul]
      | ok t =>
          rw [runOn_lift_ok rfl, runOn_lift_ok hmul]
          cases t.toInt with
          | error failure => rfl
          | ok k => exact (Engine.filterMap_push Effect.sound? p.log _).trans (List.append_nil _)

/-- A wave is one sound; the wait after it is none, whether it can be computed or not. -/
theorem sounds_playWave (w : Wave) (p : Player) :
    ((playWave w).runOn p).2.sounds = p.sounds ++ [⟨Sound.quantize 1.0 32767.0 w, true⟩] := by
  let samples := Sound.quantize 1.0 32767.0 w
  have hwait : (playWave w).runOn p = (waitFor ((Value.int samples.size).div (.int p.rate))).runOn
      { p with log := p.log.push (.sound ⟨samples, true⟩) } := rfl
  rw [hwait, sounds_waitFor]
  exact Engine.filterMap_push Effect.sound? p.log _

theorem runOn_playNote_none (h : Voice.frequency? note = .ok none) :
    (playNote note duration volume).runOn p = (.ok (), p) := by
  rw [playNote, runOn_lift_ok h]
  rfl

theorem runOn_playNote_some {f : Float} (h : Voice.frequency? note = .ok (some f)) :
    (playNote note duration volume).runOn p =
      (lift (p.voice.wave p.rate (.float f) duration volume) >>= playWave).runOn p := by
  rw [playNote, runOn_lift_ok h]
  dsimp only
  rw [runOn_get]

section Text

variable {s : String} {f : Float}

theorem sounds_playNote {w : Wave} (hf : Voice.Finds s f)
    (hw : p.voice.wave p.rate (.float f) duration volume = .ok w) :
    ((playNote (.text s) duration volume).runOn p).2.sounds =
      p.sounds ++ [⟨Sound.quantize 1.0 32767.0 w, true⟩] := by
  rw [runOn_playNote_some (Voice.frequency?_eq_some_iff.2 hf), runOn_lift_ok hw, sounds_playWave]

/-- Without a frequency or a wave the player stays as it is. -/
theorem playNote_unheard (h : ¬∃ f w, Voice.Finds s f ∧
    p.voice.wave p.rate (.float f) duration volume = .ok w) :
    ((playNote (.text s) duration volume).runOn p).2 = p := by
  obtain ⟨found, hfound⟩ := Voice.frequency?_text s
  cases found with
  | none => rw [runOn_playNote_none hfound]
  | some f =>
      cases hw : p.voice.wave p.rate (.float f) duration volume with
      | ok w => exact absurd ⟨f, w, Voice.frequency?_eq_some_iff.1 hfound, hw⟩ h
      | error failure => rw [runOn_playNote_some hfound, runOn_lift_error hw]

end Text

/-- A text is found exactly if it writes a natural or a sharp of the table, with an octave from 0
to 8, and then it has the frequency of the table. The flats of the table are not found. What is
found is played as one sound if there is a wave for it, and in all other cases the player stays as
it is. At the standard rate there is a wave, on any voice, exactly if the duration and the volume
allow it. -/
theorem note_lookup (s : String) :
    (∀ f, Voice.frequency? (.text s) = .ok (some f) ↔ Voice.Finds s f) ∧
    (Voice.frequency? (.text s) = .ok none ↔ ¬∃ name row octave, (name, row) ∈ Voice.noteTable ∧
      Voice.isFlat name = false ∧ octave ≤ 8 ∧ Voice.Writes s name octave) ∧
    (∀ name row octave, (name, row) ∈ Voice.noteTable → Voice.isFlat name = true →
      Voice.Writes s name octave → Voice.frequency? (.text s) = .ok none) ∧
    ∀ (p : Player) (duration volume : Value),
      (∀ f w, Voice.Finds s f → p.voice.wave p.rate (.float f) duration volume = .ok w →
        ((playNote (.text s) duration volume).runOn p).2.sounds =
          p.sounds ++ [⟨Sound.quantize 1.0 32767.0 w, true⟩]) ∧
      ((¬∃ f w, Voice.Finds s f ∧ p.voice.wave p.rate (.float f) duration volume = .ok w) →
        ((playNote (.text s) duration volume).runOn p).2 = p) ∧
      (p.rate = Synthesizer.standardRate → ∀ f, Voice.Finds s f →
        ((∃ w, p.voice.wave p.rate (.float f) duration volume = .ok w) ↔
          ∃ n, Voice.Lasts duration n ∧ Voice.Scales volume n)) := by
  refine ⟨fun f => Voice.frequency?_eq_some_iff, ?_, fun name row octave hmem hflat hs =>
    Voice.frequency?_flat hmem hflat hs, fun p duration volume => ⟨fun f w hf hw =>
    sounds_playNote hf hw, playNote_unheard, fun hrate f hf => ?_⟩⟩
  · rw [Voice.frequency?_eq_none_iff, ← Voice.exists_finds_iff, not_exists]
  · rw [hrate]
    exact Voice.wave_iff p.voice fun k hk => Voice.filters_of_finds hf hk

/-- A sharp in small letters, with the digit of another script for its octave. -/
theorem note_lookup_sharp :
    Voice.frequency? (.text "f#३") = .ok (some 185.0) ∧
      ∃ sound, ((playNote (.text "f#३") (.float 0.5) (.float 0.7)).runOn
        ⟨Synthesizer.standardRate, .violin, #[]⟩).2.sounds = [sound] := by
  have hfinds : Voice.Finds "f#३" 185.0 :=
    ⟨"F#", _, 3, Voice.lookup_noteTable.1 rfl, rfl, by decide,
      ⟨['f', '#'], '३', rfl, rfl, rfl⟩, rfl⟩
  have hlasts : Voice.Lasts (.float 0.5) 22050 := ⟨rfl, rfl, by decide⟩
  have hscales : Voice.Scales (.float 0.7) 22050 := ⟨_, _, rfl, rfl⟩
  obtain ⟨hfrequency, -, -, hplay⟩ := note_lookup "f#३"
  obtain ⟨hsounds, -, hwave⟩ :=
    hplay ⟨Synthesizer.standardRate, .violin, #[]⟩ (.float 0.5) (.float 0.7)
  obtain ⟨w, hw⟩ := (hwave rfl 185.0 hfinds).2 ⟨22050, hlasts, hscales⟩
  exact ⟨(hfrequency 185.0).2 hfinds, _, hsounds 185.0 w hfinds hw⟩

/-- The table has a frequency for this flat, but it is not found and nothing is played. -/
theorem flat_not_found :
    (∃ row, ("Db", row) ∈ Voice.noteTable ∧ row[4]? = some 277.18) ∧ Voice.Writes "Db4" "Db" 4 ∧
      Voice.frequency? (.text "Db4") = .ok none ∧
      ((playNote (.text "Db4") (.int 1) (.float 0.7)).runOn ⟨44100, .piano, #[]⟩).2.sounds = [] :=
  ⟨⟨_, Voice.lookup_noteTable.1 rfl, rfl⟩, ⟨['D', 'b'], '4', rfl, rfl, rfl⟩, rfl, rfl⟩

end Play
end TuneScript
