import TuneScript.Proofs.Twins

/-!
Statements on twins, one kind after the other. Each agrees as long as the statements in it do,
whatever those may fail with. Only what the palettes do differently asks something of a statement:
rests, instruments, and durations that cannot be shown.
-/

namespace TuneScript

/-- Numerals with a float near them: only whole numbers beyond the largest float have none. -/
def Numeral.HasFloat (n : Numeral) : Prop := ∃ m x, n.value.number? = some m ∧ m.toFloat = .ok x

/-- An expression that is no identifier has no name. -/
theorem Expr.nameOf_toNode (e : Expr) :
    ∃ s, Node.nameOf e.toNode = .ok (.text s) ∧ ∀ x, e = .logic (.arith (.name x)) → s = x := by
  cases e with
  | chord notes => exact ⟨"", rfl, nofun⟩
  | logic l =>
      cases l with
      | arith a =>
          cases a with
          | name x =>
              refine ⟨x, rfl, fun y h => ?_⟩
              cases h
              rfl
          | number _ | binary _ _ _ => exact ⟨"", rfl, nofun⟩
      | compare _ _ _ | negation _ | connect _ _ _ => exact ⟨"", rfl, nofun⟩

namespace Stmt

/-- The statements that both palettes treat alike. -/
def Common : Stmt → Prop
  | rest _ => False
  | instrument name => name ∈ Presets.soft.map Prod.fst
  | note _ duration | chord _ duration => ∀ n ∈ duration, n.HasFloat
  | call "refInst" (argument :: _) =>
    ∃ name ∈ Presets.soft.map Prod.fst, argument = .logic (.arith (.name name))
  | _ => True

/-- Notes and chords that last as long as the tempo says. -/
def untimed : Stmt → Bool
  | note _ none | chord _ none => true
  | _ => false

/-- What stands between the braces of a statement that are run when it is. -/
def runBodies : Stmt → List (List Stmt)
  | define _ _ _ => []
  | s => s.keptBodies

/-- A statement that is run when another one is: it stands between its braces, or in the function
that is called. -/
inductive Runs (e : Engine) : Stmt → Stmt → Prop where
  | inside {s u : Stmt} {body : List Stmt} (hbody : body ∈ s.runBodies) (hu : u ∈ body) : Runs e s u
  | called {name : String} {arguments : List Expr} {table : Table Value} {parameters : Value}
      {body : List Stmt} {u : Stmt} (hname : isRefName name = false) (htable : e.store = some table)
      (hfind : table.find? (.text name) =
        some (Perform.functionValue parameters (.list (toNodes body)))) (hu : u ∈ body) :
      Runs e (.call name arguments) u

end Stmt

namespace Perform

open Engine (Twins)

variable {P : Stmt → Prop} {other : Palette} {F : Failure → Engine → Prop}

/-- A duration that is a number, and on the plain palette one that can be shown. -/
structure Lasting (other : Palette) (v : Value) : Prop where
  number : (∃ n, v = .int n) ∨ ∃ x, v = .float x
  shown : other = .plain → ∃ t, v.tenths = .ok t

namespace Lasting

theorem ofFloat {v : Value} (h : ∃ x, v = .float x) : Lasting other v := by
  obtain ⟨x, rfl⟩ := h
  exact ⟨.inr ⟨x, rfl⟩, fun _ => ⟨_, rfl⟩⟩

theorem ofNumeral {n : Numeral} (h : other = .plain → n.HasFloat) : Lasting other n.value := by
  refine ⟨?_, fun hplain => ?_⟩
  · unfold Numeral.value
    split
    · exact .inl ⟨_, rfl⟩
    · exact .inr ⟨_, rfl⟩
  · obtain ⟨m, x, hm, hx⟩ := h hplain
    refine ⟨FloatText.tenths x, ?_⟩
    rw [Value.tenths_of_number? hm, hx]
    rfl

theorem tenths_good {v : Value} (h : Lasting other v) : v.tenths.Good fun _ => True := by
  rcases h.number with ⟨n, rfl⟩ | ⟨x, rfl⟩
  · exact Value.tenths_good rfl
  · exact Value.tenths_good rfl

end Lasting

theorem describeNote_ok {e : Engine} {instrument t : String} (name : String) {duration : Value}
    (he : e.instrument = some (.text instrument)) (ht : duration.tenths = .ok t) :
    ∃ d, (describeNote (.text name) duration).runOn e = (.ok (), d) := by
  rw [describeNote, runOn_bind, Perform.instrument, runOn_part, he, ht]
  exact ⟨_, rfl⟩

/-- The notes of a chord by their names. -/
theorem mapM_noteOf (names : List String) :
    (names.map Node.noteLiteral).mapM (fun n => lift (Node.noteOf n)) =
      (pure (names.map .text) : Perform (List Value)) := by
  induction names with
  | nil => rfl
  | cons name names ih =>
      rw [List.map_cons, List.mapM_cons, ih]
      rfl

/-- Both palettes strike a chord that has a duration. -/
theorem runOn_chord (notes : Notes) {v : Value} (h : (∃ n, v = .int n) ∨ ∃ x, v = .float x)
    (e : Engine) :
    (do
      let names ← (← lift notes.toNode.elements).mapM fun n => lift (Node.noteOf n)
      match (← get).palette with
      | .soft => playChord (.list names) v
      | .plain => strike (.list names) v : Perform Unit).runOn e =
        (strike (.list (notes.toList.map .text)) v).runOn e := by
  have hchord : playChord (.list (notes.toList.map .text)) v =
      strike (.list (notes.toList.map .text)) v := by
    rcases h with ⟨n, rfl⟩ | ⟨x, rfl⟩ <;> rfl
  change ((notes.toList.map Node.noteLiteral).mapM (fun n => lift (Node.noteOf n)) >>=
    _).runOn e = _
  rw [mapM_noteOf, pure_bind, runOn_get, hchord]
  cases e.palette <;> rfl

/-- What a call does with what its variable holds. -/
def called (run : Value → Perform Unit) (name : Value) : Option Value → Perform Unit
  | some function => do
    if Node.hasType "function" function then
      say ("🎯 呼叫函式: " ++ (← shown name))
      body run ((function.field? "body").getD (.list []))
  | none => pure ()

theorem runOn_callNode (run : Value → Perform Unit) {name : String} {arguments : List Expr}
    (hname : isRefName name = false) {e : Engine} {table : Table Value}
    (he : e.store = some table) :
    (callNode run (Stmt.call name arguments).toNode).runOn e =
      (called run (.text name) (table.find? (.text name))).runOn e := by
  rw [Stmt.toNode, hname]
  change (store >>= fun table => _).runOn e = _
  rw [runOn_bind, store, runOn_part, he]
  rfl

theorem AgreesAt.of_eq {x y : Perform Unit} {a b : Engine} (ha : x.runOn a = y.runOn a)
    (hb : x.runOn b = y.runOn b) (h : AgreesAt P other y a b (fun _ => True) F) :
    AgreesAt P other x a b (fun _ => True) F := by
  cases h with
  | ok ha' hb' h hv => exact .ok (ha.trans ha') (hb.trans hb') h hv
  | error ha' hb' h hf => exact .error (ha.trans ha') (hb.trans hb') h hf

namespace Agrees

theorem lift_bind {α β : Type} {r : Result α} {v : α} {f : α → Perform β} {R : β → Prop}
    (hr : r = .ok v) (hf : Agrees P other (f v) R F) :
    Agrees P other (Perform.lift r >>= f) R F := by
  subst hr
  exact hf

/-- The duration of a note or a chord; only that of an untimed one can fail. -/
theorem durationOf {s : Stmt} {duration : Option Numeral} (default : Value)
    {standard : Perform Value} (hfield : s.toNode.field? "duration" = some (durationNode duration))
    (huntimed : duration = none → s.untimed = true)
    (hduration : ∀ n ∈ duration, Lasting other n.value)
    (hstandard : Agrees P other standard (fun v => ∃ x, v = .float x) ZeroTempo) :
    Agrees P other (Perform.durationOf s.toNode default standard) (Lasting other)
      (fun f d => s.untimed = true ∧ ZeroTempo f d) := by
  cases duration with
  | none =>
      have hrun : Perform.durationOf s.toNode default standard = standard := by
        rw [Perform.durationOf, hfield]
        rfl
      rw [hrun]
      exact hstandard.mono (fun _ => .ofFloat) fun _ _ h => ⟨huntimed rfl, h⟩
  | some n =>
      have hrun : Perform.durationOf s.toNode default standard =
          Perform.valueOf n.toNode default := by
        rw [Perform.durationOf, hfield]
        rfl
      rw [hrun]
      exact (numeral n default).mono (fun v hv => hv ▸ hduration n rfl) fun _ _ h => h

/-- The plain palette tells of a note before it tries to play it. -/
theorem announced (name : String) {duration : Value}
    (h : other = .plain → ∃ t, duration.tenths = .ok t) :
    Agrees P other (do
      if (← get).palette == .plain then describeNote (.text name) duration
      Perform.note (.text name) duration) (fun _ => True) F := by
  intro a b hab
  have hnote : Composed (Playing fun _ => True) (Perform.note (.text name) duration) :=
    Playing.note trivial trivial
  have hplaying : Composed (Playing fun _ => True) (do
      if (← get).palette == .plain then describeNote (.text name) duration
      Perform.note (.text name) duration) := by
    refine .ask (fun _ => ?_) fun hd => by rw [Engine.palette_of_silent hd]
    split
    · exact .bind (.describeNote Playing.print _ _) fun _ => hnote
    · exact hnote
  have hok (e : Engine) (he : e.Sane P)
      (hshown : e.palette = .plain → ∃ t, duration.tenths = .ok t) :
      ((do
        if (← get).palette == .plain then describeNote (.text name) duration
        Perform.note (.text name) duration : Perform Unit).runOn e).1 = .ok () := by
    rw [runOn_get]
    cases hpalette : e.palette with
    | soft => exact note_ok _ _ e
    | plain =>
        obtain ⟨t, ht⟩ := hshown hpalette
        obtain ⟨instrument, hinstrument⟩ := he.instrument
        obtain ⟨d, hd⟩ := describeNote_ok name hinstrument ht
        change ((describeNote (.text name) duration >>= fun _ => _).runOn e).1 = _
        rw [runOn_bind, hd]
        exact note_ok _ _ d
  have ha := hok a hab.left fun hplain => by rw [hab.soft] at hplain; cases hplain
  have hb := hok b hab.right fun hplain => h (hab.palette.symm.trans hplain)
  exact .ok (Prod.ext ha rfl) (Prod.ext hb rfl)
    (hab.spared (.playing hplaying a) (.playing hplaying b)) trivial

theorem strike (names : List String) {duration : Value} (h : Lasting other duration) :
    Agrees P other (Perform.strike (.list (names.map .text)) duration) (fun _ => True) F := by
  have hjoin : (Value.join ", " (.list (names.map .text))).Good fun _ => True := by
    rw [Value.join_texts]
    trivial
  refine bind instrument fun v hv => bind (shown v) fun _ _ => bind (lift hjoin) fun _ _ => ?_
  refine bind (lift h.tenths_good) fun _ _ => bind (say _) fun _ _ => ?_
  exact bind (lift (Q := fun _ => True) trivial) fun items _ =>
    forM fun pitch _ => note pitch duration

theorem noteNode (pitch : Pitch) {duration : Option Numeral}
    (hduration : ∀ n ∈ duration, Lasting other n.value) :
    Agrees P other (Perform.noteNode (Stmt.note pitch duration).toNode) (fun _ => True)
      (fun f d => (Stmt.note pitch duration).untimed = true ∧ ZeroTempo f d) := by
  have huntimed : duration = none → (Stmt.note pitch duration).untimed = true := by
    rintro rfl
    rfl
  refine bind (durationOf (s := .note pitch duration) (.float 1.0) rfl huntimed hduration beat)
    fun v hv => ?_
  cases pitch with
  | single name => exact announced name hv.shown
  | several notes =>
      refine lift_bind (v := .text "note_array") rfl ?_
      refine bind instrument fun i _ => bind (shown i) fun _ _ => bind (print _) fun _ _ => ?_
      refine lift_bind (v := notes.toList.map Node.noteLiteral) rfl ?_
      refine bind (forM fun n hn => ?_) fun _ _ => say _
      obtain ⟨name, -, rfl⟩ := List.mem_map.1 hn
      refine lift_bind (v := .text name) rfl ?_
      exact bind (shown _) fun _ _ => bind (print _) fun _ _ => note _ v

theorem chordNode (notes : Notes) {duration : Option Numeral}
    (hduration : ∀ n ∈ duration, Lasting other n.value) :
    Agrees P other (Perform.chordNode (Stmt.chord notes duration).toNode) (fun _ => True)
      (fun f d => (Stmt.chord notes duration).untimed = true ∧ ZeroTempo f d) := by
  have huntimed : duration = none → (Stmt.chord notes duration).untimed = true := by
    rintro rfl
    rfl
  refine bind (durationOf (s := .chord notes duration) (.float 2.0) rfl huntimed hduration twoBeats)
    fun v hv => ?_
  exact fun a b hab => .of_eq (runOn_chord notes hv.number a) (runOn_chord notes hv.number b)
    (strike notes.toList hv a b hab)

theorem playRest {duration : Value} (h : Stored P duration) :
    Agrees P other (Perform.playRest duration) (fun _ => True) F :=
  bind (lift h.tenths_good) fun _ _ => bind (say _) fun _ _ => bind (record _) fun _ _ =>
    sleep duration

section Bodies

variable {run : Value → Perform Unit} {G : Stmt → Failure → Engine → Prop}
  (hrun : ∀ u, u.Wholly P → Agrees P other (run u.toNode) (fun _ => True) (G u))

include hrun

/-- Statements run one after the other, until one fails. -/
theorem body {statements : List Stmt} (h : Stmt.Throughout P statements) :
    Agrees P other (Perform.body run (.list (Stmt.toNodes statements))) (fun _ => True)
      (fun f d => ∃ u ∈ statements, G u f d) := by
  have hall : Agrees P other ((Stmt.toNodes statements).forM run) (fun _ => True)
      (fun f d => ∃ u ∈ statements, G u f d) := by
    rw [Stmt.toNodes_eq_map]
    refine forM fun v hv => ?_
    obtain ⟨u, hu, rfl⟩ := List.mem_map.1 hv
    exact (hrun u (h.wholly hu)).mono (fun _ h => h) fun f d hf => ⟨u, hu, hf⟩
  exact hall

theorem loopNode (count : Numeral) {statements : List Stmt} (h : Stmt.Throughout P statements) :
    Agrees P other (Perform.loopNode run (Stmt.loop count statements).toNode) (fun _ => True)
      (fun f d => ∃ u ∈ statements, G u f d) := by
  refine bind (numeral count _) fun v hv => ?_
  obtain ⟨m, hm⟩ := count.value_number?
  rw [← hv] at hm
  refine bind (lift (v.toInt_good hm)) fun n _ => bind (shown _) fun total _ => ?_
  refine bind (say _) fun _ _ => rounds (fun i => ?_) 0 n.toNat
  exact bind (say _) fun _ _ => body hrun h

theorem whileNode (condition : Logic) {statements : List Stmt}
    (h : Stmt.Throughout P statements) :
    Agrees P other (Perform.whileNode run (Stmt.whileLoop condition statements).toNode)
      (fun _ => True) (fun f d => ∃ u ∈ statements, G u f d) := by
  refine bind (say _) fun _ _ => bind (roundsWhile (fun i => ?_) condition 0 roundLimit)
    fun done _ => ?_
  · exact bind (say _) fun _ _ => body hrun h
  · dsimp only
    split
    · exact bind (say _) fun _ _ => say _
    · exact say _

theorem forNode (counter : String) (start stop : Numeral) {statements : List Stmt}
    (h : Stmt.Throughout P statements) :
    Agrees P other (Perform.forNode run (Stmt.forLoop counter start stop statements).toNode)
      (fun _ => True) (fun f d => ∃ u ∈ statements, G u f d) := by
  obtain ⟨m, hm⟩ := start.value_number?
  obtain ⟨n, hn⟩ := stop.value_number?
  refine lift_bind (v := .text counter) rfl (lift_bind (v := start.toNode) rfl ?_)
  refine bind (numeral start _) fun v hv => ?_
  subst hv
  refine bind (lift (Value.toInt_good hm)) fun first _ => lift_bind (v := stop.toNode) rfl ?_
  refine bind (numeral stop _) fun v hv => ?_
  subst hv
  refine bind (lift (Value.toInt_good hn)) fun last _ => ?_
  refine bind (shown _) fun _ _ => bind (shown _) fun _ _ => bind (shown _) fun _ _ =>
    bind (say _) fun _ _ => bind (rounds (fun i => ?_) 0 _) fun _ _ => say _
  refine bind (setVariable counter (.int _)) fun _ _ => ?_
  exact bind (shown _) fun _ _ => bind (shown _) fun _ _ => bind (shown _) fun _ _ =>
    bind (shown _) fun _ _ => bind (say _) fun _ _ => body hrun h

theorem firstAlternative {alternatives : List (Logic × List Stmt)}
    (h : ∀ alternative ∈ alternatives, Stmt.Throughout P alternative.2) :
    Agrees P other (Perform.firstAlternative run (alternatives.map fun (condition, statements) =>
        Node.elseifClause condition.toNode (Stmt.toNodes statements))) (fun _ => True)
      (fun f d => ∃ statements ∈ alternatives.map Prod.snd, ∃ u ∈ statements, G u f d) := by
  induction alternatives with
  | nil => exact pure trivial
  | cons alternative more ih =>
      obtain ⟨hfirst, hmore⟩ := List.forall_mem_cons.1 h
      obtain ⟨condition, statements⟩ := alternative
      refine lift_bind (v := condition.toNode) rfl (bind (holds condition) fun go _ => ?_)
      cases go with
      | true =>
          refine bind (say _) fun _ _ => bind ((body hrun hfirst).mono (fun _ h => h) ?_)
            fun _ _ => pure trivial
          exact fun f d hf => ⟨statements, List.mem_cons_self, hf⟩
      | false =>
          refine (ih hmore).mono (fun _ h => h) ?_
          rintro f d ⟨statements, hstatements, hf⟩
          exact ⟨statements, List.mem_cons_of_mem _ hstatements, hf⟩

theorem branchNode (condition : Logic) (first : List Stmt)
    {alternatives : List (Logic × List Stmt)} {otherwise : Option (List Stmt)}
    (halternatives : ∀ alternative ∈ alternatives, Stmt.Throughout P alternative.2)
    (hotherwise : ∀ statements ∈ otherwise, Stmt.Throughout P statements) :
    Agrees P other
      (Perform.branchNode run (Stmt.branch condition first alternatives otherwise).toNode)
      (fun _ => True) (fun f d => ∃ statements ∈ alternatives.map Prod.snd ++ otherwise.toList,
        ∃ u ∈ statements, G u f d) := by
  rw [Stmt.toNode_branch]
  refine bind (holds condition) fun go _ => ?_
  cases go with
  | true => exact bind (say _) fun _ _ => lift_bind (v := []) rfl (pure trivial)
  | false =>
      refine lift_bind (v := alternatives.map fun (condition, statements) =>
        Node.elseifClause condition.toNode (Stmt.toNodes statements)) rfl ?_
      refine bind ((firstAlternative hrun halternatives).mono (fun _ h => h) ?_) fun found _ => ?_
      · rintro f d ⟨statements, hstatements, hf⟩
        exact ⟨statements, List.mem_append_left _ hstatements, hf⟩
      · dsimp only
        split
        · refine bind (say _) fun _ _ => ?_
          cases otherwise with
          | none => exact lift_bind (v := []) rfl (pure trivial)
          | some statements =>
              refine (body hrun (hotherwise statements rfl)).mono (fun _ h => h) fun f d hf => ?_
              exact ⟨statements, List.mem_append_right _ List.mem_cons_self, hf⟩
        · exact pure trivial

/-- A call of a function runs the statements that its variable holds; any other variable is passed
over. -/
theorem callNode {name : String} (arguments : List Expr) (hname : isRefName name = false)
    {a b : Engine} (hab : Twins P other a b) :
    AgreesAt P other (Perform.callNode run (Stmt.call name arguments).toNode) a b (fun _ => True)
      (fun f d => ∃ u, Stmt.Runs a (.call name arguments) u ∧ G u f d) := by
  obtain ⟨table, ha, hb, hstored⟩ := hab.store
  refine .of_eq (runOn_callNode run hname ha) (runOn_callNode run hname hb) ?_
  cases hfind : table.find? (.text name) with
  | none => exact pure trivial a b hab
  | some v =>
      obtain ⟨k, hk⟩ := Table.mem_of_find? hfind
      cases hstored (k, v) hk with
      | int n => exact pure trivial a b hab
      | float x => exact pure trivial a b hab
      | @function parameters statements h =>
          refine bind (shown _) (fun _ _ => bind (say _) fun _ _ => ?_) a b hab
          refine (body hrun h).mono (fun _ h => h) fun f d hf => ?_
          obtain ⟨u, hu, hf⟩ := hf
          exact ⟨u, .called hname ha hfind hu, hf⟩

end Bodies

theorem assignNode (name : String) (value : Expr) :
    Agrees P other (Perform.assignNode (Stmt.assign name value).toNode) (fun _ => True) F := by
  refine lift_bind (v := .text name) rfl (bind (valueOf value (.int 0)) fun v hv => ?_)
  exact bind (setVariable name hv) fun _ _ => bind (shown _) fun _ _ => bind (shown v) fun _ _ =>
    say _

theorem defineNode (name : String) (parameters : List String) {statements : List Stmt}
    (h : Stmt.Throughout P statements) :
    Agrees P other (Perform.defineNode (Stmt.define name parameters statements).toNode)
      (fun _ => True) F := by
  refine lift_bind (v := .text name) rfl ?_
  exact bind (setVariable name (.function _ h)) fun _ _ => bind (shown _) fun _ _ => say _

theorem refCallNode (name : String) (arguments : List Expr)
    (hinstrument : other = .plain → (Stmt.call name arguments).Common) :
    Agrees P other (Perform.refCallNode (Node.call true (Node.identifier name)
      (.list (arguments.map Expr.toNode)))) (fun _ => True) F := by
  refine lift_bind (v := .text name) rfl (bind (shown _) fun _ _ => bind (say _) fun _ _ => ?_)
  cases arguments with
  | nil => exact pure trivial
  | cons argument more =>
      split
      · split
        · exact lift_bind (v := argument.toNode) rfl
            (bind (valueOf argument (.float 0.8)) fun v _ => setVolume true v)
        · exact lift_bind (v := argument.toNode) rfl
            (bind (valueOf argument (.int 120)) fun v hv => setTempo true hv)
        · next hname =>
          cases hname
          obtain ⟨s, hs, hsame⟩ := argument.nameOf_toNode
          refine lift_bind (v := argument.toNode) rfl (lift_bind hs (setInstrument true ?_))
          intro hplain
          obtain ⟨known, hknown, rfl⟩ := hinstrument hplain
          rw [hsame known rfl]
          exact hknown
        · exact pure trivial
      · exact pure trivial

/-- Each kind of statement agrees if the statements do that are run with it. What is not ordinary
about its failure comes from one of those, or else from the duration of the statement itself. -/
theorem statement {run : Value → Perform Unit} {G : Stmt → Failure → Engine → Prop}
    (hcommon : other = .plain → ∀ s, P s → s.Common)
    (hrun : ∀ u, u.Wholly P → Agrees P other (run u.toNode) (fun _ => True) (G u)) {s : Stmt}
    (hs : s.Wholly P) {a b : Engine} (hab : Twins P other a b) :
    AgreesAt P other (Perform.statement run s.toNode) a b (fun _ => True) (fun f d =>
      s.untimed = true ∧ ZeroTempo f d ∨ ∃ u, s.Runs a u ∧ G u f d) := by
  have hself : other = .plain → s.Common := fun hplain => hcommon hplain s hs.self
  -- statements in braces are run whatever the engine is
  have hinside {x : Perform Unit} {statements : List Stmt} (hbody : statements ∈ s.runBodies)
      (h : Agrees P other x (fun _ => True) (fun f d => ∃ u ∈ statements, G u f d)) :
      AgreesAt P other x a b (fun _ => True) (fun f d =>
        s.untimed = true ∧ ZeroTempo f d ∨ ∃ u, s.Runs a u ∧ G u f d) := by
    refine (h a b hab).mono (fun _ h => h) ?_
    rintro f d ⟨u, hu, hf⟩
    exact .inr ⟨u, .inside hbody hu, hf⟩
  cases s with
  | note pitch duration =>
      exact (noteNode pitch (fun n hn => .ofNumeral fun hplain => hself hplain n hn) a b hab).mono
        (fun _ h => h) fun _ _ => .inl
  | chord notes duration =>
      exact (chordNode notes (fun n hn => .ofNumeral fun hplain => hself hplain n hn) a b hab).mono
        (fun _ h => h) fun _ _ => .inl
  | rest length =>
      cases other with
      | plain => exact (hself rfl).elim
      | soft =>
          have hrest {e : Engine} (he : e.palette = .soft) :
              (Perform.statement run (Stmt.rest length).toNode).runOn e =
                (Perform.valueOf length.toNode (.float 1.0) >>= Perform.playRest).runOn e := by
            change (get >>= fun e => if (e.palette == .soft) = true then _ else _ :
              Perform Unit).runOn e = _
            rw [runOn_get, he]
            rfl
          exact .of_eq (hrest hab.soft) (hrest hab.palette)
            (bind (valueOf length (.float 1.0)) (fun _ hv => playRest hv) a b hab)
  | tempo bpm =>
      exact bind (numeral bpm _) (fun v hv => setTempo false (hv ▸ bpm.stored)) a b hab
  | volume level => exact bind (numeral level _) (fun v _ => setVolume false v) a b hab
  | instrument name =>
      exact lift_bind (v := Value.text name) rfl (setInstrument false hself) a b hab
  | loop count statements =>
      have h := hs.bodies statements List.mem_cons_self
      exact hinside List.mem_cons_self (loopNode hrun count h)
  | whileLoop condition statements =>
      have h := hs.bodies statements List.mem_cons_self
      exact hinside List.mem_cons_self (whileNode hrun condition h)
  | forLoop counter start stop statements =>
      have h := hs.bodies statements List.mem_cons_self
      exact hinside List.mem_cons_self (forNode hrun counter start stop h)
  | branch condition first alternatives otherwise =>
      have hbodies := (List.forall_mem_cons.1 hs.bodies).2
      have halternatives : ∀ alternative ∈ alternatives, Stmt.Throughout P alternative.2 :=
        fun alternative h => hbodies _ (List.mem_append_left _ (List.mem_map_of_mem h))
      have hotherwise : ∀ statements ∈ otherwise, Stmt.Throughout P statements :=
        fun statements h => hbodies _ (List.mem_append_right _ (Option.mem_toList.2 h))
      refine (branchNode hrun condition first halternatives hotherwise a b hab).mono
        (fun _ h => h) ?_
      rintro f d ⟨statements, hbody, u, hu, hf⟩
      exact .inr ⟨u, .inside hbody hu, hf⟩
  | define name parameters statements =>
      exact defineNode name parameters (hs.bodies statements List.mem_cons_self) a b hab
  | call name arguments =>
      cases hname : isRefName name with
      | true =>
          rw [Stmt.toNode, hname]
          exact refCallNode name arguments hself a b hab
      | false =>
          have hcall : Perform.statement run (Stmt.call name arguments).toNode =
              Perform.callNode run (Stmt.call name arguments).toNode := by
            rw [Stmt.toNode, hname]
            rfl
          rw [hcall]
          exact (callNode hrun arguments hname hab).mono (fun _ h => h) fun _ _ => .inr
  | assign name value => exact assignNode name value a b hab
  | eval e =>
      cases e with
      | chord notes => exact pure trivial a b hab
      | logic l =>
          cases l with
          | arith x => cases x <;> exact pure trivial a b hab
          | compare _ _ _ | negation _ | connect _ _ _ => exact pure trivial a b hab

end Agrees
end Perform
end TuneScript
