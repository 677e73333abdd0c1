import TuneScript.Proofs.Depths
import TuneScript.Proofs.Duets

/-!
Performances in which something else is done for a note. All the rest is as in any performance, and
with the notes played it is the performance itself. Two performers whose notes go together are in
accord all along: through each kind of statement as soon as they are through those in it, and so
through programs of every depth.
-/

namespace TuneScript
namespace Perform

/-- Strikes a chord in which something is done for each note. -/
def strikeWith (sing : Value → Value → Perform Unit) (notes duration : Value) : Perform Unit := do
  let instrument ← shown (← instrument)
  let names ← lift (notes.join ", ")
  let length ← lift duration.tenths
  say ("🎹 播放和弦 (" ++ instrument ++ "): [" ++ names ++ "], 時長: " ++ length ++ "s")
  (← lift notes.elements).forM fun pitch => sing pitch duration

def playChordWith (sing : Value → Value → Perform Unit) (notes duration : Value) :
    Perform Unit := do
  match duration with
  | .null => strikeWith sing notes (← twoBeats)
  | d => strikeWith sing notes d

def noteNodeWith (sing : Value → Value → Perform Unit) (node : Value) : Perform Unit := do
  let pitch := Node.child node "note_value"
  let duration ← durationOf node (.float 1.0) beat
  let kind ← lift (pitch.get "type" .null)
  if kind.equal (.text "note_array") then
    print ("🎵 播放音符陣列 (" ++ (← shown (← instrument)) ++ "): ")
    let notes ← lift ((pitch.field? "notes").getD (.list [])).elements
    notes.forM fun n => do
      let name ← lift (Node.noteOf n)
      print ((← shown name) ++ " ")
      sing name duration
    say ""
  else
    let name ← lift (Node.noteOf pitch)
    if (← get).palette == .plain then describeNote name duration
    sing name duration

def chordNodeWith (sing : Value → Value → Perform Unit) (node : Value) : Perform Unit := do
  let duration ← durationOf node (.float 2.0) twoBeats
  let notes ← lift ((Node.child node "chord").get "notes" (.list []))
  let names ← (← lift notes.elements).mapM fun n => lift (Node.noteOf n)
  match (← get).palette with
  | .soft => playChordWith sing (.list names) duration
  | .plain => strikeWith sing (.list names) duration

def statementWith (sing : Value → Value → Perform Unit) (run : Value → Perform Unit)
    (node : Value) : Perform Unit :=
  match Node.typeName node with
  | "note" => noteNodeWith sing node
  | "chord" => chordNodeWith sing node
  | _ => statement run node

/-- Runs one statement and does something for each of its notes. -/
def performWith (sing : Value → Value → Perform Unit) : Nat → Value → Perform Unit
  | 0, _ => throw .nestedTooDeep
  | depth + 1, node => statementWith sing (performWith sing depth) node

theorem statementWith_note (run : Value → Perform Unit) (node : Value) :
    statementWith note run node = statement run node := by
  rw [statementWith]
  split
  · next h =>
    simp only [statement, h]
    rfl
  · next h =>
    simp only [statement, h]
    rfl
  · rfl

/-- With its notes played it is the performance itself. -/
theorem performWith_note (depth : Nat) : performWith note depth = perform depth := by
  induction depth with
  | zero => rfl
  | succ depth ih =>
      funext node
      rw [performWith, perform, ih, statementWith_note]

/-- What a call of the language's own sets to its first argument. -/
def setBy (name argument : Value) : Perform Unit :=
  match name with
  | .text "refVolume" => do setVolume true (← valueOf argument (.float 0.8))
  | .text "refTempo" => do setTempo true (← valueOf argument (.int 120))
  | .text "refInst" => do setInstrument true (← lift (Node.nameOf argument))
  | _ => pure ()

theorem refCallNode_cons (name : String) (argument : Value) (more : List Value) :
    refCallNode (Node.call true (Node.identifier name) (.list (argument :: more))) = (do
      say ("🔧 呼叫 ref 函式: " ++ name)
      setBy (.text name) argument) :=
  rfl

end Perform

namespace Duet

variable {D : Duet}

namespace Together

/-- Both have the same duration for a note or a chord. -/
theorem durationOf {node node' : Value} (duration : Option Numeral) (default : Value)
    {standard : Perform Value} (hnode : node.field? "duration" = some (durationNode duration))
    (hnode' : node'.field? "duration" = some (durationNode duration))
    (hstandard : D.Together standard standard (· = ·)) :
    D.Together (Perform.durationOf node default standard)
      (Perform.durationOf node' default standard) (· = ·) := by
  rw [Perform.durationOf, Perform.durationOf, hnode, hnode']
  cases duration with
  | none => exact hstandard
  | some n =>
      refine (numeral n default).mono ?_
      rintro v w ⟨rfl, rfl⟩
      rfl

section Notes

variable {sing sing' : Value → Value → Perform Unit}
  (hsing : ∀ name duration, D.Together (sing (.text (D.left name)) duration)
    (sing' (.text (D.right name)) duration) fun _ _ => True)

include hsing

theorem strike (names : List String) (duration : Value) :
    D.Together
      (Perform.strikeWith sing (.list (names.map fun name => .text (D.left name))) duration)
      (Perform.strikeWith sing' (.list (names.map fun name => .text (D.right name))) duration)
      fun _ _ => True := by
  have hjoin (f : String → String) := Value.join_texts ", " (names.map f)
  simp only [List.map_map, Function.comp_def] at hjoin
  refine bind (looks .instrument) fun v w hvw => ?_
  rw [hvw]
  refine bind (shownSame w) fun _ _ _ => lift_bind (hjoin _) (hjoin _) ?_
  refine bind (looks (.lift _)) fun _ _ _ => bind (say _ _) fun _ _ _ => ?_
  exact lift_bind rfl rfl (forM fun name _ => hsing name duration)

/-- The plain palette tells of a note before it is sung. -/
theorem announced (name : String) (duration : Value) :
    D.Together
      (do
        if (← get).palette == .plain then Perform.describeNote (.text (D.left name)) duration
        sing (.text (D.left name)) duration)
      (do
        if (← get).palette == .plain then Perform.describeNote (.text (D.right name)) duration
        sing' (.text (D.right name)) duration) fun _ _ => True := by
  refine ask fun a b hab => ?_
  have hpalette : b.palette = a.palette := congrArg Setup.palette hab.setup
  rw [hpalette]
  split
  · exact bind (describeNote _ _ duration) fun _ _ _ => hsing name duration
  · exact hsing name duration

theorem noteNode (pitch : Pitch) (duration : Option Numeral) :
    D.Together
      (Perform.noteNodeWith sing (Stmt.note (pitch.respell D.left) duration).toNode)
      (Perform.noteNodeWith sing' (Stmt.note (pitch.respell D.right) duration).toNode)
      fun _ _ => True := by
  refine bind (durationOf duration (.float 1.0) rfl rfl beat) fun v w hvw => ?_
  rw [hvw]
  cases pitch with
  | single name => exact announced hsing name w
  | several notes =>
      refine lift_bind (v := .text "note_array") (w := .text "note_array") rfl rfl ?_
      refine bind (looks .instrument) fun v w hvw => ?_
      rw [hvw]
      refine bind (shownSame w) fun _ _ _ => bind (print _ _) fun _ _ _ => ?_
      refine lift_bind (notes.elements_respell _) (notes.elements_respell _) ?_
      refine bind (forM fun name _ => ?_) fun _ _ _ => say _ _
      exact lift_bind rfl rfl (lift_bind rfl rfl (bind (print _ _) fun _ _ _ => hsing name _))

theorem chordNode (notes : Notes) (duration : Option Numeral) :
    D.Together
      (Perform.chordNodeWith sing (Stmt.chord (notes.respell D.left) duration).toNode)
      (Perform.chordNodeWith sing' (Stmt.chord (notes.respell D.right) duration).toNode)
      fun _ _ => True := by
  refine bind (durationOf duration (.float 2.0) rfl rfl twoBeats) fun v w hvw => ?_
  rw [hvw]
  refine lift_bind rfl rfl (lift_bind (notes.elements_respell _) (notes.elements_respell _) ?_)
  have hnames (f : String → String) := Perform.mapM_noteOf (notes.toList.map f)
  simp only [List.map_map, Function.comp_def] at hnames
  rw [hnames, hnames, pure_bind, pure_bind]
  refine ask fun a b hab => ?_
  have hpalette : b.palette = a.palette := congrArg Setup.palette hab.setup
  rw [hpalette]
  cases a.palette with
  | plain => exact strike hsing notes.toList w
  | soft =>
      cases w with
      | null =>
          refine bind twoBeats fun v w hvw => ?_
          rw [hvw]
          exact strike hsing notes.toList w
      | _ => exact strike hsing notes.toList _

end Notes

theorem playNumber (n : Number) :
    D.Together (Perform.playRest n.toValue) (Perform.playRest n.toValue) fun _ _ => True :=
  bind (looks (.lift _)) fun _ _ _ => bind (say _ _) fun _ _ _ => bind (record _ _) fun _ _ _ =>
    sleep n

theorem playRest {v w : Value} (h : D.Kin v w) :
    D.Together (Perform.playRest v) (Perform.playRest w) fun _ _ => True := by
  cases h with
  | int n => exact playNumber (.int n)
  | float x => exact playNumber (.float x)
  | function xs h => exact lift (Q := fun _ _ => True) (.error _)

section Bodies

variable {run run' : Value → Perform Unit}
  (hrun : ∀ u : Stmt, u.Wholly D.Part →
    D.Together (run (u.respell D.left).toNode) (run' (u.respell D.right).toNode) fun _ _ => True)

include hrun

theorem body {statements : List Stmt} (h : Stmt.Throughout D.Part statements) :
    D.Together (Perform.body run (.list (Stmt.toNodes (statements.map (.respell D.left)))))
      (Perform.body run' (.list (Stmt.toNodes (statements.map (.respell D.right)))))
      fun _ _ => True := by
  rw [Stmt.toNodes_eq_map, Stmt.toNodes_eq_map, List.map_map, List.map_map]
  exact lift_bind rfl rfl (forM fun u hu => hrun u (h.wholly hu))

theorem loopNode (count : Numeral) {statements : List Stmt}
    (h : Stmt.Throughout D.Part statements) :
    D.Together
      (Perform.loopNode run (Stmt.loop count (statements.map (.respell D.left))).toNode)
      (Perform.loopNode run' (Stmt.loop count (statements.map (.respell D.right))).toNode)
      fun _ _ => True := by
  refine bind (numeral count _) fun v w hvw => ?_
  rw [hvw.1, hvw.2]
  refine bind (looks (.lift _)) fun m n hmn => ?_
  rw [hmn]
  refine bind (looks (.shown _)) fun total total' htotal => bind (say _ _) fun _ _ _ => ?_
  exact rounds (fun i => bind (say _ _) fun _ _ _ => body hrun h) 0 n.toNat

theorem whileNode (condition : Logic) {statements : List Stmt}
    (h : Stmt.Throughout D.Part statements) :
    D.Together
      (Perform.whileNode run (Stmt.whileLoop condition (statements.map (.respell D.left))).toNode)
      (Perform.whileNode run' (Stmt.whileLoop condition (statements.map (.respell D.right))).toNode)
      fun _ _ => True := by
  refine bind (say _ _) fun _ _ _ => bind (roundsWhile (fun i => ?_) condition 0 _)
    fun done done' hdone => ?_
  · exact bind (say _ _) fun _ _ _ => body hrun h
  · rw [hdone]
    dsimp only
    split
    · exact bind (say _ _) fun _ _ _ => say _ _
    · exact say _ _

theorem forNode (counter : String) (start stop : Numeral) {statements : List Stmt}
    (h : Stmt.Throughout D.Part statements) :
    D.Together
      (Perform.forNode run
        (Stmt.forLoop counter start stop (statements.map (.respell D.left))).toNode)
      (Perform.forNode run'
        (Stmt.forLoop counter start stop (statements.map (.respell D.right))).toNode)
      fun _ _ => True := by
  refine lift_bind rfl rfl (lift_bind rfl rfl (bind (numeral start _) fun v w hvw => ?_))
  rw [hvw.1, hvw.2]
  refine bind (looks (.lift _)) fun first first' hfirst => ?_
  rw [hfirst]
  refine lift_bind rfl rfl (bind (numeral stop _) fun v w hvw => ?_)
  rw [hvw.1, hvw.2]
  refine bind (looks (.lift _)) fun last last' hlast => ?_
  rw [hlast]
  refine bind (shownSame _) fun _ _ _ => bind (shownSame _) fun _ _ _ =>
    bind (shownSame _) fun _ _ _ => bind (say _ _) fun _ _ _ =>
    bind (rounds (fun i => ?_) 0 _) fun _ _ _ => say _ _
  refine bind (setVariable (.text counter) (.int _)) fun _ _ _ => ?_
  exact bind (shownSame _) fun _ _ _ => bind (shownSame _) fun _ _ _ =>
    bind (shownSame _) fun _ _ _ => bind (shownSame _) fun _ _ _ => bind (say _ _) fun _ _ _ =>
    body hrun h

theorem firstAlternative {alternatives : List (Logic × List Stmt)}
    (h : ∀ alternative ∈ alternatives, Stmt.Throughout D.Part alternative.2) :
    D.Together
      (Perform.firstAlternative run (alternatives.map fun alternative => Node.elseifClause
        alternative.1.toNode (Stmt.toNodes (alternative.2.map (.respell D.left)))))
      (Perform.firstAlternative run' (alternatives.map fun alternative => Node.elseifClause
        alternative.1.toNode (Stmt.toNodes (alternative.2.map (.respell D.right)))))
      (· = ·) := by
  induction alternatives with
  | nil => exact pure rfl
  | cons alternative more ih =>
      obtain ⟨hfirst, hmore⟩ := List.forall_mem_cons.1 h
      refine lift_bind rfl rfl (bind (holds alternative.1) fun go go' hgo => ?_)
      rw [hgo]
      cases go' with
      | true =>
          exact bind (say _ _) fun _ _ _ => bind (body hrun hfirst) fun _ _ _ => pure rfl
      | false => exact ih hmore

theorem branchNode (condition : Logic) (first first' : List Stmt)
    {alternatives : List (Logic × List Stmt)} {otherwise : Option (List Stmt)}
    (halternatives : ∀ alternative ∈ alternatives, Stmt.Throughout D.Part alternative.2)
    (hotherwise : ∀ statements ∈ otherwise, Stmt.Throughout D.Part statements) :
    D.Together
      (Perform.branchNode run (Stmt.branch condition first
        (alternatives.map fun alternative => (alternative.1, alternative.2.map (.respell D.left)))
        (otherwise.map (List.map (.respell D.left)))).toNode)
      (Perform.branchNode run' (Stmt.branch condition first'
        (alternatives.map fun alternative => (alternative.1, alternative.2.map (.respell D.right)))
        (otherwise.map (List.map (.respell D.right)))).toNode)
      fun _ _ => True := by
  rw [Stmt.toNode_branch, Stmt.toNode_branch]
  refine bind (holds condition) fun go go' hgo => ?_
  rw [hgo]
  cases go' with
  | true => exact bind (say _ _) fun _ _ _ => lift_bind rfl rfl (pure trivial)
  | false =>
      refine lift_bind (congrArg Except.ok (List.map_map ..))
        (congrArg Except.ok (List.map_map ..)) ?_
      refine bind (firstAlternative hrun halternatives) fun found found' hfound => ?_
      rw [hfound]
      cases otherwise with
      | none =>
          cases found' <;> exact pure trivial
      | some statements =>
          have hbody := body hrun (hotherwise statements rfl)
          cases found' with
          | true => exact pure trivial
          | false =>
              cases statements with
              | nil => exact pure trivial
              | cons s more => exact bind (say _ _) fun _ _ _ => hbody

/-- A function runs its statements, and any other value is passed over. -/
theorem called (name : String) {found found' : Option Value} (h : Option.Rel D.Kin found found') :
    D.Together (Perform.called run (.text name) found) (Perform.called run' (.text name) found')
      fun _ _ => True := by
  cases h with
  | none => exact pure trivial
  | some h =>
      cases h with
      | int _ | float _ => exact pure trivial
      | function xs h =>
          exact bind (shownSame _) fun _ _ _ => bind (say _ _) fun _ _ _ =>
            body hrun (h.bodies _ List.mem_cons_self)

theorem callNode {name : String} (hname : isRefName name = false)
    (arguments arguments' : List Expr) :
    D.Together (Perform.callNode run (Stmt.call name arguments).toNode)
      (Perform.callNode run' (Stmt.call name arguments').toNode) fun _ _ => True := by
  rw [Stmt.toNode, Stmt.toNode, hname]
  refine lift_bind rfl rfl (bind (part _ fun _ _ hab => hab.store) fun table table' htable => ?_)
  exact bind (looks (.lift _)) fun _ _ _ => called hrun name (find? htable (.text name))

end Bodies

theorem assignNode (name : String) (value : Expr) :
    D.Together (Perform.assignNode (Stmt.assign name (value.respell D.left)).toNode)
      (Perform.assignNode (Stmt.assign name (value.respell D.right)).toNode) fun _ _ => True := by
  refine lift_bind rfl rfl (bind (valueOf value (.int 0)) fun v w hvw => ?_)
  exact bind (setVariable (.text name) hvw) fun _ _ _ => bind (shownSame _) fun _ _ _ =>
    bind (shown hvw) fun _ _ _ => say _ _

theorem defineNode (name : String) (xs : List String) {statements : List Stmt}
    (h : (Stmt.define name xs statements).Wholly D.Part) :
    D.Together (Perform.defineNode (Stmt.define name xs (statements.map (.respell D.left))).toNode)
      (Perform.defineNode (Stmt.define name xs (statements.map (.respell D.right))).toNode)
      fun _ _ => True := by
  refine lift_bind rfl rfl (bind (setVariable (.text name) (.function xs h)) fun _ _ _ => ?_)
  exact bind (shownSame _) fun _ _ _ => say _ _

/-- A chord has no name, however its notes are spelt. -/
theorem nameOf_respell (f : String → String) (e : Expr) :
    Node.nameOf (e.respell f).toNode = Node.nameOf e.toNode := by
  cases e <;> rfl

theorem refCallNode (name : String) (arguments : List Expr) :
    D.Together
      (Perform.refCallNode (Node.call true (Node.identifier name)
        (.list ((arguments.map (.respell D.left)).map Expr.toNode))))
      (Perform.refCallNode (Node.call true (Node.identifier name)
        (.list ((arguments.map (.respell D.right)).map Expr.toNode)))) fun _ _ => True := by
  cases arguments with
  | nil =>
      exact lift_bind rfl rfl (bind (shownSame _) fun _ _ _ => bind (say _ _) fun _ _ _ =>
        pure trivial)
  | cons argument more =>
      simp only [List.map_cons, Perform.refCallNode_cons, Perform.setBy]
      refine bind (say _ _) fun _ _ _ => ?_
      split
      · exact bind (valueOf argument (.float 0.8)) fun _ _ => setVolume true
      · exact bind (valueOf argument (.int 120)) fun _ _ => setTempo true
      · rw [nameOf_respell, nameOf_respell]
        refine bind (looks (.lift _)) fun v w hvw => ?_
        rw [hvw]
        exact setInstrument true w
      · exact pure trivial

section Statements

variable {sing sing' : Value → Value → Perform Unit}
  (hsing : ∀ name duration, D.Together (sing (.text (D.left name)) duration)
    (sing' (.text (D.right name)) duration) fun _ _ => True)

include hsing

/-- Each kind of statement goes together if the statements do that are run with it. -/
theorem statement {run run' : Value → Perform Unit}
    (hrun : ∀ u : Stmt, u.Wholly D.Part → D.Together (run (u.respell D.left).toNode)
      (run' (u.respell D.right).toNode) fun _ _ => True) {s : Stmt} (hs : s.Wholly D.Part) :
    D.Together (Perform.statementWith sing run (s.respell D.left).toNode)
      (Perform.statementWith sing' run' (s.respell D.right).toNode) fun _ _ => True := by
  cases s with
  | note pitch duration => exact noteNode hsing pitch duration
  | chord notes duration => exact chordNode hsing notes duration
  | rest length =>
      refine ask fun a b hab => ?_
      have hpalette : b.palette = a.palette := congrArg Setup.palette hab.setup
      rw [hpalette]
      split
      · exact bind (valueOf length (.float 1.0)) fun _ _ h => playRest h
      · exact pure trivial
  | tempo bpm =>
      refine bind (numeral bpm _) fun v w hvw => ?_
      rw [hvw.1, hvw.2]
      exact setTempo false (.ofNumeral bpm)
  | volume level =>
      refine bind (numeral level _) fun v w hvw => ?_
      rw [hvw.1, hvw.2]
      exact setVolume false (.ofNumeral level)
  | instrument name => exact lift_bind rfl rfl (setInstrument false (.text name))
  | loop count statements =>
      rw [Stmt.respell, Stmt.respell, Stmt.respellBody_eq_map, Stmt.respellBody_eq_map]
      exact loopNode hrun count (hs.bodies statements List.mem_cons_self)
  | whileLoop condition statements =>
      rw [Stmt.respell, Stmt.respell, Stmt.respellBody_eq_map, Stmt.respellBody_eq_map]
      exact whileNode hrun condition (hs.bodies statements List.mem_cons_self)
  | forLoop counter start stop statements =>
      rw [Stmt.respell, Stmt.respell, Stmt.respellBody_eq_map, Stmt.respellBody_eq_map]
      exact forNode hrun counter start stop (hs.bodies statements List.mem_cons_self)
  | branch condition first alternatives otherwise =>
      have hbodies := (List.forall_mem_cons.1 hs.bodies).2
      have halternatives : ∀ alternative ∈ alternatives, Stmt.Throughout D.Part alternative.2 :=
        fun alternative h => hbodies _ (List.mem_append_left _ (List.mem_map_of_mem h))
      have hotherwise : ∀ statements ∈ otherwise, Stmt.Throughout D.Part statements :=
        fun statements h => hbodies _ (List.mem_append_right _ (Option.mem_toList.2 h))
      simp only [Stmt.respell, Stmt.respellAlternatives_eq_map, Stmt.respellOtherwise_eq_map]
      exact branchNode hrun condition _ _ halternatives hotherwise
  | define name xs statements =>
      rw [Stmt.respell, Stmt.respell, Stmt.respellBody_eq_map, Stmt.respellBody_eq_map]
      exact defineNode name xs hs
  | call name arguments =>
      cases hname : isRefName name with
      | true =>
          rw [Stmt.respell, Stmt.respell, Stmt.toNode, Stmt.toNode, hname]
          exact refCallNode name arguments
      | false =>
          have hcall := callNode hrun hname (arguments.map (.respell D.left))
            (arguments.map (.respell D.right))
          rw [Stmt.toNode, Stmt.toNode, hname] at hcall
          rw [Stmt.respell, Stmt.respell, Stmt.toNode, Stmt.toNode, hname]
          exact hcall
  | assign name value => exact assignNode name value
  | eval e =>
      cases e with
      | chord notes => exact pure trivial
      | logic l =>
          cases l with
          | arith e => cases e <;> exact pure trivial
          | compare _ _ _ | negation _ | connect _ _ _ => exact pure trivial

theorem perform (depth : Nat) {s : Stmt} (hs : s.Wholly D.Part) :
    D.Together (Perform.performWith sing depth (s.respell D.left).toNode)
      (Perform.performWith sing' depth (s.respell D.right).toNode) fun _ _ => True := by
  induction depth generalizing s with
  | zero => exact lift (Q := fun _ _ => True) (.error .nestedTooDeep)
  | succ depth ih => exact statement hsing (fun u hu => ih hu) hs

end Statements

theorem numbered {run run' : Value → Perform Unit} {statements : List Stmt}
    (h : ∀ u ∈ statements, D.Together (run (u.respell D.left).toNode)
      (run' (u.respell D.right).toNode) fun _ _ => True) (total i : Nat) :
    D.Together (Perform.numbered total run i (Stmt.toNodes (statements.map (.respell D.left))))
      (Perform.numbered total run' i (Stmt.toNodes (statements.map (.respell D.right))))
      fun _ _ => True := by
  induction statements generalizing i with
  | nil => exact pure trivial
  | cons u statements ih =>
      obtain ⟨hu, hstatements⟩ := List.forall_mem_cons.1 h
      exact bind (say _ _) fun _ _ _ => bind hu fun _ _ _ => ih hstatements (i + 1)

end Together
end Duet

theorem Stmt.inner_respell (f : String → String) (s : Stmt) :
    (s.respell f).inner = s.inner.map (respell f) := by
  cases s <;> simp [respell, inner]

theorem Program.executed_respell (f : String → String) (p : Program) :
    (p.respell f).executed = p.executed.map (Stmt.respell f) := by
  match p with
  | [] | _ :: _ :: _ => rfl
  | [s] => exact s.inner_respell f

/-- A program up to the end of its last statement. -/
def Program.performed (run : Value → Perform Unit) (p : Program) : Perform Unit := do
  Perform.say "🎵 開始執行音樂程式..."
  Perform.say ("📊 程式包含 " ++ toString p.executed.length ++ " 個語句")
  Perform.numbered p.executed.length run 1 (Stmt.toNodes p.executed)

theorem Program.executeWith_eq (run : Value → Perform Unit) (p : Program) :
    Perform.executeWith run p.toNode = (do
      p.performed run
      Perform.say "\n🎵 音樂程式執行完成！"
      Perform.summary) := by
  have hlength : (Stmt.toNodes p.executed).length = p.executed.length := by
    rw [Stmt.toNodes_eq_map, List.length_map]
  obtain ⟨hrecord, hbody⟩ := p.toNode_shape
  cases hv : p.toNode with
  | record fields =>
      rw [hv] at hbody
      unfold Perform.executeWith
      dsimp only
      rw [hbody, performed, ← hlength]
      simp only [bind_assoc]
      rfl
  | _ =>
      rw [hv] at hrecord
      cases hrecord

/-- After its last statement a program only prints. -/
theorem Program.silent_executeWith (run : Value → Perform Unit) (p : Program) (e : Engine) :
    ((Perform.executeWith run p.toNode).runOn e).2.silent =
      ((p.performed run).runOn e).2.silent := by
  have hprints : Perform.Prints (do
      Perform.say "\n🎵 音樂程式執行完成！"
      Perform.summary) :=
    .bind (.say (fun s => ⟨s, rfl⟩) _) fun _ => .summary fun s => ⟨s, rfl⟩
  rw [executeWith_eq, Perform.runOn_bind]
  cases ((p.performed run).runOn e).1 with
  | ok _ => exact hprints.silent _
  | error _ => rfl

/-- Engines in accord are so after a program that each of the two has run as they spell it. -/
theorem Duet.accord_execute {D : Duet} {sing sing' : Value → Value → Perform Unit}
    (hsing : ∀ name duration, D.Together (sing (.text (D.left name)) duration)
      (sing' (.text (D.right name)) duration) fun _ _ => True) {p : Program}
    (hp : Stmt.Throughout D.Part p) {a b : Engine} (hab : D.Accord a b) (depth : Nat) :
    D.Accord
      ((Perform.executeWith (Perform.performWith sing depth) (p.respell D.left).toNode).runOn a).2
      ((Perform.executeWith (Perform.performWith sing' depth)
        (p.respell D.right).toNode).runOn b).2 := by
  have hperformed : D.Together ((p.respell D.left).performed (Perform.performWith sing depth))
      ((p.respell D.right).performed (Perform.performWith sing' depth)) fun _ _ => True := by
    have hall := Program.throughout_executed hp
    rw [Program.performed, Program.performed, Program.executed_respell, Program.executed_respell,
      List.length_map, List.length_map]
    exact .bind (.say _ _) fun _ _ _ => .bind (.say _ _) fun _ _ _ =>
      .numbered (fun u hu => .perform hsing depth (hall.wholly hu)) _ 1
  exact (hperformed a b hab).2.of_silent (Program.silent_executeWith _ _ a)
    (Program.silent_executeWith _ _ b)

end TuneScript
