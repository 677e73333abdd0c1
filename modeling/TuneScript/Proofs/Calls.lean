import TuneScript.Proofs.Circles
import TuneScript.Proofs.Frames

/-!
What the call of a function does. The name alone decides whether it is a call of the language's own,
which never runs the statements of a function. Any other call runs the statements of the function
that its name stands for, one after the other, and nothing else: parameters are not set, and
arguments are not looked at.
-/

namespace TuneScript

/-- What a variable holds when a function has been defined under its name. -/
def Stmt.functionOf (parameters : List String) (body : List Stmt) : Value :=
  Perform.functionValue (.list (parameters.map Node.identifier)) (.list (toNodes body))

/-- A variable holds the value that an expression has on some engine. -/
def Engine.Binds (d : Engine) (x : String) (a : Expr) (e : Engine) : Prop :=
  ∃ v, e.valueOf a.toNode (.int 0) = .ok v ∧ d.content (.store x) = some v

namespace Perform

variable {run : Value → Perform Unit} {name : String} {e d : Engine}

/-- A call that has found its function reports that, and runs the statements of the body. -/
def entered (run : Value → Perform Unit) (name : String) (body : List Stmt) : Perform Unit := do
  say ("🎯 呼叫函式: " ++ name)
  (Stmt.toNodes body).forM run

theorem runOn_call (hname : isRefName name = false) {parameters : List String} {body : List Stmt}
    (hfunction : e.content (.store name) = some (Stmt.functionOf parameters body))
    (arguments : List Expr) (depth : Nat) :
    (perform (depth + 1) (Stmt.call name arguments).toNode).runOn e =
      (entered (perform depth) name body).runOn e := by
  obtain ⟨table, htable, hfind⟩ := Option.bind_eq_some_iff.1 hfunction
  have hcall : perform (depth + 1) (Stmt.call name arguments).toNode =
      callNode (perform depth) (Stmt.call name arguments).toNode := by
    rw [Stmt.toNode, hname]
    rfl
  rw [hcall, runOn_callNode _ hname htable, hfind]
  rfl

/-- A call of the language's own without arguments does nothing but report itself. -/
theorem runOn_refCall (hname : isRefName name = true) (depth : Nat) (e : Engine) :
    (perform (depth + 1) (Stmt.call name []).toNode).runOn e =
      (say ("🔧 呼叫 ref 函式: " ++ name)).runOn e := by
  rw [Stmt.toNode, hname]
  rfl

/-- When some statements of a body have been run, the others are run next. -/
theorem runOn_entered_append {before after : List Stmt}
    (h : (entered run name before).runOn e = (.ok (), d)) :
    (entered run name (before ++ after)).runOn e = ((Stmt.toNodes after).forM run).runOn d := by
  have hbefore : ((Stmt.toNodes before).forM run).runOn
      { e with log := e.log.push (.text ("🎯 呼叫函式: " ++ name ++ "\n")) } = (.ok (), d) := h
  rw [entered, runOn_say, Stmt.toNodes_eq_map, List.map_append, ← Stmt.toNodes_eq_map,
    ← Stmt.toNodes_eq_map]
  rw [List.forM_eq_forM, List.forM_append]
  exact runOn_next hbefore _

theorem content_entered {body : List Stmt} {c : Cell} (h : ¬ Program.Changes body e c)
    (name : String) (depth : Nat) :
    ((entered (perform depth) name body).runOn e).2.content c = e.content c := by
  have hbody := (Program.avoids_of_not_changes h id).item
  have hentered : InStep (Engine.Holds c (e.content c)) (fun _ => False)
      (entered (perform depth) name body) (entered (perform depth) name body) fun _ => True :=
    .bind (.say .of_silent _) fun _ _ => .forM fun v hv => .framedPerform depth (hbody v hv)
  rcases hentered e (Program.holds_of_not_changes h) with ⟨_, _, hfalse⟩ | ⟨-, hd, -⟩
  · exact hfalse.elim
  · exact hd.content

theorem content_of_define {parameters : List String} {body : List Stmt} {depth : Nat}
    (h : (perform (depth + 1) (Stmt.define name parameters body).toNode).runOn e = (.ok (), d)) :
    d.content (.store name) = some (Stmt.functionOf parameters body) := by
  have hset : (setVariable (.text name) (Stmt.functionOf parameters body) >>= fun _ =>
      say ("📋 定義函式: " ++ name)).runOn e = (.ok (), d) := h
  obtain ⟨_, _, hset, -⟩ := bind_ok hset
  obtain ⟨table, htable, -⟩ := part_bind_ok hset
  obtain ⟨c, hc, hstore⟩ := runOn_defineNode htable name parameters body
  cases hc.symm.trans h
  rw [Engine.content, hstore]
  exact Table.find?_insert_self name _

/-- A call of a function runs the statements of its body, each on the engine that those before it
have left. The arguments make no difference to that: at the first statement, and until something
that is run can change it, a parameter holds what the variable of that name held at the call, so it
holds the value of its argument only if the variable did already. -/
theorem parameters_of_call {name : String} (hname : isRefName name = false)
    {parameters : List String} {body : List Stmt} {e : Engine}
    (hfunction : e.content (.store name) = some (Stmt.functionOf parameters body))
    (arguments : List Expr) (depth : Nat) :
    (perform (depth + 1) (Stmt.call name arguments).toNode).runOn e =
        (entered (perform depth) name body).runOn e ∧
      ∀ before s after d, body = before ++ s :: after →
        (entered (perform depth) name before).runOn e = (.ok (), d) →
        (perform (depth + 1) (Stmt.call name arguments).toNode).runOn e =
            (perform depth s.toNode >>= fun _ =>
              (Stmt.toNodes after).forM (perform depth)).runOn d ∧
          ∀ x a, (x, a) ∈ parameters.zip arguments →
            before = [] ∨ ¬ Program.Changes before e (.store x) →
            (d.Binds x a e ↔ e.Binds x a e) := by
  have hcall := runOn_call hname hfunction arguments depth
  refine ⟨hcall, fun before s after d hbody hbefore => ⟨?_, fun x a _ hx => ?_⟩⟩
  · rw [hcall, hbody, runOn_entered_append hbefore]
    rfl
  · have hsame : d.content (.store x) = e.content (.store x) := by
      rcases hx with rfl | hx
      · cases hbefore
        rfl
      · have hcontent := content_entered hx name depth
        rw [hbefore] at hcontent
        exact hcontent
    rw [Engine.Binds, hsame]
    rfl

/-- The second statement of a body is run without the value of the argument. -/
theorem parameters_of_call_second :
    let copy : Stmt := .assign "x" (.logic (.arith (.name "p")))
    let argument : Expr := .logic (.arith (.number ⟨['1'], none⟩))
    let e := ((perform 1 (Stmt.define "f" ["p"] [.define "g" [] [], copy]).toNode).runOn
      (.built .soft .standard)).2
    ∃ d, (entered (perform 1) "f" [.define "g" [] []]).runOn e = (.ok (), d) ∧
      (perform 2 (Stmt.call "f" [argument]).toNode).runOn e =
        (perform 1 copy.toNode >>= fun _ => pure ⟨⟩).runOn d ∧ ¬ d.Binds "p" argument e := by
  intro copy argument e
  have hfunction : e.content (.store "f") =
      some (Stmt.functionOf ["p"] [.define "g" [] [], copy]) := rfl
  have hstore : e.store =
      some [(.text "f", Stmt.functionOf ["p"] [.define "g" [] [], copy])] := rfl
  have hcopy : copy.Wholly fun s => s.cell? ≠ some (.store "p") := ⟨by decide, nofun⟩
  have hdefine : Stmt.Wholly (fun s => s.cell? ≠ some (.store "p")) (.define "g" [] []) :=
    ⟨by decide, List.forall_mem_singleton.2 (Stmt.throughout_iff.2 nofun)⟩
  have hunchanged : ¬ Program.Changes [.define "g" [] []] e (.store "p") := by
    refine Program.not_changes (Stmt.throughout_iff.2 (List.forall_mem_singleton.2 hdefine))
      fun table htable => ?_
    rw [hstore] at htable
    cases htable
    refine List.forall_mem_singleton.2 (.functionValue (.map fun x _ => Node.identifier_avoids x)
      (Stmt.avoids_toNodes (Stmt.throughout_iff.2 ?_)))
    exact List.forall_mem_cons.2 ⟨hdefine, List.forall_mem_singleton.2 hcopy⟩
  obtain ⟨-, h⟩ := parameters_of_call rfl hfunction [argument] 1
  obtain ⟨d, hd⟩ : ∃ d, (entered (perform 1) "f" [.define "g" [] []]).runOn e = (.ok (), d) :=
    ⟨_, rfl⟩
  obtain ⟨hrun, hbinds⟩ := h [.define "g" [] []] copy [] d rfl hd
  refine ⟨d, hd, hrun, fun hbound => ?_⟩
  obtain ⟨v, -, hv⟩ := (hbinds "p" argument List.mem_cons_self (.inr hunchanged)).1 hbound
  cases hv

/-- A function that copies its parameter to another variable copies what was there at the call. -/
theorem runOn_call_copy (hname : isRefName name = false) {x y : String} {v : Value} {t : String}
    {e : Engine} {table : Table Value} (hstore : e.store = some table)
    (hfunction : e.content (.store name) =
      some (Stmt.functionOf [y] [.assign x (.logic (.arith (.name y)))]))
    (hv : (table.find? (.text y)).getD (.int 0) = v) (ht : v.display = .ok t)
    (arguments : List Expr) (depth : Nat) :
    ∃ d, (perform (depth + 2) (Stmt.call name arguments).toNode).runOn e = (.ok (), d) ∧
      d.store = some (table.insert (.text x) v) := by
  let c : Engine := { e with log := e.log.push (.text ("🎯 呼叫函式: " ++ name ++ "\n")) }
  have hvalue : c.valueOf (Expr.logic (.arith (.name y))).toNode (.int 0) = .ok v := by
    change c.valueOf (Node.identifier y) (.int 0) = _
    rw [Engine.valueOf_identifier, Engine.lookup, show c.store = some table from hstore, ← hv]
    rfl
  obtain ⟨d, hd, hdstore⟩ := runOn_assignNode (e := c) hstore x hvalue ht
  refine ⟨d, ?_, hdstore⟩
  rw [runOn_call hname hfunction, entered, runOn_say]
  exact runOn_next hd _

/-- The body of a function copies its parameter before anything has been set. -/
theorem unbound_parameter :
    let text := "fn f ( p ) \x7b\nx = p\n\x7d\nf ( 1 )"
    let p : Program := [.define "f" ["p"] [.assign "x" (.logic (.arith (.name "p")))],
      .call "f" [.logic (.arith (.number ⟨['1'], none⟩))]]
    let d := ((Command.run .full text).respond (.built .soft .standard)).2
    Reader.read .full text = .ok p ∧ d.content (.store "p") = none ∧
      d.content (.store "x") = some (.int 0) := by
  intro text p d
  have htext : p.render = text := by decide
  have hread : Reader.read .full text = .ok p := htext ▸ Program.read_render (by decide)
  let first : Perform Unit := do
    say "🎵 開始執行音樂程式..."
    say "📊 程式包含 2 個語句"
    say "\n--- 執行語句 1/2 ---"
    node (Stmt.define "f" ["p"] [.assign "x" (.logic (.arith (.name "p")))]).toNode
    say "\n--- 執行語句 2/2 ---"
  let last : Perform Unit := do
    say "\n🎵 音樂程式執行完成！"
    summary
  let call : Stmt := .call "f" [.logic (.arith (.number ⟨['1'], none⟩))]
  let c := (first.runOn (.built .soft .standard)).2
  have hexecute : execute p.toNode = (do
      say "🎵 開始執行音樂程式..."
      say "📊 程式包含 2 個語句"
      numbered 2 node 1 (Stmt.toNodes p)
      last) := rfl
  have hrun : (execute p.toNode).runOn (.built .soft .standard) =
      ((node call.toNode >>= fun _ => pure ()) >>= fun _ => last).runOn c := by
    rw [hexecute]
    rfl
  have hfunction : c.content (.store "f") =
      some (Stmt.functionOf ["p"] [.assign "x" (.logic (.arith (.name "p")))]) := rfl
  obtain ⟨b, hb, hstore⟩ := runOn_call_copy rfl rfl hfunction rfl rfl
    [.logic (.arith (.number ⟨['1'], none⟩))] 998
  have hlast : Prints last := .bind (.say (fun s => ⟨s, rfl⟩) _) fun _ => .summary fun s => ⟨s, rfl⟩
  have hd : d.store = b.store := by
    have hdrun : d = (last.runOn b).2 := by
      rw [show d = _ from congrArg Prod.snd (Program.respond_run hread _), answer_snd, hrun]
      exact congrArg Prod.snd (runOn_next (runOn_next hb _) _)
    rw [hdrun]
    exact Engine.read_of_silent Engine.store (fun _ => rfl) (hlast.silent b)
  rw [Engine.content, Engine.content, hd, hstore]
  exact ⟨hread, rfl, rfl⟩

/-- The definition of a function stores its statements, and later calls of the same name find them.
A name that does not start like those of the language's own runs them in their order; any other name
runs none of them, and leaves the engine as it was but for a line that is printed. -/
theorem body_of_call {name : String} {body : List Stmt} {e d : Engine} {depth : Nat}
    (hdefine : (perform (depth + 1) (Stmt.define name [] body).toNode).runOn e = (.ok (), d))
    {c : Engine} (hkept : c.content (.store name) = d.content (.store name)) (depth' : Nat) :
    (isRefName name = false →
      (perform (depth' + 1) (Stmt.call name []).toNode).runOn c =
        (entered (perform depth') name body).runOn c) ∧
      (isRefName name = true →
        (perform (depth' + 1) (Stmt.call name []).toNode).runOn c =
            (say ("🔧 呼叫 ref 函式: " ++ name)).runOn c ∧
          Alike ((perform (depth' + 1) (Stmt.call name []).toNode).runOn c) (.ok (), c)) := by
  refine ⟨fun hname => ?_, fun hname => ?_⟩
  · exact runOn_call hname (hkept.trans (content_of_define hdefine)) [] depth'
  · have hcall := runOn_refCall hname depth' c
    refine ⟨hcall, ?_⟩
    rw [hcall]
    exact ⟨rfl, silent_say _ c⟩

/-- A function that is still there after another one has been defined. -/
theorem body_of_call_melody :
    let body : List Stmt := [.tempo ⟨['9', '0'], none⟩, .note (.single "C4") none]
    let d := ((perform 1 (Stmt.define "melody" [] body).toNode).runOn (.built .soft .standard)).2
    let c := ((perform 1 (Stmt.define "refrain" [] []).toNode).runOn d).2
    (perform 2 (Stmt.call "melody" []).toNode).runOn c =
        (entered (perform 1) "melody" body).runOn c ∧
      Alike ((perform 2 (Stmt.call "refrain" []).toNode).runOn c) (.ok (), c) := by
  intro body d c
  have hmelody : (perform 1 (Stmt.define "melody" [] body).toNode).runOn
      (.built .soft .standard) = (.ok (), d) := rfl
  have hrefrain : (perform 1 (Stmt.define "refrain" [] []).toNode).runOn d = (.ok (), c) := rfl
  have hkept : c.content (.store "melody") = d.content (.store "melody") := rfl
  exact ⟨(body_of_call hmelody hkept 1).1 (by decide),
    ((body_of_call hrefrain rfl 1).2 (by decide)).2⟩

/-- A function that is defined and called, and that is not run for its name. -/
theorem unheard_refrain :
    let text := "fn refrain ( ) \x7b\ntempo 90\n\x7d\nrefrain ( )"
    let p : Program := [.define "refrain" [] [.tempo ⟨['9', '0'], none⟩], .call "refrain" []]
    let d := ((Command.run .full text).respond (.built .soft .standard)).2
    Reader.read .full text = .ok p ∧ (d.content (.store "refrain")).isSome = true ∧
      d.content .tempo = some (.int 120) := by
  intro text p d
  have htext : p.render = text := by decide
  have hread : Reader.read .full text = .ok p := htext ▸ Program.read_render (by decide)
  have hd : d = ((execute p.toNode).answer (.built .soft .standard)).2 :=
    congrArg Prod.snd (Program.respond_run hread _)
  rw [hd]
  exact ⟨hread, rfl, rfl⟩

end Perform
end TuneScript
