import TuneScript.Proofs.Ranks

/-!
Runs that do not come to their end. A function that calls itself meets every bound on the depth.
The ranks of names do not rule that out: a quotient by zero is its dividend, so it can give a
function to a name of a smaller rank, and close a circle of calls.
-/

namespace TuneScript

namespace Perform

theorem runOn_say {α : Type} (s : String) (x : Perform α) (e : Engine) :
    (say s >>= fun _ => x).runOn e =
      x.runOn { e with log := e.log.push (.text (s ++ "\n")) } := rfl

theorem runOn_error {α β : Type} {x : Perform α} {e : Engine} {f : Failure}
    (h : (x.runOn e).1 = .error f) (g : α → Perform β) : ((x >>= g).runOn e).1 = .error f := by
  rw [runOn_bind, h]
  rfl

theorem runOn_next {α β : Type} {x : Perform α} {e d : Engine} {a : α}
    (h : x.runOn e = (.ok a, d)) (g : α → Perform β) : (x >>= g).runOn e = (g a).runOn d := by
  rw [runOn_bind, h]
  rfl

/-- Before a statement is run its number is printed, and that leaves the variables. -/
theorem numbered_error {run : Value → Perform Unit} {total i : Nat} {v : Value}
    {nodes : List Value} {e : Engine} {f : Failure}
    (h : ∀ d : Engine, d.store = e.store →
      ((run v >>= fun _ => numbered total run (i + 1) nodes).runOn d).1 = .error f) :
    ((numbered total run i (v :: nodes)).runOn e).1 = .error f :=
  h _ rfl

theorem runOn_defineNode {e : Engine} {table : Table Value} (he : e.store = some table)
    (name : String) (parameters : List String) (statements : List Stmt) :
    ∃ d, (defineNode (Stmt.define name parameters statements).toNode).runOn e = (.ok (), d) ∧
      d.store = some (table.insert (.text name) (functionValue
        (.list (parameters.map Node.identifier)) (.list (Stmt.toNodes statements)))) := by
  change ∃ d, (setVariable (.text name) (functionValue (.list (parameters.map Node.identifier))
    (.list (Stmt.toNodes statements))) >>= fun _ => say _).runOn e = (.ok (), d) ∧ _
  rw [runOn_bind, runOn_setVariable he]
  exact ⟨_, rfl, rfl⟩

theorem runOn_assignNode {e : Engine} {table : Table Value} (he : e.store = some table)
    (x : String) {value : Expr} {v : Value} {t : String}
    (hvalue : e.valueOf value.toNode (.int 0) = .ok v) (ht : v.display = .ok t) :
    ∃ d, (assignNode (Stmt.assign x value).toNode).runOn e = (.ok (), d) ∧
      d.store = some (table.insert (.text x) v) := by
  have hrun : (valueOf value.toNode (.int 0)).runOn e = (.ok v, e) := by
    rw [valueOf, runOn_get, runOn_lift, hvalue]
  change ∃ d, (valueOf value.toNode (.int 0) >>= fun v => setVariable (.text x) v >>= fun _ =>
    shown v >>= fun t => say _).runOn e = (.ok (), d) ∧ _
  rw [runOn_next hrun, runOn_bind, runOn_setVariable he]
  change ∃ d, (lift v.display >>= fun t => say _).runOn _ = (.ok (), d) ∧ _
  rw [ht]
  exact ⟨_, rfl, rfl⟩

/-- A function that calls itself goes on until the bound is met. -/
theorem runOn_circle {name : String} (hname : isRefName name = false) (f : Failure) (depth : Nat)
    {e : Engine} {table : Table Value} {parameters : Value} (hstore : e.store = some table)
    (hfind : table.find? (.text name) =
      some (functionValue parameters (.list (Stmt.toNodes [.call name []])))) :
    ((performOver (fun _ => throw f) depth (Stmt.call name []).toNode).runOn e).1 = .error f := by
  induction depth generalizing e with
  | zero => rfl
  | succ depth ih =>
      have hcall : performOver (fun _ => throw f) (depth + 1) (Stmt.call name []).toNode =
          callNode (performOver (fun _ => throw f) depth) (Stmt.call name []).toNode := by
        rw [Stmt.toNode, hname]
        rfl
      rw [hcall, runOn_callNode _ hname hstore, hfind]
      change ((say _ >>= fun _ => performOver _ depth _ >>= fun _ => pure ()).runOn e).1 = _
      rw [runOn_say]
      refine runOn_error (ih ?_) _
      exact hstore

end Perform

namespace Program

open Perform (executeWith performOver)

theorem numbered_circle {f g : String} (hg : isRefName g = false) (failure : Failure)
    (depth : Nat) {e : Engine} (he : e.store = some []) :
    ((Perform.numbered 3 (performOver (fun _ => throw failure) depth) 1 (Stmt.toNodes [
      .define f [] [.call g []],
      .assign g (.logic (.arith (.binary .div (.name f) (.number ⟨['0'], none⟩)))),
      .call g []])).runOn e).1 = .error failure := by
  cases depth with
  | zero => exact Perform.numbered_error fun d _ => Perform.runOn_error rfl _
  | succ depth =>
      refine Perform.numbered_error fun d hd => ?_
      obtain ⟨c, hc, hcstore⟩ := Perform.runOn_defineNode (hd.trans he) f [] [.call g []]
      have hc' : (performOver (fun _ => throw failure) (depth + 1)
          (Stmt.define f [] [.call g []]).toNode).runOn d = (.ok (), c) := hc
      rw [Perform.runOn_next hc']
      refine Perform.numbered_error fun b hb => ?_
      let v := Perform.functionValue (.list []) (.list (Stmt.toNodes [.call g []]))
      have hbstore : b.store = some [(.text f, v)] := hb.trans hcstore
      have hlookup : b.lookup (.text f) (.int 0) = .ok v := by
        rw [Engine.lookup, hbstore]
        change Except.ok ((Table.find? [(.text f, v)] (.text f)).getD _) = _
        rw [Table.find?_cons, if_pos (Value.same_text.2 rfl)]
        rfl
      have hvalue : b.valueOf (Expr.logic (.arith (.binary .div (.name f)
          (.number ⟨['0'], none⟩)))).toNode (.int 0) = .ok v := by
        change b.valueOf (Arith.binary _ _ _).toNode _ = _
        rw [Engine.valueOf_binary, Arith.toNode, Arith.toNode, Numeral.toNode,
          Engine.valueOf_identifier, Engine.valueOf_number, hlookup]
        rfl
      have hshown : ∃ t, v.display = .ok t := ⟨_, rfl⟩
      obtain ⟨t, ht⟩ := hshown
      obtain ⟨a, ha, hastore⟩ := Perform.runOn_assignNode hbstore g hvalue ht
      have ha' : (performOver (fun _ => throw failure) (depth + 1) (Stmt.assign g (.logic (.arith
          (.binary .div (.name f) (.number ⟨['0'], none⟩))))).toNode).runOn b = (.ok (), a) := ha
      rw [Perform.runOn_next ha']
      refine Perform.numbered_error fun d hd => Perform.runOn_error ?_ _
      have hkeys : Table.keys [(.text f, v)] = [f].map .text := rfl
      have hfind : (Table.insert [(.text f, v)] (.text g) v).find? (.text g) = some v := by
        rw [Table.insert, Table.find?_update hkeys, if_pos rfl]
      exact Perform.runOn_circle hg failure (depth + 1) (hd.trans hastore) hfind

/-- A quotient by zero closes a circle of calls although all ranks fall. -/
theorem not_terminates_of_quotient {f g : String} (hne : f ≠ g) (hg : isRefName g = false)
    (format : Option (List Value)) :
    let p : Program := [.define f [] [.call g []],
      .assign g (.logic (.arith (.binary .div (.name f) (.number ⟨['0'], none⟩)))), .call g []]
    (∀ s : Stmt, s.Within p → s.Ranked fun x => if x = f then 1 else 0) ∧
      ¬ p.Terminates (.built .soft (.working format)) := by
  intro p
  constructor
  · have hcall : Stmt.Throughout (Stmt.Ranked fun x => if x = f then 1 else 0) [.call g []] :=
      Stmt.throughout_iff.2 (List.forall_mem_singleton.2 ⟨trivial, nofun⟩)
    refine Stmt.throughout_iff.2 (List.forall_mem_cons.2 ⟨⟨fun callee hcallee => ?_,
      List.forall_mem_singleton.2 hcall⟩, List.forall_mem_cons.2 ⟨⟨trivial, nofun⟩,
      List.forall_mem_singleton.2 ⟨trivial, nofun⟩⟩⟩)
    cases List.mem_singleton.1 hcallee
    dsimp only
    rw [if_neg hne.symm, if_pos rfl]
    exact Nat.one_pos
  · intro hterminates
    have hstore : (Engine.built .soft (.working format)).store = some [] :=
      Engine.read_of_silent Engine.store (fun _ => rfl) (Engine.silent_built_working .soft format)
    have hfails (failure : Failure) (depth : Nat) :
        ((executeWith (performOver (fun _ => throw failure) depth) p.toNode).runOn
          (.built .soft (.working format))).1 = .error failure := by
      change ((Perform.say _ >>= fun _ => Perform.say _ >>= fun _ =>
        Perform.numbered 3 (performOver _ depth) 1 (Stmt.toNodes p) >>= fun _ => _).runOn _).1 = _
      rw [Perform.runOn_say, Perform.runOn_say]
      refine Perform.runOn_error (numbered_circle hg failure depth ?_) _
      exact hstore
    obtain ⟨depth, outcome, houtcome⟩ := hterminates
    have hdeep := hfails .nestedTooDeep depth
    have hother := hfails (.device "") depth
    rw [houtcome] at hdeep hother
    rw [hdeep] at hother
    cases hother

end Program

end TuneScript
