import TuneScript.Proofs.Programs

/-!
What the bound on the depth of statements has to do with the run of a program. Two actions are in
step if they do the same on all engines of a kind, unless the first fails in a certain way.
Statements are in step as soon as those are that are run with them. So a run that does not fail for
its depth is the same under every other bound: the program terminates.
-/

namespace TuneScript

namespace Perform

variable {α β : Type}

/-- Two actions in step: on an engine of a kind they do the same and leave an engine of that kind,
unless the first one fails in a certain way. What they answer has a property. -/
def InStep (I : Engine → Prop) (F : Failure → Prop) (x y : Perform α) (Q : α → Prop) : Prop :=
  ∀ e, I e → (∃ f, (x.runOn e).1 = .error f ∧ F f) ∨
    y.runOn e = x.runOn e ∧ I (x.runOn e).2 ∧ ∀ a, (x.runOn e).1 = .ok a → Q a

namespace InStep

variable {I : Engine → Prop} {F : Failure → Prop} {Q : α → Prop} {R : β → Prop}

theorem bind {x y : Perform α} {f g : α → Perform β} (hx : InStep I F x y Q)
    (hf : ∀ a, Q a → InStep I F (f a) (g a) R) : InStep I F (x >>= f) (y >>= g) R := by
  intro e he
  rw [runOn_bind, runOn_bind]
  rcases hx e he with ⟨failure, hfailed, hF⟩ | ⟨hsame, hd, hQ⟩
  · rw [hfailed]
    exact .inl ⟨failure, rfl, hF⟩
  · rw [hsame]
    cases ha : (x.runOn e).1 with
    | ok a => exact hf a (hQ a ha) _ hd
    | error failure => exact .inr ⟨rfl, hd, nofun⟩

/-- An action is in step with itself if it leaves engines of the kind. -/
theorem same {x : Perform α} (h : ∀ e, I e → I (x.runOn e).2) : InStep I F x x fun _ => True :=
  fun e he => .inr ⟨rfl, h e he, fun _ _ => trivial⟩

theorem lift (r : Result α) : InStep I F (Perform.lift r) (Perform.lift r) fun a => r = .ok a := by
  intro e he
  rw [runOn_lift]
  exact .inr ⟨rfl, he, fun _ h => h⟩

theorem pure (a : α) : InStep I F (Pure.pure a) (Pure.pure a) fun _ => True := same fun _ he => he

theorem forM {f g : α → Perform PUnit} {as : List α}
    (h : ∀ a ∈ as, InStep I F (f a) (g a) fun _ => True) :
    InStep I F (as.forM f) (as.forM g) fun _ => True := by
  induction as with
  | nil => exact pure _
  | cons a as ih =>
      obtain ⟨ha, has⟩ := List.forall_mem_cons.1 h
      exact bind ha fun _ _ => ih has

theorem rounds {f g : Nat → Perform Unit} (h : ∀ i, InStep I F (f i) (g i) fun _ => True)
    (i n : Nat) : InStep I F (Perform.rounds f i n) (Perform.rounds g i n) fun _ => True := by
  induction n generalizing i with
  | zero => exact pure _
  | succ n ih => exact bind (h i) fun _ _ => ih (i + 1)

end InStep

/-- Statements in step, as far as they are among the elements of a value. -/
def BodyInStep (I : Engine → Prop) (F : Failure → Prop) (run run' : Value → Perform Unit)
    (statements : Value) : Prop :=
  ∀ items, statements.elements = .ok items →
    ∀ v ∈ items, InStep I F (run v) (run' v) fun _ => True

namespace InStep

section Statements

variable {I : Engine → Prop} {F : Failure → Prop} {run run' : Value → Perform Unit} {node : Value}
  (hsilent : ∀ {e d : Engine}, d.silent = e.silent → I e → I d)

theorem body {statements : Value} (h : BodyInStep I F run run' statements) :
    InStep I F (Perform.body run statements) (Perform.body run' statements) fun _ => True :=
  bind (lift _) fun items hitems => forM (h items hitems)

include hsilent

theorem prints {x : Perform α} (hx : Prints x) : InStep I F x x fun _ => True :=
  same fun e => hsilent (hx.silent e)

theorem say (s : String) : InStep I F (Perform.say s) (Perform.say s) fun _ => True :=
  prints hsilent (.say s)

theorem loopNode (h : BodyInStep I F run run' ((node.field? "body").getD (.list []))) :
    InStep I F (Perform.loopNode run node) (Perform.loopNode run' node) fun _ => True := by
  refine bind (prints hsilent (.valueOf _ _)) fun _ _ => bind (lift _) fun count _ => ?_
  refine bind (prints hsilent (.shown _)) fun _ _ => bind (say hsilent _) fun _ _ => ?_
  exact rounds (fun _ => bind (say hsilent _) fun _ _ => body h) 0 count.toNat

theorem roundsWhile {f g : Nat → Perform Unit} (h : ∀ i, InStep I F (f i) (g i) fun _ => True)
    (condition : Value) (done n : Nat) :
    InStep I F (Perform.roundsWhile condition f done n) (Perform.roundsWhile condition g done n)
      fun _ => True := by
  induction n generalizing done with
  | zero => exact bind (prints hsilent (.holds _)) fun _ _ => pure _
  | succ n ih =>
      refine bind (prints hsilent (.holds _)) fun go _ => ?_
      cases go with
      | true => exact bind (h _) fun _ _ => ih (done + 1)
      | false => exact pure _

theorem whileNode (h : BodyInStep I F run run' ((node.field? "body").getD (.list []))) :
    InStep I F (Perform.whileNode run node) (Perform.whileNode run' node) fun _ => True := by
  refine bind (say hsilent _) fun _ _ => bind (roundsWhile hsilent (fun i => ?_) _ 0 roundLimit)
    fun done _ => ?_
  · exact bind (say hsilent _) fun _ _ => body h
  · dsimp only
    split
    · exact bind (say hsilent _) fun _ _ => say hsilent _
    · exact say hsilent _

theorem forNode
    (hcounter : ∀ counter, Node.nameOf (Node.child node "variable") = .ok counter →
      ∀ i e, I e → I ((setVariable counter (.int i)).runOn e).2)
    (h : BodyInStep I F run run' ((node.field? "body").getD (.list []))) :
    InStep I F (Perform.forNode run node) (Perform.forNode run' node) fun _ => True := by
  have hshown (v : Value) : InStep I F (shown v) (shown v) fun _ => True :=
    prints hsilent (.shown v)
  have hvalue (v : Value) : InStep I F (valueOf v (.int 0)) (valueOf v (.int 0)) fun _ => True :=
    prints hsilent (.valueOf v _)
  refine bind (lift _) fun counter hname => bind (lift _) fun start _ =>
    bind (hvalue start) fun _ _ => bind (lift _) fun first _ => bind (lift _) fun stop _ =>
    bind (hvalue stop) fun _ _ => bind (lift _) fun last _ => ?_
  refine bind (hshown _) fun _ _ => bind (hshown _) fun _ _ => bind (hshown _) fun _ _ =>
    bind (say hsilent _) fun _ _ => bind (rounds (fun i => ?_) 0 _) fun _ _ => say hsilent _
  refine bind (same (hcounter counter hname _)) fun _ _ => bind (hshown _) fun _ _ => ?_
  exact bind (hshown _) fun _ _ => bind (hshown _) fun _ _ => bind (hshown _) fun _ _ =>
    bind (say hsilent _) fun _ _ => body h

theorem firstAlternative {clauses : List Value}
    (h : ∀ clause ∈ clauses, BodyInStep I F run run' ((clause.field? "body").getD (.list []))) :
    InStep I F (Perform.firstAlternative run clauses) (Perform.firstAlternative run' clauses)
      fun _ => True := by
  induction clauses with
  | nil => exact pure _
  | cons clause clauses ih =>
      obtain ⟨hfirst, hmore⟩ := List.forall_mem_cons.1 h
      refine bind (lift _) fun _ _ => bind (prints hsilent (.holds _)) fun go _ => ?_
      cases go with
      | true => exact bind (say hsilent _) fun _ _ => bind (body hfirst) fun _ _ => pure _
      | false => exact ih hmore

theorem branchNode
    (hfirst : BodyInStep I F run run' ((node.field? "then_body").getD (.list [])))
    (halternatives : ∀ clauses,
      ((node.field? "elseif_clauses").getD (.list [])).elements = .ok clauses →
      ∀ clause ∈ clauses, BodyInStep I F run run' ((clause.field? "body").getD (.list [])))
    (hotherwise : BodyInStep I F run run' ((node.field? "else_body").getD (.list []))) :
    InStep I F (Perform.branchNode run node) (Perform.branchNode run' node) fun _ => True := by
  refine bind (prints hsilent (.holds _)) fun go _ => ?_
  cases go with
  | true => exact bind (say hsilent _) fun _ _ => body hfirst
  | false =>
      refine bind (lift _) fun clauses hclauses => ?_
      refine bind (firstAlternative hsilent (halternatives clauses hclauses)) fun found _ => ?_
      dsimp only
      split
      · exact bind (say hsilent _) fun _ _ => body hotherwise
      · exact pure _

/-- A call is in step if the function is that its name stands for at the time. -/
theorem callNode
    (h : ∀ e table name function, I e → e.store = some table →
      Node.nameOf (Node.child node "name") = .ok name → table.find? name = some function →
      BodyInStep I F run run' ((function.field? "body").getD (.list []))) :
    InStep I F (Perform.callNode run node) (Perform.callNode run' node) fun _ => True := by
  have hstore : InStep I F store store fun table => ∃ e, I e ∧ e.store = some table := by
    intro e he
    rw [store, runOn_part]
    cases htable : e.store with
    | some table =>
        refine .inr ⟨rfl, he, fun a ha => ?_⟩
        cases ha
        exact ⟨e, he, htable⟩
    | none => exact .inr ⟨rfl, he, nofun⟩
  refine bind (lift _) fun name hname => bind hstore fun table htable => ?_
  obtain ⟨e, he, htable⟩ := htable
  refine bind (lift _) fun _ _ => ?_
  cases hfind : table.find? name with
  | none => exact pure _
  | some function =>
      dsimp only
      split
      · exact bind (prints hsilent (.shown _)) fun _ _ => bind (say hsilent _) fun _ _ =>
          body (h e table name function he htable hname hfind)
      · exact pure _

end Statements

/-- Whatever the nodes are, what a statement does hangs only on the statements run with it. -/
theorem statement {F : Failure → Prop} {run run' : Value → Perform Unit}
    (h : ∀ v, InStep (fun _ => True) F (run v) (run' v) fun _ => True) (node : Value) :
    InStep (fun _ => True) F (Perform.statement run node) (Perform.statement run' node)
      fun _ => True := by
  have hsilent {e d : Engine} (_ : d.silent = e.silent) (_ : True) : True := trivial
  have hbody (statements : Value) : BodyInStep (fun _ => True) F run run' statements :=
    fun _ _ v _ => h v
  have hother {x : Perform Unit} : InStep (fun _ => True) F x x fun _ => True :=
    same fun _ _ => trivial
  unfold Perform.statement
  generalize Node.typeName node = name
  split
  · exact hother
  · exact hother
  · exact hother
  · exact hother
  · exact hother
  · exact hother
  · exact loopNode hsilent (hbody _)
  · exact whileNode hsilent (hbody _)
  · exact forNode hsilent (fun _ _ _ _ _ => trivial) (hbody _)
  · exact branchNode hsilent (hbody _) (fun _ _ _ _ => hbody _) (hbody _)
  · exact hother
  · exact hother
  · exact callNode hsilent fun _ _ _ _ _ _ _ _ => hbody _
  · exact hother
  · exact hother

end InStep

/-- Runs one statement; statements that nest too deep are left to an action of their own. -/
def performOver (beyond : Value → Perform Unit) : Nat → Value → Perform Unit
  | 0 => beyond
  | depth + 1 => statement (performOver beyond depth)

theorem perform_eq_performOver (depth : Nat) :
    perform depth = performOver (fun _ => throw .nestedTooDeep) depth := by
  induction depth with
  | zero => rfl
  | succ depth ih =>
      funext v
      rw [perform, ih]
      rfl

/-- A larger bound is a bound of which more is left. -/
theorem performOver_add (beyond : Value → Perform Unit) (more depth : Nat) :
    performOver beyond (more + depth) = performOver (performOver beyond more) depth := by
  induction depth with
  | zero => rfl
  | succ depth ih => exact congrArg statement ih

/-- Runs the statements in the body of a program record, each of them as an action says. -/
def executeWith (run : Value → Perform Unit) (program : Value) : Perform Unit := do
  match program with
  | .record _ =>
    let statements := (program.field? "body").getD (.list [])
    say "🎵 開始執行音樂程式..."
    let total ← lift statements.length
    say ("📊 程式包含 " ++ toString total ++ " 個語句")
    numbered total run 1 (← lift statements.elements)
    say "\n🎵 音樂程式執行完成！"
    summary
  | _ => say "❌ 無效的 AST"

theorem execute_eq_executeWith : execute = executeWith (perform depthLimit) := rfl

namespace InStep

/-- A statement that does not fail for its depth does not meet the bound. -/
theorem perform (beyond : Value → Perform Unit) (depth : Nat) (v : Value) :
    InStep (fun _ => True) (· = .nestedTooDeep) (Perform.perform depth v)
      (performOver beyond depth v) fun _ => True := by
  induction depth generalizing v with
  | zero => exact fun e _ => .inl ⟨.nestedTooDeep, rfl, rfl⟩
  | succ depth ih => exact statement ih v

variable {I : Engine → Prop} {F : Failure → Prop} {run run' : Value → Perform Unit}
  (hsilent : ∀ {e d : Engine}, d.silent = e.silent → I e → I d)

include hsilent

theorem numbered {nodes : List Value}
    (h : ∀ v ∈ nodes, InStep I F (run v) (run' v) fun _ => True) (total i : Nat) :
    InStep I F (Perform.numbered total run i nodes) (Perform.numbered total run' i nodes)
      fun _ => True := by
  induction nodes generalizing i with
  | nil => exact pure _
  | cons v nodes ih =>
      obtain ⟨hv, hnodes⟩ := List.forall_mem_cons.1 h
      exact bind (say hsilent _) fun _ _ => bind hv fun _ _ => ih hnodes (i + 1)

theorem executeWith (program : Value)
    (h : BodyInStep I F run run' ((program.field? "body").getD (.list []))) :
    InStep I F (Perform.executeWith run program) (Perform.executeWith run' program)
      fun _ => True := by
  unfold Perform.executeWith
  split
  · refine bind (say hsilent _) fun _ _ => bind (lift _) fun total _ => ?_
    refine bind (say hsilent _) fun _ _ => bind (lift _) fun nodes hnodes => ?_
    refine bind (numbered hsilent (h nodes hnodes) total 1) fun _ _ => ?_
    exact bind (say hsilent _) fun _ _ => prints hsilent (.summary fun s => ⟨s, rfl⟩)
  · exact say hsilent _

end InStep
end Perform

namespace Program

open Perform (executeWith performOver InStep)

/-- The run of a program comes to its end: down to some depth it has one outcome, whatever is put
in the place of the statements that nest deeper. -/
def Terminates (p : Program) (e : Engine) : Prop :=
  ∃ depth outcome, ∀ beyond, (executeWith (performOver beyond depth) p.toNode).runOn e = outcome

variable {p : Program} {e : Engine}

/-- The outcome is that of every larger bound. -/
theorem Terminates.eventually (h : p.Terminates e) : ∃ depth outcome, ∀ more,
    (executeWith (Perform.perform (more + depth)) p.toNode).runOn e = outcome := by
  obtain ⟨depth, outcome, houtcome⟩ := h
  refine ⟨depth, outcome, fun more => ?_⟩
  rw [Perform.perform_eq_performOver, Perform.performOver_add]
  exact houtcome _

/-- A program whose run does not come to its end fails for its depth, whatever the bound is. -/
theorem nestedTooDeep_of_not_terminates (h : ¬ p.Terminates e) (depth : Nat) :
    ((executeWith (Perform.perform depth) p.toNode).runOn e).1 = .error .nestedTooDeep := by
  by_cases hfailed :
      ((executeWith (Perform.perform depth) p.toNode).runOn e).1 = .error .nestedTooDeep
  · exact hfailed
  · refine absurd
      ⟨depth, (executeWith (Perform.perform depth) p.toNode).runOn e, fun beyond => ?_⟩ h
    have hsteps := InStep.executeWith (I := fun _ => True) (fun _ _ => trivial) p.toNode
      (fun _ _ v _ => InStep.perform beyond depth v)
    rcases hsteps e trivial with ⟨f, hf, rfl⟩ | ⟨hsame, -⟩
    · exact absurd hf hfailed
    · exact hsame

end Program
end TuneScript
