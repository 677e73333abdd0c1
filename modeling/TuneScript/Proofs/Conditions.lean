import TuneScript.Proofs.Circles
import TuneScript.Proofs.Tables

/-!
Conditions that are stored in a variable and asked for later. An expression is evaluated in two
ways: as a value, which knows numbers, names and arithmetic, and as a condition, which knows
numbers, names, comparisons and connectives. So a variable keeps the truth of a number or a name; it
holds zero in place of any comparison or connective, and arithmetic holds only once it has been
stored.
-/

namespace TuneScript

namespace Engine

theorem holds_number (e : Engine) (v : Value) :
    e.holds (Node.number v) = .ok (!v.equal (.int 0)) := by
  rw [holds]
  rfl

theorem holds_identifier (e : Engine) (x : String) :
    e.holds (Node.identifier x) = (do
      let v ← e.lookup (.text x) (.int 0)
      return !v.equal (.int 0)) := by
  rw [holds]
  rfl

theorem holds_binary (e : Engine) (o : Operator) (l r : Arith) :
    e.holds (Arith.binary o l r).toNode = .ok false := by
  rw [Arith.toNode, holds]
  rfl

/-- What a variable holds is as true as its value is unlike zero. -/
theorem holds_of_store {e : Engine} {table : Table Value} (h : e.store = some table) {x : String}
    {v : Value} (hv : table.find? (.text x) = some v) :
    e.holds (Node.identifier x) = .ok (!v.equal (.int 0)) := by
  have hlookup : e.lookup (.text x) (.int 0) = .ok v := by
    rw [lookup, h]
    change Except.ok ((table.find? (.text x)).getD _) = _
    rw [hv]
    rfl
  rw [holds_identifier, hlookup]
  rfl

end Engine

namespace Perform

/-- An assignment sets the variable even when its value cannot be printed. -/
theorem store_assignNode {e : Engine} {table : Table Value} (he : e.store = some table)
    (x : String) {value : Expr} {v : Value} (hvalue : e.valueOf value.toNode (.int 0) = .ok v) :
    ((assignNode (Stmt.assign x value).toNode).runOn e).2.store =
      some (table.insert (.text x) v) := by
  have hrun : (valueOf value.toNode (.int 0)).runOn e = (.ok v, e) := by
    rw [valueOf, runOn_get, runOn_lift, hvalue]
  change ((valueOf value.toNode (.int 0) >>= fun v => setVariable (.text x) v >>= fun _ =>
    shown v >>= fun t => say _).runOn e).2.store = _
  rw [runOn_next hrun, runOn_bind, runOn_setVariable he]
  change ((lift v.display >>= fun t => say _).runOn _).2.store = _
  cases v.display <;> rfl

theorem holds_of_assign (depth : Nat) {e : Engine} {table : Table Value} (he : e.store = some table)
    (x : String) {value : Expr} {v : Value} (hvalue : e.valueOf value.toNode (.int 0) = .ok v) :
    ((perform (depth + 1) (Stmt.assign x value).toNode).runOn e).2.holds (Node.identifier x) =
      .ok (!v.equal (.int 0)) := by
  have hassign : perform (depth + 1) (Stmt.assign x value).toNode =
      assignNode (Stmt.assign x value).toNode := rfl
  rw [hassign]
  exact Engine.holds_of_store (store_assignNode he x hvalue) (Table.find?_insert_self x v)

end Perform

namespace Logic

/-- When the truth of a condition that holds as `b` is that of its value `v`. -/
def KeptAs (v : Value) (b : Bool) : Logic → Prop
  | arith (.number _) | arith (.name _) => True
  | arith (.binary ..) => v.equal (.int 0) = true
  | compare .. | negation _ | connect .. => b = false

theorem keptAs_iff {l : Logic} {e : Engine} {v : Value} {b : Bool}
    (hvalue : e.valueOf l.toNode (.int 0) = .ok v) (hholds : e.holds l.toNode = .ok b) :
    (!v.equal (.int 0)) = b ↔ l.KeptAs v b := by
  have hzero (h : v = .int 0) : (!v.equal (.int 0)) = b ↔ b = false := by
    rw [h]
    exact eq_comm
  cases l with
  | arith a =>
      cases a with
      | number n =>
          cases (Engine.valueOf_number e _ _).symm.trans hvalue
          cases (Engine.holds_number e _).symm.trans hholds
          exact iff_of_true rfl trivial
      | name x =>
          have hlookup := (Engine.valueOf_identifier e x _).symm.trans hvalue
          have htruth := (Engine.holds_identifier e x).symm.trans hholds
          rw [hlookup] at htruth
          cases htruth
          exact iff_of_true rfl trivial
      | binary o l r =>
          cases (Engine.holds_binary e o l r).symm.trans hholds
          exact iff_of_eq (Bool.not_eq_false' _)
  | compare _ _ _ | negation _ | connect _ _ _ =>
      rw [Logic.toNode, Engine.valueOf] at hvalue
      exact hzero (Except.ok.inj hvalue).symm

end Logic

namespace Perform

/-- A condition that is assigned to a variable is asked for by its value. That agrees with the
condition itself for numbers and names, for arithmetic that gives zero, and for the comparisons and
connectives that did not hold. -/
theorem holds_assigned (depth : Nat) (l : Logic) (x : String) {e : Engine} {table : Table Value}
    (he : e.store = some table) {v : Value} {b : Bool}
    (hvalue : e.valueOf l.toNode (.int 0) = .ok v) (hholds : e.holds l.toNode = .ok b) :
    let d := ((perform (depth + 1) (Stmt.assign x (.logic l)).toNode).runOn e).2
    d.holds (Node.identifier x) = .ok (!v.equal (.int 0)) ∧
      (d.holds (Node.identifier x) = e.holds l.toNode ↔ l.KeptAs v b) := by
  intro d
  have hstored : e.valueOf (Expr.logic l).toNode (.int 0) = .ok v := hvalue
  have hd : d.holds (Node.identifier x) = .ok (!v.equal (.int 0)) :=
    holds_of_assign depth he x hstored
  refine ⟨hd, ?_⟩
  rw [hd, hholds, Except.ok.injEq]
  exact Logic.keptAs_iff hvalue hholds

/-- A number keeps its truth. -/
theorem holds_assigned_five :
    let e := Engine.built .soft (.working none)
    let five := Logic.arith (.number ⟨['5'], none⟩)
    e.holds five.toNode = .ok true ∧
      ((perform 1 (Stmt.assign "t" (.logic five)).toNode).runOn e).2.holds (Node.identifier "t") =
        .ok true := by
  intro e five
  have hstore : e.store = some [] :=
    Engine.read_of_silent Engine.store (fun _ => rfl) (Engine.silent_built_working .soft none)
  have hholds : e.holds five.toNode = .ok true := Engine.holds_number e _
  have hvalue : e.valueOf five.toNode (.int 0) = .ok (.int 5) := Engine.valueOf_number e _ _
  exact ⟨hholds, (holds_assigned 0 five "t" hstore hvalue hholds).1⟩

/-- A comparison that holds does not once it has been stored. -/
theorem not_holds_assigned_comparison :
    let e := Engine.built .soft (.working none)
    let one := Arith.number ⟨['1'], none⟩
    e.holds (Logic.compare .eq one one).toNode = .ok true ∧
      ((perform 1 (Stmt.assign "t" (.logic (.compare .eq one one))).toNode).runOn e).2.holds
        (Node.identifier "t") = .ok false := by
  intro e one
  have hstore : e.store = some [] :=
    Engine.read_of_silent Engine.store (fun _ => rfl) (Engine.silent_built_working .soft none)
  have hone : e.valueOf one.toNode (.int 0) = .ok (.int 1) := Engine.valueOf_number e _ _
  have hholds : e.holds (Logic.compare .eq one one).toNode = .ok true := by
    rw [Engine.holds_compare, hone]
    rfl
  have hvalue : e.valueOf (Expr.logic (.compare .eq one one)).toNode (.int 0) = .ok (.int 0) := by
    rw [Expr.toNode, Logic.toNode, Engine.valueOf]
    rfl
  exact ⟨hholds, holds_of_assign 0 hstore "t" hvalue⟩

end Perform
end TuneScript
