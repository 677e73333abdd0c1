import TuneScript.Proofs.Branches
import TuneScript.Proofs.Histories
import TuneScript.Proofs.Quotients

/-!
What the expressions of programs come to. A variable holds a number or a function, and so does
every value that is computed from variables; what can go wrong on the way is ordinary, that is, a
matter of the kinds, the values or the sizes of the numbers.
-/

namespace TuneScript

/-- Failures of a wrong kind of operand, of a wrong value or of a number that is too large. -/
def Failure.Ordinary (f : Failure) : Prop :=
  f.family = .type ∨ f.family = .value ∨ f.family = .overflow

/-- An answer as expected, or an ordinary failure. -/
def Result.Good {α : Type} (Q : α → Prop) : Result α → Prop
  | .ok a => Q a
  | .error f => f.Ordinary

namespace Result.Good

variable {α β : Type} {Q : α → Prop} {R : β → Prop}

theorem bind {r : Result α} {f : α → Result β} (hr : r.Good Q) (hf : ∀ a, Q a → (f a).Good R) :
    (r >>= f).Good R := by
  cases r with
  | ok a => exact hf a hr
  | error failure => exact hr

theorem map {r : Result α} {f : α → β} (hr : r.Good Q) (hf : ∀ a, Q a → R (f a)) :
    Result.Good R (r.map f) := by
  cases r with
  | ok a => exact hf a hr
  | error failure => exact hr

theorem of_error {r : Result α} (hok : ∀ a, r = .ok a → Q a)
    (herror : ∀ f, r = .error f → f.Ordinary) : r.Good Q := by
  cases r with
  | ok a => exact hok a rfl
  | error f => exact herror f rfl

end Result.Good

theorem Number.div_ok {m n k : Number} (h : m.div n = .ok k) : ∃ x, k = .float x := by
  unfold div at h
  split at h
  · split at h
    · cases h
    · dsimp only at h
      split at h
      · cases h
      · cases h
        exact ⟨_, rfl⟩
  · obtain ⟨x, -, h⟩ := Result.bind_eq_ok.1 h
    obtain ⟨y, -, h⟩ := Result.bind_eq_ok.1 h
    split at h
    · cases h
    · cases h
      exact ⟨_, rfl⟩

namespace Value

theorem intText_good (n : Int) : (intText n).Good fun _ => True := by
  unfold intText
  split
  · exact .inr (.inl rfl)
  · trivial

mutual

/-- A text fails only for a whole number that is too long. -/
theorem literal_good (v : Value) : v.literal.Good fun _ => True := by
  cases v with
  | null | bool _ | float _ | nan _ | text _ => trivial
  | int n => exact intText_good n
  | list items => exact (literalItems_good items).bind fun _ _ => trivial
  | record fields => exact (literalFields_good fields).bind fun _ _ => trivial

theorem literalItems_good (items : List Value) : (literalItems items).Good fun _ => True := by
  cases items with
  | nil => trivial
  | cons v rest =>
      exact (literal_good v).bind fun _ _ => (literalItems_good rest).bind fun _ _ => trivial

theorem literalFields_good (fields : List (String × Value)) :
    (literalFields fields).Good fun _ => True := by
  cases fields with
  | nil => trivial
  | cons field rest =>
      obtain ⟨key, v⟩ := field
      exact (literal_good v).bind fun _ _ => (literalFields_good rest).bind fun _ _ => trivial

end

theorem display_good (v : Value) : v.display.Good fun _ => True := by
  cases v with
  | text s => trivial
  | _ => exact literal_good _

theorem toInt_good {v : Value} {n : Number} (h : v.number? = some n) :
    v.toInt.Good fun _ => True := by
  have hint : v.toInt = n.toInt := by
    cases v with
    | bool _ | int _ | float _ | nan _ =>
        cases h
        rfl
    | _ => cases h
  rw [hint]
  cases n with
  | int n => trivial
  | float x =>
      rw [Number.toInt]
      cases Binary.ofFloat x with
      | nan => exact .inr (.inl rfl)
      | infinite _ => exact .inr (.inr rfl)
      | finite _ _ _ => trivial

theorem tenths_of_number? {v : Value} {n : Number} (h : v.number? = some n) :
    v.tenths = n.toFloat.map FloatText.tenths := by
  cases v with
  | bool _ | int _ | float _ | nan _ =>
      cases h
      rfl
  | _ => cases h

theorem tenths_good {v : Value} {n : Number} (h : v.number? = some n) :
    v.tenths.Good fun _ => True := by
  rw [tenths_of_number? h]
  refine .of_error (fun _ _ => trivial) fun f h => ?_
  rw [Number.toFloat_error (Result.map_eq_error h)]
  exact .inr (.inr rfl)

theorem joinFrom_texts (i : Nat) (names : List String) :
    joinFrom i (names.map .text) = .ok names := by
  induction names generalizing i with
  | nil => rfl
  | cons name names ih =>
      rw [List.map_cons, joinFrom, ih]
      rfl

theorem join_texts (separator : String) (names : List String) :
    join separator (.list (names.map .text)) = .ok (separator.intercalate names) := by
  change Except.map separator.intercalate (joinFrom 0 (names.map .text)) = _
  rw [joinFrom_texts]
  rfl

theorem refusal?_ordinary {duration : Value} {f : Failure} (h : duration.refusal? = some f) :
    f.Ordinary := by
  unfold refusal? at h
  split at h
  · cases h
    exact .inl rfl
  · split at h
    · cases h
      exact .inr (.inl rfl)
    · split at h
      · cases h
        exact .inr (.inr rfl)
      · split at h
        · cases h
          exact .inr (.inl rfl)
        · cases h
  · split at h
    · cases h
      exact .inr (.inr rfl)
    · split at h
      · cases h
        exact .inr (.inl rfl)
      · cases h

theorem clampVolume_good (v : Value) : (Perform.clampVolume v).Good fun _ => True := by
  have hrelated (r : Relation) (x : Value) : (related r v x).Good fun _ => True :=
    .of_error (fun _ _ => trivial) fun f h => .inl (related_error r v x h)
  refine (hrelated .lt (.float 1.0)).bind fun below _ => ?_
  cases below with
  | false => trivial
  | true =>
      refine (hrelated .gt (.float 0.0)).bind fun above _ => ?_
      cases above with
      | false => trivial
      | true => cases v <;> trivial

theorem onNumbers_ok {op : Number → Number → Result Number} {symbol : String} {a b v : Value}
    (h : onNumbers op symbol a b = .ok v) : ∃ n : Number, v = n.toValue := by
  unfold onNumbers at h
  split at h
  · next m n _ _ =>
    cases hop : op m n with
    | ok k =>
        rw [hop] at h
        cases h
        exact ⟨k, rfl⟩
    | error f =>
        rw [hop] at h
        cases h
  · cases h

/-- The quotient of two numbers is a float. -/
theorem div_ok {a b v : Value} (h : a.div b = .ok v) : ∃ x, v = .float x := by
  unfold div onNumbers at h
  split at h
  · next m n _ _ =>
    cases hdiv : m.div n with
    | ok k =>
        rw [hdiv] at h
        cases h
        obtain ⟨x, rfl⟩ := Number.div_ok hdiv
        exact ⟨x, rfl⟩
    | error f =>
        rw [hdiv] at h
        cases h
  · cases h

end Value

namespace Stmt

/-- All statements of a list, at any depth, have a property. -/
def Throughout (P : Stmt → Prop) (body : List Stmt) : Prop := ∀ s, s.Within body → P s

/-- A statement and all statements in it have a property. -/
structure Wholly (P : Stmt → Prop) (s : Stmt) : Prop where
  self : P s
  bodies : ∀ body ∈ s.bodies, Throughout P body

theorem Throughout.wholly {P : Stmt → Prop} {body : List Stmt} (h : Throughout P body) {s : Stmt}
    (hs : s ∈ body) : s.Wholly P :=
  ⟨h s (.here hs), fun _ hinner t ht => h t (.inside hs hinner ht)⟩

theorem throughout_iff {P : Stmt → Prop} {body : List Stmt} :
    Throughout P body ↔ ∀ s ∈ body, s.Wholly P := by
  refine ⟨fun h _ => h.wholly, fun h s hs => ?_⟩
  cases hs with
  | here hmem => exact (h s hmem).self
  | inside ht hinner hs => exact (h _ ht).bodies _ hinner s hs

theorem sizeOf_lt_of_bodies {s : Stmt} {body : List Stmt} (hbody : body ∈ s.bodies) :
    sizeOf body < sizeOf s := by
  cases s with
  | loop _ _ | whileLoop _ _ | forLoop _ _ _ _ | define _ _ _ =>
      cases List.mem_singleton.1 hbody
      simp only [loop.sizeOf_spec, whileLoop.sizeOf_spec, forLoop.sizeOf_spec, define.sizeOf_spec]
      omega
  | branch condition first alternatives otherwise =>
      simp only [branch.sizeOf_spec]
      rcases List.mem_cons.1 hbody with rfl | hbody
      · omega
      · rcases List.mem_append.1 hbody with hbody | hbody
        · obtain ⟨alternative, halternative, rfl⟩ := List.mem_map.1 hbody
          have hsize := List.sizeOf_lt_of_mem halternative
          have hpair : sizeOf alternative.2 < sizeOf alternative := by
            cases alternative
            simp only [Prod.mk.sizeOf_spec]
            omega
          omega
        · cases Option.mem_toList.1 hbody
          simp only [Option.some.sizeOf_spec]
          omega
  | _ => cases hbody

theorem inner_mem_bodies (s : Stmt) : s.inner = [] ∨ s.inner ∈ s.bodies := by
  cases s with
  | loop _ _ | whileLoop _ _ | forLoop _ _ _ _ | define _ _ _ => exact .inr List.mem_cons_self
  | _ => exact .inl rfl

end Stmt

/-- What is run of a program stands in it. -/
theorem Program.throughout_executed {P : Stmt → Prop} {p : Program} (h : Stmt.Throughout P p) :
    Stmt.Throughout P p.executed := by
  match p with
  | [] | _ :: _ :: _ => exact h
  | [s] =>
      intro t ht
      rcases s.inner_mem_bodies with hnone | hinner
      · rw [executed, hnone] at ht
        cases ht with
        | here hmem | inside hmem _ _ => cases hmem
      · exact h t (.inside List.mem_cons_self hinner ht)

/-- What a variable can hold: a number, or a function whose statements have a property. -/
inductive Stored (P : Stmt → Prop) : Value → Prop where
  | int (n : Int) : Stored P (.int n)
  | float (x : Float) : Stored P (.float x)
  | function (parameters : Value) {body : List Stmt} (h : Stmt.Throughout P body) :
      Stored P (Perform.functionValue parameters (.list (Stmt.toNodes body)))

namespace Stored

variable {P : Stmt → Prop} {v : Value}

theorem ofNumber (n : Number) : Stored P n.toValue := by
  cases n with
  | int n => exact .int n
  | float x => exact .float x

theorem isSequence (h : Stored P v) : v.isSequence = false := by
  cases h <;> rfl

theorem tenths_good (h : Stored P v) : v.tenths.Good fun _ => True := by
  cases h with
  | int n => exact Value.tenths_good rfl
  | float x => exact Value.tenths_good rfl
  | function _ _ => exact .inl rfl

/-- An operation gives a number, unless it is a quotient that leaves its dividend as it is. -/
theorem operate_ok {o : Operator} {a b : Value} (ha : Stored P a) (hb : Stored P b)
    (h : Engine.operate o a b = .ok v) : (∃ n : Number, v = n.toValue) ∨ o = .div ∧ v = a := by
  cases o with
  | add =>
      have hadd : a.add b = Value.onNumbers Number.add Operator.add.symbol a b := by
        cases ha <;> rfl
      exact .inl (Value.onNumbers_ok (hadd.symm.trans h))
  | sub => exact .inl (Value.onNumbers_ok h)
  | mul =>
      change a.mul b = .ok v at h
      rw [Value.mul, ha.isSequence, hb.isSequence] at h
      exact .inl (Value.onNumbers_ok h)
  | div =>
      simp only [Engine.operate] at h
      split at h
      · cases h
        exact .inr ⟨rfl, rfl⟩
      · exact .inl (Value.onNumbers_ok h)

theorem operate_good (o : Operator) {a b : Value} (ha : Stored P a) (hb : Stored P b) :
    (Engine.operate o a b).Good (Stored P) := by
  refine .of_error (fun v h => ?_) fun f h => ?_
  · rcases operate_ok ha hb h with ⟨n, rfl⟩ | ⟨-, rfl⟩
    · exact ofNumber n
    · exact ha
  · rcases Engine.operate_error h with h | h | ⟨-, hsequence | hsequence⟩
    · exact .inl h
    · exact .inr (.inr h)
    · rw [ha.isSequence] at hsequence
      cases hsequence
    · rw [hb.isSequence] at hsequence
      cases hsequence

end Stored

theorem Numeral.value_number? (n : Numeral) : ∃ m, n.value.number? = some m := by
  unfold value
  split
  · exact ⟨_, rfl⟩
  · exact ⟨_, rfl⟩

theorem Numeral.stored {P : Stmt → Prop} (n : Numeral) : Stored P n.value := by
  unfold value
  split
  · exact .int _
  · exact .float _

namespace Engine

theorem valueOf_number (e : Engine) (v default : Value) :
    e.valueOf (Node.number v) default = .ok v := by
  rw [valueOf]
  rfl

theorem valueOf_identifier (e : Engine) (x : String) (default : Value) :
    e.valueOf (Node.identifier x) default = e.lookup (.text x) default := by
  rw [valueOf]
  rfl

theorem valueOf_binary (e : Engine) (o : Operator) (l r : Arith) (default : Value) :
    e.valueOf (Arith.binary o l r).toNode default = (do
      let left ← e.valueOf l.toNode (.int 0)
      let right ← e.valueOf r.toNode (.int 0)
      operate o left right) := by
  rw [valueOf_binop e rfl]
  cases o <;> rfl

theorem holds_compare (e : Engine) (r : Relation) (a b : Arith) :
    e.holds (Logic.compare r a b).toNode = (do
      let left ← e.valueOf a.toNode (.int 0)
      let right ← e.valueOf b.toNode (.int 0)
      left.compare r right) := by
  rw [Logic.toNode, holds]
  cases r <;> rfl

section Variables

variable {P : Stmt → Prop} {e : Engine} {table : Table Value} (hstore : e.store = some table)
  (hstored : ∀ entry ∈ table, Stored P entry.2)

include hstore hstored

theorem lookup_good (x : String) {default : Value} (hd : Stored P default) :
    (e.lookup (.text x) default).Good (Stored P) := by
  rw [lookup, hstore]
  change Stored P ((table.find? (.text x)).getD default)
  cases h : table.find? (.text x) with
  | none => exact hd
  | some v =>
      obtain ⟨k, hk⟩ := Table.mem_of_find? h
      exact hstored _ hk

/-- Arithmetic on what variables hold gives what variables can hold. -/
theorem valueOf_arith_good (a : Arith) {default : Value} (hd : Stored P default) :
    (e.valueOf a.toNode default).Good (Stored P) := by
  induction a generalizing default with
  | number n =>
      rw [Arith.toNode, Numeral.toNode, valueOf_number]
      exact n.stored
  | name x =>
      rw [Arith.toNode, valueOf_identifier]
      exact lookup_good hstore hstored x hd
  | binary o l r ihl ihr =>
      rw [valueOf_binary]
      exact (ihl (.int 0)).bind fun left hleft => (ihr (.int 0)).bind fun right hright =>
        Stored.operate_good o hleft hright

/-- Comparisons, connectives and chords have no value of their own. -/
theorem valueOf_good (x : Expr) {default : Value} (hd : Stored P default) :
    (e.valueOf x.toNode default).Good (Stored P) := by
  cases x with
  | chord notes =>
      rw [Expr.toNode, valueOf]
      exact hd
  | logic l =>
      cases l with
      | arith a => exact valueOf_arith_good hstore hstored a hd
      | compare _ _ _ | negation _ | connect _ _ _ =>
          rw [Expr.toNode, Logic.toNode, valueOf]
          exact hd

theorem holds_good (l : Logic) : (e.holds l.toNode).Good fun _ => True := by
  induction l with
  | arith a =>
      cases a with
      | number n =>
          rw [Logic.toNode, Arith.toNode, holds]
          trivial
      | name x =>
          rw [Logic.toNode, Arith.toNode, holds]
          exact (lookup_good hstore hstored x (.int 0)).bind fun _ _ => trivial
      | binary o l r =>
          rw [Logic.toNode, Arith.toNode, holds]
          trivial
  | compare r a b =>
      rw [holds_compare]
      exact (valueOf_arith_good hstore hstored a (.int 0)).bind fun _ _ =>
        (valueOf_arith_good hstore hstored b (.int 0)).bind fun _ _ =>
          .of_error (fun _ _ => trivial) fun f h => .inl (Value.compare_error h)
  | negation l ih =>
      rw [Logic.toNode, holds_unary e rfl]
      exact Result.Good.bind ih fun _ _ => trivial
  | connect c l r ihl ihr =>
      rw [Logic.toNode, holds_logical e rfl]
      refine Result.Good.bind ihl fun _ _ => Result.Good.bind ihr fun _ _ => ?_
      cases c <;> trivial

end Variables

end Engine
end TuneScript
