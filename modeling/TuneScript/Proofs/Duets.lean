import TuneScript.Proofs.Calls
import TuneScript.Proofs.Chords
import TuneScript.Proofs.Respelling

/-!
Two performances side by side, of one program that each performer spells in a way of their own.
The performers are in accord as long as their engines hold the same numbers, functions of the same
definitions, and the same in all that decides how a note sounds. Only the names of notes may differ,
and what is made of them. An action of the one goes together with an action of the other if both
come to the same end and leave the performers in accord.
-/

namespace TuneScript

/-- The same end of two computations: answers that belong together, or the same failure. -/
inductive Result.Both {α β : Type} (Q : α → β → Prop) : Result α → Result β → Prop where
  | ok {a : α} {b : β} (h : Q a b) : Both Q (.ok a) (.ok b)
  | error (f : Failure) : Both Q (.error f) (.error f)

namespace Result.Both

variable {α β γ δ : Type} {Q : α → β → Prop} {R : γ → δ → Prop}

theorem refl (r : Result α) : Both (· = ·) r r := by
  cases r with
  | ok a => exact .ok rfl
  | error f => exact .error f

theorem mono {r : Result α} {s : Result β} {Q' : α → β → Prop} (h : Both Q r s)
    (hQ : ∀ a b, Q a b → Q' a b) : Both Q' r s := by
  cases h with
  | ok h => exact .ok (hQ _ _ h)
  | error f => exact .error f

/-- Of each answer it can be said where it comes from. -/
theorem answers {r : Result α} {s : Result β} (h : Both Q r s) :
    Both (fun a b => r = .ok a ∧ s = .ok b) r s := by
  cases h with
  | ok h => exact .ok ⟨rfl, rfl⟩
  | error f => exact .error f

theorem bind {r : Result α} {s : Result β} {f : α → Result γ} {g : β → Result δ} (h : Both Q r s)
    (hf : ∀ a b, Q a b → Both R (f a) (g b)) : Both R (r >>= f) (s >>= g) := by
  cases h with
  | ok h => exact hf _ _ h
  | error f => exact .error f

end Result.Both

namespace Value

mutual

/-- The whole numbers in a value, in their order. -/
def wholes : Value → List Int
  | int n => [n]
  | list items => wholesOfItems items
  | record fields => wholesOfFields fields
  | _ => []

def wholesOfItems : List Value → List Int
  | [] => []
  | v :: rest => wholes v ++ wholesOfItems rest

def wholesOfFields : List (String × Value) → List Int
  | [] => []
  | (_, v) :: rest => wholes v ++ wholesOfFields rest

end

theorem wholesOfItems_eq (items : List Value) : wholesOfItems items = items.flatMap wholes := by
  induction items with
  | nil => rfl
  | cons v rest ih => rw [wholesOfItems, ih, List.flatMap_cons]

/-- Whether numbers can all be written. -/
def written (ns : List Int) : Result Unit := ns.forM fun n => (intText n).map fun _ => ()

theorem written_append (ms ns : List Int) :
    written (ms ++ ns) = (written ms >>= fun _ => written ns) :=
  List.forM_append

theorem bind_written {α β : Type} {r : Result α} {f : α → Result β} {ms ns : List Int}
    (hr : r.map (fun _ => ()) = written ms) (hf : ∀ a, (f a).map (fun _ => ()) = written ns) :
    (r >>= f).map (fun _ => ()) = written (ms ++ ns) := by
  rw [written_append, ← hr]
  cases r with
  | ok a => exact hf a
  | error failure => rfl

theorem map_written {α β : Type} {r : Result α} {ms : List Int}
    (hr : r.map (fun _ => ()) = written ms) (f : α → β) :
    (r >>= fun a => .ok (f a)).map (fun _ => ()) = written ms := by
  rw [← hr]
  cases r <;> rfl

mutual

/-- The text of a value is a matter of its whole numbers: all other parts can be written. -/
theorem literal_written (v : Value) : v.literal.map (fun _ => ()) = written v.wholes := by
  cases v with
  | null | bool _ | float _ | nan _ | text _ => rfl
  | int n =>
      change (intText n).map (fun _ => ()) = ((intText n).map (fun _ => ()) >>= fun _ => .ok ())
      cases intText n <;> rfl
  | list items => exact map_written (literalItems_written items) _
  | record fields => exact map_written (literalFields_written fields) _

theorem literalItems_written (items : List Value) :
    (literalItems items).map (fun _ => ()) = written (wholesOfItems items) := by
  cases items with
  | nil => rfl
  | cons v rest =>
      exact bind_written (literal_written v) fun head =>
        map_written (literalItems_written rest) (head :: ·)

theorem literalFields_written (fields : List (String × Value)) :
    (literalFields fields).map (fun _ => ()) = written (wholesOfFields fields) := by
  cases fields with
  | nil => rfl
  | cons field rest =>
      obtain ⟨key, v⟩ := field
      exact bind_written (literal_written v) fun head =>
        map_written (literalFields_written rest) ((Text.quoted key ++ ": " ++ head) :: ·)

end

theorem literal_both {v w : Value} (h : v.wholes = w.wholes) :
    Result.Both (fun _ _ => True) v.literal w.literal := by
  have hsame : v.literal.map (fun _ => ()) = w.literal.map (fun _ => ()) := by
    rw [literal_written, literal_written, h]
  cases hv : v.literal with
  | ok s =>
      cases hw : w.literal with
      | ok t => exact .ok trivial
      | error f =>
          rw [hv, hw] at hsame
          cases hsame
  | error f =>
      cases hw : w.literal with
      | ok t =>
          rw [hv, hw] at hsame
          cases hsame
      | error g =>
          rw [hv, hw] at hsame
          cases hsame
          exact .error f

end Value

theorem Notes.wholes_toNode (notes : Notes) : notes.toNode.wholes = [] := by
  rw [toNode, Value.wholes, Value.wholesOfItems_eq, List.flatMap_map, List.flatMap_eq_nil_iff]
  exact fun _ _ => rfl

theorem Notes.elements_respell (f : String → String) (notes : Notes) :
    (notes.respell f).toNode.elements =
      .ok (notes.toList.map fun name => Node.noteLiteral (f name)) := by
  simp [respell, toNode, toList, Value.elements]

theorem Expr.wholes_respell (f : String → String) (e : Expr) :
    (e.respell f).toNode.wholes = e.toNode.wholes := by
  cases e with
  | logic l => rfl
  | chord notes =>
      simp [respell, toNode, Node.chordLiteral, Node.node, Value.wholes, Value.wholesOfFields,
        Notes.wholes_toNode]

namespace Stmt

theorem wholesOfItems_toNodes {f : String → String} {body : List Stmt}
    (h : ∀ s ∈ body, (s.respell f).toNode.wholes = s.toNode.wholes) :
    Value.wholesOfItems (toNodes (body.map (respell f))) = Value.wholesOfItems (toNodes body) := by
  rw [Value.wholesOfItems_eq, Value.wholesOfItems_eq, toNodes_eq_map, toNodes_eq_map,
    List.flatMap_map, List.flatMap_map, List.flatMap_map]
  exact List.flatMap_congr h

/-- Respelling changes texts alone, so the numbers stay. -/
theorem wholes_respell (f : String → String) (s : Stmt) :
    (s.respell f).toNode.wholes = s.toNode.wholes := by
  have ih (body : List Stmt) (hbody : body ∈ s.bodies) :
      Value.wholesOfItems (toNodes (body.map (respell f))) = Value.wholesOfItems (toNodes body) :=
    wholesOfItems_toNodes fun t ht => wholes_respell f t
  cases s with
  | note pitch duration =>
      cases pitch <;>
        simp [respell, Pitch.respell, toNode, Pitch.toNode, Node.note, Node.noteLiteral,
          Node.noteArray, Node.node, Value.wholes, Value.wholesOfFields, Notes.wholes_toNode]
  | chord notes duration =>
      simp [respell, toNode, Node.chord, Node.chordLiteral, Node.node, Value.wholes,
        Value.wholesOfFields, Notes.wholes_toNode]
  | rest length =>
      simp [respell, toNode, Node.rest, Node.node, Value.wholes, Value.wholesOfFields,
        Expr.wholes_respell]
  | tempo _ | volume _ | instrument _ => rfl
  | loop count body =>
      simp [respell, toNode, Node.loop, Node.node, Value.wholes, Value.wholesOfFields,
        ih body List.mem_cons_self]
  | whileLoop condition body =>
      simp [respell, toNode, Node.whileLoop, Node.node, Value.wholes, Value.wholesOfFields,
        ih body List.mem_cons_self]
  | forLoop counter start stop body =>
      simp [respell, toNode, Node.forLoop, Node.node, Value.wholes, Value.wholesOfFields,
        ih body List.mem_cons_self]
  | define name parameters body =>
      simp [respell, toNode, Node.functionDef, Node.node, Value.wholes, Value.wholesOfFields,
        ih body List.mem_cons_self]
  | branch condition body alternatives otherwise =>
      have halternatives : ∀ alternative ∈ alternatives,
          Value.wholesOfItems (toNodes (alternative.2.map (respell f))) =
            Value.wholesOfItems (toNodes alternative.2) := fun alternative h =>
        ih _ (List.mem_cons_of_mem _ (List.mem_append_left _ (List.mem_map_of_mem h)))
      have hotherwise : Value.wholesOfItems (toNodes ((otherwise.map (List.map (respell f))).getD
          [])) = Value.wholesOfItems (toNodes (otherwise.getD [])) := by
        cases otherwise with
        | none => rfl
        | some body => exact ih body (by simp [bodies])
      rw [respell, toNode_branch, toNode_branch]
      simp only [conditional, Node.node, Value.wholes, Value.wholesOfFields, Value.wholesOfItems_eq,
        respellAlternatives_eq_map, respellOtherwise_eq_map, List.flatMap_map] at hotherwise ⊢
      rw [hotherwise]
      congr 4
      refine List.flatMap_congr fun alternative h => ?_
      simp [Node.elseifClause, Node.node, Value.wholes, Value.wholesOfFields,
        halternatives alternative h]
  | call name arguments =>
      simp [respell, toNode, Node.call, Node.node, Value.wholes, Value.wholesOfFields,
        Value.wholesOfItems_eq, List.flatMap_map, Expr.wholes_respell]
  | assign name value =>
      simp [respell, toNode, Node.assign, Node.node, Value.wholes, Value.wholesOfFields,
        Expr.wholes_respell]
  | eval e => exact e.wholes_respell f
termination_by sizeOf s
decreasing_by
  have hbody := sizeOf_lt_of_bodies hbody
  have ht := List.sizeOf_lt_of_mem ht
  omega

end Stmt

/-- Two performers of one program. Each spells its notes in a way of their own. Of what they do
something is heard, but neither what they print nor how long they wait, and what has been heard of
the one agrees with what has been heard of the other. The functions of the program that the one can
tell apart are those that the other can. -/
structure Duet where
  Part : Stmt → Prop
  left : String → String
  right : String → String
  Heard : Type
  view : Effect → Option Heard
  Agree : List Heard → List Heard → Prop
  view_text : ∀ s, view (.text s) = none
  view_sleep : ∀ n : Number, view (.sleep n.toValue) = none
  discerns : ∀ {name xs body name' xs' body'}, Part (.define name xs body) →
    Part (.define name' xs' body') →
    (Stmt.functionOf xs (body.map (.respell left))).equal
        (Stmt.functionOf xs' (body'.map (.respell left))) =
      (Stmt.functionOf xs (body.map (.respell right))).equal
        (Stmt.functionOf xs' (body'.map (.respell right)))

namespace Duet

variable {D : Duet}

/-- What the two hold in one and the same place: one number, or one function as each spells it. -/
inductive Kin (D : Duet) : Value → Value → Prop where
  | int (n : Int) : Kin D (.int n) (.int n)
  | float (x : Float) : Kin D (.float x) (.float x)
  | function {name : String} (xs : List String) {body : List Stmt}
      (h : (Stmt.define name xs body).Wholly D.Part) :
      Kin D (Stmt.functionOf xs (body.map (.respell D.left)))
        (Stmt.functionOf xs (body.map (.respell D.right)))

namespace Kin

variable {v w v' w' : Value}

theorem ofNumber (n : Number) : D.Kin n.toValue n.toValue := by
  cases n with
  | int n => exact .int n
  | float x => exact .float x

theorem ofNumeral (n : Numeral) : D.Kin n.value n.value := by
  unfold Numeral.value
  split
  · exact .int _
  · exact .float _

theorem number? (h : D.Kin v w) : w.number? = v.number? := by
  cases h <;> rfl

theorem kind (h : D.Kin v w) : w.kind = v.kind := by
  cases h <;> rfl

theorem equal (h : D.Kin v w) (h' : D.Kin v' w') : w.equal w' = v.equal v' := by
  cases h with
  | int n => cases h' <;> rfl
  | float x => cases h' <;> rfl
  | function xs h =>
      cases h' with
      | int n => rfl
      | float x => rfl
      | function xs' h' => exact (D.discerns h.self h'.self).symm

theorem related (r : Relation) (h : D.Kin v w) (h' : D.Kin v' w') :
    Value.related r w w' = Value.related r v v' := by
  cases h <;> cases h' <;> rfl

theorem compare (r : Relation) (h : D.Kin v w) (h' : D.Kin v' w') :
    Value.compare r w w' = Value.compare r v v' := by
  cases r <;> simp [Value.compare, h.equal h', h.related _ h']

theorem clampVolume (h : D.Kin v w) : Perform.clampVolume w = Perform.clampVolume v := by
  cases h <;> rfl

theorem display (h : D.Kin v w) : Result.Both (fun _ _ => True) v.display w.display := by
  cases h with
  | int n => exact (Result.Both.refl _).mono fun _ _ _ => trivial
  | float x => exact .ok trivial
  | @function name xs body h =>
      refine Value.literal_both ?_
      have hbody (f : String → String) :
          Value.wholesOfItems (Stmt.toNodes (body.map (Stmt.respell f))) =
            Value.wholesOfItems (Stmt.toNodes body) :=
        Stmt.wholesOfItems_toNodes fun s _ => s.wholes_respell f
      simp [Stmt.functionOf, Perform.functionValue, Value.wholes, Value.wholesOfFields, hbody]

theorem onNumbers (op : Number → Number → Result Number) (symbol : String) (h : D.Kin v w)
    (h' : D.Kin v' w') : Result.Both D.Kin (Value.onNumbers op symbol v v')
      (Value.onNumbers op symbol w w') := by
  rw [Value.onNumbers, Value.onNumbers, h.number?, h'.number?, h.kind, h'.kind]
  split
  · next m n _ _ =>
    cases op m n with
    | ok k => exact .ok (ofNumber k)
    | error f => exact .error f
  · exact .error _

theorem operate (o : Operator) (h : D.Kin v w) (h' : D.Kin v' w') :
    Result.Both D.Kin (Engine.operate o v v') (Engine.operate o w w') := by
  cases o with
  | add =>
      have hadd := h.onNumbers Number.add Operator.add.symbol h'
      cases h <;> exact hadd
  | sub => exact h.onNumbers _ _ h'
  | mul =>
      have hmul := h.onNumbers Number.mul Operator.mul.symbol h'
      cases h <;> cases h' <;> exact hmul
  | div =>
      simp only [Engine.operate, h'.equal (.int 0)]
      split
      · exact .ok h
      · exact h.onNumbers _ _ h'

end Kin

/-- Engines of the two that are at the same point of the program. -/
structure Accord (D : Duet) (a b : Engine) : Prop where
  setup : b.setup = a.setup
  tempo : Option.Rel D.Kin a.tempo b.tempo
  store : Option.Rel (List.Forall₂ fun x y => x.1 = y.1 ∧ D.Kin x.2 y.2) a.store b.store
  tracks : b.tracks.isSome = a.tracks.isSome
  heard : D.Agree (a.log.toList.filterMap D.view) (b.log.toList.filterMap D.view)

/-- Printed lines make no difference. -/
theorem Accord.of_silent {a b c d : Engine} (h : D.Accord a b) (hc : c.silent = a.silent)
    (hd : d.silent = b.silent) : D.Accord c d := by
  have hread {α : Type} (read : Engine → α) (hread : ∀ e : Engine, read e.silent = read e) :
      read c = read a ∧ read d = read b :=
    ⟨Engine.read_of_silent read hread hc, Engine.read_of_silent read hread hd⟩
  obtain ⟨htempo, htempo'⟩ := hread Engine.tempo fun _ => rfl
  obtain ⟨hstore, hstore'⟩ := hread Engine.store fun _ => rfl
  obtain ⟨htracks, htracks'⟩ := hread Engine.tracks fun _ => rfl
  obtain ⟨hheard, hheard'⟩ := hread (fun e => e.log.toList.filterMap D.view)
    (Engine.filterMap_silent D.view_text)
  refine ⟨?_, ?_, ?_, ?_, ?_⟩
  · rw [Engine.setup_of_silent hc, Engine.setup_of_silent hd, h.setup]
  · rw [htempo, htempo']
    exact h.tempo
  · rw [hstore, hstore']
    exact h.store
  · rw [htracks, htracks', h.tracks]
  · rw [hheard, hheard']
    exact h.heard

/-- Whatever one engine finds under a name, the other finds its kin there. -/
theorem find? {table table' : Table Value}
    (h : List.Forall₂ (fun x y => x.1 = y.1 ∧ D.Kin x.2 y.2) table table') (key : Value) :
    Option.Rel D.Kin (table.find? key) (table'.find? key) := by
  induction h with
  | nil => exact .none
  | @cons x y table table' hentry _ ih =>
      obtain ⟨k, v⟩ := x
      obtain ⟨k', w⟩ := y
      obtain ⟨rfl, hkin⟩ := hentry
      rw [Table.find?_cons, Table.find?_cons]
      split
      · exact .some hkin
      · exact ih

theorem getD {found found' : Option Value} (h : Option.Rel D.Kin found found')
    {default default' : Value} (hd : D.Kin default default') :
    D.Kin (found.getD default) (found'.getD default') := by
  cases h with
  | some h => exact h
  | none => exact hd

theorem insert {table table' : Table Value}
    (h : List.Forall₂ (fun x y => x.1 = y.1 ∧ D.Kin x.2 y.2) table table') (key : Value)
    {v w : Value} (hv : D.Kin v w) :
    List.Forall₂ (fun x y => x.1 = y.1 ∧ D.Kin x.2 y.2) (table.insert key v)
      (table'.insert key w) := by
  unfold Table.insert
  induction h with
  | nil => exact .cons ⟨rfl, hv⟩ .nil
  | @cons x y table table' hentry hrest ih =>
      obtain ⟨k, u⟩ := x
      obtain ⟨k', u'⟩ := y
      obtain ⟨rfl, hkin⟩ := hentry
      rw [Table.update, Table.update]
      split
      · exact .cons ⟨rfl, hv⟩ hrest
      · exact .cons ⟨rfl, hkin⟩ ih

section Values

variable {a b : Engine} (hab : D.Accord a b) {default default' : Value}
  (hd : D.Kin default default')

include hab

theorem missing (part : String) : b.missing part = a.missing part :=
  congrArg (fun s : Setup => Failure.noAttribute s.palette.engineName part) hab.setup

include hd

theorem lookup (x : String) :
    Result.Both D.Kin (a.lookup (.text x) default) (b.lookup (.text x) default') := by
  have hstore := hab.store
  rw [Engine.lookup, Engine.lookup, missing hab]
  revert hstore
  generalize a.store = store
  generalize b.store = store'
  intro hstore
  cases hstore with
  | none => exact .error _
  | some htable =>
      exact .ok (getD (find? htable (.text x)) hd)

theorem valueOf_arith (e : Arith) :
    Result.Both D.Kin (a.valueOf e.toNode default) (b.valueOf e.toNode default') := by
  induction e generalizing default default' with
  | number n =>
      rw [Arith.toNode, Numeral.toNode, Engine.valueOf_number, Engine.valueOf_number]
      exact .ok (.ofNumeral n)
  | name x =>
      rw [Arith.toNode, Engine.valueOf_identifier, Engine.valueOf_identifier]
      exact lookup hab hd x
  | binary o l r ihl ihr =>
      rw [Engine.valueOf_binary, Engine.valueOf_binary]
      exact (ihl (.int 0)).bind fun _ _ hleft => (ihr (.int 0)).bind fun _ _ hright =>
        hleft.operate o hright

/-- A chord has no value of its own, however its notes are spelt. -/
theorem valueOf (e : Expr) :
    Result.Both D.Kin (a.valueOf (e.respell D.left).toNode default)
      (b.valueOf (e.respell D.right).toNode default') := by
  cases e with
  | chord notes =>
      rw [Expr.respell, Expr.toNode, Engine.valueOf, Expr.respell, Expr.toNode, Engine.valueOf]
      exact .ok hd
  | logic l =>
      cases l with
      | arith e => exact valueOf_arith hab hd e
      | compare _ _ _ | negation _ | connect _ _ _ =>
          rw [Expr.respell, Expr.toNode, Logic.toNode, Engine.valueOf, Expr.respell, Expr.toNode,
            Logic.toNode, Engine.valueOf]
          exact .ok hd

omit hd

theorem holds (l : Logic) : Result.Both (· = ·) (a.holds l.toNode) (b.holds l.toNode) := by
  induction l with
  | arith e =>
      cases e with
      | name x =>
          rw [Logic.toNode, Arith.toNode, Engine.holds, Engine.holds]
          refine (lookup hab (.int 0) x).bind fun v w h => .ok ?_
          rw [h.equal (.int 0)]
      | number _ | binary _ _ _ =>
          rw [Logic.toNode, Arith.toNode, Engine.holds, Engine.holds]
          exact .ok rfl
  | compare r l m =>
      rw [Engine.holds_compare, Engine.holds_compare]
      refine (valueOf_arith hab (.int 0) l).bind fun _ _ hleft =>
        (valueOf_arith hab (.int 0) m).bind fun _ _ hright => ?_
      rw [hleft.compare r hright]
      exact .refl _
  | negation l ih =>
      rw [Logic.toNode, Engine.holds_unary a rfl, Engine.holds_unary b rfl]
      refine Result.Both.bind ih fun u v h => ?_
      rw [h]
      exact .refl _
  | connect c l m ihl ihm =>
      rw [Logic.toNode, Engine.holds_logical a rfl, Engine.holds_logical b rfl]
      refine Result.Both.bind ihl fun u v h => Result.Both.bind ihm fun u' v' h' => ?_
      rw [h, h']
      exact .refl _

end Values

/-- Two actions that come to the same end on engines in accord, and leave them in accord. -/
def Together (D : Duet) {α β : Type} (x : Perform α) (y : Perform β) (Q : α → β → Prop) : Prop :=
  ∀ a b, D.Accord a b → Result.Both Q (x.runOn a).1 (y.runOn b).1 ∧
    D.Accord (x.runOn a).2 (y.runOn b).2

namespace Together

variable {α β γ δ : Type} {Q : α → β → Prop} {R : γ → δ → Prop}

theorem mono {x : Perform α} {y : Perform β} {S : α → β → Prop} (h : D.Together x y Q)
    (hQ : ∀ v w, Q v w → S v w) : D.Together x y S :=
  fun a b hab => ⟨(h a b hab).1.mono hQ, (h a b hab).2⟩

theorem bind {x : Perform α} {y : Perform β} {f : α → Perform γ} {g : β → Perform δ}
    (hx : D.Together x y Q) (hf : ∀ v w, Q v w → D.Together (f v) (g w) R) :
    D.Together (x >>= f) (y >>= g) R := by
  intro a b hab
  obtain ⟨hboth, hcd⟩ := hx a b hab
  rw [Perform.runOn_bind, Perform.runOn_bind]
  revert hboth
  generalize (x.runOn a).1 = r
  generalize (y.runOn b).1 = s
  intro hboth
  cases hboth with
  | ok h => exact hf _ _ h _ _ hcd
  | error failure => exact ⟨.error failure, hcd⟩

theorem pure {v : α} {w : β} (h : Q v w) : D.Together (Pure.pure v) (Pure.pure w) Q :=
  fun _ _ hab => ⟨.ok h, hab⟩

theorem lift {r : Result α} {s : Result β} (h : Result.Both Q r s) :
    D.Together (Perform.lift r) (Perform.lift s) Q := by
  intro a b hab
  rw [Perform.runOn_lift, Perform.runOn_lift]
  exact ⟨h, hab⟩

theorem lift_bind {r : Result α} {s : Result β} {v : α} {w : β} {f : α → Perform γ}
    {g : β → Perform δ} (hr : r = .ok v) (hs : s = .ok w)
    (h : D.Together (f v) (g w) R) :
    D.Together (Perform.lift r >>= f) (Perform.lift s >>= g) R := by
  subst hr hs
  exact h

/-- Actions that only look at the setup. -/
theorem looks {x : Perform α} (hx : Perform.Looks x) : D.Together x x (· = ·) := by
  intro a b hab
  refine ⟨?_, hab.of_silent (hx.prints.silent a) (hx.prints.silent b)⟩
  rw [hx.same hab.setup]
  exact .refl _

theorem ask {f : Engine → Perform α} {g : Engine → Perform β}
    (h : ∀ a b, D.Accord a b → D.Together (f a) (g b) Q) :
    D.Together (get >>= f) (get >>= g) Q :=
  fun a b hab => h a b hab a b hab

theorem change {f g : Engine → Engine} (h : ∀ a b, D.Accord a b → D.Accord (f a) (g b)) :
    D.Together (modify f) (modify g) fun _ _ => True :=
  fun a b hab => ⟨.ok trivial, h a b hab⟩

theorem part (name : String) {read : Engine → Option α} {S : α → α → Prop}
    (h : ∀ a b, D.Accord a b → Option.Rel S (read a) (read b)) :
    D.Together (Perform.part name read) (Perform.part name read) S := by
  intro a b hab
  have hread := h a b hab
  rw [Perform.runOn_part, Perform.runOn_part, missing hab]
  revert hread
  generalize read a = v
  generalize read b = w
  intro hread
  cases hread with
  | some h => exact ⟨.ok h, hab⟩
  | none => exact ⟨.error _, hab⟩

/-- The two may print different texts. -/
theorem print (s t : String) :
    D.Together (Perform.print s) (Perform.print t) fun _ _ => True :=
  fun a b hab => ⟨.ok trivial,
    hab.of_silent (Engine.silent_push a (.text s)) (Engine.silent_push b (.text t))⟩

theorem say (s t : String) : D.Together (Perform.say s) (Perform.say t) fun _ _ => True :=
  print _ _

theorem shown {v w : Value} (h : D.Kin v w) :
    D.Together (Perform.shown v) (Perform.shown w) fun _ _ => True :=
  lift h.display

theorem valueOf (e : Expr) {default default' : Value} (hd : D.Kin default default') :
    D.Together (Perform.valueOf (e.respell D.left).toNode default)
      (Perform.valueOf (e.respell D.right).toNode default') D.Kin :=
  ask fun _ _ hab => lift (Duet.valueOf hab hd e)

theorem numeral (n : Numeral) (default : Value) :
    D.Together (Perform.valueOf n.toNode default) (Perform.valueOf n.toNode default)
      fun v w => v = n.value ∧ w = n.value := by
  refine ask fun a b _ => lift ?_
  rw [Numeral.toNode, Engine.valueOf_number, Engine.valueOf_number]
  exact .ok ⟨rfl, rfl⟩

theorem holds (l : Logic) :
    D.Together (Perform.holds l.toNode) (Perform.holds l.toNode) (· = ·) :=
  ask fun _ _ hab => lift (Duet.holds hab l)

theorem shownSame (v : Value) : D.Together (Perform.shown v) (Perform.shown v) fun _ _ => True :=
  (looks (.shown v)).mono fun _ _ _ => trivial

theorem describeNote (x y : String) (duration : Value) :
    D.Together (Perform.describeNote (.text x) duration) (Perform.describeNote (.text y) duration)
      fun _ _ => True := by
  refine bind (looks .instrument) fun v w hvw => ?_
  rw [hvw]
  refine bind (shownSame w) fun _ _ _ => lift_bind rfl rfl ?_
  exact bind (looks (.lift _)) fun _ _ _ => say _ _

theorem beat : D.Together Perform.beat Perform.beat (· = ·) := by
  refine bind (part _ fun _ _ hab => hab.tempo) fun v w h => lift ?_
  rw [Value.div, Value.onNumbers, Value.onNumbers, h.number?, h.kind]
  exact .refl _

theorem twoBeats : D.Together Perform.twoBeats Perform.twoBeats (· = ·) := by
  refine bind beat fun v w h => ?_
  rw [h]
  exact lift (.refl _)

theorem refLabel (viaRef : Bool) :
    D.Together (Perform.refLabel viaRef) (Perform.refLabel viaRef) fun _ _ => True :=
  ask fun _ _ _ => pure trivial

theorem setTempo (viaRef : Bool) {v w : Value} (h : D.Kin v w) :
    D.Together (Perform.setTempo viaRef v) (Perform.setTempo viaRef w) fun _ _ => True := by
  refine bind (change fun a b hab => { hab with tempo := .some h }) fun _ _ _ => ?_
  exact bind (refLabel viaRef) fun _ _ _ => bind (shown h) fun _ _ _ => say _ _

theorem setVolume (viaRef : Bool) {v w : Value} (h : D.Kin v w) :
    D.Together (Perform.setVolume viaRef v) (Perform.setVolume viaRef w) fun _ _ => True := by
  rw [Perform.setVolume, Perform.setVolume, h.clampVolume]
  refine bind (lift (.refl _)) fun x y hxy => ?_
  rw [hxy]
  refine bind (change fun a b hab => { hab with
    setup := congrArg (fun s : Setup => { s with volume := some y }) hab.setup }) fun _ _ _ => ?_
  exact bind (refLabel viaRef) fun _ _ _ => say _ _

/-- Both take the same instrument for a name. -/
theorem instrumentSet (v : Value) :
    D.Together (modify fun e => { e with instrument := some v })
      (modify fun e => { e with instrument := some v }) fun _ _ => True :=
  change fun _ _ hab => { hab with
    setup := congrArg (fun s : Setup => { s with instrument := some v }) hab.setup }

theorem setInstrument (viaRef : Bool) (name : Value) :
    D.Together (Perform.setInstrument viaRef name) (Perform.setInstrument viaRef name)
      fun _ _ => True := by
  refine ask fun a b hab => ?_
  have hpalette : b.palette = a.palette := congrArg Setup.palette hab.setup
  rw [hpalette]
  cases a.palette with
  | plain =>
      exact bind (instrumentSet name) fun _ _ _ => bind (shownSame name) fun _ _ _ => say _ _
  | soft =>
      refine bind (looks .synthesizer) fun s t hst => bind (looks (.lift _)) fun _ _ _ => ?_
      rw [hst]
      change D.Together (if Perform.knows t name = true then _ else _)
        (if Perform.knows t name = true then _ else _) _
      split
      · exact bind (instrumentSet name) fun _ _ _ => bind (shownSame name) fun _ _ _ => say _ _
      · exact bind (shownSame name) fun _ _ _ => bind (say _ _) fun _ _ _ => instrumentSet _

theorem setVariable (name : Value) {v w : Value} (h : D.Kin v w) :
    D.Together (Perform.setVariable name v) (Perform.setVariable name w) fun _ _ => True := by
  refine bind (part _ fun _ _ hab => hab.store) fun table table' htable => ?_
  refine bind (looks (.lift _)) fun _ _ _ => change fun a b hab => ?_
  exact { hab with store := .some (Duet.insert htable name h) }

theorem record (event event' : TrackEvent) :
    D.Together (Perform.record event) (Perform.record event') fun _ _ => True := by
  have htracks (a b : Engine) (hab : D.Accord a b) :
      Option.Rel (fun _ _ => True) a.tracks b.tracks := by
    have h := hab.tracks
    cases ha : a.tracks <;> cases hb : b.tracks <;> rw [ha, hb] at h <;> cases h
    · exact .none
    · exact .some trivial
  refine bind (part _ htracks) fun table table' _ => bind (looks .instrument) fun v w hvw => ?_
  rw [hvw]
  exact bind (looks (.lift _)) fun _ _ _ => change fun a b hab => { hab with tracks := rfl }

theorem sleep (n : Number) :
    D.Together (Perform.sleep n.toValue) (Perform.sleep n.toValue) fun _ _ => True := by
  intro a b hab
  rw [Perform.runOn_sleep, Perform.runOn_sleep]
  cases n.toValue.refusal? with
  | some f => exact ⟨.error f, hab⟩
  | none =>
      refine ⟨.ok trivial, { hab with heard := ?_ }⟩
      rw [Engine.filterMap_push, Engine.filterMap_push, D.view_sleep, Option.toList_none,
        List.append_nil, List.append_nil]
      exact hab.heard

/-- The same number of turns, each about what the two have in one place. -/
theorem forM {f : α → Perform PUnit} {g : β → Perform PUnit} {u : γ → α} {v : γ → β}
    {items : List γ} (h : ∀ x ∈ items, D.Together (f (u x)) (g (v x)) fun _ _ => True) :
    D.Together ((items.map u).forM f) ((items.map v).forM g) fun _ _ => True := by
  induction items with
  | nil => exact pure trivial
  | cons x items ih =>
      obtain ⟨hx, hitems⟩ := List.forall_mem_cons.1 h
      exact bind hx fun _ _ _ => ih hitems

theorem rounds {f g : Nat → Perform Unit} (h : ∀ i, D.Together (f i) (g i) fun _ _ => True)
    (i n : Nat) : D.Together (Perform.rounds f i n) (Perform.rounds g i n) fun _ _ => True := by
  induction n generalizing i with
  | zero => exact pure trivial
  | succ n ih => exact bind (h i) fun _ _ _ => ih (i + 1)

theorem roundsWhile {f g : Nat → Perform Unit} (h : ∀ i, D.Together (f i) (g i) fun _ _ => True)
    (l : Logic) (done n : Nat) :
    D.Together (Perform.roundsWhile l.toNode f done n) (Perform.roundsWhile l.toNode g done n)
      (· = ·) := by
  induction n generalizing done with
  | zero => exact bind (holds l) fun _ _ _ => pure rfl
  | succ n ih =>
      refine bind (holds l) fun go go' hgo => ?_
      rw [hgo]
      cases go' with
      | true => exact bind (h _) fun _ _ _ => ih (done + 1)
      | false => exact pure rfl

end Together
end Duet
end TuneScript
