import TuneScript.Proofs.Depths
import TuneScript.Proofs.Evaluations

/-!
What the run of a text leaves alone. A statement changes at most one cell of the engine: a variable,
or one of three settings. A run changes no cell but those that a statement of the text changes, or a
statement in a function that a variable held before; functions that are copied, joined to lists or
defined on the way bring nothing new. That holds of runs that fail as well.
-/

namespace TuneScript

/-- What a statement can change of an engine, besides what is played. -/
inductive Cell where
  | store (x : String)
  | tempo
  | volume
  | instrument
  deriving DecidableEq

/-- The setting that a call of the language's own changes. -/
def Cell.ofRefName? : String → Option Cell
  | "refTempo" => some .tempo
  | "refVolume" => some .volume
  | "refInst" => some .instrument
  | _ => none

/-- The cell that a statement changes, not counting the statements between its braces. -/
def Stmt.cell? : Stmt → Option Cell
  | tempo _ => some .tempo
  | volume _ => some .volume
  | instrument _ => some .instrument
  | call name _ => Cell.ofRefName? name
  | assign x _ | forLoop x _ _ _ | define x _ _ => some (.store x)
  | _ => none

/-- What a cell of an engine holds. -/
def Engine.content (e : Engine) : Cell → Option Value
  | .store x => e.store.bind fun table => table.find? (.text x)
  | .tempo => e.tempo
  | .volume => e.volume.map .float
  | .instrument => e.instrument

namespace Node

/-- The name in a node, if it is a text. -/
def textOf? (v : Value) : Option String :=
  match nameOf v with
  | .ok (.text x) => some x
  | _ => none

/-- The cell that a record of some type changes. -/
def cellOf? (v : Value) : String → Option Cell
  | "tempo" => some .tempo
  | "volume" => some .volume
  | "instrument" => some .instrument
  | "ref_call" => (textOf? (child v "name")).bind Cell.ofRefName?
  | "assign" => (textOf? (child v "var")).map .store
  | "for" => (textOf? (child v "variable")).map .store
  | "function_def" => (textOf? (child v "name")).map .store
  | _ => none

/-- The cell that the statement of a record changes. -/
def cell? (v : Value) : Option Cell := cellOf? v (typeName v)

theorem cell?_of_typeName {v : Value} {type : String} (h : typeName v = type) :
    cell? v = cellOf? v type :=
  congrArg (cellOf? v) h

theorem textOf?_eq_some {v : Value} {x : String} (h : nameOf v = .ok (.text x)) :
    textOf? v = some x := by
  rw [textOf?, h]

end Node

theorem Expr.cell?_toNode (e : Expr) : Node.cell? e.toNode = none := by
  cases e with
  | chord notes => rfl
  | logic l =>
      cases l with
      | arith a => cases a <;> rfl
      | compare _ _ _ | negation _ | connect _ _ _ => rfl

/-- Only three names of the language's own stand for a setting. -/
theorem Cell.ofRefName?_eq_none {name : String} (h : isRefName name = false) :
    ofRefName? name = none := by
  unfold ofRefName?
  split
  · cases h
  · cases h
  · cases h
  · rfl

/-- A statement and its record change the same cell. -/
theorem Stmt.cell?_toNode (s : Stmt) : Node.cell? s.toNode = s.cell? := by
  cases s with
  | call name arguments =>
      rw [toNode, cell?]
      cases h : isRefName name with
      | true => rfl
      | false => exact (Cell.ofRefName?_eq_none h).symm
  | eval e => exact e.cell?_toNode
  | branch condition body alternatives otherwise => rfl
  | _ => rfl

/-- No record in a value is that of a statement that changes a cell. -/
def Value.Avoids (c : Cell) (v : Value) : Prop := ∀ u, u.Occurs v → Node.cell? u ≠ some c

namespace Value.Avoids

variable {c : Cell} {v : Value}

theorem self (h : v.Avoids c) : Node.cell? v ≠ some c := h v .here

theorem field {key : String} {u : Value} (h : v.Avoids c) (hu : v.field? key = some u) :
    u.Avoids c :=
  fun _ hw => h _ (.field key hu hw)

theorem item {items : List Value} (h : (Value.list items).Avoids c) : ∀ u ∈ items, u.Avoids c :=
  fun _ hu _ hw => h _ (.item hu hw)

/-- In a value that is neither a list nor a record stands nothing else. -/
theorem plain (hitems : ∀ items, v ≠ .list items) (hfields : ∀ key, v.field? key = none)
    (hself : Node.cell? v = none) : v.Avoids c := by
  intro u hu
  cases hu with
  | here =>
      rw [hself]
      exact nofun
  | item _ _ => exact absurd rfl (hitems _)
  | field key hfield _ =>
      rw [hfields] at hfield
      cases hfield

theorem null : Value.null.Avoids c := plain nofun (fun _ => rfl) rfl

theorem text (s : String) : (Value.text s).Avoids c := plain nofun (fun _ => rfl) rfl

theorem number (n : Number) : n.toValue.Avoids c := by
  cases n <;> exact plain nofun (fun _ => rfl) rfl

theorem int (n : Int) : (Value.int n).Avoids c := number (.int n)

theorem list {items : List Value} (h : ∀ u ∈ items, u.Avoids c) : (Value.list items).Avoids c := by
  intro u hu
  cases hu with
  | here => exact nofun
  | item hw hu => exact h _ hw u hu
  | field key hfield _ => cases hfield

theorem nil : (Value.list []).Avoids c := list nofun

theorem map {α : Type} {f : α → Value} {as : List α} (h : ∀ a ∈ as, (f a).Avoids c) :
    (Value.list (as.map f)).Avoids c := by
  refine list fun u hu => ?_
  obtain ⟨a, ha, rfl⟩ := List.mem_map.1 hu
  exact h a ha

theorem record {fields : List (String × Value)} (hself : Node.cell? (.record fields) ≠ some c)
    (h : ∀ entry ∈ fields, entry.2.Avoids c) : (Value.record fields).Avoids c := by
  intro u hu
  cases hu with
  | here => exact hself
  | field key hfield hu =>
      obtain ⟨before, after, hfields, -⟩ := List.lookup_eq_some_iff.1 hfield
      refine h (key, _) ?_ u hu
      rw [hfields]
      exact List.mem_append_right _ List.mem_cons_self

theorem node {type : String} {fields : List (String × Value)}
    (hself : Node.cell? (Node.node type fields) ≠ some c)
    (h : ∀ entry ∈ fields, entry.2.Avoids c) : (Node.node type fields).Avoids c :=
  record hself (List.forall_mem_cons.2 ⟨text type, h⟩)

/-- The elements of a list stand in it; those of a text or a record are texts. -/
theorem elements {items : List Value} (h : v.Avoids c) (hitems : v.elements = .ok items) :
    ∀ u ∈ items, u.Avoids c := by
  cases v with
  | list _ =>
      cases hitems
      exact h.item
  | text s =>
      cases hitems
      intro u hu
      obtain ⟨letter, -, rfl⟩ := List.mem_map.1 hu
      exact text _
  | record fields =>
      cases hitems
      intro u hu
      obtain ⟨entry, -, rfl⟩ := List.mem_map.1 hu
      exact text _
  | _ => cases hitems

theorem fieldD {key : String} {default : Value} (h : v.Avoids c) (hdefault : default.Avoids c) :
    ((v.field? key).getD default).Avoids c := by
  cases hfield : v.field? key with
  | none => exact hdefault
  | some u => exact h.field hfield

theorem empty : (Value.record []).Avoids c := record nofun nofun

theorem child (h : v.Avoids c) (key : String) : (Node.child v key).Avoids c := h.fieldD empty

/-- The statements that a value holds for its body. -/
theorem body (h : v.Avoids c) (key : String) : ((v.field? key).getD (.list [])).Avoids c :=
  h.fieldD nil

theorem functionValue {parameters statements : Value} (hparameters : parameters.Avoids c)
    (hstatements : statements.Avoids c) :
    (Perform.functionValue parameters statements).Avoids c :=
  record nofun (List.forall_mem_cons.2 ⟨text _, List.forall_mem_cons.2
    ⟨hparameters, List.forall_mem_singleton.2 hstatements⟩⟩)

/-- A statement that sets a variable sets none that is avoided. -/
theorem ne_store {part name : Value} (h : v.Avoids c)
    (hcell : Node.cell? v = (Node.textOf? part).map .store) (hname : Node.nameOf part = .ok name) :
    ∀ x, name = .text x → c ≠ .store x := by
  rintro x rfl rfl
  rw [Node.textOf?_eq_some hname] at hcell
  exact h.self hcell

section Operators

variable {a b : Value}

theorem onNumbers {op : Number → Number → Result Number} {symbol : String}
    (h : Value.onNumbers op symbol a b = .ok v) : v.Avoids c := by
  obtain ⟨n, rfl⟩ := onNumbers_ok h
  exact number n

theorem add (ha : a.Avoids c) (hb : b.Avoids c) (h : a.add b = .ok v) : v.Avoids c := by
  unfold Value.add at h
  split at h
  · cases h
    exact text _
  · cases h
  · cases h
    refine list fun u hu => ?_
    rcases List.mem_append.1 hu with hu | hu
    · exact ha.item u hu
    · exact hb.item u hu
  · cases h
  · exact onNumbers h

theorem repeated (ha : a.Avoids c) (h : Value.repeated a b = .ok v) : v.Avoids c := by
  obtain ⟨n, -, h⟩ := Result.bind_eq_ok.1 h
  split at h
  · obtain ⟨s, -, h⟩ := Result.bind_eq_ok.1 h
    cases h
    exact text s
  · obtain ⟨items, hitems, h⟩ := Result.bind_eq_ok.1 h
    cases h
    refine list fun u hu => ?_
    unfold repeatItems at hitems
    split at hitems
    · cases hitems
      cases hu
    · split at hitems
      · cases hitems
      · cases hitems
        obtain ⟨copy, hcopy, hu⟩ := List.mem_flatten.1 hu
        cases List.eq_of_mem_replicate hcopy
        exact ha.item u hu
  · cases h
    exact ha

theorem mul (ha : a.Avoids c) (hb : b.Avoids c) (h : a.mul b = .ok v) : v.Avoids c := by
  unfold Value.mul at h
  split at h
  · exact ha.repeated h
  · split at h
    · exact hb.repeated h
    · exact onNumbers h

/-- Operators make no records: what is in their results was in their operands. -/
theorem operate {o : Operator} (ha : a.Avoids c) (hb : b.Avoids c)
    (h : Engine.operate o a b = .ok v) : v.Avoids c := by
  cases o with
  | add => exact ha.add hb h
  | sub => exact onNumbers h
  | mul => exact ha.mul hb h
  | div =>
      simp only [Engine.operate] at h
      split at h
      · cases h
        exact ha
      · exact onNumbers h

end Operators

end Value.Avoids

section Records

variable {c : Cell}

theorem Numeral.avoids (n : Numeral) : n.toNode.Avoids c := by
  refine .node nofun (List.forall_mem_singleton.2 ?_)
  change n.value.Avoids c
  unfold value
  split
  · exact .number (.int _)
  · exact .number (.float _)

theorem durationNode_avoids (duration : Option Numeral) : (durationNode duration).Avoids c := by
  cases duration with
  | none => exact .null
  | some n => exact n.avoids

theorem Node.identifier_avoids (x : String) : (identifier x).Avoids c :=
  .node nofun (List.forall_mem_singleton.2 (.text x))

/-- An operator between two operands changes nothing. -/
theorem Node.infixed_avoids {type : String} (symbol : String) {left right : Value}
    (hself : cell? (infixed type symbol left right) = none) (hleft : left.Avoids c)
    (hright : right.Avoids c) : (infixed type symbol left right).Avoids c := by
  refine .node (fun h => ?_) (List.forall_mem_cons.2 ⟨.text symbol, List.forall_mem_cons.2
    ⟨hleft, List.forall_mem_singleton.2 hright⟩⟩)
  cases hself.symm.trans h

theorem Arith.avoids (a : Arith) : a.toNode.Avoids c := by
  induction a with
  | number n => exact n.avoids
  | name x => exact Node.identifier_avoids x
  | binary op l r hl hr => exact Node.infixed_avoids op.symbol rfl hl hr

theorem Logic.avoids (l : Logic) : l.toNode.Avoids c := by
  induction l with
  | arith a => exact a.avoids
  | compare r a b => exact Node.infixed_avoids r.symbol rfl a.avoids b.avoids
  | negation l ih =>
      exact .node nofun (List.forall_mem_cons.2 ⟨.text "not", List.forall_mem_singleton.2 ih⟩)
  | connect op l r hl hr => exact Node.infixed_avoids op.symbol rfl hl hr

theorem Notes.avoids (notes : Notes) : notes.toNode.Avoids c :=
  .map fun name _ => .node nofun (List.forall_mem_singleton.2 (.text name))

theorem Node.chordLiteral_avoids (notes : Notes) : (chordLiteral notes.toNode).Avoids c :=
  .node nofun (List.forall_mem_singleton.2 notes.avoids)

theorem Expr.avoids (e : Expr) : e.toNode.Avoids c := by
  cases e with
  | logic l => exact l.avoids
  | chord notes => exact Node.chordLiteral_avoids notes

theorem Pitch.avoids (pitch : Pitch) : pitch.toNode.Avoids c := by
  cases pitch with
  | single name => exact .node nofun (List.forall_mem_singleton.2 (.text name))
  | several notes => exact .node nofun (List.forall_mem_singleton.2 notes.avoids)

/-- The record of a statement avoids what the statement and those in it do not change. -/
theorem Stmt.avoids {s : Stmt} (hs : s.Wholly fun t => t.cell? ≠ some c) : s.toNode.Avoids c := by
  have hself : Node.cell? s.toNode ≠ some c := s.cell?_toNode ▸ hs.self
  have hbodies : ∀ body ∈ s.bodies, (Value.list (toNodes body)).Avoids c := by
    intro body hbody
    rw [toNodes_eq_map]
    exact .map fun u hu => avoids ((hs.bodies body hbody).wholly hu)
  have hbraced {first : Value} (hfirst : first.Avoids c) {name key : String} {body : List Stmt}
      (hbody : body ∈ s.bodies) :
      ∀ entry ∈ [(name, first), (key, .list (toNodes body))], entry.2.Avoids c :=
    List.forall_mem_cons.2 ⟨hfirst, List.forall_mem_singleton.2 (hbodies body hbody)⟩
  cases s with
  | note pitch duration =>
      exact .node hself (List.forall_mem_cons.2 ⟨pitch.avoids, List.forall_mem_singleton.2
        (durationNode_avoids duration)⟩)
  | chord notes duration =>
      exact .node hself (List.forall_mem_cons.2 ⟨Node.chordLiteral_avoids notes,
        List.forall_mem_singleton.2 (durationNode_avoids duration)⟩)
  | rest length => exact .node hself (List.forall_mem_singleton.2 length.avoids)
  | tempo n | volume n => exact .node hself (List.forall_mem_singleton.2 n.avoids)
  | instrument name =>
      exact .node hself (List.forall_mem_singleton.2 (.node nofun (List.forall_mem_singleton.2
        (.text name))))
  | loop count body => exact .node hself (hbraced count.avoids List.mem_cons_self)
  | whileLoop condition body => exact .node hself (hbraced condition.avoids List.mem_cons_self)
  | forLoop counter start stop body =>
      have hrange : (Node.range start.toNode stop.toNode).Avoids c :=
        .node nofun (List.forall_mem_cons.2 ⟨start.avoids, List.forall_mem_singleton.2 stop.avoids⟩)
      exact .node hself (List.forall_mem_cons.2 ⟨Node.identifier_avoids counter,
        hbraced hrange List.mem_cons_self⟩)
  | branch condition body alternatives otherwise =>
      have hclauses : (Value.list (alternatives.map fun alternative =>
          Node.elseifClause alternative.1.toNode (toNodes alternative.2))).Avoids c := by
        refine .map fun alternative halternative => ?_
        refine .node nofun (hbraced alternative.1.avoids (List.mem_cons_of_mem _ ?_))
        exact List.mem_append_left _ (List.mem_map_of_mem halternative)
      have helse : (Value.list (toNodes (otherwise.getD []))).Avoids c := by
        cases otherwise with
        | none => exact .nil
        | some body =>
            refine hbodies body (List.mem_cons_of_mem _ (List.mem_append_right _ ?_))
            exact List.mem_cons_self
      rw [toNode_branch] at hself ⊢
      exact .node hself (List.forall_mem_cons.2 ⟨condition.avoids, List.forall_mem_cons.2
        ⟨.nil, List.forall_mem_cons.2 ⟨hclauses, List.forall_mem_singleton.2 helse⟩⟩⟩)
  | define name parameters body =>
      have hparameters : (Value.list (parameters.map Node.identifier)).Avoids c :=
        .map fun x _ => Node.identifier_avoids x
      exact .node hself (List.forall_mem_cons.2 ⟨Node.identifier_avoids name,
        hbraced hparameters List.mem_cons_self⟩)
  | call name arguments =>
      have harguments : (Value.list (arguments.map Expr.toNode)).Avoids c :=
        .map fun e _ => e.avoids
      exact .node hself (List.forall_mem_cons.2 ⟨Node.identifier_avoids name,
        List.forall_mem_singleton.2 harguments⟩)
  | assign name value =>
      exact .node hself (List.forall_mem_cons.2 ⟨Node.identifier_avoids name,
        List.forall_mem_singleton.2 value.avoids⟩)
  | eval e => exact e.avoids
termination_by sizeOf s
decreasing_by
  have hsize := sizeOf_lt_of_bodies hbody
  have hlt := List.sizeOf_lt_of_mem hu
  omega

theorem Stmt.avoids_toNodes {body : List Stmt} (h : Throughout (fun t => t.cell? ≠ some c) body) :
    (Value.list (toNodes body)).Avoids c := by
  rw [toNodes_eq_map]
  exact .map fun s hs => avoids (h.wholly hs)

end Records

namespace Engine

theorem operand_ok {e : Engine} {node w : Value} {key : String} (h : e.operand node key = .ok w) :
    (∃ v, node.field? key = some v ∧ e.valueOf v (.int 0) = .ok w) ∨ w = .int 0 := by
  unfold operand at h
  split at h
  · next v hv => exact .inl ⟨v, hv, h⟩
  · cases h
    exact .inr rfl

/-- What a cell holds, and all variables. -/
def view (c : Cell) (e : Engine) : Option Value × Option (Table Value) := (e.content c, e.store)

theorem view_log (c : Cell) (e : Engine) (log : Array Effect) :
    view c { e with log } = view c e := by
  cases c <;> rfl

theorem view_tracks (c : Cell) (e : Engine) (tracks : Option Tracks) :
    view c { e with tracks } = view c e := by
  cases c <;> rfl

/-- A cell with what it holds, on an engine without a function that changes it. -/
structure Holds (c : Cell) (held : Option Value) (e : Engine) : Prop where
  content : e.content c = held
  avoids : ∀ table, e.store = some table → ∀ entry ∈ table, entry.2.Avoids c

namespace Holds

variable {c : Cell} {held : Option Value} {e d : Engine}

theorem of_view (h : view c d = view c e) (he : e.Holds c held) : d.Holds c held := by
  obtain ⟨hcontent, hstore⟩ := Prod.mk.inj h
  refine ⟨hcontent.trans he.content, fun table htable => ?_⟩
  rw [hstore] at htable
  exact he.avoids table htable

theorem of_silent (h : d.silent = e.silent) (he : e.Holds c held) : d.Holds c held :=
  he.of_view (read_of_silent (view c) (fun e => view_log c e _) h)

theorem lookup (he : e.Holds c held) {name default v : Value} (hdefault : default.Avoids c)
    (h : e.lookup name default = .ok v) : v.Avoids c := by
  unfold Engine.lookup at h
  split at h
  · cases h
  · next table htable =>
    obtain ⟨_, -, h⟩ := Result.bind_eq_ok.1 h
    cases h
    cases hfind : table.find? name with
    | none => exact hdefault
    | some u =>
        obtain ⟨k, hk⟩ := Table.mem_of_find? hfind
        exact he.avoids table htable _ hk

/-- What an expression comes to changes nothing if it does not stand in the expression itself. -/
theorem valueOf (he : e.Holds c held) {node default v : Value} (hnode : node.Avoids c)
    (hdefault : default.Avoids c) (h : e.valueOf node default = .ok v) : v.Avoids c := by
  have ih : ∀ key w, e.operand node key = .ok w → w.Avoids c := by
    intro key w hoperand
    rcases operand_ok hoperand with ⟨u, hu, hvalue⟩ | rfl
    · exact he.valueOf (hnode.field hu) (.int 0) hvalue
    · exact .int 0
  by_cases hbinop : Node.typeName node = "binop"
  · rw [valueOf_binop e hbinop] at h
    obtain ⟨left, hleft, h⟩ := Result.bind_eq_ok.1 h
    obtain ⟨right, hright, h⟩ := Result.bind_eq_ok.1 h
    split at h
    · exact (ih "left" left hleft).operate (ih "right" right hright) h
    · cases h
      exact hdefault
  · rw [Engine.valueOf] at h
    split at h
    · cases h
      exact hnode.fieldD hdefault
    · exact he.lookup hdefault h
    · contradiction
    · cases h
      exact hdefault
termination_by sizeOf node
decreasing_by exact Value.sizeOf_field_lt hu

theorem setVariable (he : e.Holds c held) {name value : Value}
    (hname : ∀ x, name = .text x → c ≠ .store x) (hvalue : value.Avoids c) :
    ((Perform.setVariable name value).runOn e).2.Holds c held := by
  cases hstore : e.store with
  | none =>
      have hsame : ((Perform.setVariable name value).runOn e).2 = e := by
        rw [Perform.setVariable, Perform.runOn_bind, Perform.store, Perform.runOn_part, hstore]
        rfl
      rw [hsame]
      exact he
  | some table =>
      rw [Perform.runOn_setVariable hstore]
      cases name.requireKey with
      | error f => exact he
      | ok u =>
          refine ⟨?_, fun table' htable' entry hentry => ?_⟩
          · rw [← he.content]
            cases c with
            | store x =>
                have hne : name ≠ .text x := fun h => hname x h rfl
                change (table.insert name value).find? (.text x) = e.store.bind _
                rw [Table.find?_insert_of_ne hne, hstore]
                rfl
            | tempo | volume | instrument => rfl
          · cases htable'
            rcases Table.mem_insert hentry with hold | hnew
            · exact he.avoids table hstore entry hold
            · rw [hnew]
              exact hvalue

end Holds
end Engine

namespace Perform

variable {c : Cell}

namespace Leaves

theorem tempo (h : c ≠ .tempo) (viaRef : Bool) (bpm : Value) :
    Leaves (Engine.view c) (Perform.setTempo viaRef bpm) := by
  refine setTempo (Engine.view_log c) (fun e tempo => ?_) viaRef bpm
  cases c with
  | tempo => exact absurd rfl h
  | _ => rfl

theorem volume (h : c ≠ .volume) (viaRef : Bool) (level : Value) :
    Leaves (Engine.view c) (Perform.setVolume viaRef level) := by
  refine setVolume (Engine.view_log c) (fun e volume => ?_) viaRef level
  cases c with
  | volume => exact absurd rfl h
  | _ => rfl

theorem instrument (h : c ≠ .instrument) (viaRef : Bool) (name : Value) :
    Leaves (Engine.view c) (Perform.setInstrument viaRef name) := by
  refine setInstrument (Engine.view_log c) (fun e instrument => ?_) viaRef name
  cases c with
  | instrument => exact absurd rfl h
  | _ => rfl

end Leaves

namespace InStep

variable {held : Option Value} {F : Failure → Prop} {node : Value} {run : Value → Perform Unit}

theorem leaves {α : Type} {x : Perform α} (hx : Leaves (Engine.view c) x) :
    InStep (Engine.Holds c held) F x x fun _ => True :=
  same fun e he => he.of_view (hx.read_eq e)

theorem evaluates {default : Value} (hnode : node.Avoids c) (hdefault : default.Avoids c) :
    InStep (Engine.Holds c held) F (Perform.valueOf node default) (Perform.valueOf node default)
      (Value.Avoids c) := by
  intro e he
  rw [Perform.valueOf, runOn_get, runOn_lift]
  exact .inr ⟨rfl, he, fun _ hv => he.valueOf hnode hdefault hv⟩

theorem assigns (hnode : node.Avoids c)
    (hcell : Node.cell? node = (Node.textOf? (Node.child node "var")).map .store) :
    InStep (Engine.Holds c held) F (Perform.assignNode node) (Perform.assignNode node)
      fun _ => True := by
  refine bind (lift _) fun name hname => bind (evaluates (hnode.child "value") (.int 0))
    fun v hv => ?_
  refine bind (same fun e he => he.setVariable (hnode.ne_store hcell hname) hv) fun _ _ => ?_
  exact prints .of_silent (.bind (.shown _) fun _ => .bind (.shown _) fun _ => Prints.say _)

theorem defines (hnode : node.Avoids c)
    (hcell : Node.cell? node = (Node.textOf? (Node.child node "name")).map .store) :
    InStep (Engine.Holds c held) F (Perform.defineNode node) (Perform.defineNode node)
      fun _ => True := by
  have hfunction := Value.Avoids.functionValue (hnode.body "params") (hnode.body "body")
  refine bind (lift _) fun name hname => bind (same fun e he =>
    he.setVariable (hnode.ne_store hcell hname) hfunction) fun _ _ => ?_
  exact prints .of_silent (.bind (.shown _) fun _ => Prints.say _)

theorem refCalls (hnode : node.Avoids c)
    (hcell : Node.cell? node = (Node.textOf? (Node.child node "name")).bind Cell.ofRefName?) :
    InStep (Engine.Holds c held) F (Perform.refCallNode node) (Perform.refCallNode node)
      fun _ => True := by
  have hne {name : String} {other : Cell} (hother : Cell.ofRefName? name = some other)
      (hname : Node.nameOf (Node.child node "name") = .ok (.text name)) : c ≠ other := by
    rintro rfl
    rw [Node.textOf?_eq_some hname] at hcell
    exact hnode.self (hcell.trans hother)
  refine bind (lift _) fun name hname => bind (prints .of_silent (.shown _)) fun _ _ =>
    bind (say .of_silent _) fun _ _ => ?_
  split
  · split
    · have hvolume := Leaves.volume (hne rfl hname) true
      exact leaves (.bind (.lift _) fun _ => .bind (.valueOf _ _) hvolume)
    · have htempo := Leaves.tempo (hne rfl hname) true
      exact leaves (.bind (.lift _) fun _ => .bind (.valueOf _ _) htempo)
    · have hinstrument := Leaves.instrument (hne rfl hname) true
      exact leaves (.bind (.lift _) fun _ => .bind (.lift _) hinstrument)
    · exact pure _
  · exact pure _

/-- Statements that are run one after the other, as far as they stand in a value. -/
theorem bodyInStep {statements : Value} (h : statements.Avoids c)
    (hrun : ∀ v, v.Avoids c → InStep (Engine.Holds c held) F (run v) (run v) fun _ => True) :
    BodyInStep (Engine.Holds c held) F run run statements :=
  fun _ hitems v hv => hrun v (h.elements hitems v hv)

/-- A statement changes no cell that its record avoids, if those do not that are run with it: the
statements in its record, and for a call those of a function that a variable holds. -/
theorem framed (hnode : node.Avoids c)
    (hrun : ∀ v, v.Avoids c → InStep (Engine.Holds c held) F (run v) (run v) fun _ => True) :
    InStep (Engine.Holds c held) F (Perform.statement run node) (Perform.statement run node)
      fun _ => True := by
  have hne {other : Cell} (hother : Node.cell? node = some other) : c ≠ other := by
    rintro rfl
    exact hnode.self hother
  have hbody (key : String) :
      BodyInStep (Engine.Holds c held) F run run ((node.field? key).getD (.list [])) :=
    bodyInStep (hnode.body key) hrun
  unfold Perform.statement
  generalize hname : Node.typeName node = name
  split
  · exact leaves (.bind (.valueOf _ _) (Leaves.tempo (hne (Node.cell?_of_typeName hname)) false))
  · exact leaves (.bind (.valueOf _ _) (Leaves.volume (hne (Node.cell?_of_typeName hname)) false))
  · exact leaves (.bind (.lift _) (Leaves.instrument (hne (Node.cell?_of_typeName hname)) false))
  · exact leaves (.noteNode (Engine.view_log c) (Engine.view_tracks c) node)
  · exact leaves (.chordNode (Engine.view_log c) (Engine.view_tracks c) node)
  · exact leaves (.softRest (Engine.view_log c) (Engine.view_tracks c) node)
  · exact loopNode .of_silent (hbody "body")
  · exact whileNode .of_silent (hbody "body")
  · refine forNode .of_silent (fun counter hcounter i e he => ?_) (hbody "body")
    exact he.setVariable (hnode.ne_store (Node.cell?_of_typeName hname) hcounter) (.int i)
  · refine branchNode .of_silent (hbody "then_body") (fun clauses hclauses clause hclause => ?_)
      (hbody "else_body")
    have hclause := (hnode.body "elseif_clauses").elements hclauses clause hclause
    exact bodyInStep (hclause.body "body") hrun
  · exact assigns hnode (Node.cell?_of_typeName hname)
  · exact defines hnode (Node.cell?_of_typeName hname)
  · refine callNode .of_silent fun e table key function he htable hkey hfind => ?_
    obtain ⟨k, hk⟩ := Table.mem_of_find? hfind
    exact bodyInStep ((he.avoids table htable _ hk).body "body") hrun
  · exact refCalls hnode (Node.cell?_of_typeName hname)
  · exact pure _

theorem framedPerform (depth : Nat) {v : Value} (hv : v.Avoids c) :
    InStep (Engine.Holds c held) F (Perform.perform depth v) (Perform.perform depth v)
      fun _ => True := by
  induction depth generalizing v with
  | zero => exact same fun _ he => he
  | succ depth ih => exact framed hv fun _ => ih

end InStep

theorem answer_snd (x : Perform Unit) (e : Engine) : (x.answer e).2 = (x.runOn e).2 := by
  cases h : x.runOn e with
  | mk r d =>
      cases r with
      | ok u => rw [answer_ok h]
      | error f => rw [answer_error h]

end Perform

/-- A variable that was once set stays set. -/
theorem Engine.Path.isSome_content {e d : Engine} (h : e.Path d) {x : String}
    (hx : (e.content (.store x)).isSome = true) : (d.content (.store x)).isSome = true := by
  induction h with
  | refl => exact hx
  | tail _ hstep ih =>
      cases hstep with
      | store value ht hkey =>
          rw [content, ht] at ih
          exact Table.isSome_find?_insert ih _ value
      | _ => exact ih

namespace Program

/-- A cell that is changed by a statement of a program, or by one in what a variable holds. -/
def Changes (p : Program) (e : Engine) (c : Cell) : Prop :=
  (∃ s : Stmt, s.Within p ∧ s.cell? = some c) ∨
    ∃ table entry u, e.store = some table ∧ entry ∈ table ∧ Value.Occurs u entry.2 ∧
      Node.cell? u = some c

variable {p : Program} {e : Engine} {c : Cell}

theorem not_changes (hp : Stmt.Throughout (fun s => s.cell? ≠ some c) p)
    (he : ∀ table, e.store = some table → ∀ entry ∈ table, entry.2.Avoids c) :
    ¬ p.Changes e c := by
  rintro (⟨s, hs, hcell⟩ | ⟨table, entry, u, htable, hentry, hu, hcell⟩)
  · exact hp s hs hcell
  · exact he table htable entry hentry u hu hcell

theorem avoids_of_not_changes (h : ¬ p.Changes e c) {body : List Stmt}
    (hbody : ∀ {P : Stmt → Prop}, Stmt.Throughout P p → Stmt.Throughout P body) :
    (Value.list (Stmt.toNodes body)).Avoids c :=
  Stmt.avoids_toNodes (hbody fun s hs hcell => h (.inl ⟨s, hs, hcell⟩))

theorem holds_of_not_changes (h : ¬ p.Changes e c) : e.Holds c (e.content c) :=
  ⟨rfl, fun table htable entry hentry u hu hcell =>
    h (.inr ⟨table, entry, u, htable, hentry, hu, hcell⟩)⟩

theorem content_execute (h : ¬ p.Changes e c) :
    ((Perform.execute p.toNode).runOn e).2.content c = e.content c := by
  have hbody : Perform.BodyInStep (Engine.Holds c (e.content c)) (fun _ => False)
      (Perform.perform Perform.depthLimit) (Perform.perform Perform.depthLimit)
      ((p.toNode.field? "body").getD (.list [])) := by
    rw [p.toNode_shape.2]
    exact Perform.InStep.bodyInStep (avoids_of_not_changes h throughout_executed)
      fun _ => Perform.InStep.framedPerform _
  rw [Perform.execute_eq_executeWith]
  rcases Perform.InStep.executeWith .of_silent p.toNode hbody e (holds_of_not_changes h) with
    ⟨_, _, hfalse⟩ | ⟨-, hd, -⟩
  · exact hfalse.elim
  · exact hd.content

/-- The run of a text, whether it fails or not, leaves all cells as they are but those that a
statement of the text changes or a statement in what a variable holds: other variables hold what
they held or are still not set, and the same is true of tempo, volume and instrument. No variable
is ever removed. -/
theorem content_of_run {text : String} {p : Program} (hread : Reader.read .full text = .ok p)
    (e : Engine) :
    let d := ((Command.run .full text).respond e).2
    (∀ c, ¬ p.Changes e c → d.content c = e.content c) ∧
      ∀ x, (e.content (.store x)).isSome = true → (d.content (.store x)).isSome = true := by
  intro d
  refine ⟨fun c hc => ?_, fun x hx => ?_⟩
  · have hrun := content_execute hc
    rw [← Perform.answer_snd, ← respond_run hread] at hrun
    exact hrun
  · exact ((Command.run .full text).path_respond e).isSome_content hx

/-- A text that calls a function of an earlier text changes what that one says, and no other
function. -/
theorem content_of_run_call :
    let e := ((Command.run .full "fn g ( ) \x7b\ny = 2\n\x7d\nfn z ( ) \x7b\nnote C4\n\x7d").respond
      (.built .soft .standard)).2
    let d := ((Command.run .full "x = 1\ng ( )\ntempo 90").respond e).2
    (e.content (.store "z")).isSome = true ∧ d.content (.store "z") = e.content (.store "z") ∧
      d.content .volume = e.content .volume ∧ (d.content (.store "g")).isSome = true := by
  intro e d
  let two : Expr := .logic (.arith (.number ⟨['2'], none⟩))
  let first : Program :=
    [.define "g" [] [.assign "y" two], .define "z" [] [.note (.single "C4") none]]
  let p : Program := [.assign "x" (.logic (.arith (.number ⟨['1'], none⟩))), .call "g" [],
    .tempo ⟨['9', '0'], none⟩]
  have hfirst : Reader.read .full "fn g ( ) \x7b\ny = 2\n\x7d\nfn z ( ) \x7b\nnote C4\n\x7d" =
      .ok first := by
    have htext : first.render = "fn g ( ) \x7b\ny = 2\n\x7d\nfn z ( ) \x7b\nnote C4\n\x7d" := by
      decide
    exact htext ▸ read_render (by decide)
  have hread : Reader.read .full "x = 1\ng ( )\ntempo 90" = .ok p := by
    have htext : p.render = "x = 1\ng ( )\ntempo 90" := by decide
    exact htext ▸ read_render (by decide)
  have he : e = ((Perform.execute first.toNode).answer (.built .soft .standard)).2 :=
    congrArg Prod.snd (respond_run hfirst _)
  have hstore : e.store = some [
      (.text "g", Perform.functionValue (.list []) (.list (Stmt.toNodes [.assign "y" two]))),
      (.text "z", Perform.functionValue (.list [])
        (.list (Stmt.toNodes [.note (.single "C4") none])))] := by
    rw [he]
    rfl
  have hkept {c : Cell} (hx : c ≠ .store "x") (hy : c ≠ .store "y") (htempo : c ≠ .tempo) :
      ¬ p.Changes e c := by
    have hp : Stmt.Throughout (fun s => s.cell? ≠ some c) p :=
      Stmt.throughout_iff.2 (List.forall_mem_cons.2 ⟨⟨fun h => hx (Option.some.inj h).symm, nofun⟩,
        List.forall_mem_cons.2 ⟨⟨nofun, nofun⟩, List.forall_mem_singleton.2
          ⟨fun h => htempo (Option.some.inj h).symm, nofun⟩⟩⟩)
    have hg : Stmt.Throughout (fun s => s.cell? ≠ some c) [.assign "y" two] :=
      Stmt.throughout_iff.2 (List.forall_mem_singleton.2
        ⟨fun h => hy (Option.some.inj h).symm, nofun⟩)
    have hz : Stmt.Throughout (fun s => s.cell? ≠ some c) [.note (.single "C4") none] :=
      Stmt.throughout_iff.2 (List.forall_mem_singleton.2 ⟨nofun, nofun⟩)
    refine not_changes hp fun table htable => ?_
    rw [hstore] at htable
    cases htable
    exact List.forall_mem_cons.2 ⟨.functionValue .nil (Stmt.avoids_toNodes hg),
      List.forall_mem_singleton.2 (.functionValue .nil (Stmt.avoids_toNodes hz))⟩
  obtain ⟨hsame, hpresent⟩ := content_of_run hread e
  have hg : (e.content (.store "g")).isSome = true := by
    rw [Engine.content, hstore]
    rfl
  have hz : (e.content (.store "z")).isSome = true := by
    rw [Engine.content, hstore]
    rfl
  exact ⟨hz, hsame _ (hkept (by decide) (by decide) nofun), hsame _ (hkept nofun nofun nofun),
    hpresent "g" hg⟩

end Program
end TuneScript
