import TuneScript.Proofs.Branches

/-!
The shape of the records of programs. A table gives for each type of records its fields, and
for each field the types of the records that may stand there. Main statement: every record in
the record of an accepted text, at any depth, is as the table says.
-/

namespace TuneScript

/-- What a field of a record may hold: records of the given types, or plain data. -/
inductive Slot where
  | node (types : List String)
  | optional (types : List String)
  | nodes (types : List String)
  | someNodes (types : List String)
  | text
  | number

/-- The slot is filled rightly, where `P` tells what counts as a record of some types. -/
def Slot.Fills (P : List String → Value → Prop) : Slot → Value → Prop
  | node types, v => P types v
  | optional types, v => v = .null ∨ P types v
  | nodes types, v => ∃ items, v = .list items ∧ ∀ u ∈ items, P types u
  | someNodes types, v => ∃ u items, v = .list (u :: items) ∧ ∀ w ∈ u :: items, P types w
  | text, v => ∃ s, v = .text s
  | number, v => (∃ n, v = .int n) ∨ ∃ x, v = .float x

namespace Node

def operandTypes : List String := ["number", "identifier", "binop"]

def conditionTypes : List String := operandTypes ++ ["comparison", "logical_op", "unary_op"]

def expressionTypes : List String := conditionTypes ++ ["chord_literal"]

def statementTypes : List String :=
  ["note", "chord", "rest", "tempo", "volume", "instrument", "loop", "while", "for", "if",
    "function_def", "function_call", "ref_call", "assign"] ++ expressionTypes

/-- The fields of each type of records, in the order of writing. -/
def layout : List (String × List (String × Slot)) := [
  ("program", [("body", .nodes statementTypes)]),
  ("note", [
    ("note_value", .node ["note_literal", "note_array"]),
    ("duration", .optional ["number"])]),
  ("note_array", [("notes", .someNodes ["note_literal"])]),
  ("chord", [("chord", .node ["chord_literal"]), ("duration", .optional ["number"])]),
  ("rest", [("duration", .node expressionTypes)]),
  ("tempo", [("bpm", .node ["number"])]),
  ("volume", [("volume", .node ["number"])]),
  ("instrument", [("instrument", .node ["instrument_name"])]),
  ("instrument_name", [("name", .text)]),
  ("loop", [("count", .node ["number"]), ("body", .nodes statementTypes)]),
  ("while", [("condition", .node conditionTypes), ("body", .nodes statementTypes)]),
  ("for", [("variable", .node ["identifier"]), ("range", .node ["range"]),
    ("body", .nodes statementTypes)]),
  ("range", [("start", .node ["number"]), ("end", .node ["number"])]),
  ("if", [("condition", .node conditionTypes), ("then_body", .nodes statementTypes),
    ("elseif_clauses", .nodes ["elseif_clause"]), ("else_body", .nodes statementTypes)]),
  ("elseif_clause", [("condition", .node conditionTypes), ("body", .nodes statementTypes)]),
  ("function_def", [("name", .node ["identifier"]), ("params", .nodes ["identifier"]),
    ("body", .nodes statementTypes)]),
  ("function_call", [("name", .node ["identifier"]), ("args", .nodes expressionTypes)]),
  ("ref_call", [("name", .node ["identifier"]), ("args", .nodes expressionTypes)]),
  ("assign", [("var", .node ["identifier"]), ("value", .node expressionTypes)]),
  ("note_literal", [("value", .text)]),
  ("chord_literal", [("notes", .someNodes ["note_literal"])]),
  ("identifier", [("name", .text)]),
  ("number", [("value", .number)]),
  ("binop", [("op", .text), ("left", .node operandTypes), ("right", .node operandTypes)]),
  ("comparison", [("op", .text), ("left", .node operandTypes), ("right", .node operandTypes)]),
  ("logical_op", [("op", .text), ("left", .node conditionTypes), ("right", .node conditionTypes)]),
  ("unary_op", [("op", .text), ("operand", .node conditionTypes)])]

def IsOneOf (types : List String) (v : Value) : Prop := ∃ type ∈ types, hasType type v = true

/-- The fields are those of the table, in its order, and each is filled rightly. -/
def Fitting (P : List String → Value → Prop) :
    List (String × Slot) → List (String × Value) → Prop
  | [], [] => True
  | (key, slot) :: slots, (key', v) :: fields =>
    key = key' ∧ slot.Fills P v ∧ Fitting P slots fields
  | _, _ => False

/-- A record as the table says. -/
def Conforms (v : Value) : Prop :=
  ∃ type slots fields, v = node type fields ∧ layout.lookup type = some slots ∧
    Fitting IsOneOf slots fields

/-- A record of one of the types, in which all records conform to the table. -/
structure Sound (types : List String) (v : Value) : Prop where
  isOneOf : IsOneOf types v
  conforms : ∀ u, u.Occurs v → u.isRecord = true → Conforms u

end Node

namespace Slot.Fills

variable {P Q : List String → Value → Prop} {slot : Slot} {u v : Value}

theorem imp (h : ∀ types v, P types v → Q types v) (hv : slot.Fills P v) : slot.Fills Q v := by
  cases slot with
  | node types => exact h _ _ hv
  | optional types => exact hv.imp_right (h _ _)
  | nodes types =>
      obtain ⟨items, rfl, hitems⟩ := hv
      exact ⟨items, rfl, fun u hu => h _ _ (hitems u hu)⟩
  | someNodes types =>
      obtain ⟨u, items, rfl, hitems⟩ := hv
      exact ⟨u, items, rfl, fun w hw => h _ _ (hitems w hw)⟩
  | text | number => exact hv

/-- The records in what fills a slot are among the records that are put there. -/
theorem conforms (hv : slot.Fills Node.Sound v) (hu : u.Occurs v) (hrecord : u.isRecord = true) :
    Node.Conforms u := by
  have hplain : ∀ {w : Value}, (∀ key, w.field? key = none) → (∀ items, w ≠ .list items) →
      w.isRecord = false → ¬ u.Occurs w := by
    intro w hfield hlist hw hoccurs
    cases hoccurs with
    | here => simp [hw] at hrecord
    | item => exact hlist _ rfl
    | field key hkey => simp [hfield] at hkey
  have hitems : ∀ {types items}, (∀ w ∈ items, Node.Sound types w) → u.Occurs (.list items) →
      Node.Conforms u := by
    intro types items hsound hoccurs
    cases hoccurs with
    | here => cases hrecord
    | item hw h => exact (hsound _ hw).conforms u h hrecord
    | field key hkey => cases hkey
  cases slot with
  | node types => exact Node.Sound.conforms hv u hu hrecord
  | optional types =>
      rcases hv with rfl | hv
      · exact absurd hu (hplain (fun _ => rfl) (by simp) rfl)
      · exact hv.conforms u hu hrecord
  | nodes types =>
      obtain ⟨items, rfl, h⟩ := hv
      exact hitems h hu
  | someNodes types =>
      obtain ⟨w, items, rfl, h⟩ := hv
      exact hitems h hu
  | text =>
      obtain ⟨s, rfl⟩ := hv
      exact absurd hu (hplain (fun _ => rfl) (by simp) rfl)
  | number =>
      rcases hv with ⟨n, rfl⟩ | ⟨x, rfl⟩
      · exact absurd hu (hplain (fun _ => rfl) (by simp) rfl)
      · exact absurd hu (hplain (fun _ => rfl) (by simp) rfl)

end Slot.Fills

namespace Node

variable {P Q : List String → Value → Prop} {types : List String} {type key : String}
  {slots : List (String × Slot)} {fields : List (String × Value)} {u v : Value}

theorem Fitting.imp (h : ∀ types v, P types v → Q types v) (hfields : Fitting P slots fields) :
    Fitting Q slots fields := by
  induction slots generalizing fields with
  | nil =>
      cases fields with
      | nil => trivial
      | cons _ _ => exact hfields.elim
  | cons slot slots ih =>
      cases fields with
      | nil => exact hfields.elim
      | cons field fields => exact ⟨hfields.1, hfields.2.1.imp h, ih hfields.2.2⟩

theorem Fitting.of_lookup (hfields : Fitting P slots fields) (hv : fields.lookup key = some v) :
    ∃ slot, (key, slot) ∈ slots ∧ slot.Fills P v := by
  induction slots generalizing fields with
  | nil =>
      cases fields with
      | nil => cases hv
      | cons _ _ => exact hfields.elim
  | cons slot slots ih =>
      cases fields with
      | nil => cases hv
      | cons field fields =>
          obtain ⟨name, slot⟩ := slot
          obtain ⟨name', w⟩ := field
          obtain ⟨rfl, hslot, hrest⟩ := hfields
          rw [List.lookup_cons] at hv
          split at hv
          · next hkey =>
            cases hv
            cases beq_iff_eq.1 hkey
            exact ⟨slot, List.mem_cons_self, hslot⟩
          · obtain ⟨found, hfound, hfills⟩ := ih hrest hv
            exact ⟨found, List.mem_cons_of_mem _ hfound, hfills⟩

theorem field?_node (hkey : key ≠ "type") :
    (node type fields).field? key = fields.lookup key := by
  rw [node, Value.field?, List.lookup_cons, beq_eq_false_iff_ne.2 hkey]

theorem hasType_node (type : String) (fields : List (String × Value)) :
    hasType type (node type fields) = true := by
  simp [hasType, node, Value.field?]

/-- A record is sound if what its fields hold is. -/
theorem Sound.node (htype : type ∈ types) (hslots : layout.lookup type = some slots)
    (hfields : Fitting Sound slots fields) : Sound types (node type fields) := by
  refine ⟨⟨type, htype, hasType_node type fields⟩, fun u hu hrecord => ?_⟩
  cases hu with
  | here => exact ⟨type, slots, fields, rfl, hslots, hfields.imp fun _ _ h => h.isOneOf⟩
  | field key hkey h =>
      by_cases htag : key = "type"
      · -- the type itself is a text, in which no record stands
        subst htag
        have htext : Slot.Fills Sound .text (.text type) := ⟨type, rfl⟩
        cases hkey
        exact htext.conforms h hrecord
      · rw [field?_node htag] at hkey
        obtain ⟨slot, -, hfills⟩ := hfields.of_lookup hkey
        exact hfills.conforms h hrecord

theorem Sound.mono {more : List String} (h : Sound types v) (hsub : types ⊆ more) :
    Sound more v := by
  obtain ⟨⟨type, htype, hv⟩, hall⟩ := h
  exact ⟨⟨type, hsub htype, hv⟩, hall⟩

end Node

theorem Numeral.sound (n : Numeral) : Node.Sound ["number"] n.toNode := by
  have hvalue : Slot.Fills Node.Sound .number n.value := by
    unfold value
    split
    · exact .inl ⟨_, rfl⟩
    · exact .inr ⟨_, rfl⟩
  exact .node (by decide) rfl ⟨rfl, hvalue, trivial⟩

theorem durationNode_sound (duration : Option Numeral) :
    Slot.Fills Node.Sound (.optional ["number"]) (durationNode duration) := by
  cases duration with
  | none => exact .inl rfl
  | some n => exact .inr n.sound

theorem Node.identifier_sound (x : String) : Sound ["identifier"] (identifier x) :=
  .node (by decide) rfl ⟨rfl, ⟨x, rfl⟩, trivial⟩

theorem Arith.sound (a : Arith) : Node.Sound Node.operandTypes a.toNode := by
  induction a with
  | number n => exact n.sound.mono (by decide)
  | name x => exact (Node.identifier_sound x).mono (by decide)
  | binary op l r hl hr => exact .node (by decide) rfl ⟨rfl, ⟨_, rfl⟩, rfl, hl, rfl, hr, trivial⟩

theorem Logic.sound (e : Logic) : Node.Sound Node.conditionTypes e.toNode := by
  induction e with
  | arith a => exact a.sound.mono (by decide)
  | compare r a b =>
      exact .node (by decide) rfl ⟨rfl, ⟨_, rfl⟩, rfl, a.sound, rfl, b.sound, trivial⟩
  | negation e ih => exact .node (by decide) rfl ⟨rfl, ⟨_, rfl⟩, rfl, ih, trivial⟩
  | connect c l r hl hr => exact .node (by decide) rfl ⟨rfl, ⟨_, rfl⟩, rfl, hl, rfl, hr, trivial⟩

theorem Notes.sound (notes : Notes) :
    Slot.Fills Node.Sound (.someNodes ["note_literal"]) notes.toNode := by
  refine ⟨_, _, rfl, fun v hv => ?_⟩
  obtain ⟨pitch, -, rfl⟩ := List.mem_map.1 (show v ∈ notes.toList.map Node.noteLiteral from hv)
  exact .node (by decide) rfl ⟨rfl, ⟨pitch, rfl⟩, trivial⟩

theorem Node.chordLiteral_sound (notes : Notes) :
    Sound ["chord_literal"] (chordLiteral notes.toNode) :=
  .node (by decide) rfl ⟨rfl, notes.sound, trivial⟩

theorem Expr.sound (e : Expr) : Node.Sound Node.expressionTypes e.toNode := by
  cases e with
  | logic e => exact e.sound.mono (by decide)
  | chord notes => exact (Node.chordLiteral_sound notes).mono (by decide)

theorem Pitch.sound (pitch : Pitch) :
    Node.Sound ["note_literal", "note_array"] pitch.toNode := by
  cases pitch with
  | single note => exact .node (by decide) rfl ⟨rfl, ⟨note, rfl⟩, trivial⟩
  | several notes => exact .node (by decide) rfl ⟨rfl, notes.sound, trivial⟩

namespace Stmt

mutual

theorem sound (s : Stmt) : Node.Sound Node.statementTypes s.toNode := by
  cases s with
  | note pitch duration =>
      exact .node (by decide) rfl
        ⟨rfl, pitch.sound, rfl, durationNode_sound duration, trivial⟩
  | chord notes duration =>
      exact .node (by decide) rfl
        ⟨rfl, Node.chordLiteral_sound notes, rfl, durationNode_sound duration, trivial⟩
  | rest length => exact .node (by decide) rfl ⟨rfl, length.sound, trivial⟩
  | tempo n | volume n => exact .node (by decide) rfl ⟨rfl, n.sound, trivial⟩
  | instrument name =>
      have hname : Node.Sound ["instrument_name"]
          (Node.node "instrument_name" [("name", .text name)]) :=
        .node (by decide) rfl ⟨rfl, ⟨name, rfl⟩, trivial⟩
      exact .node (by decide) rfl ⟨rfl, hname, trivial⟩
  | loop count body =>
      exact .node (by decide) rfl ⟨rfl, count.sound, rfl, ⟨_, rfl, sound_items body⟩, trivial⟩
  | whileLoop condition body =>
      exact .node (by decide) rfl
        ⟨rfl, condition.sound, rfl, ⟨_, rfl, sound_items body⟩, trivial⟩
  | forLoop counter start stop body =>
      have hrange : Node.Sound ["range"] (Node.range start.toNode stop.toNode) :=
        .node (by decide) rfl ⟨rfl, start.sound, rfl, stop.sound, trivial⟩
      exact .node (by decide) rfl ⟨rfl, Node.identifier_sound counter, rfl, hrange, rfl,
        ⟨_, rfl, sound_items body⟩, trivial⟩
  | branch condition body alternatives otherwise =>
      have hempty : Slot.Fills Node.Sound (.nodes Node.statementTypes) (.list (toNodes [])) :=
        ⟨[], rfl, fun _ hv => by cases hv⟩
      have hclauses : Slot.Fills Node.Sound (.nodes ["elseif_clause"])
          (.list (alternatives.map fun (condition, body) =>
            Node.elseifClause condition.toNode (toNodes body))) :=
        ⟨_, rfl, alternativeNodes_eq_map alternatives ▸ sound_alternatives alternatives⟩
      have helse : Slot.Fills Node.Sound (.nodes Node.statementTypes)
          (.list (toNodes (otherwise.getD []))) := ⟨_, rfl, sound_otherwise otherwise⟩
      rw [toNode_branch]
      exact .node (by decide) rfl
        ⟨rfl, condition.sound, rfl, hempty, rfl, hclauses, rfl, helse, trivial⟩
  | define name parameters body =>
      have hparameters : ∀ v ∈ parameters.map Node.identifier, Node.Sound ["identifier"] v := by
        intro v hv
        obtain ⟨x, -, rfl⟩ := List.mem_map.1 hv
        exact Node.identifier_sound x
      exact .node (by decide) rfl ⟨rfl, Node.identifier_sound name, rfl, ⟨_, rfl, hparameters⟩,
        rfl, ⟨_, rfl, sound_items body⟩, trivial⟩
  | call name arguments =>
      have harguments : ∀ v ∈ arguments.map Expr.toNode, Node.Sound Node.expressionTypes v := by
        intro v hv
        obtain ⟨e, -, rfl⟩ := List.mem_map.1 hv
        exact e.sound
      rw [toNode]
      cases isRefName name <;>
        exact .node (by decide) rfl
          ⟨rfl, Node.identifier_sound name, rfl, ⟨_, rfl, harguments⟩, trivial⟩
  | assign name value =>
      exact .node (by decide) rfl ⟨rfl, Node.identifier_sound name, rfl, value.sound, trivial⟩
  | eval e => exact e.sound.mono (by decide)

theorem sound_items (body : List Stmt) :
    ∀ v ∈ toNodes body, Node.Sound Node.statementTypes v := by
  cases body with
  | nil => exact fun _ hv => by cases hv
  | cons s body => exact List.forall_mem_cons.2 ⟨sound s, sound_items body⟩

theorem sound_alternatives (alternatives : List (Logic × List Stmt)) :
    ∀ v ∈ alternativeNodes alternatives, Node.Sound ["elseif_clause"] v := by
  cases alternatives with
  | nil => exact fun _ hv => by cases hv
  | cons alternative alternatives =>
      obtain ⟨condition, body⟩ := alternative
      have hclause : Node.Sound ["elseif_clause"]
          (Node.elseifClause condition.toNode (toNodes body)) :=
        .node (by decide) rfl ⟨rfl, condition.sound, rfl, ⟨_, rfl, sound_items body⟩, trivial⟩
      exact List.forall_mem_cons.2 ⟨hclause, sound_alternatives alternatives⟩

theorem sound_otherwise (otherwise : Option (List Stmt)) :
    ∀ v ∈ toNodes (otherwise.getD []), Node.Sound Node.statementTypes v := by
  cases otherwise with
  | none => exact fun _ hv => by cases hv
  | some body => exact sound_items body

end

end Stmt

theorem Program.sound (p : Program) : Node.Sound ("program" :: Node.statementTypes) p.toNode := by
  match p with
  | [s] => exact s.sound.mono (List.subset_cons_self _ _)
  | [] | _ :: _ :: _ =>
      exact .node List.mem_cons_self rfl ⟨rfl, ⟨_, rfl, Stmt.sound_items _⟩, trivial⟩

namespace Value

/-- A value is another one, or stands in it as an item of a list. -/
inductive Listed (v : Value) : Value → Prop where
  | self : Listed v v
  | item {w items} (hw : w ∈ items) (h : Listed v w) : Listed v (.list items)

/-- A value stands in a field of a record, by itself or as an item of a list. -/
def Part (v owner : Value) (key : String) : Prop := ∃ u, owner.field? key = some u ∧ v.Listed u

theorem Occurs.listed_or_part {v root : Value} (h : v.Occurs root) :
    v.Listed root ∨ ∃ owner key, owner.Occurs root ∧ v.Part owner key := by
  induction h with
  | here => exact .inl .self
  | item hw _ ih =>
      rcases ih with hlisted | ⟨owner, key, howner, hpart⟩
      · exact .inl (.item hw hlisted)
      · exact .inr ⟨owner, key, .item hw howner, hpart⟩
  | @field w u key hu _ ih =>
      rcases ih with hlisted | ⟨owner, key', howner, hpart⟩
      · exact .inr ⟨w, key, .here, u, hu, hlisted⟩
      · exact .inr ⟨owner, key', .field key hu howner, hpart⟩

theorem Listed.eq_of_isRecord {u v : Value} (h : v.Listed u) (hu : u.isRecord = true) : v = u := by
  cases h with
  | self => rfl
  | item => cases hu

end Value

/-- The types of the records that a slot has room for. -/
def Slot.types : Slot → List String
  | node types | optional types | nodes types | someNodes types => types
  | text | number => []

namespace Node

theorem isRecord_of_hasType {type : String} {v : Value} (h : hasType type v = true) :
    v.isRecord = true := by
  cases v with
  | record fields => rfl
  | _ => cases h

theorem hasType_unique {type other : String} {v : Value} (h : hasType type v = true)
    (h' : hasType other v = true) : type = other := by
  unfold hasType at h h'
  split at h
  · next t ht =>
    rw [ht] at h'
    exact (beq_iff_eq.1 h).symm.trans (beq_iff_eq.1 h')
  · cases h

end Node

/-- A record in a slot is of a type that the slot has room for. -/
theorem Slot.Fills.isOneOf {slot : Slot} {u v : Value} (hu : slot.Fills Node.IsOneOf u)
    (hv : v.Listed u) (hrecord : v.isRecord = true) : Node.IsOneOf slot.types v := by
  have hself : ∀ {types w}, Node.IsOneOf types w → v.Listed w → Node.IsOneOf types v := by
    rintro types w ⟨type, htype, hw⟩ hlisted
    rw [hlisted.eq_of_isRecord (Node.isRecord_of_hasType hw)]
    exact ⟨type, htype, hw⟩
  have hitem : ∀ {types items}, (∀ w ∈ items, Node.IsOneOf types w) → v.Listed (.list items) →
      Node.IsOneOf types v := by
    intro types items hitems hlisted
    cases hlisted with
    | self => cases hrecord
    | item hw h => exact hself (hitems _ hw) h
  cases slot with
  | node types => exact hself hu hv
  | optional types =>
      rcases hu with rfl | hu
      · cases hv
        cases hrecord
      · exact hself hu hv
  | nodes types =>
      obtain ⟨items, rfl, hitems⟩ := hu
      exact hitem hitems hv
  | someNodes types =>
      obtain ⟨w, items, rfl, hitems⟩ := hu
      exact hitem hitems hv
  | text =>
      obtain ⟨s, rfl⟩ := hu
      cases hv
      cases hrecord
  | number =>
      rcases hu with ⟨n, rfl⟩ | ⟨x, rfl⟩ <;>
      · cases hv
        cases hrecord

namespace Node

/-- Where the notes of a record stand. -/
def HoldsNote (owner : Value) (key : String) : Prop :=
  (hasType "note" owner = true ∧ key = "note_value") ∨
    ((hasType "note_array" owner = true ∨ hasType "chord_literal" owner = true) ∧ key = "notes")

/-- The record of a program or of a single statement, in which all records conform to the table.
So no record is one of the types that the table lacks, and notes stand only in the three
fields made for them. -/
structure WellFormed (root : Value) : Prop where
  isOneOf : IsOneOf ("program" :: statementTypes) root
  conforms : ∀ v, v.Occurs root → v.isRecord = true → Conforms v
  noReference : ∀ v, v.Occurs root → hasType "ref_identifier" v = false
  notes : ∀ v, v.Occurs root → hasType "note_literal" v = true →
    (∃ owner key, owner.Occurs root ∧ v.Part owner key) ∧
      ∀ owner key, owner.Occurs root → v.Part owner key → HoldsNote owner key

theorem Conforms.part {owner v : Value} {key : String} (howner : Conforms owner)
    (hv : v.Part owner key) (hrecord : v.isRecord = true) :
    ∃ type slots slot, layout.lookup type = some slots ∧ hasType type owner = true ∧
      (key, slot) ∈ slots ∧ IsOneOf slot.types v := by
  obtain ⟨type, slots, fields, rfl, hslots, hfields⟩ := howner
  obtain ⟨u, hu, hlisted⟩ := hv
  have hkey : key ≠ "type" := by
    rintro rfl
    cases hu
    cases hlisted
    cases hrecord
  rw [field?_node hkey] at hu
  obtain ⟨slot, hslot, hfills⟩ := hfields.of_lookup hu
  exact ⟨type, slots, slot, hslots, hasType_node type fields, hslot,
    hfills.isOneOf hlisted hrecord⟩

/-- In the table, notes have room in three places. -/
theorem slots_of_note : ∀ entry ∈ layout, ∀ slot ∈ entry.2, "note_literal" ∈ slot.2.types →
    (entry.1 = "note" ∧ slot.1 = "note_value") ∨
      ((entry.1 = "note_array" ∨ entry.1 = "chord_literal") ∧ slot.1 = "notes") := by
  decide

theorem Sound.wellFormed {root : Value} (h : Sound ("program" :: statementTypes) root) :
    WellFormed root := by
  refine ⟨h.isOneOf, h.conforms, fun v hv => ?_, fun v hv hnote => ⟨?_, ?_⟩⟩
  · rw [Bool.eq_false_iff]
    intro href
    obtain ⟨type, slots, fields, rfl, hslots, -⟩ := h.conforms v hv (isRecord_of_hasType href)
    cases hasType_unique (hasType_node type fields) href
    cases hslots
  · rcases hv.listed_or_part with hlisted | hpart
    · -- the whole is no note
      obtain ⟨type, htype, hroot⟩ := h.isOneOf
      rw [hlisted.eq_of_isRecord (isRecord_of_hasType hroot)] at hnote
      cases hasType_unique hroot hnote
      exact absurd htype (by decide)
    · exact hpart
  · intro owner key howner hpart
    have hrecord : owner.isRecord = true := by
      obtain ⟨u, hu, -⟩ := hpart
      cases owner with
      | record fields => rfl
      | _ => cases hu
    obtain ⟨type, slots, slot, hslots, htype, hslot, other, hother, hv⟩ :=
      (h.conforms owner howner hrecord).part hpart (isRecord_of_hasType hnote)
    cases hasType_unique hv hnote
    obtain ⟨before, after, hlayout, -⟩ := List.lookup_eq_some_iff.1 hslots
    have hentry : (type, slots) ∈ layout := by
      rw [hlayout]
      simp
    rcases slots_of_note _ hentry _ hslot hother with ⟨rfl, rfl⟩ | ⟨rfl | rfl, rfl⟩
    · exact .inl ⟨htype, rfl⟩
    · exact .inr ⟨.inl htype, rfl⟩
    · exact .inr ⟨.inr htype, rfl⟩

end Node

namespace Reader

/-- The record of an accepted text is well formed at any depth. -/
theorem wellFormed_of_read {text : String} {root : Value}
    (h : (read .full text).map Program.toNode = .ok root) : Node.WellFormed root := by
  cases hread : read .full text with
  | error r =>
      rw [hread] at h
      cases h
  | ok p =>
      rw [hread] at h
      cases h
      exact p.sound.wellFormed

theorem wellFormed_of_read_nested :
    let text := "fn f ( x ) \x7b\nloop 2 \x7b\nnote [ C4 , E4 ] , 1\n\x7d\n\x7d\nrest x / 2"
    let chord : Stmt := .note (.several ⟨"C4", ["E4"]⟩) (some ⟨['1'], none⟩)
    let half : Arith := .binary .div (.name "x") (.number ⟨['2'], none⟩)
    let p : Program :=
      [.define "f" ["x"] [.loop ⟨['2'], none⟩ [chord]], .rest (.logic (.arith half))]
    (read .full text).map Program.toNode = .ok p.toNode ∧ Node.WellFormed p.toNode := by
  intro text chord half p
  have htext : p.render = text := by decide
  have hread : read .full text = .ok p := htext ▸ Program.read_render (by decide)
  have hnode : (read .full text).map Program.toNode = .ok p.toNode := by rw [hread]; rfl
  exact ⟨hnode, wellFormed_of_read hnode⟩

/-- How long a rest is may be any expression, while the other durations are numbers. -/
theorem not_number_of_rest :
    ¬ ∀ text root, (read .full text).map Program.toNode = .ok root →
      ∀ v : Value, v.Occurs root → ∀ duration, v.field? "duration" = some duration →
        duration = .null ∨ Node.hasType "number" duration = true := by
  intro h
  let p : Program := [.rest (.logic (.arith (.name "x")))]
  have htext : p.render = "rest x" := by decide
  have hread : read .full "rest x" = .ok p := htext ▸ Program.read_render (by decide)
  rcases h "rest x" p.toNode (by rw [hread]; rfl) p.toNode .here _ rfl with hnull | hnumber
  · cases hnull
  · cases hnumber

end Reader
end TuneScript
