/-!
The dynamic values of the language: what programs compute with, and the nodes that a
program itself is written as. Records keep their fields in the order of writing.
-/

namespace TuneScript

inductive Value where
  | null
  | bool (b : Bool)
  | int (n : Int)
  | float (x : Float)
  /-- An undefined number that was written down; its mark tells it from others. -/
  | nan (mark : Nat)
  | text (s : String)
  | list (items : List Value)
  | record (fields : List (String × Value))
  deriving Inhabited

/-- The kinds of values. -/
inductive Kind where
  | null | bool | int | float | text | list | record
  deriving DecidableEq

/-- How messages call a kind. -/
def Kind.name : Kind → String
  | .null => "NoneType"
  | .bool => "bool"
  | .int => "int"
  | .float => "float"
  | .text => "str"
  | .list => "list"
  | .record => "dict"

namespace Value

def kind : Value → Kind
  | null => .null
  | bool _ => .bool
  | int _ => .int
  | float _ | nan _ => .float
  | text _ => .text
  | list _ => .list
  | record _ => .record

def isRecord : Value → Bool
  | record _ => true
  | _ => false

/-- Zero, the empty text, the empty list, the empty record and the null value count as false. -/
def truthy : Value → Bool
  | null => false
  | bool b => b
  | int n => n != 0
  | float x => !(x == 0.0)
  | nan _ => true
  | text s => !s.isEmpty
  | list items => !items.isEmpty
  | record fields => !fields.isEmpty

/-- The field of a record; other values have none. -/
def field? (key : String) : Value → Option Value
  | record fields => fields.lookup key
  | _ => none

theorem sizeOf_lookup_lt {key : String} {v : Value} {fields : List (String × Value)}
    (h : fields.lookup key = some v) : sizeOf v < sizeOf fields := by
  induction fields with
  | nil => simp at h
  | cons f fs ih =>
    obtain ⟨k, w⟩ := f
    rw [List.lookup_cons] at h
    split at h
    · simp only [Option.some.injEq] at h
      subst h
      simp only [List.cons.sizeOf_spec, Prod.mk.sizeOf_spec]
      omega
    · have := ih h
      simp only [List.cons.sizeOf_spec]
      omega

/-- A field is smaller than the record that holds it, so evaluation may go into it. -/
theorem sizeOf_field_lt {key : String} {v w : Value} (h : v.field? key = some w) :
    sizeOf w < sizeOf v := by
  cases v with
  | record fields =>
    have := sizeOf_lookup_lt h
    simp only [record.sizeOf_spec]
    omega
  | _ => simp [field?] at h

end Value
end TuneScript
