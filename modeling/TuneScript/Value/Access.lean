import TuneScript.Value.Printer

/-!
Looking inside values: fields of records, items of lists, characters of texts.
-/

namespace TuneScript.Value

/-- A field, or `default` when the record lacks it; only records can be asked. -/
def get (v : Value) (key : String) (default : Value) : Result Value :=
  match v with
  | record fields => .ok ((fields.lookup key).getD default)
  | v => .error (.noAttribute v.kind.name "get")

/-- A field that has to be there. -/
def item (v : Value) (key : String) : Result Value :=
  match v with
  | record fields =>
    match fields.lookup key with
    | some w => .ok w
    | none => .error (.missingKey (Text.quoted key))
  | text _ => .error (.textIndex Kind.text.name)
  | list _ => .error (.listIndex Kind.text.name)
  | v => .error (.notSubscriptable v.kind)

/-- The items of a list, the characters of a text, the keys of a record. -/
def elements : Value → Result (List Value)
  | list items => .ok items
  | text s => .ok (s.toList.map fun c => text (String.singleton c))
  | record fields => .ok (fields.map fun (key, _) => text key)
  | v => .error (.notIterable v.kind)

def length : Value → Result Nat
  | list items => .ok items.length
  | text s => .ok s.length
  | record fields => .ok fields.length
  | v => .error (.noLength v.kind)

def nthItem {α : Type} (sequence : Sequence) (items : List α) (i : Nat) : Result α :=
  match items[i]? with
  | some v => .ok v
  | none => .error (.outOfRange sequence)

/-- The item at a position; a record is asked for the position as a key. -/
def nth (v : Value) (i : Nat) : Result Value :=
  match v with
  | list items => nthItem .list items i
  | text s => (nthItem .text s.toList i).map fun c => text (String.singleton c)
  | record _ => .error (.missingKey (toString i))
  | v => .error (.notSubscriptable v.kind)

/-- Joins texts; the message of a failure names the first item that is none. -/
def joinFrom (i : Nat) : List Value → Result (List String)
  | [] => .ok []
  | text s :: rest => (joinFrom (i + 1) rest).map (s :: ·)
  | v :: _ => .error (.notText i v.kind)

def join (separator : String) (v : Value) : Result String :=
  match v.elements with
  | .ok items => (joinFrom 0 items).map separator.intercalate
  | .error _ => .error .cannotJoin

end TuneScript.Value
