import TuneScript.Value.Order

/-!
Tables whose keys are values. Keys that are equal are the same key, whatever their kind; so
is an undefined number with itself. Keys keep the order of their first entry.
-/

namespace TuneScript

abbrev Table (α : Type) := List (Value × α)

namespace Table

variable {α : Type}

def find? (table : Table α) (key : Value) : Option α :=
  (List.find? (fun entry => entry.1.same key) table).map (·.2)

/-- Changes the entry of a key, or makes a new one at the end. -/
def update (table : Table α) (key : Value) (change : Option α → α) : Table α :=
  match table with
  | [] => [(key, change none)]
  | (k, a) :: rest =>
    if k.same key then (k, change (some a)) :: rest else (k, a) :: update rest key change

def insert (table : Table α) (key : Value) (a : α) : Table α := table.update key fun _ => a

end Table
end TuneScript
