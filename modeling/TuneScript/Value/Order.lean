import TuneScript.Value.Number

/-!
Equality and order of values. Numbers compare as exact quantities, texts by code point,
lists by their first difference, records by their fields whatever their order. An undefined
number equals nothing, itself included; as a part of a list or record, and as a key, it is
nevertheless the same as itself.
-/

namespace TuneScript

/-- The comparison operators. -/
inductive Relation where
  | eq | ne | lt | gt | le | ge
  deriving DecidableEq

namespace Relation

def symbol : Relation → String
  | eq => "=="
  | ne => "!="
  | lt => "<"
  | gt => ">"
  | le => "<="
  | ge => ">="

/-- Whether the relation holds of two things in this order. -/
def holds : Relation → Ordering → Bool
  | eq, o => o == .eq
  | ne, o => o != .eq
  | lt, o => o == .lt
  | gt, o => o == .gt
  | le, o => o != .gt
  | ge, o => o != .lt

end Relation

namespace Value

/-- Whether two values are one undefined number. -/
def sameMark : Value → Value → Bool
  | nan m, nan n => m == n
  | _, _ => false

mutual

def equal : Value → Value → Bool
  | null, null => true
  | text a, text b => a == b
  | list a, list b => equalItems a b
  | record a, record b => a.length == b.length && equalFields a b
  | a, b =>
    match a.number?, b.number? with
    | some m, some n => m.compare? n == some .eq
    | _, _ => false

def equalItems : List Value → List Value → Bool
  | [], [] => true
  | a :: as, b :: bs => (sameMark a b || equal a b) && equalItems as bs
  | _, _ => false

def equalFields : List (String × Value) → List (String × Value) → Bool
  | [], _ => true
  | (key, a) :: rest, other =>
    (match other.lookup key with
    | some b => sameMark a b || equal a b
    | none => false) && equalFields rest other

end

/-- Whether two parts, or two keys, count as the same. -/
def same (a b : Value) : Bool := sameMark a b || equal a b

def textOrder (a b : String) : Ordering :=
  if a == b then .eq else if a < b then .lt else .gt

mutual

/-- One of the four order relations between two values. -/
def related (r : Relation) : Value → Value → Result Bool
  | text a, text b => .ok (r.holds (textOrder a b))
  | list a, list b => relatedItems r a b
  | a, b =>
    match a.number?, b.number? with
    | some m, some n => .ok ((m.compare? n).any r.holds)
    | _, _ => .error (.notComparable r.symbol a.kind b.kind)

/-- Lists compare at their first difference, or else by their lengths. -/
def relatedItems (r : Relation) : List Value → List Value → Result Bool
  | [], [] => .ok (r.holds .eq)
  | [], _ :: _ => .ok (r.holds .lt)
  | _ :: _, [] => .ok (r.holds .gt)
  | a :: as, b :: bs => if same a b then relatedItems r as bs else related r a b

end

/-- The value of a comparison; equality is defined between all values. -/
def compare (r : Relation) (a b : Value) : Result Bool :=
  match r with
  | .eq => .ok (equal a b)
  | .ne => .ok (!equal a b)
  | r => related r a b

/-- Lists and records cannot serve as keys. -/
def requireKey : Value → Result Unit
  | list _ => .error (.unhashable Kind.list.name)
  | record _ => .error (.unhashable Kind.record.name)
  | _ => .ok ()

end Value
end TuneScript
