/-!
# JSON values

* `Json`            a JSON value; whole numbers are kept apart from decimal fractions, and an object
                    keeps the order of its fields
* `Json.field?`     a field of an object
* `Json.record`     an object of the fields that have a value
-/

namespace LanguageService

/-- The number `mantissa · 10 ^ -places`. -/
structure Decimal where
  mantissa : Int
  places : Nat
deriving DecidableEq, Repr

inductive Json where
  | null
  | bool (b : Bool)
  | int (n : Int)
  | real (d : Decimal)
  | string (s : String)
  | array (items : List Json)
  | object (fields : List (String × Json))
deriving Inhabited

namespace Json

def nat (n : Nat) : Json :=
  int n

/-- a field of an object; a field that holds null counts as absent -/
def field? (name : String) : Json → Option Json
  | object fields =>
    match fields.lookup name with
    | some null => none
    | v => v
  | _ => none

/-- an object of those fields that have a value -/
def record (fields : List (String × Option Json)) : Json :=
  object (fields.filterMap fun f => f.2.map fun v => (f.1, v))

def string? : Json → Option String
  | string s => some s
  | _ => none

def bool? : Json → Option Bool
  | bool b => some b
  | _ => none

def array? : Json → Option (List Json)
  | array items => some items
  | _ => none

end Json
end LanguageService
