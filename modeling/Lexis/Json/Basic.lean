/-!
  Lexis.Json.Basic

  JSON values. The fields of an object keep the order in which they are written.
-/

namespace Lexis

/-- A JSON value. -/
inductive Json where
  | null
  | bool (b : Bool)
  /-- A number written without a fraction and without an exponent. -/
  | integer (n : Int)
  /-- The number `mantissa · 10 ^ exponent`, written in any other way. -/
  | decimal (mantissa exponent : Int)
  | string (s : String)
  | array (items : List Json)
  | object (fields : List (String × Json))
deriving Inhabited

namespace Json

/-- A natural number as a value. -/
def ofNat (n : Nat) : Json := .integer n

/-- A list of texts as a value. -/
def ofStrings (ss : List String) : Json := .array (ss.map .string)

/-- The natural number below `limit` that a value is. -/
def natBelow? (limit : Nat) : Json → Option Nat
  | .integer (.ofNat n) => if n < limit then some n else none
  | _ => none

/-- The truth value that a value is. -/
def bool? : Json → Option Bool
  | .bool b => some b
  | _ => none

/-- The text that a value is. -/
def string? : Json → Option String
  | .string s => some s
  | _ => none

/-- The list of texts that a value is. -/
def strings? : Json → Option (List String)
  | .array items => items.mapM string?
  | _ => none

/-- The fields of a record: by name from an object, or by position from an array that has no more
    items than the record has fields. -/
def record? (names : List String) : Json → Option (List (Option Json))
  | .object fields => some (names.map fun n => fields.lookup n)
  | .array items =>
    if items.length ≤ names.length then some ((List.range names.length).map fun i => items[i]?)
    else none
  | _ => none

/-- A field of a record that may be missing. -/
def fieldOr {α : Type} (default : α) (read : Json → Option α) : Option Json → Option α
  | none => some default
  | some v => read v

/-- The name of a choice without contents: the name itself, or an object that gives it `null`. -/
def choice? : Json → Option String
  | .string s => some s
  | .object [(name, .null)] => some name
  | _ => none

end Json

end Lexis
