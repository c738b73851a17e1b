import CoinScript.Json.Value
/-!
# Reading typed data from JSON

Decoders read a syntax tree. A record is written as an object or as the list of its
fields in order. In an object, unknown keys are passed over unseen and a known key
may stand only once. Fields may be missing where they have a default; an optional
field may be missing from an object, but a list that stops before it is too short.
-/

namespace CoinScript.Json

/-- Reads a value of a type from a tree. -/
abbrev Decoder (α : Type) := Tree → Option α

namespace Decoder

/-- A truth value. -/
def bool : Decoder Bool
  | .bool b => some b
  | _ => none

/-- A text. -/
def string : Decoder String
  | .string s => s
  | _ => none

/-- An integer from `low` to `high`. -/
def integer (low high : Int) : Decoder Int
  | .number (.integer n) => if low ≤ n ∧ n ≤ high then some n else none
  | _ => none

/-- A natural number below `bound`. -/
def natBelow (bound : Nat) : Decoder Nat := fun tree =>
  (integer 0 (bound - 1) tree).map Int.toNat

/-- A list. -/
def list {α : Type} (item : Decoder α) : Decoder (List α)
  | .array items => items.mapM item
  | _ => none

/-- A value or null. -/
def nullable {α : Type} (value : Decoder α) : Decoder (Option α)
  | .null => some none
  | tree => (value tree).map some

/-- One of the values of an enumeration, by its name or as an object from its name to null. -/
def choice {α : Type} (name : α → String) (values : List α) : Decoder α
  | .string (some s) => values.find? fun v => name v == s
  | .object [(some s, .null)] => values.find? fun v => name v == s
  | _ => none

end Decoder

/-- The fields of a record, in order, as far as they are there. -/
structure Fields where
  values : List (Option Tree)
  /-- Whether the record is written as a list. -/
  isList : Bool

namespace Fields

/-- The tree of a key, if the key stands at most once. -/
def unique? (key : String) (members : List (String × Tree)) : Option (Option Tree) :=
  match members.filter fun member => member.1 == key with
  | [] => some none
  | [(_, tree)] => some (some tree)
  | _ => none

/-- The fields of a record with the given field names. -/
def read? (names : List String) : Tree → Option Fields
  | .object members => do
    let members ← members.mapM fun (key, tree) => key.map fun key => (key, tree)
    let values ← names.mapM fun name => unique? name members
    return ⟨values, false⟩
  | .array items =>
    if items.length ≤ names.length then
      some ⟨items.map some ++ List.replicate (names.length - items.length) none, true⟩
    else none
  | _ => none

/-- The tree of the field at a place. -/
def tree? (fields : Fields) (place : Nat) : Option Tree :=
  (fields.values[place]?).join

/-- A field that must be there. -/
def required {α : Type} (fields : Fields) (place : Nat) (value : Decoder α) : Option α :=
  (fields.tree? place).bind value

/-- A field with a default. -/
def withDefault {α : Type} (fields : Fields) (place : Nat) (default : α) (value : Decoder α) :
    Option α :=
  match fields.tree? place with
  | some tree => value tree
  | none => some default

/-- A field that may be null, and missing from an object. -/
def optional {α : Type} (fields : Fields) (place : Nat) (value : Decoder α) : Option (Option α) :=
  match fields.tree? place with
  | some tree => Decoder.nullable value tree
  | none => if fields.isList then none else some none

end Fields

end CoinScript.Json
