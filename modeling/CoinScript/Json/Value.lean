import CoinScript.Json.Real
import CoinScript.Json.Tree
/-!
# JSON values

A value is what a syntax tree stands for when all of it counts: strings are texts,
integers fit 64 bits, other numbers are finite real numbers, containers are not
nested too deeply, and of repeated keys the last one wins.

`merge` lays one value over another: members of objects are merged one by one, and
everything else is replaced.
-/

namespace CoinScript.Json

/-- A JSON value. Members of an object are in the order of their first insertion. -/
inductive Value where
  | null
  | bool (b : Bool)
  | integer (n : Int)
  | real (x : Float)
  | string (s : String)
  | array (items : List Value)
  | object (members : List (String × Value))

/-! ## Members -/

/-- The members of an object. -/
abbrev Members := List (String × Value)

namespace Members

/-- The value of a key. -/
def get? (key : String) : Members → Option Value
  | [] => none
  | (k, v) :: rest => if k = key then some v else get? key rest

/-- Set the value of a key, in its place if the key is there. -/
def insert (key : String) (value : Value) : Members → Members
  | [] => [(key, value)]
  | (k, v) :: rest => if k = key then (k, value) :: rest else (k, v) :: insert key value rest

/-- Members given one after the other; a later value of a key replaces an earlier one. -/
def ofList (pairs : List (String × Value)) : Members :=
  pairs.foldl (fun members (key, value) => insert key value members) []

end Members

namespace Value

/-- The members of an object. -/
def members? : Value → Option Members
  | object members => some members
  | _ => none

/-- The value of a key of an object. -/
def get? (value : Value) (key : String) : Option Value :=
  value.members?.bind (Members.get? key)

/-- The value at the end of a path of keys. -/
def getPath? : Value → List String → Option Value
  | value, [] => some value
  | value, key :: rest => (value.get? key).bind fun value => getPath? value rest

/-- Whether a value is an object. -/
def isObject : Value → Bool
  | object _ => true
  | _ => false

/-! ## Merging -/

mutual

/-- Lay a value over another. -/
def merge (base : Value) : Value → Value
  | object overlay =>
    match base with
    | object members => object (mergeMembers members overlay)
    | _ => object overlay
  | overlay => overlay

/-- Lay members over others, one by one. -/
def mergeMembers (base : Members) : List (String × Value) → Members
  | [] => base
  | (key, value) :: rest =>
    let merged := match Members.get? key base with
      | some existing => merge existing value
      | none => value
    mergeMembers (Members.insert key merged base) rest

end

end Value

/-! ## From syntax -/

/-- The number of containers that may be open at once. -/
def maxDepth : Nat := 127

/-- The value of a number. -/
def Numeral.toValue? : Numeral → Option Value
  | integer n => some (.integer n)
  | decimal negative whole fraction exponent =>
    (Real.read? negative whole fraction exponent).map .real

/-- The value of a tree with at most `depth` nested containers. -/
def Tree.toValue? : Nat → Tree → Option Value
  | _, .null => some .null
  | _, .bool b => some (.bool b)
  | _, .number n => n.toValue?
  | _, .string s => s.map .string
  | 0, .array _ => none
  | 0, .object _ => none
  | depth + 1, .array items => do
    let items ← items.mapM (toValue? depth)
    return .array items
  | depth + 1, .object members => do
    let members ← members.mapM fun (key, tree) => do
      let key ← key
      let value ← toValue? depth tree
      return (key, value)
    return .object (Members.ofList members)

/-- The value of a text. -/
def Value.parse? (text : String) : Option Value := do
  let tree ← Tree.parse? text
  tree.toValue? maxDepth

/-! ## To syntax -/

/-- The decimal digits of a number, highest first. -/
def digitsOf (n : Nat) : List Nat :=
  (Nat.toDigits 10 n).map fun c => c.toNat - 48

mutual

/-- A tree for a value. -/
def Value.toTree : Value → Tree
  | .null => .null
  | .bool b => .bool b
  | .integer n => .number (.integer n)
  | .real x =>
    let (negative, digits, exponent) := Real.expansion x
    .number (.decimal negative (digitsOf digits) [] exponent)
  | .string s => .string (some s)
  | .array items => .array (itemsToTree items)
  | .object members => .object (membersToTree members)

/-- Trees for the items of an array. -/
def itemsToTree : List Value → List Tree
  | [] => []
  | item :: rest => item.toTree :: itemsToTree rest

/-- Trees for the members of an object. -/
def membersToTree : List (String × Value) → List (Chars × Tree)
  | [] => []
  | (key, value) :: rest => (some key, value.toTree) :: membersToTree rest

end

end CoinScript.Json
