import CoinScript.Json.Value
import CoinScript.Text.Hex
/-!
# Writing JSON

The compact form has no blanks; the indented form has one member or item a line, two
blanks a level, and leaves empty containers closed.
-/

namespace CoinScript.Json

/-- The escape of a character in a string. -/
def escapeChar (c : Char) : List Char :=
  match c with
  | '"' => ['\\', '"']
  | '\\' => ['\\', '\\']
  | '\n' => ['\\', 'n']
  | '\r' => ['\\', 'r']
  | '\t' => ['\\', 't']
  | c =>
    if c.toNat = 8 then ['\\', 'b']
    else if c.toNat = 12 then ['\\', 'f']
    else if c.toNat < 0x20 then ['\\', 'u', '0', '0'] ++ Hex.digits (UInt8.ofNat c.toNat)
    else [c]

/-- The text of a string, with its quotes. -/
def quote (s : String) : String :=
  String.ofList ('"' :: s.toList.flatMap escapeChar ++ ['"'])

namespace Value

mutual

/-- The compact text of a value. -/
def compact : Value → String
  | null => "null"
  | bool b => if b then "true" else "false"
  | integer n => toString n
  | real x => Real.text x
  | string s => quote s
  | array items => "[" ++ String.intercalate "," (compactItems items) ++ "]"
  | object members => "\x7b" ++ String.intercalate "," (compactMembers members) ++ "\x7d"

/-- The compact texts of items. -/
def compactItems : List Value → List String
  | [] => []
  | item :: rest => item.compact :: compactItems rest

/-- The compact texts of members. -/
def compactMembers : List (String × Value) → List String
  | [] => []
  | (key, value) :: rest => (quote key ++ ":" ++ value.compact) :: compactMembers rest

end

/-- The start of a line at a level. -/
def indent (level : Nat) : String :=
  String.ofList (List.replicate (2 * level) ' ')

/-- The indented text of a container, one part a line. -/
def indentBlock (opening closing : String) (level : Nat) (parts : List String) : String :=
  match parts with
  | [] => opening ++ closing
  | parts =>
    opening ++ "\n" ++
      String.intercalate ",\n" (parts.map fun part => indent (level + 1) ++ part) ++
      "\n" ++ indent level ++ closing

mutual

/-- The indented text of a value at a level. -/
def indented (level : Nat) : Value → String
  | null => "null"
  | bool b => if b then "true" else "false"
  | integer n => toString n
  | real x => Real.text x
  | string s => quote s
  | array items => indentBlock "[" "]" level (indentedItems (level + 1) items)
  | object members => indentBlock "\x7b" "\x7d" level (indentedMembers (level + 1) members)

/-- The indented texts of items. -/
def indentedItems (level : Nat) : List Value → List String
  | [] => []
  | item :: rest => indented level item :: indentedItems level rest

/-- The indented texts of members. -/
def indentedMembers (level : Nat) : List (String × Value) → List String
  | [] => []
  | (key, value) :: rest =>
    (quote key ++ ": " ++ indented level value) :: indentedMembers level rest

end

/-- The indented text of a value. -/
def pretty (value : Value) : String :=
  value.indented 0

end Value

end CoinScript.Json
