import CoinScript.Error
/-!
# Numbers and truth values on the stack

A number is a little-endian magnitude whose last byte carries the sign in its top
bit. Several items stand for one number; `Number.encode` writes the shortest.
An item is true unless it is a zero of either sign and any length.
-/

namespace CoinScript.Number

/-- The shortest item that stands for a number. -/
def encode (value : Int) : Bytes :=
  let magnitude := Bytes.minimalLE value.natAbs
  match magnitude.getLast? with
  | none => []
  | some last =>
    -- A magnitude that takes the top bit needs one more byte for the sign.
    if last ≥ 0x80 then magnitude ++ [if value < 0 then 0x80 else 0x00]
    else if value < 0 then magnitude.dropLast ++ [last ||| 0x80]
    else magnitude

/-- The number that an item of any length stands for. -/
def value (item : Bytes) : Int :=
  match item.getLast? with
  | none => 0
  | some last =>
    let magnitude := Bytes.toNatLE (item.dropLast ++ [last &&& 0x7f])
    if last ≥ 0x80 then -(magnitude : Int) else magnitude

/-- The number that an item of at most `limit` bytes stands for. -/
def decode (limit : Nat) (item : Bytes) : Except Error Int :=
  if item.length > limit then .error (.structural (.numberTooLong item.length limit))
  else .ok (value item)

end CoinScript.Number

namespace CoinScript.Truth

/-- The item of a truth value. -/
def encode (b : Bool) : Bytes :=
  if b then [1] else []

/-- Whether an item counts as true. -/
def decode : Bytes → Bool
  | [] => false
  | [b] => b != 0 && b != 0x80
  | b :: rest => b != 0 || decode rest

end CoinScript.Truth
