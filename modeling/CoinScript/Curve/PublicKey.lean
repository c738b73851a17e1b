import CoinScript.Bytes
import CoinScript.Curve.Point
/-!
# Public keys

A public key is a point of the curve other than the neutral one. It is read from
its short form (`02` or `03` and the x coordinate), its long form (`04` and both
coordinates) or its hybrid form (`06` or `07`, both coordinates, the first byte
agreeing with the parity of y), and written in its short form.
-/

namespace CoinScript

/-- The coordinates of a point of the curve. -/
structure PublicKey where
  x : Nat
  y : Nat
deriving DecidableEq, Repr

namespace PublicKey

open Curve

/-- The key with the given x coordinate and parity of y. -/
def ofX? (x : Nat) (odd : Bool) : Option PublicKey :=
  if x < fieldPrime then
    (Modular.sqrt? fieldPrime (rightSide x)).map fun y =>
      if (y % 2 == 1) == odd then ⟨x, y⟩ else ⟨x, fieldPrime - y⟩
  else none

/-- The key with the given coordinates, if they lie on the curve. -/
def ofCoordinates? (x y : Nat) : Option PublicKey :=
  if isOnCurve x y then some ⟨x, y⟩ else none

/-- Read a key from any of its forms. -/
def ofBytes? : Bytes → Option PublicKey
  | [] => none
  | tag :: body =>
    if body.length = 32 then
      if tag = 0x02 then ofX? (Bytes.toNatBE body) false
      else if tag = 0x03 then ofX? (Bytes.toNatBE body) true
      else none
    else if body.length = 64 then
      let x := Bytes.toNatBE (body.take 32)
      let y := Bytes.toNatBE (body.drop 32)
      if tag = 0x04 || (tag = 0x06 && y % 2 == 0) || (tag = 0x07 && y % 2 == 1) then
        ofCoordinates? x y
      else none
    else none

/-- The short form of a key. -/
def serialize (key : PublicKey) : Digest 33 :=
  ⟨(if key.y % 2 = 0 then 0x02 else 0x03) :: Bytes.ofNatBE 32 key.x, by simp⟩

/-- The key as a point. -/
def toPoint (key : PublicKey) : Point :=
  .affine key.x key.y

end PublicKey

end CoinScript
