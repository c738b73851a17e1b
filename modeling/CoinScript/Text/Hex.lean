import CoinScript.Bytes
/-!
# Hexadecimal text

Byte strings are shown as lower-case digits, two for each byte. Reading accepts
both cases. A text with an odd number of bytes is refused first; otherwise the
first character that is no digit is reported by the first byte of its encoding and
its position. All characters before it are digits, so its position among
characters is its position among bytes.
-/

namespace CoinScript.Hex

/-- Why a text is not hexadecimal. -/
inductive Fault where
  /-- The text has an odd number of bytes. -/
  | oddLength
  /-- The byte at `position` is no digit. -/
  | invalidDigit (byte : UInt8) (position : Nat)
deriving DecidableEq, Repr

/-- The digit for a value below sixteen. -/
def digit (value : Nat) : Char :=
  if value < 10 then Char.ofNat (48 + value) else Char.ofNat (87 + value)

/-- The two digits of a byte, high half first. -/
def digits (b : UInt8) : List Char :=
  [digit (b.toNat / 16), digit (b.toNat % 16)]

/-- The digits of a byte string. -/
def encodeChars (bytes : Bytes) : List Char :=
  bytes.flatMap digits

/-- The text of a byte string. -/
def encode (bytes : Bytes) : String :=
  String.ofList (encodeChars bytes)

/-- The value of a digit of either case. -/
def value? (c : Char) : Option Nat :=
  let n := c.toNat
  if 48 ≤ n ∧ n ≤ 57 then some (n - 48)
  else if 97 ≤ n ∧ n ≤ 102 then some (n - 87)
  else if 65 ≤ n ∧ n ≤ 70 then some (n - 55)
  else none

/-- The first byte of a character's encoding. -/
def leadByte (c : Char) : UInt8 :=
  (String.utf8EncodeChar c).headD 0

/-- The value of the digit at `position`, or the fault there. -/
def valueAt (position : Nat) (c : Char) : Except Fault Nat :=
  match value? c with
  | some v => .ok v
  | none => .error (.invalidDigit (leadByte c) position)

/-- Read digits in pairs, starting at `position`. -/
def decodeFrom : Nat → List Char → Except Fault Bytes
  | _, [] => .ok []
  | position, [c] => do
    -- An even number of bytes leaves a last single character only if it is no digit.
    let _ ← valueAt position c
    .error .oddLength
  | position, high :: low :: rest => do
    let h ← valueAt position high
    let l ← valueAt (position + 1) low
    let bytes ← decodeFrom (position + 2) rest
    .ok (UInt8.ofNat (16 * h + l) :: bytes)

/-- The number of bytes of a text. -/
def byteLength (text : List Char) : Nat :=
  (String.ofList text).utf8ByteSize

/-- Read a text given as characters. -/
def decodeChars (text : List Char) : Except Fault Bytes :=
  if byteLength text % 2 = 1 then .error .oddLength else decodeFrom 0 text

/-- Read a text. -/
def decode (text : String) : Except Fault Bytes :=
  decodeChars text.toList

/-- The two digits of one byte, as in a code written `0xba`. -/
def byteText (b : UInt8) : String :=
  String.ofList (digits b)

end CoinScript.Hex
