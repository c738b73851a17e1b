import CoinScript.Text.Hex
/-!
# Quoted characters

A message that names an offending byte shows it as the character with that code,
between single quotes. The quote and the backslash are escaped, the common blanks
have their short escapes, and every other code without a visible form is written
as a hexadecimal escape.
-/

namespace CoinScript.Quoted

/-- Codes below 256 that have no visible form and no short escape. -/
def isHidden (b : UInt8) : Bool :=
  b < 0x20 || (0x7f ≤ b && b ≤ 0xa0) || b == 0xad

/-- The hexadecimal digits of a code, without leading zeros. -/
def shortHex (b : UInt8) : List Char :=
  if b < 16 then [Hex.digit b.toNat] else Hex.digits b

/-- The character with code `b`, escaped where it must be. -/
def escape (b : UInt8) : List Char :=
  if b == 0 then ['\\', '0']
  else if b == 9 then ['\\', 't']
  else if b == 10 then ['\\', 'n']
  else if b == 13 then ['\\', 'r']
  else if b == 39 then ['\\', '\'']
  else if b == 92 then ['\\', '\\']
  else if isHidden b then ['\\', 'u', '\x7b'] ++ shortHex b ++ ['\x7d']
  else [Char.ofNat b.toNat]

/-- The quoted form of the character with code `b`. -/
def byte (b : UInt8) : String :=
  String.ofList ('\'' :: escape b ++ ['\''])

end CoinScript.Quoted
