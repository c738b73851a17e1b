import CoinScript.Hash.Sha256
import CoinScript.Text.Quoted
/-!
# Base-58 text with a checksum

A byte string is written as its number in base 58, behind one `1` for each leading
zero byte. The alphabet leaves out `0`, `O`, `I` and `l`. With a checksum, the first
four bytes of the double SHA-256 of the payload follow the payload.

Reading goes from left to right: an unknown character is reported where it stands,
unless the number has outgrown `sizeLimit` bytes before.
-/

namespace CoinScript.Base58

/-- Why a text is not base 58 with a valid checksum. -/
inductive Fault where
  /-- The byte at `position` is no digit. -/
  | invalidCharacter (byte : UInt8) (position : Nat)
  /-- The number takes more than `sizeLimit` bytes. -/
  | invalidLength
  /-- The checksum is missing or does not match. -/
  | invalidChecksum
deriving DecidableEq, Repr

/-- The text of a fault. -/
def Fault.message : Fault → String
  | invalidCharacter byte position =>
    "InvalidBase58(InvalidBase58Character(" ++ Quoted.byte byte ++ ", " ++ toString position ++ "))"
  | invalidLength => "InvalidBase58(InvalidBase58Length)"
  | invalidChecksum => "InvalidChecksum"

/-- The digits, in the order of their values. -/
def alphabet : List Char :=
  ['1', '2', '3', '4', '5', '6', '7', '8', '9',
   'A', 'B', 'C', 'D', 'E', 'F', 'G', 'H', 'J', 'K', 'L', 'M', 'N', 'P', 'Q', 'R', 'S', 'T', 'U',
   'V', 'W', 'X', 'Y', 'Z',
   'a', 'b', 'c', 'd', 'e', 'f', 'g', 'h', 'i', 'j', 'k', 'm', 'n', 'o', 'p', 'q', 'r', 's', 't',
   'u', 'v', 'w', 'x', 'y', 'z']

/-- The digit of a value below 58. -/
def digit (value : Nat) : Char :=
  alphabet.getD value '1'

/-- The value of a digit. -/
def value? (c : Char) : Option Nat :=
  alphabet.findIdx? (· == c)

/-- The largest number of bytes that is read. -/
def sizeLimit : Nat := 132

/-- Numbers below this fit into `sizeLimit` bytes. -/
def numberLimit : Nat := 1 <<< (8 * sizeLimit)

/-! ## Plain text -/

/-- The digits of a number, lowest first; zero has none. -/
def digitsLE (n : Nat) : List Char :=
  if n = 0 then [] else digit (n % 58) :: digitsLE (n / 58)
termination_by n
decreasing_by omega

/-- The text of a byte string. -/
def encode (bytes : Bytes) : List Char :=
  let zeros := (bytes.takeWhile (· == 0)).length
  List.replicate zeros '1' ++ (digitsLE (Bytes.toNatBE bytes)).reverse

/-- Read digits on top of the number `n` of those before `position`. -/
def numberFrom : Nat → Nat → List Char → Except Fault Nat
  | _, n, [] => .ok n
  | position, n, c :: rest =>
    match value? c with
    | none => .error (.invalidCharacter (Hex.leadByte c) position)
    | some v =>
      let m := 58 * n + v
      if m < numberLimit then numberFrom (position + 1) m rest else .error .invalidLength

/-- Read a text. -/
def decode (text : List Char) : Except Fault Bytes := do
  let zeros := (text.takeWhile (· == '1')).length
  let n ← numberFrom zeros 0 (text.drop zeros)
  .ok (List.replicate zeros 0 ++ (Bytes.minimalLE n).reverse)

/-! ## With a checksum -/

/-- The first four bytes of the double SHA-256. -/
def checksum (payload : Bytes) : Bytes :=
  (Hash.sha256d payload).bytes.take 4

/-- The text of a payload and its checksum. -/
def encodeCheck (payload : Bytes) : String :=
  String.ofList (encode (payload ++ checksum payload))

/-- Read a payload of at least one byte and check its checksum. -/
def decodeCheck (text : String) : Except Fault Bytes := do
  let bytes ← decode text.toList
  let payload := bytes.take (bytes.length - 4)
  if bytes.length < 5 ∨ checksum payload ≠ bytes.drop (bytes.length - 4) then
    .error .invalidChecksum
  else
    .ok payload

end CoinScript.Base58
