import CoinScript.Ecdsa.Verify
import CoinScript.Error
import CoinScript.Flags
/-!
# Encoding rules for signatures and keys

Before a signature is checked, its form and the form of the key may be subject to
rules. A signature here still carries its hash type as its last byte. The empty
signature passes every rule: it is the short way to give a failing one.
-/

namespace CoinScript.SignatureEncoding

/-- Whether the bytes are `30 len 02 lr R 02 ls S ht` with R and S positive-looking and as short
as possible. -/
def isStrictDer (sig : Bytes) : Bool :=
  let byte (i : Nat) : UInt8 := sig.getD i 0
  let size := sig.length
  let lenR := (byte 3).toNat
  let lenS := (byte (5 + lenR)).toNat
  decide (9 ≤ size) && decide (size ≤ 73) &&
  byte 0 == 0x30 && (byte 1).toNat == size - 3 &&
  decide (5 + lenR < size) && lenR + lenS + 7 == size &&
  byte 2 == 0x02 && lenR != 0 && byte 4 &&& 0x80 == 0 &&
  !(decide (lenR > 1) && byte 4 == 0x00 && byte 5 &&& 0x80 == 0) &&
  byte (lenR + 4) == 0x02 && lenS != 0 && byte (lenR + 6) &&& 0x80 == 0 &&
  !(decide (lenS > 1) && byte (lenR + 6) == 0x00 && byte (lenR + 7) &&& 0x80 == 0)

/-- Whether the `s` of a signature without its hash type can be read and is low. -/
def isLowDer (der : Bytes) : Bool :=
  match Signature.ofDerLax? der with
  | some sig => sig.isLow
  | none => false

/-- Whether the last byte is a defined hash type. -/
def isDefinedHashType (sig : Bytes) : Bool :=
  match sig.getLast? with
  | none => false
  | some hashType =>
    let base := hashType &&& 0x7f
    0x01 ≤ base && base ≤ 0x03

/-- Whether the first byte and the length fit the short or the long form of a key. -/
def isStandardKey : Bytes → Bool
  | [] => false
  | tag :: body =>
    if tag == 0x02 || tag == 0x03 then body.length == 32
    else if tag == 0x04 then body.length == 64
    else false

/-- The rules for a signature. -/
def checkSignature (flags : Flags) (sig : Bytes) : Except Error Unit :=
  if sig = [] then .ok ()
  else if (flags.strictEncoding || flags.lowS) && !isStrictDer sig then
    .error (.cryptoDelegate .notStrictDer)
  else if flags.lowS && !isLowDer sig.dropLast then .error (.cryptoDelegate .highS)
  else if flags.strictEncoding && !isDefinedHashType sig then
    .error (.cryptoDelegate .undefinedHashType)
  else .ok ()

/-- The rule for a key. -/
def checkPublicKey (flags : Flags) (key : Bytes) : Except Error Unit :=
  if flags.strictEncoding && !isStandardKey key then .error (.cryptoDelegate .publicKey)
  else .ok ()

end SignatureEncoding

/-- Decides whether a signature without its hash type fits a digest and a key. An error means that
the checker itself failed. -/
abbrev Checker := Digest 32 → Bytes → Bytes → Flags → Except Error Bool

/-- The checker that does the curve arithmetic. -/
def Checker.secp256k1 : Checker := fun digest der key _ =>
  .ok (Ecdsa.verifyBytes digest der key)

end CoinScript
