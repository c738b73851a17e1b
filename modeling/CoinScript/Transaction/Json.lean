import CoinScript.Address
import CoinScript.Json.Decode
import CoinScript.Json.Printer
import CoinScript.Transaction.SigHash
/-!
# The JSON form of transactions, scripts and addresses

Byte strings are hexadecimal texts, identifiers are lists of numbers, and
enumerations are names.
-/

namespace CoinScript

open Json

/-- The JSON form of a byte string. -/
def Bytes.toJson (data : Bytes) : Value := .string (Hex.encode data)

/-- Read a byte string. -/
def Bytes.ofJson? : Decoder Bytes := fun tree => do
  let text ← Decoder.string tree
  (Hex.decode text).toOption

/-- Read a 32-bit word. -/
def word32OfJson? : Decoder UInt32 := fun tree =>
  (Decoder.natBelow UInt32.size tree).map UInt32.ofNat

namespace Script

/-- The JSON form. -/
def toJson (s : Script) : Value := s.bytes.toJson

/-- Read the JSON form. -/
def ofJson? : Decoder Script := fun tree => do
  let data ← Bytes.ofJson? tree
  (parse data).toOption

end Script

namespace OutPoint

/-- The JSON form. -/
def toJson (p : OutPoint) : Value :=
  .object [("txid", .array (p.txid.bytes.map fun b => .integer b.toNat)),
    ("vout", .integer p.vout.toNat)]

/-- Read the JSON form. -/
def ofJson? : Decoder OutPoint := fun tree => do
  let fields ← Fields.read? ["txid", "vout"] tree
  let txid ← fields.required 0 (Decoder.list (Decoder.natBelow 256))
  let txid ← Digest.ofBytes? 32 (txid.map UInt8.ofNat)
  let vout ← fields.required 1 word32OfJson?
  return ⟨txid, vout⟩

end OutPoint

namespace TxIn

/-- The JSON form. -/
def toJson (input : TxIn) : Value :=
  .object [("previous_output", input.previousOutput.toJson),
    ("script_sig", Bytes.toJson input.scriptSig), ("sequence", .integer input.sequence.toNat)]

/-- Read the JSON form. -/
def ofJson? : Decoder TxIn := fun tree => do
  let fields ← Fields.read? ["previous_output", "script_sig", "sequence"] tree
  let previousOutput ← fields.required 0 OutPoint.ofJson?
  let scriptSig ← fields.required 1 Bytes.ofJson?
  let sequence ← fields.required 2 word32OfJson?
  return ⟨previousOutput, scriptSig, sequence⟩

end TxIn

namespace TxOut

/-- The JSON form. -/
def toJson (output : TxOut) : Value :=
  .object [("value", .integer output.value.toNat),
    ("script_pubkey", Bytes.toJson output.scriptPubkey)]

/-- Read the JSON form. -/
def ofJson? : Decoder TxOut := fun tree => do
  let fields ← Fields.read? ["value", "script_pubkey"] tree
  let value ← fields.required 0 (Decoder.natBelow UInt64.size)
  let scriptPubkey ← fields.required 1 Bytes.ofJson?
  return ⟨UInt64.ofNat value, scriptPubkey⟩

end TxOut

namespace Transaction

/-- The JSON form. -/
def toJson (tx : Transaction) : Value :=
  .object [("version", .integer tx.version.toInt), ("lock_time", .integer tx.lockTime.toNat),
    ("input", .array (tx.inputs.map TxIn.toJson)),
    ("output", .array (tx.outputs.map TxOut.toJson))]

/-- Read the JSON form. -/
def ofJson? : Decoder Transaction := fun tree => do
  let fields ← Fields.read? ["version", "lock_time", "input", "output"] tree
  let version ← fields.required 0 (Decoder.integer Int32.minValue.toInt Int32.maxValue.toInt)
  let lockTime ← fields.required 1 word32OfJson?
  let inputs ← fields.required 2 (Decoder.list TxIn.ofJson?)
  let outputs ← fields.required 3 (Decoder.list TxOut.ofJson?)
  return ⟨Int32.ofInt version, lockTime, inputs, outputs⟩

end Transaction

namespace SigHashType

/-- The JSON form. -/
def toJson (t : SigHashType) : Value := .string t.name

/-- Read the JSON form. -/
def ofJson? : Decoder SigHashType := Decoder.choice name values

end SigHashType

namespace Network

/-- The JSON form. -/
def toJson (n : Network) : Value := .string n.name

/-- Read the JSON form. -/
def ofJson? : Decoder Network := Decoder.choice name all

end Network

namespace AddressKind

/-- The JSON form. -/
def toJson (k : AddressKind) : Value := .string k.name

/-- Read the JSON form. -/
def ofJson? : Decoder AddressKind := Decoder.choice name all

end AddressKind

end CoinScript
