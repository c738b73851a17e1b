import CoinScript.Script.Basic
import CoinScript.Wire
/-!
# Transactions

Only the fields that scripts can see are kept. Scripts are kept as bytes, so that
every transaction can be represented; they are read when they are run.
-/

namespace CoinScript

/-- A reference to an output of another transaction. Its identifier is in stored byte order. -/
structure OutPoint where
  txid : Digest 32
  vout : UInt32
deriving DecidableEq

/-- An input: the output that it spends and the script that unlocks it. -/
structure TxIn where
  previousOutput : OutPoint
  scriptSig : Bytes
  sequence : UInt32
deriving DecidableEq

/-- An output: an amount and the script that locks it. -/
structure TxOut where
  value : UInt64
  scriptPubkey : Bytes
deriving DecidableEq

/-- A transaction. -/
structure Transaction where
  version : Int32
  lockTime : UInt32
  inputs : List TxIn
  outputs : List TxOut
deriving DecidableEq

/-- The script that unlocks the spent output. -/
def TxIn.unlockScript (input : TxIn) : Except Error Script :=
  Script.parse input.scriptSig

/-- The script that locks the output. -/
def TxOut.lockScript (output : TxOut) : Except Error Script :=
  Script.parse output.scriptPubkey

/-- An output locked by a script. -/
def TxOut.ofScript (value : UInt64) (script : Script) : TxOut :=
  ⟨value, script.bytes⟩

/-! ## Wire form -/

namespace OutPoint

/-- The wire form. -/
def encode (p : OutPoint) : Bytes := p.txid.bytes ++ Wire.word32 p.vout

/-- The number of bytes of the wire form. -/
def encodedSize (_ : OutPoint) : Nat := 36

/-- Read the wire form. -/
def read : Wire.Reader OutPoint := do
  let txid ← Wire.Reader.digest 32
  let vout ← Wire.Reader.word32
  return ⟨txid, vout⟩

end OutPoint

namespace TxIn

/-- The wire form. -/
def encode (input : TxIn) : Bytes :=
  input.previousOutput.encode ++ Wire.blob input.scriptSig ++ Wire.word32 input.sequence

/-- The number of bytes of the wire form. -/
def encodedSize (input : TxIn) : Nat :=
  input.previousOutput.encodedSize + Wire.blobSize input.scriptSig + 4

/-- Read the wire form. -/
def read : Wire.Reader TxIn := do
  let previousOutput ← OutPoint.read
  let scriptSig ← Wire.Reader.blob
  let sequence ← Wire.Reader.word32
  return ⟨previousOutput, scriptSig, sequence⟩

end TxIn

namespace TxOut

/-- The wire form. -/
def encode (output : TxOut) : Bytes :=
  Wire.word64 output.value ++ Wire.blob output.scriptPubkey

/-- The number of bytes of the wire form. -/
def encodedSize (output : TxOut) : Nat :=
  8 + Wire.blobSize output.scriptPubkey

/-- Read the wire form. -/
def read : Wire.Reader TxOut := do
  let value ← Wire.Reader.word64
  let scriptPubkey ← Wire.Reader.blob
  return ⟨value, scriptPubkey⟩

end TxOut

namespace Transaction

/-- The wire form. -/
def encode (tx : Transaction) : Bytes :=
  Wire.int32 tx.version ++ Wire.list TxIn.encode tx.inputs ++
    Wire.list TxOut.encode tx.outputs ++ Wire.word32 tx.lockTime

/-- The number of bytes of the wire form. -/
def encodedSize (tx : Transaction) : Nat :=
  4 + Wire.listSize TxIn.encodedSize tx.inputs + Wire.listSize TxOut.encodedSize tx.outputs + 4

/-- Read the wire form. -/
def read : Wire.Reader Transaction := do
  let version ← Wire.Reader.int32
  let inputs ← Wire.Reader.list TxIn.read
  let outputs ← Wire.Reader.list TxOut.read
  let lockTime ← Wire.Reader.word32
  return ⟨version, lockTime, inputs, outputs⟩

/-- Read a whole byte string as a transaction. -/
def decode (input : Bytes) : Except Error Transaction :=
  read.run input

/-- The identifier: the double SHA-256 of the wire form. -/
def txid (tx : Transaction) : Digest 32 :=
  Hash.sha256d tx.encode

end Transaction

end CoinScript
