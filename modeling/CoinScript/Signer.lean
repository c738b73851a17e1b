import CoinScript.Address
import CoinScript.Ecdsa.Sign
import CoinScript.Log
import CoinScript.Transaction.SigHash
/-!
# Signing transactions

A signer makes signatures with their hash type and the unlocking scripts that carry
them. How a digest is signed is a field of the signer; by default it is signed on
the curve.
-/

namespace CoinScript

/-- A secret key with its public key. -/
structure SigningKey where
  secret : SecretKey
  publicKey : PublicKey

namespace SigningKey

/-- Read a signing key from the 32 bytes of its secret key. -/
def ofBytes (bytes : Bytes) : Except Error SigningKey :=
  match SecretKey.ofBytes? bytes with
  | some secret => .ok ⟨secret, secret.publicKey⟩
  | none => .error (.invalidInput .secretKey)

/-- The short form of the public key. -/
def publicKeyBytes (key : SigningKey) : Bytes :=
  key.publicKey.serialize.bytes

end SigningKey

/-! ## Unlocking scripts -/

namespace Unlock

/-- Push payloads one after the other. -/
def pushAll (items : List Bytes) : Except Error Script :=
  items.foldlM Script.appendData Script.empty

/-- Unlock a pay-to-pubkey-hash output. -/
def pubkeyHash (signature key : Bytes) : Except Error Script :=
  pushAll [signature, key]

/-- Unlock a multisignature redeem script; the push in front is the extra item of the check. -/
def multisig (signatures : List Bytes) (redeem : Script) : Except Error Script := do
  let s ← Script.empty.append .zero
  let s ← signatures.foldlM Script.appendData s
  s.appendData redeem.bytes

/-- Claim a contract with its secret. -/
def contractClaim (signature key secret : Bytes) : Except Error Script := do
  let s ← pushAll [signature, key, secret]
  s.append .one

/-- Take a contract back after its lock time. -/
def contractRefund (signature key : Bytes) : Except Error Script := do
  let s ← pubkeyHash signature key
  s.append .zero

end Unlock

/-! ## Signing -/

/-- A computation that may fail and writes a log, newest record first. -/
abbrev Logged := EStateM Error (List LogRecord)

/-- A computation that writes no log. -/
def Logged.lift {α : Type} : Except Error α → Logged α
  | .ok a => pure a
  | .error e => throw e

/-- Makes signatures for a network. -/
structure Signer where
  network : Network
  /-- The strict form of a signature on a digest. -/
  sign : SecretKey → Digest 32 → Bytes := fun key digest => (Ecdsa.sign key digest).toDer

namespace Signer

/-- The address of a key. -/
def address (signer : Signer) (key : SigningKey) : Address :=
  Address.ofPublicKey key.publicKey signer.network

/-- The signature, with its hash type, of an input for a part of a script. -/
def signInput (signer : Signer) (tx : Transaction) (index : Nat) (code : Script)
    (key : SigningKey) (hashType : SigHashType) : Logged Bytes := do
  let digest ← Logged.lift (tx.signatureHash index code hashType.code.toUInt32)
  let record : LogRecord :=
    ⟨.trace, "Signed input " ++ toString index ++ " with " ++ hashType.name⟩
  modify (record :: ·)
  return signer.sign key.secret digest ++ [hashType.code]

/-- The transaction with the unlocking script of an input replaced. -/
def withScriptSig (tx : Transaction) (index : Nat) (script : Bytes) : Transaction :=
  { tx with inputs := tx.inputs.modify index fun input => { input with scriptSig := script } }

/-- Sign an input that spends a pay-to-pubkey-hash output. -/
def signPubkeyHash (signer : Signer) (tx : Transaction) (index : Nat) (prevOutput : TxOut)
    (key : SigningKey) (hashType : SigHashType) : Logged Transaction := do
  let lock ← Logged.lift prevOutput.lockScript
  if !lock.isPayToPubkeyHash then throw (.invalidInput .notPayToPubkeyHash)
  let signature ← signer.signInput tx index lock key hashType
  let unlock ← Logged.lift (Unlock.pubkeyHash signature key.publicKeyBytes)
  return withScriptSig tx index unlock.bytes

/-- Sign with each key in turn. -/
def signAll (signer : Signer) (tx : Transaction) (index : Nat) (code : Script)
    (hashType : SigHashType) : List SigningKey → Logged (List Bytes)
  | [] => return []
  | key :: keys => do
    let first ← signer.signInput tx index code key hashType
    let rest ← signer.signAll tx index code hashType keys
    return first :: rest

/-- Sign an input that spends a pay-to-script-hash output of a multisignature script. The keys stand
in the order of their public keys in the script; only as many as needed sign. -/
def signMultisig (signer : Signer) (tx : Transaction) (index : Nat) (redeem : Script)
    (keys : List SigningKey) (hashType : SigHashType) : Logged Transaction := do
  match redeem.multisigParams? with
  | none => throw (.invalidInput .notMultisig)
  | some (required, _) =>
    if keys.length < required then throw (.invalidInput (.tooFewKeys required keys.length))
    let signatures ← signer.signAll tx index redeem hashType (keys.take required)
    let unlock ← Logged.lift (Unlock.multisig signatures redeem)
    return withScriptSig tx index unlock.bytes

end Signer

end CoinScript
