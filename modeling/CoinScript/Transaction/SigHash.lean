import CoinScript.Transaction.Basic
/-!
# Signature hashes

A signature commits to a digest of the transaction. Which fields enter the digest
depends on the hash type, a 32-bit word: its low five bits select the outputs and
the bit `80` drops the other inputs. Undefined selections count as "all".
-/

namespace CoinScript

/-- The defined hash types. -/
inductive SigHashType where
  | all
  | none
  | single
  | allPlusAnyoneCanPay
  | nonePlusAnyoneCanPay
  | singlePlusAnyoneCanPay
deriving DecidableEq, Repr

namespace SigHashType

/-- All defined types. -/
def values : List SigHashType :=
  [all, none, single, allPlusAnyoneCanPay, nonePlusAnyoneCanPay, singlePlusAnyoneCanPay]

/-- The byte of a type. -/
def code : SigHashType → UInt8
  | all => 0x01
  | none => 0x02
  | single => 0x03
  | allPlusAnyoneCanPay => 0x81
  | nonePlusAnyoneCanPay => 0x82
  | singlePlusAnyoneCanPay => 0x83

/-- The name of a type. -/
def name : SigHashType → String
  | all => "All"
  | none => "None"
  | single => "Single"
  | allPlusAnyoneCanPay => "AllPlusAnyoneCanPay"
  | nonePlusAnyoneCanPay => "NonePlusAnyoneCanPay"
  | singlePlusAnyoneCanPay => "SinglePlusAnyoneCanPay"

/-- The type of a byte. -/
def ofCode? (code : UInt8) : Option SigHashType :=
  values.find? fun t => t.code == code

/-- Whether others may add inputs. -/
def anyoneCanPay : SigHashType → Bool
  | allPlusAnyoneCanPay | nonePlusAnyoneCanPay | singlePlusAnyoneCanPay => true
  | all | none | single => false

end SigHashType

namespace SigHash

/-- Which outputs a hash type selects. -/
inductive Selection where
  | all
  | none
  | single
deriving DecidableEq, Repr

/-- The selection of a hash type. -/
def selection (hashType : UInt32) : Selection :=
  let base := hashType &&& 0x1f
  if base = 2 then .none else if base = 3 then .single else .all

/-- Whether a hash type drops the other inputs. -/
def dropsOthers (hashType : UInt32) : Bool :=
  hashType &&& 0x80 != 0

/-- The input at place `j` as it is hashed for input `index`: only the signed input has a script,
and only an "all" hash keeps the sequences of the others. -/
def hashedInput (index : Nat) (code : Bytes) (choice : Selection) (j : Nat) (input : TxIn) : TxIn :=
  if j = index then { input with scriptSig := code }
  else { input with
    scriptSig := []
    sequence := if choice = .all then input.sequence else 0 }

/-- The output in front of the one selected by a "single" hash. -/
def blankOutput : TxOut := ⟨0xffffffffffffffff, []⟩

/-- The outputs as they are hashed. -/
def hashedOutputs (index : Nat) (outputs : List TxOut) : Selection → List TxOut
  | .all => outputs
  | .none => []
  | .single => (outputs.take index).map (fun _ => blankOutput) ++ (outputs.drop index).take 1

/-- The transaction as it is hashed. -/
def hashedTransaction (tx : Transaction) (index : Nat) (code : Script) (hashType : UInt32) :
    Transaction :=
  let code := (code.withoutOpcode (.signature .codeSeparator)).bytes
  let choice := selection hashType
  let inputs := tx.inputs.mapIdx (hashedInput index code choice)
  { tx with
    inputs := if dropsOthers hashType then (inputs.drop index).take 1 else inputs
    outputs := hashedOutputs index tx.outputs choice }

/-- The bytes that are hashed. -/
def preimage (tx : Transaction) (index : Nat) (code : Script) (hashType : UInt32) : Bytes :=
  (hashedTransaction tx index code hashType).encode ++ Wire.word32 hashType

/-- The digest with the number one in front, which a "single" hash without its output gives. -/
def one : Digest 32 := ⟨1 :: List.replicate 31 0, rfl⟩

/-- The digest that a signature for input `index` commits to. -/
def digest (tx : Transaction) (index : Nat) (code : Script) (hashType : UInt32) : Digest 32 :=
  if selection hashType = .single ∧ tx.outputs.length ≤ index then one
  else Hash.sha256d (preimage tx index code hashType)

end SigHash

/-- The digest for an input that may not exist. -/
def Transaction.signatureHash (tx : Transaction) (index : Nat) (code : Script)
    (hashType : UInt32) : Except Error (Digest 32) :=
  if index < tx.inputs.length then .ok (SigHash.digest tx index code hashType)
  else .error (.invalidInput (.inputIndex index tx.inputs.length))

end CoinScript
