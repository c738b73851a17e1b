import CoinScript.Limits
import CoinScript.Opcode.Catalog
import CoinScript.Text.Base58
/-!
# Errors

An error is a cause. Causes are grouped by the question that a caller asks first:
is the script broken, is the spend merely not authorized, or was something else
wrong? `Error.kind` answers it, and `Error.message` is the only place that knows
the wording.

Each group has a cause `other` for a reason that is known only as text, such as
the answer of a signature checker that is not part of this library.
-/

namespace CoinScript

/-- Why a script cannot be evaluated or built. -/
inductive Malformation where
  | disabledOpcode (op : Opcode)
  | reservedOpcode (op : Opcode)
  | unknownOpcode (code : UInt8)
  | missingPayload (op : Opcode)
  | bareAppend (op : Opcode)
  | negativeDepth (op : Opcode)
  | negativeOperand (op : Opcode)
  | emptyAltStack
  | elseWithoutIf
  | endIfWithoutIf
  | openConditional
  | numberTooLong (size limit : Nat)
  | keyCount (n : Int)
  | signatureCount (n : Int)
  | dummyNotEmpty
  | tooManyOperations
  | stackTooLarge
  | pushTooLong (size : Nat)
  | scriptTooLong (size : Nat)
  | scriptRefused
  | noRoom
  | truncatedLength
  | truncatedData
  | negativeLockTime
  | negativeSequence
  | noRedeemScript
  | notScriptHash
  | unlockNotDataOnly
  | other (text : String)
deriving DecidableEq, Repr

/-- Why a spend is not authorized. -/
inductive Refusal where
  | checkFailed (op : Opcode)
  | gaveUp
  | emptyStack
  | falseResult
  | redeemMismatch
  | lockTimeRange
  | lockTimeKind
  | lockTimeEarly
  | finalInput
  | afterBlockTime
  | sequenceRange
  | sequenceVersion
  | sequenceDisabled
  | sequenceKind
  | sequenceEarly
  | other (text : String)
deriving DecidableEq, Repr

/-- Why a signature or a key is refused before it is checked. -/
inductive EncodingFault where
  | notStrictDer
  | highS
  | undefinedHashType
  | publicKey
  | other (text : String)
deriving DecidableEq, Repr

/-- Why a template cannot be filled in. -/
inductive TemplateFault where
  | threshold (required count : Nat)
  | notPubkeyHash (address : String)
  | lockTimeOverflow
  | carrierTooLong (size : Nat)
  | noScripts
  | digestSize (hash : String) (expected actual : Nat)
  | other (text : String)
deriving DecidableEq, Repr

/-- Why an argument is unusable. -/
inductive InputFault where
  | noTransaction
  | inputIndex (index count : Nat)
  | outputCount (supplied inputs : Nat)
  | unknownName (name : String)
  | lengthTooLarge (length : Nat)
  | trailingBytes
  | payloadSize (size : Nat)
  | unknownNetwork (code : UInt8)
  | addressText (fault : Base58.Fault)
  | notPayToPubkeyHash
  | notMultisig
  | tooFewKeys (required supplied : Nat)
  | secretKey
  | configValue (name : String)
  | finalConfig
  | configFile
  | other (text : String)
deriving DecidableEq, Repr

/-- Why reading or writing failed. -/
inductive FileFault where
  | shortRead
  | notFound
  | notDirectory
  | isDirectory
  | nameTooLong
  | nulByte
  | other (text : String)
deriving DecidableEq, Repr

/-- An error and its cause. -/
inductive Error where
  | structural (cause : Malformation)
  | stackUnderflow (required : Nat)
  | cryptoDelegate (cause : EncodingFault)
  | negativeVerdict (cause : Refusal)
  | construction (cause : TemplateFault)
  | invalidInput (cause : InputFault)
  | json
  | file (cause : FileFault)
  | hex (cause : Hex.Fault)
deriving DecidableEq, Repr

/-- The kinds of error that callers tell apart. -/
inductive ErrorKind where
  /-- The script is malformed, oversized, unbalanced or uses a disabled opcode. -/
  | structural
  /-- An opcode found fewer items than it needs. -/
  | stackUnderflow
  /-- A signature or key was refused before it was checked, or the checker failed. -/
  | cryptoDelegate
  /-- The script ran and did not authorize the spend. -/
  | negativeVerdict
  /-- A template was given unusable input. -/
  | construction
  /-- Anything else. -/
  | other
deriving DecidableEq, Repr

/-- The name of a kind. -/
def ErrorKind.name : ErrorKind → String
  | structural => "Structural"
  | stackUnderflow => "StackUnderflow"
  | cryptoDelegate => "CryptoDelegate"
  | negativeVerdict => "NegativeVerdict"
  | construction => "Construction"
  | other => "Other"

/-! ## Wording -/

/-- The wording of a malformation. -/
def Malformation.message : Malformation → String
  | disabledOpcode op => op.name ++ " is disabled"
  | reservedOpcode op => op.name ++ " is not a valid opcode"
  | unknownOpcode code => "Invalid opcode 0x" ++ Hex.byteText code
  | missingPayload op => op.name ++ " executed without a payload"
  | bareAppend op => op.name ++ " cannot be appended without its payload"
  | negativeDepth op => op.name ++ " with negative depth"
  | negativeOperand op => op.name ++ " with negative lock time"
  | emptyAltStack => "Alt stack is empty"
  | elseWithoutIf => "Expected an OP_IF or OP_NOTIF branch before OP_ELSE"
  | endIfWithoutIf => "Expected an OP_IF or OP_NOTIF branch before OP_ENDIF"
  | openConditional => "Unbalanced conditional: OP_IF without OP_ENDIF"
  | numberTooLong size limit =>
    "Script number of " ++ toString size ++ " bytes exceeds " ++ toString limit ++ " bytes"
  | keyCount n => "Invalid public key count " ++ toString n
  | signatureCount n => "Invalid signature count " ++ toString n
  | dummyNotEmpty => "OP_CHECKMULTISIG dummy element must be empty"
  | tooManyOperations => "Script exceeds " ++ toString maxOperations ++ " operations"
  | stackTooLarge => "Stack exceeds " ++ toString maxStackSize ++ " items"
  | pushTooLong size =>
    "Push of " ++ toString size ++ " bytes exceeds the " ++ toString maxItemSize ++ " byte maximum"
  | scriptTooLong size =>
    "Script of " ++ toString size ++ " bytes exceeds the " ++ toString maxScriptSize ++
      " byte maximum"
  | scriptRefused => "Script binary is too long"
  | noRoom => "Script would exceed the " ++ toString maxScriptSize ++ " byte maximum"
  | truncatedLength => "Script truncated inside push length"
  | truncatedData => "Script truncated inside push data"
  | negativeLockTime => "Negative lock time"
  | negativeSequence => "Negative sequence"
  | noRedeemScript => "P2SH spend left no redeem script on the stack"
  | notScriptHash => "Lock script is not a P2SH script"
  | unlockNotDataOnly => "Input script for P2SH spending must be literals-only"
  | other text => text

/-- The wording of a refusal. -/
def Refusal.message : Refusal → String
  | checkFailed op => op.name ++ " failed"
  | gaveUp => "OP_RETURN executed"
  | emptyStack => "Stack is empty after script execution"
  | falseResult => "Final stack value is false"
  | redeemMismatch => "Redeem script does not match the P2SH hash"
  | lockTimeRange => "Lock time out of range"
  | lockTimeKind => "Lock time type does not match the transaction"
  | lockTimeEarly => "Lock time has not been reached"
  | finalInput => "Input sequence is final, lock time is disabled"
  | afterBlockTime => "Transaction lock time is after the block time"
  | sequenceRange => "Sequence out of range"
  | sequenceVersion => "Relative lock time requires transaction version 2"
  | sequenceDisabled => "Input sequence disables relative lock time"
  | sequenceKind => "Relative lock time type mismatch"
  | sequenceEarly => "Relative lock time has not been reached"
  | other text => text

/-- The wording of an encoding fault. -/
def EncodingFault.message : EncodingFault → String
  | notStrictDer => "Signature is not strict DER"
  | highS => "Signature S value is not low"
  | undefinedHashType => "Signature hash type is undefined"
  | publicKey => "Public key is not a valid SEC encoding"
  | other text => text

/-- The wording of a template fault. -/
def TemplateFault.message : TemplateFault → String
  | threshold required count =>
    "Invalid multisig threshold " ++ toString required ++ " of " ++ toString count ++
      " keys (at most " ++ toString maxStandardKeys ++ ")"
  | notPubkeyHash address => address ++ " is not a pay-to-pubkey-hash address"
  | lockTimeOverflow => "Lock time overflows a 32-bit timestamp"
  | carrierTooLong size =>
    "OP_RETURN payload of " ++ toString size ++ " bytes exceeds " ++ toString maxCarrierSize ++
      " bytes"
  | noScripts => "At least one script is required"
  | digestSize hash expected actual =>
    hash ++ " digest must be " ++ toString expected ++ " bytes, got " ++ toString actual
  | other text => text

/-- The wording of an input fault. -/
def InputFault.message : InputFault → String
  | noTransaction => "The transaction to verify is not set"
  | inputIndex index count =>
    "Input index " ++ toString index ++ " out of range for " ++ toString count ++ " inputs"
  | outputCount supplied inputs =>
    toString supplied ++ " previous outputs supplied for " ++ toString inputs ++ " inputs"
  | unknownName name => "Unknown opcode " ++ name
  | lengthTooLarge length => "Length prefix " ++ toString length ++ " too large"
  | trailingBytes => "Trailing bytes after decoded value"
  | payloadSize size => "Address payload must be 21 bytes, got " ++ toString size
  | unknownNetwork code => "Unknown address prefix 0x" ++ Hex.byteText code
  | addressText fault => "Invalid base58check address: " ++ fault.message
  | notPayToPubkeyHash => "Previous output is not pay-to-pubkey-hash"
  | notMultisig => "Redeem script is not a multisig script"
  | tooFewKeys required supplied =>
    toString required ++ " signatures required, " ++ toString supplied ++ " keys supplied"
  | secretKey => "Invalid private key: malformed or out-of-range secret key"
  | configValue name => "Failed to deserialize config '" ++ name ++ "'"
  | finalConfig => "Failed to deserialize final config"
  | configFile => "Failed to parse config file"
  | other text => text

/-- The wording of a file fault. -/
def FileFault.message : FileFault → String
  | shortRead => "failed to fill whole buffer"
  | notFound => "No such file or directory (os error 2)"
  | notDirectory => "Not a directory (os error 20)"
  | isDirectory => "Is a directory (os error 21)"
  | nameTooLong => "File name too long (os error 36)"
  | nulByte => "file name contained an unexpected NUL byte"
  | other text => text

/-- The wording of a fault in hexadecimal text. -/
def Hex.Fault.message : Hex.Fault → String
  | oddLength => "Odd number of digits"
  | invalidDigit byte position =>
    "Invalid character " ++ Quoted.byte byte ++ " at position " ++ toString position

namespace Error

/-- The kind of an error. -/
def kind : Error → ErrorKind
  | structural _ => .structural
  | stackUnderflow _ => .stackUnderflow
  | cryptoDelegate _ => .cryptoDelegate
  | negativeVerdict _ => .negativeVerdict
  | construction _ => .construction
  | invalidInput _ | json | file _ | hex _ => .other

/-- The wording of an error. -/
def message : Error → String
  | structural cause => "Malformed script: " ++ cause.message
  | stackUnderflow required => "Opcode requires " ++ toString required ++ " items on stack"
  | cryptoDelegate cause => "Crypto delegate failure: " ++ cause.message
  | negativeVerdict cause => "Spend not authorized: " ++ cause.message
  | construction cause => "Invalid template input: " ++ cause.message
  | invalidInput cause => "Invalid input: " ++ cause.message
  | json => "JSON serialization/deserialization error"
  | file cause => "I/O error: " ++ cause.message
  | hex cause => "Hex decoding error: " ++ cause.message

/-- Whether the spend was simply not authorized. -/
def isNegativeVerdict (e : Error) : Bool :=
  e.kind == .negativeVerdict

end Error

end CoinScript
