import CoinScript.Number
import CoinScript.Script.Basic
/-!
# Building scripts

Every builder appends to the end and fails, leaving nothing behind, when the script
would outgrow the size limit. Payloads are pushed in their shortest form, and small
numbers as constants.
-/

namespace CoinScript.Script

/-- Append tokens if there is room for them. -/
def appendTokens (s : Script) (tokens : List Token) : Except Error Script :=
  if s.size + (Script.mk tokens).size > maxScriptSize then .error (.structural .noRoom)
  else .ok ⟨s.tokens ++ tokens⟩

/-- The token of a bare opcode. The marks of a payload need one and are refused. -/
def opcodeToken (o : Opcode) : Except Error Token :=
  match o with
  | .push .payload1 | .push .payload2 | .push .payload4 => .error (.structural (.bareAppend o))
  | _ => .ok (Token.ofOpcode o)

/-- The token that pushes a payload, if it is not too long. -/
def dataToken (data : Bytes) : Except Error Token :=
  if data.length > maxItemSize then .error (.structural (.pushTooLong data.length))
  else .ok (Token.minimalPush data)

/-- Append a bare opcode. -/
def append (s : Script) (o : Opcode) : Except Error Script := do
  s.appendTokens [← opcodeToken o]

/-- Append the shortest push of a payload. -/
def appendData (s : Script) (data : Bytes) : Except Error Script := do
  s.appendTokens [← dataToken data]

/-- Append the push of a number, by a constant where there is one. -/
def appendNumber (s : Script) (value : Int) : Except Error Script :=
  if value = -1 then s.append (.push .oneNegate)
  else if value < 0 then s.appendData (Number.encode value)
  else
    match Opcode.ofSmallInt? value.toNat with
    | some o => s.append o
    | none => s.appendData (Number.encode value)

/-- Append another script. -/
def appendScript (s other : Script) : Except Error Script :=
  s.appendTokens other.tokens

/-! ## Templates -/

/-- Pay to the holder of a key with this hash. -/
def payToPubkeyHash (hash : Digest 20) : Script :=
  ⟨[.op (.stack (.shuffle .dup)), .op (.hash .hash160), Token.minimalPush hash.bytes,
    .op .equalVerify, .op (.signature .checkSig)]⟩

/-- Pay to whoever satisfies a script with this hash. -/
def payToScriptHash (hash : Digest 20) : Script :=
  ⟨[.op (.hash .hash160), Token.minimalPush hash.bytes, .op .equal]⟩

/-- Pay to any `required` holders of these keys. -/
def multisig (keys : List Bytes) (required : Nat) : Except Error Script := do
  if required = 0 ∨ required > keys.length ∨ keys.length > maxStandardKeys then
    .error (.construction (.threshold required keys.length))
  else
    let s ← empty.appendNumber required
    let s ← keys.foldlM appendData s
    let s ← s.appendNumber keys.length
    s.append (.signature .checkMultisig)

end CoinScript.Script
