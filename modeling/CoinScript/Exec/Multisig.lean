import CoinScript.Exec.State
/-!
# Signature checks

A multisignature check takes from the stack, top first: the number of keys, the
keys, the number of signatures, the signatures, and one more item that is not
looked at. Signatures and keys are matched from the top: a key that does not fit
the current signature is passed over, and the check fails as soon as fewer keys
than signatures are left.
-/

namespace CoinScript.Exec

/-- The part of a script that is hashed for some signatures: their own pushes are left out. -/
def codeWithout (code : Script) (signatures : List Bytes) : Script :=
  signatures.foldl Script.deletePush code

/-- Match signatures with keys in order, asking `check` for each pair that is tried. -/
def matchKeys (check : Bytes → Bytes → Exec Bool) : List Bytes → List Bytes → Exec Bool
  | [], _ => return true
  | _ :: _, [] => return false
  | signature :: signatures, key :: keys =>
    if (signature :: signatures).length > (key :: keys).length then return false
    else do
      if ← check signature key then matchKeys check signatures keys
      else matchKeys check (signature :: signatures) keys

/-- The number of keys on top of the stack, if it is allowed. -/
def keyCount : Exec Nat := do
  need 1
  let n ← peekNumber (-1) maxNumberSize
  if n < 0 ∨ n > maxMultisigKeys then throw (.structural (.keyCount n))
  return n.toNat

/-- The number of signatures below `keys` keys, if it is allowed. -/
def signatureCount (keys : Nat) : Exec Nat := do
  need (keys + 2)
  let n ← peekNumber (-(keys + 2 : Nat)) maxNumberSize
  if n < 0 ∨ n > keys then throw (.structural (.signatureCount n))
  return n.toNat

/-- The outcome of a multisignature check, which leaves the stack without its operands. -/
def checkMultisig (env : Env) : Exec Bool := do
  let keys ← keyCount
  countOperations keys
  let signatures ← signatureCount keys
  let operands := keys + signatures + 3
  need operands
  let st ← get
  let keyItems := (st.stack.drop 1).take keys
  let signatureItems := (st.stack.drop (keys + 2)).take signatures
  let code := codeWithout st.scriptCode signatureItems
  let success ← matchKeys (fun signature key => checkSignature env signature key code)
    signatureItems keyItems
  let dummy ← itemAt (operands - 1)
  modify fun st => { st with stack := st.stack.drop operands }
  if env.flags.nullDummy && dummy ≠ [] then throw (.structural .dummyNotEmpty)
  return success

/-- The outcome of the check of one signature. -/
def checkSingle (env : Env) : Exec Bool := do
  need 2
  let key ← pop
  let signature ← pop
  let code := codeWithout (← get).scriptCode [signature]
  checkSignature env signature key code

/-- Push the outcome of a check, or fail unless it holds. -/
def settle (op : SignatureOp) (push : Bool) (outcome : Bool) : Exec Unit :=
  if push then pushBool outcome
  else if outcome then pure ()
  else throw (.negativeVerdict (.checkFailed (.signature op)))

end Exec

/-- The rule of a signature opcode. -/
def SignatureOp.execute (env : Env) (op : SignatureOp) : Exec Unit :=
  match op with
  | codeSeparator => Exec.markSeparator
  | checkSig => do Exec.settle op true (← Exec.checkSingle env)
  | checkSigVerify => do Exec.settle op false (← Exec.checkSingle env)
  | checkMultisig => do Exec.settle op true (← Exec.checkMultisig env)
  | checkMultisigVerify => do Exec.settle op false (← Exec.checkMultisig env)

end CoinScript
