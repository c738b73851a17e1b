import CoinScript.Exec.Spend
import CoinScript.Log
import CoinScript.Number
/-!
# The state of the machine

`Env` is what stays fixed while a script runs and `State` is what changes. A step is
an `Exec`: it either succeeds with a new state or fails, and a failing step leaves
the state as it was when it failed, including what it had already removed.

Stacks are lists with the top first; the condition stack has the innermost branch
first. Calls of the signature checker and log records are kept newest first.
-/

namespace CoinScript

/-- What a script can see and does not change. -/
structure Env where
  flags : Flags := {}
  /-- Whether every executed instruction is logged. -/
  verbose : Bool := false
  blockTime : Option UInt32 := none
  spend : Option Spend := none
  checker : Checker := Checker.secp256k1

/-- One question to the signature checker. -/
structure Call where
  digest : Digest 32
  signature : Bytes
  publicKey : Bytes
deriving DecidableEq

/-- What a script changes. -/
structure State where
  /-- The main stack, top first. -/
  stack : List Bytes := []
  /-- The alternate stack, top first. -/
  alt : List Bytes := []
  /-- For every open branch, innermost first, whether it is taken. -/
  conditions : List Bool := []
  /-- The running script. -/
  script : Script := Script.empty
  /-- The instruction from which signatures hash the script. -/
  codeStart : Nat := 0
  /-- The instruction that is executed. -/
  position : Nat := 0
  /-- The operations counted so far. -/
  operations : Nat := 0
  /-- The questions to the signature checker, newest first. -/
  calls : List Call := []
  /-- The log, newest first. -/
  log : List LogRecord := []
deriving DecidableEq

/-- A step of the machine. -/
abbrev Exec := EStateM Error State

namespace Exec

/-- A step that needs no state. -/
def lift {α : Type} : Except Error α → Exec α
  | .ok a => pure a
  | .error e => throw e

/-- Write a record to the log. -/
def emit (level : LogLevel) (message : String) : Exec Unit :=
  modify fun st => { st with log := ⟨level, message⟩ :: st.log }

/-! ## Main stack -/

/-- Push an item. -/
def push (item : Bytes) : Exec Unit :=
  modify fun st => { st with stack := item :: st.stack }

/-- Push a number in its shortest form. -/
def pushNumber (value : Int) : Exec Unit :=
  push (Number.encode value)

/-- Push a truth value. -/
def pushBool (value : Bool) : Exec Unit :=
  push (Truth.encode value)

/-- Remove the top item. -/
def pop : Exec Bytes := fun st =>
  match st.stack with
  | [] => .error (.stackUnderflow 1) st
  | item :: rest => .ok item { st with stack := rest }

/-- Remove the top item and read it as a number. -/
def popNumber (limit : Nat) : Exec Int := do
  lift (Number.decode limit (← pop))

/-- Fail unless the stack has at least `count` items. -/
def need (count : Nat) : Exec Unit := fun st =>
  if st.stack.length < count then .error (.stackUnderflow count) st else .ok () st

/-- The depth below the top that an index means: an index counts from the bottom, a negative one
from the top, where the last item is `-1`. -/
def depthOf (height : Nat) : Int → Except Error Nat
  | .ofNat i => if i < height then .ok (height - 1 - i) else .error (.stackUnderflow (i + 1))
  | .negSucc k => if k < height then .ok k else .error (.stackUnderflow (k + 1))

/-- The item `depth` places below the top. -/
def itemAt (depth : Nat) : Exec Bytes := fun st =>
  match st.stack[depth]? with
  | some item => .ok item st
  | none => .error (.stackUnderflow (depth + 1)) st

/-- The item at an index. -/
def peek (index : Int) : Exec Bytes := do
  let depth ← lift (depthOf (← get).stack.length index)
  itemAt depth

/-- The number at an index. -/
def peekNumber (index : Int) (limit : Nat) : Exec Int := do
  lift (Number.decode limit (← peek index))

/-- The truth value at an index. -/
def peekBool (index : Int) : Exec Bool := do
  return Truth.decode (← peek index)

/-- Remove the item `depth` places below the top. -/
def removeAt (depth : Nat) : Exec Bytes := fun st =>
  match st.stack[depth]? with
  | some item => .ok item { st with stack := st.stack.eraseIdx depth }
  | none => .error (.stackUnderflow (depth + 1)) st

/-- Remove the item at an index. -/
def remove (index : Int) : Exec Bytes := do
  let depth ← lift (depthOf (← get).stack.length index)
  removeAt depth

/-! ## Alternate stack -/

/-- Push an item on the alternate stack. -/
def pushAlt (item : Bytes) : Exec Unit :=
  modify fun st => { st with alt := item :: st.alt }

/-- Remove the top item of the alternate stack. -/
def popAlt : Exec Bytes := fun st =>
  match st.alt with
  | [] => .error (.structural .emptyAltStack) st
  | item :: rest => .ok item { st with alt := rest }

end Exec

/-! ## Branches -/

/-- Whether no open branch is skipped. -/
def State.executing (st : State) : Bool :=
  st.conditions.all id

/-- The part of the running script that signatures commit to. -/
def State.scriptCode (st : State) : Script :=
  st.script.dropFront st.codeStart

namespace Exec

/-- Open a branch. -/
def openBranch (taken : Bool) : Exec Unit :=
  modify fun st => { st with conditions := taken :: st.conditions }

/-- Change over to the other side of the innermost branch. -/
def flipBranch : Exec Unit := fun st =>
  match st.conditions with
  | [] => .error (.structural .elseWithoutIf) st
  | taken :: rest => .ok () { st with conditions := (!taken) :: rest }

/-- Close the innermost branch. -/
def closeBranch : Exec Unit := fun st =>
  match st.conditions with
  | [] => .error (.structural .endIfWithoutIf) st
  | _ :: rest => .ok () { st with conditions := rest }

/-! ## Bookkeeping -/

/-- Forget what an earlier script left behind, apart from the main stack. -/
def begin (script : Script) : Exec Unit :=
  modify fun st => { st with
    alt := []
    conditions := []
    script := script
    codeStart := 0
    position := 0
    operations := 0 }

/-- Go to an instruction. -/
def goTo (position : Nat) : Exec Unit :=
  modify fun st => { st with position := position }

/-- Let signatures hash the script from behind the current instruction. -/
def markSeparator : Exec Unit :=
  modify fun st => { st with codeStart := st.position + 1 }

/-- Count operations against the limit. -/
def countOperations (count : Nat) : Exec Unit := fun st =>
  let st := { st with operations := st.operations + count }
  if st.operations > maxOperations then .error (.structural .tooManyOperations) st else .ok () st

/-! ## Questions about the spend -/

/-- The spend, if the machine verifies one. -/
def spend (env : Env) : Exec Spend :=
  match env.spend with
  | some spend => pure spend
  | none => throw (.invalidInput .noTransaction)

/-- Ask the signature checker. -/
def ask (env : Env) (call : Call) : Exec Bool := do
  modify fun st => { st with calls := call :: st.calls }
  lift (env.checker call.digest call.signature call.publicKey env.flags)

/-- Check a signature with its hash type against a key, for the given part of a script. -/
def checkSignature (env : Env) (signature key : Bytes) (code : Script) : Exec Bool := do
  lift (SignatureEncoding.checkSignature env.flags signature)
  lift (SignatureEncoding.checkPublicKey env.flags key)
  match signature.getLast? with
  | none => return false
  | some hashType =>
    let spend ← spend env
    let digest := spend.signatureHash code hashType.toUInt32
    ask env ⟨digest, signature.dropLast, key⟩

/-- Check an absolute lock time. -/
def checkLockTime (env : Env) (lockTime : Int) : Exec Unit := do
  lift ((← spend env).checkLockTime env.blockTime lockTime)

/-- Check a relative lock time. -/
def checkSequence (env : Env) (sequence : Int) : Exec Unit := do
  lift ((← spend env).checkSequence sequence)

end Exec

end CoinScript
