import CoinScript.Exec.Arithmetic
import CoinScript.Exec.Multisig
import CoinScript.Exec.Shuffle
import CoinScript.Hash.Ripemd160
import CoinScript.Hash.Sha1
/-!
# Rules of the opcodes

`Opcode.execute` applies the rule of an opcode. Rules first make sure that the stack
is high enough, so an underflow changes nothing; `PICK` and `ROLL` alone find out
later, when their operand is already gone.
-/

namespace CoinScript

/-- Push a constant. A mark of a payload cannot be executed on its own. -/
def PushOp.execute (op : PushOp) : Exec Unit :=
  match op with
  | smallInt n => Exec.pushNumber n.val
  | oneNegate => Exec.pushNumber (-1)
  | payload1 | payload2 | payload4 => throw (.structural (.missingPayload (.push op)))

/-- Whether the branch that opens here is taken; nothing is taken inside a skipped branch. -/
def Exec.branchTaken (wanted : Bool) : Exec Bool := do
  if (← get).executing then
    Exec.need 1
    let item ← Exec.pop
    return Truth.decode item == wanted
  else return false

/-- The rule of a flow opcode. -/
def FlowOp.execute : FlowOp → Exec Unit
  | ifTrue => do Exec.openBranch (← Exec.branchTaken true)
  | ifFalse => do Exec.openBranch (← Exec.branchTaken false)
  | orElse => Exec.flipBranch
  | endIf => Exec.closeBranch
  | verify => do
    Exec.need 1
    let item ← Exec.pop
    if !Truth.decode item then throw (.negativeVerdict (.checkFailed (.flow .verify)))
  | giveUp => throw (.negativeVerdict .gaveUp)

/-- Rearrange the stack. -/
def ShuffleOp.execute (op : ShuffleOp) : Exec Unit := fun st =>
  match op.shuffle? st.stack with
  | some stack => .ok () { st with stack := stack }
  | none => .error (.stackUnderflow op.height) st

/-- The depth operand of an opcode. -/
def Exec.depthOperand (op : Opcode) : Exec Nat := do
  Exec.need 2
  let n ← Exec.popNumber maxNumberSize
  if n < 0 then throw (.structural (.negativeDepth op))
  return n.toNat

/-- The rule of a stack opcode. -/
def StackOp.execute (op : StackOp) : Exec Unit :=
  match op with
  | toAlt => do
    Exec.need 1
    let item ← Exec.pop
    Exec.pushAlt item
  | fromAlt => do
    let item ← Exec.popAlt
    Exec.push item
  | shuffle op => op.execute
  | ifDup => do
    Exec.need 1
    let item ← Exec.itemAt 0
    if Truth.decode item then Exec.push item
  | depth => do
    Exec.pushNumber (← get).stack.length
  | pick => do
    let n ← Exec.depthOperand (.stack .pick)
    let item ← Exec.itemAt n
    Exec.push item
  | roll => do
    let n ← Exec.depthOperand (.stack .roll)
    let item ← Exec.removeAt n
    Exec.push item

/-- Remove two items and tell whether they are equal. -/
def Exec.popEqual : Exec Bool := do
  Exec.need 2
  let b ← Exec.pop
  let a ← Exec.pop
  return a == b

/-- The digest of an item. -/
def HashOp.digest (op : HashOp) (data : Bytes) : Bytes :=
  match op with
  | ripemd160 => (Hash.ripemd160 data).bytes
  | sha1 => (Hash.sha1 data).bytes
  | sha256 => (Hash.sha256 data).bytes
  | hash160 => (Hash.hash160 data).bytes
  | hash256 => (Hash.sha256d data).bytes

/-- Replace the top item by its digest. -/
def HashOp.execute (op : HashOp) : Exec Unit := do
  Exec.need 1
  let data ← Exec.pop
  Exec.push (op.digest data)

/-- Whether the rule of a lock-time opcode is on. -/
def LockTimeOp.isEnabled (flags : Flags) : LockTimeOp → Bool
  | absolute => flags.checkLockTimeVerify
  | relative => flags.checkSequenceVerify

/-- The rule of a lock-time opcode. Its operand stays on the stack. -/
def LockTimeOp.execute (env : Env) (op : LockTimeOp) : Exec Unit := do
  if op.isEnabled env.flags then
    Exec.need 1
    let value ← Exec.peekNumber (-1) maxLockTimeSize
    if value < 0 then throw (.structural (.negativeOperand (.lockTime op)))
    match op with
    | absolute => Exec.checkLockTime env value
    | relative =>
      -- An operand with this bit set asks for nothing.
      if value.toNat.testBit 31 then return ()
      else Exec.checkSequence env value

/-- The rule of an opcode. -/
def Opcode.execute (env : Env) (op : Opcode) : Exec Unit :=
  match op with
  | push op => op.execute
  | flow op => op.execute
  | stack op => op.execute
  | size => do
    Exec.need 1
    let item ← Exec.itemAt 0
    Exec.pushNumber item.length
  | equal => do Exec.pushBool (← Exec.popEqual)
  | equalVerify => do
    if !(← Exec.popEqual) then throw (.negativeVerdict (.checkFailed .equalVerify))
  | arithmetic op => op.execute
  | hash op => op.execute
  | signature op => op.execute env
  | lockTime op => op.execute env
  | noOp _ => pure ()
  | disabled op => throw (.structural (.disabledOpcode (.disabled op)))
  | reserved op => throw (.structural (.reservedOpcode (.reserved op)))

end CoinScript
