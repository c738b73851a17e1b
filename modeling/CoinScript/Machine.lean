import CoinScript.Exec.Execute
import CoinScript.Script.Shape
/-!
# The machine

A script runs instruction by instruction. A spend is authorized by running the
unlocking script and then the locking script on one stack; if the locking script is
a pay-to-script-hash script, the redeem script that the unlocking script left on
the stack runs as a third phase. Phases share nothing but the main stack.
-/

namespace CoinScript

/-! ## Running a script -/

namespace Exec

/-- Apply one instruction, knowing whether the current branch is executed. -/
def apply (env : Env) (executing : Bool) : Instruction → Exec Unit
  | .push data => do
    if data.length > maxItemSize then throw (.structural (.pushTooLong data.length))
    if executing then push data
  | .op op => do
    if op.code > 0x60 then countOperations 1
    if executing || op.isConditional || op.alwaysFails then op.execute env
  | .unknown code => do
    countOperations 1
    if executing then throw (.structural (.unknownOpcode code))

/-- Fail if the two stacks together have outgrown the limit. -/
def checkStackSize : Exec Unit := fun st =>
  if st.stack.length + st.alt.length > maxStackSize then .error (.structural .stackTooLarge) st
  else .ok () st

/-- A number right-aligned in four places. -/
def alignRight (n : Nat) : String :=
  let digits := toString n
  String.ofList (List.replicate (4 - digits.length) ' ') ++ digits

/-- Log an executed instruction. -/
def traceInstruction (index : Nat) (instruction : Instruction) : Exec Unit := do
  let depth := (← get).stack.length
  emit .trace
    (alignRight index ++ " " ++ instruction.traceText ++ " depth=" ++ toString depth)

/-- Execute the instruction at `index`. -/
def step (env : Env) (index : Nat) (instruction : Instruction) : Exec Unit := do
  goTo index
  let executing := (← get).executing
  apply env executing instruction
  if env.verbose && executing then traceInstruction index instruction
  checkStackSize

/-- Execute instructions of which the first is at `index`. -/
def steps (env : Env) : Nat → List Instruction → Exec Unit
  | _, [] => pure ()
  | index, instruction :: rest => do
    step env index instruction
    steps env (index + 1) rest

/-- Fail if a branch is still open. -/
def checkClosed : Exec Unit := fun st =>
  if st.conditions.isEmpty then .ok () st else .error (.structural .openConditional) st

/-- Run a script from its beginning. -/
def run (env : Env) (script : Script) : Exec Unit := do
  if script.size > maxScriptSize then throw (.structural .scriptRefused)
  begin script
  steps env 0 script.instructions
  checkClosed

/-! ## Verifying a spend -/

/-- Fail unless the top item is true. -/
def requireTrue : Exec Unit := fun st =>
  match st.stack with
  | [] => .error (.negativeVerdict .emptyStack) st
  | item :: _ => if Truth.decode item then .ok () st else .error (.negativeVerdict .falseResult) st

end Exec

/-- The redeem script on top of a stack, if it has the hash that a locking script asks for. -/
def redeemScript (stack : List Bytes) (lock : Script) : Except Error Script := do
  match stack with
  | [] => .error (.structural .noRedeemScript)
  | item :: _ =>
    let redeem ← Script.parse item
    match lock.hash160? with
    | none => .error (.structural .notScriptHash)
    | some expected =>
      if Hash.hash160 item = expected then .ok redeem
      else .error (.negativeVerdict .redeemMismatch)

namespace Exec

/-- The text of a truth value in a log. -/
def boolText (b : Bool) : String :=
  if b then "true" else "false"

/-- Report that a script is about to run. -/
def announce (which : String) (script : Script) : Exec Unit :=
  emit .debug ("Running " ++ which ++ " script (" ++ toString script.size ++ " bytes)")

/-- The third phase: run the redeem script on the stack that the unlocking script left, without
the redeem script itself. -/
def runRedeem (env : Env) (stack : List Bytes) (lock unlock : Script) : Exec Unit := do
  if !unlock.isDataOnly then throw (.structural .unlockNotDataOnly)
  let redeem ← lift (redeemScript stack lock)
  modify fun st => { st with stack := stack.tail }
  announce "P2SH redeem" redeem
  run env redeem
  requireTrue

/-- All phases. The answer is always true: a spend that is not authorized is an error. -/
def verify (env : Env) (lock unlock : Script) : Exec Bool := do
  announce "unlock" unlock
  run env unlock
  let unlocked := (← get).stack
  announce "lock" lock
  run env lock
  requireTrue
  if env.flags.p2sh && lock.isPayToScriptHash then runRedeem env unlocked lock unlock
  else if env.verbose then
    emit .trace ("P2SH not evaluated: enabled=" ++ boolText env.flags.p2sh ++
      " pay_to_script_hash=" ++ boolText lock.isPayToScriptHash)
  emit .debug "Spend authorized"
  return true

end Exec

/-! ## The machine -/

/-- A state together with what it is verified against. -/
structure Context where
  env : Env := {}
  state : State := {}

namespace Context

/-- The context of a spend. -/
def ofSpend (spend : Spend) (flags : Flags) (checker : Checker) : Context :=
  { env := { flags := flags, spend := some spend, checker := checker } }

/-- Perform a step; the state afterwards is kept also when the step fails. -/
def perform {α : Type} (c : Context) (step : Env → Exec α) : Except Error α × Context :=
  match step c.env c.state with
  | .ok a state => (.ok a, { c with state := state })
  | .error e state => (.error e, { c with state := state })

end Context

/-- What a verification answers, asks and reports. -/
structure Verdict where
  result : Except Error Bool
  /-- The questions to the signature checker, in order. -/
  calls : List Call := []
  /-- The log, in order. -/
  log : List LogRecord := []

/-- A machine: the rules it enforces, the checker it asks, and whether it logs instructions. -/
structure Machine where
  flags : Flags := {}
  checker : Checker := Checker.secp256k1
  verbose : Bool := false

namespace Machine

/-- The environment under the rules of the machine. -/
def configure (m : Machine) (env : Env) : Env :=
  { env with flags := m.flags, verbose := env.verbose || m.verbose }

/-- Perform a step under the rules of the machine, which stay in the context. -/
def perform {α : Type} (m : Machine) (c : Context) (step : Env → Exec α) :
    Except Error α × Context :=
  ({ c with env := m.configure c.env } : Context).perform step

/-- Run a script. -/
def run (m : Machine) (script : Script) (c : Context) : Except Error Unit × Context :=
  m.perform c fun env => Exec.run env script

/-- Verify a pair of scripts. -/
def verify (m : Machine) (lock unlock : Script) (c : Context) : Except Error Bool × Context :=
  m.perform c fun env => Exec.verify env lock unlock

/-- The context of input `index` of a transaction. -/
def context (m : Machine) (tx : Transaction) (index : Nat) (prevOutput : TxOut)
    (blockTime : UInt32) : Except Error Context := do
  let spend ← Spend.ofIndex tx index prevOutput
  return { env := {
    flags := m.flags
    verbose := m.verbose
    blockTime := some blockTime
    spend := some spend
    checker := m.checker } }

/-- The record of a rejected input. -/
def rejection (index : Nat) (e : Error) : LogRecord :=
  ⟨.debug, "Input " ++ toString index ++ " rejected (" ++ e.kind.name ++ "): " ++ e.message⟩

/-- Verify input `index` of a transaction. -/
def verifyTransaction (m : Machine) (tx : Transaction) (index : Nat) (prevOutput : TxOut)
    (blockTime : UInt32) : Verdict :=
  let prepared : Except Error (Context × Script × Script) := do
    let c ← m.context tx index prevOutput blockTime
    let unlock ← match tx.inputs[index]? with
      | some input => input.unlockScript
      | none => .error (.invalidInput (.inputIndex index tx.inputs.length))
    let lock ← prevOutput.lockScript
    return (c, lock, unlock)
  match prepared with
  | .error e => { result := .error e }
  | .ok (c, lock, unlock) =>
    let (result, c) := m.verify lock unlock c
    let log := c.state.log.reverse
    { result := result
      calls := c.state.calls.reverse
      log := match result with
        | .ok _ => log
        | .error e => log ++ [rejection index e] }

/-- Verify every input of a transaction against the output that it spends, in order. -/
def verifyInputs (m : Machine) (tx : Transaction) (prevOutputs : List TxOut)
    (blockTime : UInt32) : Except Error (List Verdict) :=
  if prevOutputs.length ≠ tx.inputs.length then
    .error (.invalidInput (.outputCount prevOutputs.length tx.inputs.length))
  else
    .ok (prevOutputs.mapIdx fun index prevOutput =>
      m.verifyTransaction tx index prevOutput blockTime)

end Machine

end CoinScript
