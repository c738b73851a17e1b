import CoinScript.Proofs.Commitment
import CoinScript.Proofs.FaultFree
/-!
# Verdicts on one input

Of the spend under verification a script learns the digests that signatures commit to and the
answers to lock times, and nothing else. Environments that agree in these answers run every script
in the same way, down to the questions to the signature checker and the log.

The answers do not depend on the unlocking scripts of other inputs or on the amount that is spent,
so neither does the verdict on an input.

* `Exec.run_congr`, `Exec.verify_congr`: environments with the same answers;
* `Spend.Alike.of_onlyScript`: spends of the same input with the same answers;
* `Machine.verdict_ignores_others`: the whole verdict, questions and log included.
-/

namespace CoinScript

/-! ## Environments with the same answers -/

/-- Scripts cannot tell the environments apart: the same rules are on, and every question about the
spend is answered in the same way. -/
structure Env.Alike (env env' : Env) : Prop where
  flags : env'.flags = env.flags
  verbose : env'.verbose = env.verbose
  signature : ∀ signature key code,
    Exec.checkSignature env' signature key code = Exec.checkSignature env signature key code
  lockTime : ∀ n, Exec.checkLockTime env' n = Exec.checkLockTime env n
  sequence : ∀ n, Exec.checkSequence env' n = Exec.checkSequence env n

namespace Exec

variable {env env' : Env} (h : env.Alike env')
include h

theorem checkSingle_congr : checkSingle env' = checkSingle env := by
  unfold checkSingle
  simp only [h.signature]

theorem checkMultisig_congr : checkMultisig env' = checkMultisig env := by
  unfold checkMultisig
  simp only [h.signature, h.flags]

theorem signatureOp_congr (op : SignatureOp) : op.execute env' = op.execute env := by
  cases op with
  | codeSeparator => rfl
  | checkSig => exact congrArg (· >>= _) (checkSingle_congr h)
  | checkSigVerify => exact congrArg (· >>= _) (checkSingle_congr h)
  | checkMultisig => exact congrArg (· >>= _) (checkMultisig_congr h)
  | checkMultisigVerify => exact congrArg (· >>= _) (checkMultisig_congr h)

theorem lockTimeOp_congr (op : LockTimeOp) : op.execute env' = op.execute env := by
  unfold LockTimeOp.execute
  simp only [h.flags, h.lockTime, h.sequence]

/-- Two families of opcodes ask about the spend; the others do not see the environment. -/
theorem execute_congr (op : Opcode) : op.execute env' = op.execute env := by
  cases op with
  | signature op => exact signatureOp_congr h op
  | lockTime op => exact lockTimeOp_congr h op
  | _ => rfl

theorem apply_congr (executing : Bool) (instruction : Instruction) :
    apply env' executing instruction = apply env executing instruction := by
  cases instruction with
  | push data => rfl
  | op op =>
    unfold apply
    simp only [execute_congr h]
  | unknown code => rfl

theorem step_congr (index : Nat) (instruction : Instruction) :
    step env' index instruction = step env index instruction := by
  unfold step
  simp only [apply_congr h, h.verbose]

theorem steps_congr (index : Nat) (instructions : List Instruction) :
    steps env' index instructions = steps env index instructions := by
  induction instructions generalizing index with
  | nil => rfl
  | cons instruction rest ih =>
    rw [steps, steps, step_congr h, ih]

theorem run_congr (script : Script) : run env' script = run env script := by
  unfold run
  simp only [steps_congr h]

theorem runRedeem_congr (stack : List Bytes) (lock unlock : Script) :
    runRedeem env' stack lock unlock = runRedeem env stack lock unlock := by
  unfold runRedeem
  simp only [run_congr h]

theorem verify_congr (lock unlock : Script) : verify env' lock unlock = verify env lock unlock := by
  unfold verify
  simp only [run_congr h, runRedeem_congr h, h.flags, h.verbose]

end Exec

/-! ## Spends with the same answers -/

/-- The spends answer every question of a script in the same way. -/
structure Spend.Alike (a b : Spend) : Prop where
  digest : ∀ code hashType, b.signatureHash code hashType = a.signatureHash code hashType
  lockTime : ∀ blockTime n, b.checkLockTime blockTime n = a.checkLockTime blockTime n
  sequence : ∀ n, b.checkSequence n = a.checkSequence n

/-- An environment with the one spend in place of the other. -/
theorem Spend.Alike.env {a b : Spend} (h : a.Alike b) (env : Env) :
    Env.Alike { env with spend := some a } { env with spend := some b } where
  flags := rfl
  verbose := rfl
  signature signature key code := by
    refine bind_congr fun _ => bind_congr fun _ => ?_
    cases signature.getLast? with
    | none => rfl
    | some hashType =>
      show Exec.ask _ ⟨b.signatureHash code hashType.toUInt32, _, _⟩ = _
      rw [h.digest]
      rfl
  lockTime n := congrArg Exec.lift (h.lockTime env.blockTime n)
  sequence n := congrArg Exec.lift (h.sequence n)

/-- The transaction with the script of one input, and without the scripts of all others. -/
def Transaction.onlyScript (tx : Transaction) (index : Nat) : Transaction :=
  { tx with
    inputs := tx.inputs.mapIdx fun j input =>
      if j = index then input else { input with scriptSig := [] } }

namespace Transaction

theorem length_onlyScript (tx : Transaction) (index : Nat) :
    (tx.onlyScript index).inputs.length = tx.inputs.length :=
  List.length_mapIdx

theorem getElem?_onlyScript (tx : Transaction) (index : Nat) :
    (tx.onlyScript index).inputs[index]? = tx.inputs[index]? := by
  unfold onlyScript
  rw [List.getElem?_mapIdx]
  simp

theorem unsigned_onlyScript (tx : Transaction) (index : Nat) :
    (tx.onlyScript index).unsigned = tx.unsigned := by
  unfold unsigned onlyScript
  congr 1
  refine List.ext_getElem? fun j => ?_
  rw [List.getElem?_map, List.getElem?_mapIdx, List.getElem?_map, Option.map_map]
  refine congrArg (Option.map · _) (funext fun input => ?_)
  let kept : TxIn := if j = index then input else { input with scriptSig := [] }
  show { kept with scriptSig := [] } = { input with scriptSig := [] }
  unfold kept
  split <;> rfl

end Transaction

/-- Transactions that differ in the scripts of other inputs only are spent alike at this input,
whatever the spent outputs are. -/
theorem Spend.Alike.of_onlyScript {tx tx' : Transaction} {index : Nat}
    (same : tx'.onlyScript index = tx.onlyScript index) (inside : index < tx.inputs.length)
    (inside' : index < tx'.inputs.length) (prevOutput prevOutput' : TxOut) :
    Alike ⟨tx, ⟨index, inside⟩, prevOutput⟩ ⟨tx', ⟨index, inside'⟩, prevOutput'⟩ := by
  have input : tx'.inputs[index] = tx.inputs[index] := by
    rw [← Option.some_inj, ← List.getElem?_eq_getElem, ← List.getElem?_eq_getElem,
      ← Transaction.getElem?_onlyScript, same, Transaction.getElem?_onlyScript]
  have version : tx'.version = tx.version := congrArg (·.version) same
  have lockTime : tx'.lockTime = tx.lockTime := congrArg (·.lockTime) same
  refine ⟨fun code hashType => ?_, fun blockTime n => ?_, fun n => ?_⟩
  · -- No digest depends on a script of an input, so not on those that differ.
    show SigHash.digest tx' index code hashType = SigHash.digest tx index code hashType
    rw [← SigHash.digest_unsigned tx', ← Transaction.unsigned_onlyScript tx' index, same,
      Transaction.unsigned_onlyScript, SigHash.digest_unsigned]
  · unfold checkLockTime Spend.input
    simp only [List.get_eq_getElem, input, lockTime]
  · unfold checkSequence Spend.input
    simp only [List.get_eq_getElem, input, version]

/-! ## The machine -/

/-- What a step gives and leaves is all that a context keeps of it. -/
theorem Context.perform_congr {α : Type} {c c' : Context} {step step' : Env → Exec α}
    (h : step' c'.env c'.state = step c.env c.state) :
    (c'.perform step').1 = (c.perform step).1 ∧
      (c'.perform step').2.state = (c.perform step).2.state := by
  unfold perform
  rw [h]
  cases step c.env c.state with
  | ok a s => exact ⟨rfl, rfl⟩
  | error e s => exact ⟨rfl, rfl⟩

namespace Machine

/-- The machine cannot tell spends apart that answer alike. -/
theorem verify_of_alike (m : Machine) {a b : Spend} (h : a.Alike b) (blockTime : UInt32)
    (lock unlock : Script) :
    (m.verify lock unlock (m.contextOf blockTime b)).1 =
        (m.verify lock unlock (m.contextOf blockTime a)).1 ∧
      (m.verify lock unlock (m.contextOf blockTime b)).2.state =
        (m.verify lock unlock (m.contextOf blockTime a)).2.state := by
  have same : Exec.verify (m.configure (m.contextOf blockTime b).env) lock unlock =
      Exec.verify (m.configure (m.contextOf blockTime a).env) lock unlock :=
    Exec.verify_congr (h.env (m.configure (m.contextOf blockTime a).env)) lock unlock
  exact Context.perform_congr (congrFun same {})

/-- The verdict on an input does not depend on the unlocking scripts of the other inputs, nor on the
amount that is spent. The answer, the questions to the signature checker and the log are the
same, also where the input does not exist or a script cannot be read. -/
theorem verdict_ignores_others (m : Machine) {tx tx' : Transaction} {index : Nat}
    (same : tx'.onlyScript index = tx.onlyScript index) {prevOutput prevOutput' : TxOut}
    (locked : prevOutput'.scriptPubkey = prevOutput.scriptPubkey) (blockTime : UInt32) :
    m.verifyTransaction tx' index prevOutput' blockTime =
      m.verifyTransaction tx index prevOutput blockTime := by
  have length : tx'.inputs.length = tx.inputs.length := by
    rw [← Transaction.length_onlyScript, same, Transaction.length_onlyScript]
  have input : tx'.inputs[index]? = tx.inputs[index]? := by
    rw [← Transaction.getElem?_onlyScript, same, Transaction.getElem?_onlyScript]
  have lock : prevOutput'.lockScript = prevOutput.lockScript := congrArg Script.parse locked
  unfold verifyTransaction
  rcases Nat.lt_or_ge index tx.inputs.length with inside | outside
  · have inside' : index < tx'.inputs.length := length ▸ inside
    rw [context_of_lt m prevOutput' blockTime inside', context_of_lt m prevOutput blockTime inside,
      input, lock, List.getElem?_eq_getElem inside]
    dsimp only
    cases tx.inputs[index].unlockScript with
    | error e => rfl
    | ok unlock =>
      cases prevOutput.lockScript with
      | error e => rfl
      | ok lock =>
        obtain ⟨result, state⟩ := m.verify_of_alike
          (.of_onlyScript same inside inside' prevOutput prevOutput') blockTime lock unlock
        show Verdict.mk _ _ _ = Verdict.mk _ _ _
        rw [result, state]
  · rw [context_of_ge m prevOutput' blockTime (length ▸ outside),
      context_of_ge m prevOutput blockTime outside, length]
    rfl

/-- A signature for the first of two inputs is asked about in the same way whether the second one is
signed or not, and whatever amount is spent. -/
theorem verdict_ignores_others_unsigned :
    let input (b : UInt8) (script : Bytes) : TxIn := ⟨⟨.replicate 32 b, 0⟩, script, 5⟩
    let tx (other : Bytes) : Transaction :=
      ⟨1, 0, [input 1 [0x02, 0x30, 0x01], input 2 other], [⟨10, []⟩]⟩
    let output (value : UInt64) : TxOut := ⟨value, [0x01, 0x02, 0xac]⟩
    let m : Machine := { checker := fun _ _ _ _ => .ok true }
    let verdict (other : Bytes) (value : UInt64) : Verdict :=
      m.verifyTransaction (tx other) 0 (output value) 0
    verdict [0x51] 20 = verdict [] 30 ∧ (verdict [] 30).result = .ok true ∧
      (verdict [] 30).calls.map Call.signature = [[0x30]] := by
  intro input tx output m verdict
  have same : (tx [0x51]).onlyScript 0 = (tx []).onlyScript 0 := rfl
  have locked : (output 20).scriptPubkey = (output 30).scriptPubkey := rfl
  exact ⟨verdict_ignores_others m same locked 0, by decide +kernel, by decide +kernel⟩

end Machine

end CoinScript
