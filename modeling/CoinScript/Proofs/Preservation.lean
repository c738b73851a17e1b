import CoinScript.Proofs.Reaching
/-!
# What instructions leave alone

Most of the state is out of reach for most opcodes. A view of the state that shows nothing of the
stacks, the branches, the count of operations and the log is preserved by every primitive step
that the rules of opcodes are put together from, apart from the mark of a separator and the
questions to the signature checker, and it stays as it is where a step fails, too. A view that
shows the count of operations changes only where operations are counted.

* `StackBlind.execute`: all opcodes in one pass, up to the checks of signatures;
* `Blind.signatureOp`: those, for a view that does not show the questions;
* `Blind.apply`: all instructions.
-/

namespace CoinScript.Exec

variable {α β γ : Type}

/-! ## Views -/

/-- Wherever a step stops, the state has `P`. -/
abbrev Always (P : State → Prop) (r : EStateM.Result Error State α) : Prop :=
  Ends (fun _ t => P t) (fun _ t => P t) r

theorem Always.mono {P Q : State → Prop} {r : EStateM.Result Error State α} (h : Always P r)
    (himp : ∀ t, P t → Q t) : Always Q r :=
  Ends.mono h (fun _ => himp) fun _ => himp

/-- The step leaves this view of the state as it is, also where it fails. -/
def Preserves (view : State → γ) (x : Exec α) : Prop :=
  ∀ s, Always (view · = view s) (x s)

/-- The view shows nothing of the stacks, the branches and the log. -/
structure StackBlind (view : State → γ) : Prop where
  stack : ∀ s stack, view { s with stack := stack } = view s
  alt : ∀ s alt, view { s with alt := alt } = view s
  conditions : ∀ s conditions, view { s with conditions := conditions } = view s
  log : ∀ s log, view { s with log := log } = view s

/-- The view shows nothing of what the rules of most opcodes work on. -/
structure Blind (view : State → γ) : Prop extends StackBlind view where
  operations : ∀ s operations, view { s with operations := operations } = view s

namespace Preserves

variable {view : State → γ}

theorem pure (a : α) : Preserves view (pure a : Exec α) :=
  fun _ => rfl

theorem throw (e : Error) : Preserves view (throw e : Exec α) :=
  fun _ => rfl

theorem lift (r : Except Error α) : Preserves view (lift r) := by
  cases r with
  | ok a => exact pure a
  | error e => exact throw e

theorem get : Preserves view (get : Exec State) :=
  fun _ => rfl

theorem modify {f : State → State} (h : ∀ s, view (f s) = view s) :
    Preserves view (modify f : Exec Unit) :=
  h

theorem bind {x : Exec α} {f : α → Exec β} (hx : Preserves view x)
    (hf : ∀ a, Preserves view (f a)) : Preserves view (x >>= f) := by
  intro s
  refine Ends.bind (hx s) fun a t ht => ?_
  exact (hf a t).mono fun _ h => h.trans ht

theorem ite {c : Prop} [Decidable c] {x y : Exec α} (hx : Preserves view x)
    (hy : Preserves view y) : Preserves view (if c then x else y) := by
  split
  · exact hx
  · exact hy

theorem need (count : Nat) : Preserves view (need count) := by
  intro s
  unfold Exec.need
  split <;> rfl

theorem itemAt (depth : Nat) : Preserves view (itemAt depth) := by
  intro s
  unfold Exec.itemAt
  split <;> rfl

theorem checkStackSize : Preserves view checkStackSize := by
  intro s
  unfold Exec.checkStackSize
  split <;> rfl

theorem peekNumber (index : Int) (limit : Nat) : Preserves view (peekNumber index limit) :=
  (get.bind fun _ => (lift _).bind fun _ => itemAt _).bind fun _ => lift _

theorem keyCount : Preserves view keyCount :=
  (need 1).bind fun _ => (peekNumber _ _).bind fun _ =>
    ((throw _).bind fun _ => pure _).ite (pure _)

theorem signatureCount (keys : Nat) : Preserves view (signatureCount keys) :=
  (need _).bind fun _ => (peekNumber _ _).bind fun _ =>
    ((throw _).bind fun _ => pure _).ite (pure _)

theorem spend (env : Env) : Preserves view (spend env) := by
  unfold Exec.spend
  cases env.spend with
  | some spend => exact pure _
  | none => exact throw _

theorem lockTimeOp (env : Env) (op : LockTimeOp) : Preserves view (op.execute env) := by
  unfold LockTimeOp.execute
  refine ((need 1).bind fun _ => (peekNumber _ _).bind fun value => ite (throw _) ?_).ite (pure _)
  cases op with
  | absolute => exact (spend env).bind fun _ => lift _
  | relative => exact (pure _).ite ((spend env).bind fun _ => lift _)

section Questions

variable (env : Env) (unrecorded : ∀ s calls, view { s with calls := calls } = view s)
include unrecorded

/-- The check of a signature records its question; nothing else comes of it but the answer. -/
theorem checkSignature (signature key : Bytes) (code : Script) :
    Preserves view (checkSignature env signature key code) := by
  intro s
  obtain ⟨calls, h⟩ := checkSignature_eq env signature key code s
  rw [h]
  have answered : Preserves view (Exec.lift (env.signatureAnswer signature key code)) := lift _
  exact (answered { s with calls := calls }).mono fun t ht => ht.trans (unrecorded s calls)

theorem matchKeys {code : Script} (signatures keys : List Bytes) :
    Preserves view (matchKeys (fun signature key => Exec.checkSignature env signature key code)
      signatures keys) := by
  fun_induction Exec.matchKeys (fun signature key => Exec.checkSignature env signature key code)
    signatures keys with
  | case1 => exact pure _
  | case2 => exact pure _
  | case3 => exact pure _
  | case4 signature signatures key keys enough found passed =>
    refine (checkSignature env unrecorded signature key code).bind fun answer => ?_
    cases answer with
    | true => exact found
    | false => exact passed

end Questions

end Preserves

/-- What a multisignature check does behind the count of its keys. -/
def matchOperands (env : Env) (keys : Nat) : Exec Bool := do
  let signatures ← signatureCount keys
  need (keys + signatures + 3)
  let st ← get
  let signatureItems := (st.stack.drop (keys + 2)).take signatures
  let code := codeWithout st.scriptCode signatureItems
  let success ← matchKeys (fun signature key => checkSignature env signature key code)
    signatureItems ((st.stack.drop 1).take keys)
  let dummy ← itemAt (keys + signatures + 3 - 1)
  modify fun st => { st with stack := st.stack.drop (keys + signatures + 3) }
  if env.flags.nullDummy && dummy ≠ [] then throw (.structural .dummyNotEmpty)
  return success

theorem checkMultisig_counts (env : Env) :
    checkMultisig env = keyCount >>= fun keys => countOperations keys >>= fun _ =>
      matchOperands env keys :=
  rfl

namespace StackBlind

variable {view : State → γ} (b : StackBlind view)
include b

theorem push (item : Bytes) : Preserves view (push item) :=
  .modify fun s => b.stack s _

theorem pushNumber (value : Int) : Preserves view (pushNumber value) :=
  b.push _

theorem pop : Preserves view pop := by
  intro s
  unfold Exec.pop
  split
  · rfl
  · exact b.stack s _

theorem removeAt (depth : Nat) : Preserves view (removeAt depth) := by
  intro s
  unfold Exec.removeAt
  split
  · exact b.stack s _
  · rfl

theorem shuffle (op : ShuffleOp) : Preserves view op.execute := by
  intro s
  unfold ShuffleOp.execute
  split
  · exact b.stack s _
  · rfl

theorem popAlt : Preserves view popAlt := by
  intro s
  unfold Exec.popAlt
  split
  · rfl
  · exact b.alt s _

theorem flipBranch : Preserves view flipBranch := by
  intro s
  unfold Exec.flipBranch
  split
  · rfl
  · exact b.conditions s _

theorem closeBranch : Preserves view closeBranch := by
  intro s
  unfold Exec.closeBranch
  split
  · rfl
  · exact b.conditions s _

theorem traceInstruction (index : Nat) (i : Instruction) :
    Preserves view (traceInstruction index i) :=
  Preserves.get.bind fun _ => .modify fun s => b.log s _

theorem popNumber (limit : Nat) : Preserves view (popNumber limit) :=
  b.pop.bind fun _ => .lift _

theorem depthOperand (op : Opcode) : Preserves view (depthOperand op) :=
  (Preserves.need 2).bind fun _ => (b.popNumber _).bind fun _ =>
    ((Preserves.throw _).bind fun _ => .pure _).ite (.pure _)

theorem popEqual : Preserves view popEqual :=
  (Preserves.need 2).bind fun _ => b.pop.bind fun _ => b.pop.bind fun _ => .pure _

theorem branchTaken (wanted : Bool) : Preserves view (branchTaken wanted) := by
  have top : Preserves view (Exec.need 1 >>= fun _ => Exec.pop >>= fun item =>
      Pure.pure (Truth.decode item == wanted)) :=
    (Preserves.need 1).bind fun _ => b.pop.bind fun _ => .pure _
  exact Preserves.get.bind fun _ => top.ite (.pure _)

theorem openBranch (taken : Bool) : Preserves view (openBranch taken) :=
  .modify fun s => b.conditions s _

theorem settle (op : SignatureOp) (push outcome : Bool) :
    Preserves view (settle op push outcome) :=
  (b.push _).ite ((Preserves.pure _).ite (.throw _))

/-! ## Rules of the families -/

theorem pushOp (op : PushOp) : Preserves view op.execute := by
  cases op with
  | smallInt n => exact b.pushNumber _
  | oneNegate => exact b.pushNumber _
  | payload1 => exact .throw _
  | payload2 => exact .throw _
  | payload4 => exact .throw _

theorem flowOp (op : FlowOp) : Preserves view op.execute := by
  cases op with
  | ifTrue => exact (b.branchTaken true).bind fun _ => b.openBranch _
  | ifFalse => exact (b.branchTaken false).bind fun _ => b.openBranch _
  | orElse => exact b.flipBranch
  | endIf => exact b.closeBranch
  | verify =>
    exact (Preserves.need 1).bind fun _ => b.pop.bind fun _ => (Preserves.throw _).ite (.pure _)
  | giveUp => exact .throw _

theorem stackOp (op : StackOp) : Preserves view op.execute := by
  cases op with
  | toAlt =>
    exact (Preserves.need 1).bind fun _ => b.pop.bind fun _ => .modify fun s => b.alt s _
  | fromAlt => exact b.popAlt.bind fun _ => b.push _
  | shuffle op => exact b.shuffle op
  | ifDup =>
    exact (Preserves.need 1).bind fun _ => (Preserves.itemAt 0).bind fun _ =>
      (b.push _).ite (.pure _)
  | depth => exact Preserves.get.bind fun _ => b.pushNumber _
  | pick => exact (b.depthOperand _).bind fun _ => (Preserves.itemAt _).bind fun _ => b.push _
  | roll => exact (b.depthOperand _).bind fun _ => (b.removeAt _).bind fun _ => b.push _

theorem arithmeticOp (op : ArithmeticOp) : Preserves view op.execute := by
  cases op with
  | unary op => exact (Preserves.need 1).bind fun _ => (b.popNumber _).bind fun _ => b.pushNumber _
  | binary op =>
    exact (Preserves.need 2).bind fun _ => (b.popNumber _).bind fun _ =>
      (b.popNumber _).bind fun _ => b.pushNumber _
  | equalVerify =>
    exact (Preserves.need 2).bind fun _ => (b.popNumber _).bind fun _ =>
      (b.popNumber _).bind fun _ => (Preserves.throw _).ite (.pure _)
  | within =>
    exact (Preserves.need 3).bind fun _ => (b.popNumber _).bind fun _ =>
      (b.popNumber _).bind fun _ => (b.popNumber _).bind fun _ => b.push _

section Questions

variable (env : Env) (unrecorded : ∀ s calls, view { s with calls := calls } = view s)
include unrecorded

theorem checkSingle : Preserves view (checkSingle env) :=
  (Preserves.need 2).bind fun _ => b.pop.bind fun _ => b.pop.bind fun _ =>
    Preserves.get.bind fun _ => .checkSignature env unrecorded _ _ _

theorem matchOperands (keys : Nat) : Preserves view (matchOperands env keys) := by
  refine (Preserves.signatureCount keys).bind fun signatures => (Preserves.need _).bind fun _ =>
    Preserves.get.bind fun st => (Preserves.matchKeys env unrecorded _ _).bind fun success =>
      (Preserves.itemAt _).bind fun dummy =>
        Preserves.bind (.modify fun s => b.stack s _) fun _ => ?_
  exact ((Preserves.throw _).bind fun _ => .pure _).ite (.pure _)

end Questions

/-! ## All opcodes -/

/-- Every opcode leaves the view alone, if the family of signature checks does. -/
theorem execute {env : Env} {op : Opcode}
    (checks : ∀ rule, op = .signature rule → Preserves view (rule.execute env)) :
    Preserves view (op.execute env) := by
  cases op with
  | push op => exact b.pushOp op
  | flow op => exact b.flowOp op
  | stack op => exact b.stackOp op
  | size => exact (Preserves.need 1).bind fun _ => (Preserves.itemAt 0).bind fun _ => b.pushNumber _
  | equal => exact b.popEqual.bind fun _ => b.push _
  | equalVerify => exact b.popEqual.bind fun _ => (Preserves.throw _).ite (.pure _)
  | arithmetic op => exact b.arithmeticOp op
  | hash op => exact (Preserves.need 1).bind fun _ => b.pop.bind fun _ => b.push _
  | signature op => exact checks op rfl
  | lockTime op => exact .lockTimeOp env op
  | noOp op => exact .pure _
  | disabled op => exact .throw _
  | reserved op => exact .throw _

/-- What follows the rule of an instruction, the log and the size check, leaves the view alone. -/
theorem finish (env : Env) (executing : Bool) (index : Nat) (i : Instruction) :
    Preserves view ((if env.verbose && executing then Exec.traceInstruction index i
      else Pure.pure ()) >>= fun _ => checkStackSize) :=
  ((b.traceInstruction index i).ite (.pure _)).bind fun _ => .checkStackSize

end StackBlind

namespace Blind

variable {view : State → γ} (b : Blind view)
include b

theorem countOperations (count : Nat) : Preserves view (countOperations count) := by
  intro s
  unfold Exec.countOperations
  dsimp only
  split
  · exact b.operations s _
  · exact b.operations s _

section Checks

variable (env : Env) (unrecorded : ∀ s calls, view { s with calls := calls } = view s)
include unrecorded

theorem checkMultisig : Preserves view (checkMultisig env) := by
  rw [checkMultisig_counts]
  exact Preserves.keyCount.bind fun keys => (b.countOperations keys).bind fun _ =>
    b.matchOperands env unrecorded keys

/-- A check of signatures leaves the view alone, if it does not show the questions. -/
theorem signatureOp {op : SignatureOp} (hop : op ≠ .codeSeparator) :
    Preserves view (op.execute env) := by
  cases op with
  | codeSeparator => exact absurd rfl hop
  | checkSig => exact (b.checkSingle env unrecorded).bind fun _ => b.settle _ _ _
  | checkSigVerify => exact (b.checkSingle env unrecorded).bind fun _ => b.settle _ _ _
  | checkMultisig => exact (b.checkMultisig env unrecorded).bind fun _ => b.settle _ _ _
  | checkMultisigVerify => exact (b.checkMultisig env unrecorded).bind fun _ => b.settle _ _ _

end Checks

/-- Every instruction leaves the view alone, if the rule of its opcode does. -/
theorem apply {env : Env} {i : Instruction}
    (rule : ∀ op, i = .op op → Preserves view (op.execute env)) (executing : Bool) :
    Preserves view (apply env executing i) := by
  cases i with
  | push data =>
    have pushed : Preserves view (if executing then Exec.push data else Pure.pure ()) :=
      (b.push data).ite (.pure _)
    exact ((Preserves.throw _).bind fun _ => pushed).ite pushed
  | op op =>
    have executed : Preserves view
        (if executing || op.isConditional || op.alwaysFails then op.execute env
          else Pure.pure ()) :=
      (rule op rfl).ite (.pure _)
    exact ((b.countOperations 1).bind fun _ => executed).ite executed
  | unknown code =>
    exact (b.countOperations 1).bind fun _ => (Preserves.throw _).ite (.pure _)

end Blind

/-- An instruction is done with the state that its rule leaves, up to the log. -/
theorem Always.finish {env : Env} {view : State → γ} (b : StackBlind view) {index : Nat}
    {i : Instruction} {s : State} {P : γ → Prop}
    (h : Always (fun t => P (view t)) (Exec.apply env s.executing i { s with position := index })) :
    Always (fun t => P (view t)) (step env index i s) := by
  rw [step_eq]
  refine Ends.bind (s := { s with position := index }) h fun _ t ht => ?_
  have kept (u : State) (hu : view u = view t) : P (view u) := by
    rwa [hu]
  exact Always.mono (b.finish env _ index i t) kept

end CoinScript.Exec
