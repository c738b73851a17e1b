import CoinScript.Proofs.Success
/-!
# Comparing two executions

Two steps that start in related states are compared by what they answer and by the states
that they leave. `Sim strict R x y` says that wherever `x` succeeds, `y` succeeds with the
same answer, and the states stay related by `R`. The same holds of the failures for which
`strict` holds; where `x` fails otherwise, `y` may even succeed.

The rule of an opcode is put together from a few primitive steps. `RuleCongruence` lists them:
if each one respects a relation, so does every opcode. `Congruence` adds branch bookkeeping.

* `Congruence.execute`: every opcode respects the relation, apart from the one that looks at
  the height of the stack;
* `Congruence.steps`: so does every row of instructions, if the bookkeeping between them does.
-/

namespace CoinScript.Exec

/-! ## The comparison -/

/-- From related states, `y` does what `x` does. Failures are compared only where `strict` holds. -/
def Sim {α : Type} (strict : Error → State → Prop) (R : State → State → Prop) (x y : Exec α) : Prop :=
  ∀ ⦃s t : State⦄, R s t →
    match x s with
    | .ok a s' => ∃ t', y t = .ok a t' ∧ R s' t'
    | .error e s' => strict e s' → ∃ t', y t = .error e t' ∧ R s' t'

variable {α β : Type} {strict : Error → State → Prop} {R : State → State → Prop}

theorem Sim.ok {x y : Exec α} (h : Sim strict R x y) {s t s' : State} {a : α} (hR : R s t)
    (hx : x s = .ok a s') : ∃ t', y t = .ok a t' ∧ R s' t' := by
  have := h hR
  rw [hx] at this
  exact this

/-- Where failures are not compared, it is enough to follow success. -/
theorem sim_of_ok {x y : Exec α}
    (h : ∀ ⦃s t s'⦄ {a}, R s t → x s = .ok a s' → ∃ t', y t = .ok a t' ∧ R s' t') :
    Sim (fun _ _ => False) R x y := by
  intro s t hR
  cases hx : x s with
  | ok a s' => exact h hR hx
  | error e s' => exact False.elim

theorem sim_pure (a : α) : Sim strict R (pure a) (pure a) := by
  intro s t hR
  exact ⟨t, rfl, hR⟩

theorem sim_throw (e : Error) : Sim strict R (throw e : Exec α) (throw e) := by
  intro s t hR _
  exact ⟨t, rfl, hR⟩

theorem sim_lift (r : Except Error α) : Sim strict R (lift r) (lift r) := by
  cases r with
  | ok a => exact sim_pure a
  | error e => exact sim_throw e

/-- A result that is at least as good may stand in for another one. -/
theorem sim_lift_of_ok {r r' : Except Error α} (better : ∀ a, r = .ok a → r' = .ok a)
    (same : ∀ e s, strict e s → r' = r) : Sim strict R (lift r) (lift r') := by
  cases r with
  | ok a =>
    rw [better a rfl]
    exact sim_pure a
  | error e =>
    intro s t hR hs
    rw [same e s hs]
    exact ⟨t, rfl, hR⟩

theorem Sim.bind {x y : Exec α} {f g : α → Exec β} (h : Sim strict R x y)
    (hf : ∀ a, Sim strict R (f a) (g a)) : Sim strict R (x >>= f) (y >>= g) := by
  intro s t hR
  have hxy := h hR
  show match EStateM.bind x f s with
    | .ok a s' => ∃ t', EStateM.bind y g t = .ok a t' ∧ R s' t'
    | .error e s' => strict e s' → ∃ t', EStateM.bind y g t = .error e t' ∧ R s' t'
  unfold EStateM.bind
  cases hx : x s with
  | ok a s' =>
    rw [hx] at hxy
    obtain ⟨t', hy, hR'⟩ := hxy
    rw [hy]
    exact hf a hR'
  | error e s' =>
    rw [hx] at hxy
    intro hs
    obtain ⟨t', hy, hR'⟩ := hxy hs
    rw [hy]
    exact ⟨t', rfl, hR'⟩

/-- A step that looks at the state goes on in the same way from related states. -/
theorem Sim.get_bind {f g : State → Exec β}
    (h : ∀ ⦃s t⦄, R s t → Sim strict R (f s) (g t)) :
    Sim strict R (get >>= f) (get >>= g) := by
  intro s t hR
  exact h hR hR

theorem sim_modify {f g : State → State} (h : ∀ ⦃s t⦄, R s t → R (f s) (g t)) :
    Sim strict R (modify f) (modify g) := by
  intro s t hR
  exact ⟨g t, rfl, h hR⟩

theorem Sim.ite {c : Prop} [Decidable c] {x y x' y' : Exec α} (h : Sim strict R x y)
    (h' : Sim strict R x' y') : Sim strict R (if c then x else x') (if c then y else y') := by
  split
  · exact h
  · exact h'

/-- A check that fails less often may stand in for one that fails more often. -/
theorem Sim.guard {c c' : Prop} [Decidable c] [Decidable c'] {e : Error} {x y : Exec α}
    (weaker : c' → c) (same : ∀ e s, strict e s → c → c') (h : Sim strict R x y) :
    Sim strict R (if c then throw e else x) (if c' then throw e else y) := by
  by_cases hc : c
  · rw [if_pos hc]
    intro s t hR hs
    rw [if_pos (same e s hs hc)]
    exact ⟨t, rfl, hR⟩
  · rw [if_neg hc, if_neg (fun hc' => hc (weaker hc'))]
    exact h

/-! ## Primitive steps -/

/-- The primitive steps of the rules respect a relation between states. -/
structure RuleCongruence (strict : Error → State → Prop) (R : State → State → Prop)
    (env env' : Env) : Prop where
  push : ∀ item, Sim strict R (push item) (push item)
  pop : Sim strict R pop pop
  need : ∀ count, Sim strict R (need count) (need count)
  itemAt : ∀ depth, Sim strict R (itemAt depth) (itemAt depth)
  removeAt : ∀ depth, Sim strict R (removeAt depth) (removeAt depth)
  shuffle : ∀ op : ShuffleOp, Sim strict R op.execute op.execute
  pushAlt : ∀ item, Sim strict R (pushAlt item) (pushAlt item)
  popAlt : Sim strict R popAlt popAlt
  markSeparator : Sim strict R markSeparator markSeparator
  countOperations : ∀ count, Sim strict R (countOperations count) (countOperations count)
  checkSingle : Sim strict R (checkSingle env) (checkSingle env')
  checkMultisig : Sim strict R (checkMultisig env) (checkMultisig env')
  lockTime : ∀ op : LockTimeOp, Sim strict R (op.execute env) (op.execute env')

/-- Branch bookkeeping respects the relation, too. -/
structure Congruence (strict : Error → State → Prop) (R : State → State → Prop)
    (env env' : Env) : Prop extends RuleCongruence strict R env env' where
  executing : ∀ ⦃s t⦄, R s t → s.executing = t.executing
  openBranch : ∀ taken, Sim strict R (openBranch taken) (openBranch taken)
  flipBranch : Sim strict R flipBranch flipBranch
  closeBranch : Sim strict R closeBranch closeBranch

namespace RuleCongruence

variable {env env' : Env} (h : RuleCongruence strict R env env')
include h

theorem pushNumber (value : Int) : Sim strict R (pushNumber value) (pushNumber value) :=
  h.push _

theorem pushBool (value : Bool) : Sim strict R (pushBool value) (pushBool value) :=
  h.push _

theorem popNumber (limit : Nat) : Sim strict R (popNumber limit) (popNumber limit) :=
  h.pop.bind fun _ => sim_lift _

theorem branchTaken (executing : ∀ ⦃s t⦄, R s t → s.executing = t.executing) (wanted : Bool) :
    Sim strict R (branchTaken wanted) (branchTaken wanted) := by
  refine Sim.get_bind fun s t hR => ?_
  rw [executing hR]
  exact ((h.need 1).bind fun _ => h.pop.bind fun _ => sim_pure _).ite (sim_pure false)

theorem popEqual : Sim strict R popEqual popEqual :=
  (h.need 2).bind fun _ => h.pop.bind fun _ => h.pop.bind fun _ => sim_pure _

theorem depthOperand (op : Opcode) : Sim strict R (depthOperand op) (depthOperand op) :=
  (h.need 2).bind fun _ => (h.popNumber _).bind fun _ =>
    ((sim_throw _).bind fun _ => sim_pure _).ite (sim_pure _)

theorem settle (op : SignatureOp) (push outcome : Bool) :
    Sim strict R (settle op push outcome) (settle op push outcome) :=
  (h.pushBool outcome).ite ((sim_pure ()).ite (sim_throw _))

/-! ## Rules of the families -/

theorem pushOp (op : PushOp) : Sim strict R op.execute op.execute := by
  cases op with
  | smallInt n => exact h.pushNumber _
  | oneNegate => exact h.pushNumber _
  | payload1 => exact sim_throw _
  | payload2 => exact sim_throw _
  | payload4 => exact sim_throw _

theorem stackOp {op : StackOp}
    (height : op = .depth → ∀ ⦃s t⦄, R s t → s.stack.length = t.stack.length) :
    Sim strict R op.execute op.execute := by
  cases op with
  | toAlt => exact (h.need 1).bind fun _ => h.pop.bind fun _ => h.pushAlt _
  | fromAlt => exact h.popAlt.bind fun _ => h.push _
  | shuffle op => exact h.shuffle op
  | ifDup =>
    exact (h.need 1).bind fun _ => (h.itemAt 0).bind fun _ => (h.push _).ite (sim_pure ())
  | depth =>
    refine Sim.get_bind fun s t hR => ?_
    rw [height rfl hR]
    exact h.pushNumber _
  | pick => exact (h.depthOperand _).bind fun _ => (h.itemAt _).bind fun _ => h.push _
  | roll => exact (h.depthOperand _).bind fun _ => (h.removeAt _).bind fun _ => h.push _

theorem arithmeticOp (op : ArithmeticOp) : Sim strict R op.execute op.execute := by
  cases op with
  | unary op => exact (h.need 1).bind fun _ => (h.popNumber _).bind fun _ => h.pushNumber _
  | binary op =>
    exact (h.need 2).bind fun _ => (h.popNumber _).bind fun _ => (h.popNumber _).bind fun _ =>
      h.pushNumber _
  | equalVerify =>
    exact (h.need 2).bind fun _ => (h.popNumber _).bind fun _ => (h.popNumber _).bind fun _ =>
      (sim_throw _).ite (sim_pure ())
  | within =>
    exact (h.need 3).bind fun _ => (h.popNumber _).bind fun _ => (h.popNumber _).bind fun _ =>
      (h.popNumber _).bind fun _ => h.pushBool _

theorem signatureOp (op : SignatureOp) : Sim strict R (op.execute env) (op.execute env') := by
  cases op with
  | codeSeparator => exact h.markSeparator
  | checkSig => exact h.checkSingle.bind fun _ => h.settle _ _ _
  | checkSigVerify => exact h.checkSingle.bind fun _ => h.settle _ _ _
  | checkMultisig => exact h.checkMultisig.bind fun _ => h.settle _ _ _
  | checkMultisigVerify => exact h.checkMultisig.bind fun _ => h.settle _ _ _

/-- Every opcode outside branch bookkeeping respects the relation. The height of the stack matters
to one opcode only. -/
theorem execute {op : Opcode}
    (hop : ∀ flow, op = .flow flow → flow = .verify ∨ flow = .giveUp)
    (height : op = .stack .depth → ∀ ⦃s t⦄, R s t → s.stack.length = t.stack.length) :
    Sim strict R (op.execute env) (op.execute env') := by
  cases op with
  | push op => exact h.pushOp op
  | flow op =>
    rcases hop op rfl with rfl | rfl
    · exact (h.need 1).bind fun _ => h.pop.bind fun _ => (sim_throw _).ite (sim_pure ())
    · exact sim_throw _
  | stack op => exact h.stackOp fun he => height (he ▸ rfl)
  | size => exact (h.need 1).bind fun _ => (h.itemAt 0).bind fun _ => h.pushNumber _
  | equal => exact h.popEqual.bind fun _ => h.pushBool _
  | equalVerify => exact h.popEqual.bind fun _ => (sim_throw _).ite (sim_pure ())
  | arithmetic op => exact h.arithmeticOp op
  | hash op => exact (h.need 1).bind fun _ => h.pop.bind fun _ => h.push _
  | signature op => exact h.signatureOp op
  | lockTime op => exact h.lockTime op
  | noOp op => exact sim_pure ()
  | disabled op => exact sim_throw _
  | reserved op => exact sim_throw _

/-- An instruction respects the relation if the rule of its opcode does. -/
theorem apply {instruction : Instruction}
    (rule : ∀ op, instruction = .op op → Sim strict R (op.execute env) (op.execute env'))
    (executing : Bool) :
    Sim strict R (apply env executing instruction) (apply env' executing instruction) := by
  cases instruction with
  | push data =>
    have pushed : Sim strict R (if executing then Exec.push data else pure ())
        (if executing then Exec.push data else pure ()) := (h.push data).ite (sim_pure ())
    exact ((sim_throw _).bind fun _ => pushed).ite pushed
  | op op =>
    have executed : Sim strict R
        (if executing || op.isConditional || op.alwaysFails then op.execute env else pure ())
        (if executing || op.isConditional || op.alwaysFails then op.execute env' else pure ()) :=
      (rule op rfl).ite (sim_pure ())
    exact ((h.countOperations 1).bind fun _ => executed).ite executed
  | unknown code =>
    exact (h.countOperations 1).bind fun _ => (sim_throw _).ite (sim_pure ())

end RuleCongruence

/-! ## Rows of instructions -/

/-- An instruction is followed by the log and the size check. -/
theorem step_sim {env env' : Env} {index : Nat} {instruction : Instruction}
    (executing : ∀ ⦃s t⦄, R s t → s.executing = t.executing)
    (goTo : Sim strict R (goTo index) (goTo index))
    (applied : ∀ executing,
      Sim strict R (apply env executing instruction) (apply env' executing instruction))
    (log : ∀ executing,
      Sim strict R
        (if env.verbose && executing then traceInstruction index instruction else pure ())
        (if env'.verbose && executing then traceInstruction index instruction else pure ()))
    (size : Sim strict R checkStackSize checkStackSize) :
    Sim strict R (step env index instruction) (step env' index instruction) := by
  rw [step_eq, step_eq]
  -- Whether the branch is executed is looked up once, before the instruction can change it.
  refine goTo.bind fun _ => Sim.get_bind fun s t hR => ?_
  rw [executing hR]
  exact (applied _).bind fun _ => (log _).bind fun _ => size

namespace Congruence

variable {env env' : Env} (h : Congruence strict R env env')
include h

/-- Every opcode respects the relation. -/
theorem execute {op : Opcode}
    (height : op = .stack .depth → ∀ ⦃s t⦄, R s t → s.stack.length = t.stack.length) :
    Sim strict R (op.execute env) (op.execute env') := by
  cases op with
  | flow flow =>
    cases flow with
    | ifTrue => exact (h.branchTaken h.executing true).bind fun _ => h.openBranch _
    | ifFalse => exact (h.branchTaken h.executing false).bind fun _ => h.openBranch _
    | orElse => exact h.flipBranch
    | endIf => exact h.closeBranch
    | verify => exact h.toRuleCongruence.execute (fun _ hop => by cases hop; exact .inl rfl) height
    | giveUp => exact h.toRuleCongruence.execute (fun _ hop => by cases hop; exact .inr rfl) height
  | _ => exact h.toRuleCongruence.execute nofun height

theorem steps (height : ∀ ⦃s t⦄, R s t → s.stack.length = t.stack.length)
    (goTo : ∀ index, Sim strict R (goTo index) (goTo index))
    (log : ∀ executing index instruction,
      Sim strict R
        (if env.verbose && executing then traceInstruction index instruction else pure ())
        (if env'.verbose && executing then traceInstruction index instruction else pure ()))
    (size : Sim strict R checkStackSize checkStackSize) (index : Nat)
    (instructions : List Instruction) :
    Sim strict R (steps env index instructions) (steps env' index instructions) := by
  induction instructions generalizing index with
  | nil => exact sim_pure ()
  | cons instruction rest ih =>
    have applied := h.toRuleCongruence.apply fun _ (_ : instruction = _) =>
      h.execute fun _ => height
    exact (step_sim h.executing (goTo index) applied (fun executing => log executing index _)
      size).bind fun _ => ih (index + 1)

end Congruence

end CoinScript.Exec
