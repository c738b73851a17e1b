import CoinScript.Proofs.Effect
import CoinScript.Proofs.Nesting
/-!
# What one instruction does

The machine takes every instruction in turn, also in a branch that is skipped: there, too, it
counts operations, measures pushes, refuses some opcodes and keeps track of the branches.
`Stepped` says once what holds behind an instruction that succeeded, whichever it is.

* `step_ends`: one instruction, whether it succeeds or fails.
-/

namespace CoinScript

namespace Instruction

/-- Whether the instruction counts as an operation by itself. -/
def counted : Instruction → Bool
  | .push _ => false
  | .op o => o.code > 0x60
  | .unknown _ => true

/-- What is demanded of an instruction wherever it stands. -/
def Lawful : Instruction → Prop
  | .push data => data.length ≤ maxItemSize
  | .op o => o.alwaysFails = false
  | .unknown _ => True

/-- The keys of a multisignature check that is executed in the state. -/
def keys (i : Instruction) (s : State) : Nat :=
  match i with
  | .op o => if s.executing then Exec.ruleKeys o s else 0
  | _ => 0

/-- The operations that the instruction uses up in the state. -/
def cost (i : Instruction) (s : State) : Nat :=
  i.counted.toNat + i.keys s

end Instruction

open Instruction

/-- What an instruction that succeeded has done between `s` and `t`. -/
structure State.Stepped (s : State) (i : Instruction) (t : State) : Prop where
  lawful : i.Lawful
  nest : nest s.conditions.length i = some t.conditions.length
  script : t.script = s.script
  position : t.position = s.position
  operations : t.operations = s.operations + i.cost s
  limit : s.operations ≤ maxOperations → t.operations ≤ maxOperations
  height : t.height ≤ s.height + 3
  short : s.Tidy → t.Short

namespace Exec

variable {env : Env}

/-! ## Counting -/

/-- The state behind the count of an instruction. -/
def afterCount (i : Instruction) (s : State) : State :=
  { s with operations := s.operations + i.counted.toNat }

/-- Count an instruction, if it counts. -/
def count (i : Instruction) : Exec Unit :=
  if i.counted then countOperations 1 else pure ()

theorem apply_op (executing : Bool) (op : Opcode) :
    apply env executing (.op op) = count (.op op) >>= fun _ =>
      if executing || op.isConditional || op.alwaysFails then op.execute env else pure () := by
  unfold apply count counted
  by_cases h : op.code > 0x60
  · simp only [h, if_true, decide_true]
  · simp only [h, if_false, decide_false]
    rfl

theorem count_ends (env : Env) (i : Instruction) (s : State) :
    Ends (fun _ t => t = afterCount i s ∧ (i.counted = false ∨ t.operations ≤ maxOperations))
      (Fails env s) (count i s) := by
  unfold count afterCount
  cases hi : i.counted with
  | false => exact ⟨rfl, .inl rfl⟩
  | true =>
    simp only [if_true]
    unfold countOperations
    dsimp only
    split
    · exact ⟨Env.mayRaise_structural _, { (State.Work.refl s).toKept with }⟩
    · next few => exact ⟨rfl, .inr (Nat.le_of_not_lt few)⟩

/-! ## Branch bookkeeping -/

theorem apply_opening (executing wanted : Bool) :
    apply env executing (opening wanted) = countOperations 1 >>= fun _ =>
      branchTaken wanted >>= openBranch := by
  cases wanted <;> cases executing <;> rfl

theorem apply_orElse (executing : Bool) :
    apply env executing orElse = countOperations 1 >>= fun _ => flipBranch := by
  cases executing <;> rfl

theorem apply_endIf (executing : Bool) :
    apply env executing endIf = countOperations 1 >>= fun _ => closeBranch := by
  cases executing <;> rfl

theorem counted_opening (wanted : Bool) : (opening wanted).counted = true := by
  cases wanted <;> decide

theorem lawful_opening (wanted : Bool) : (opening wanted).Lawful := by
  cases wanted <;> rfl

theorem cost_opening (wanted : Bool) (s : State) : (opening wanted).cost s = 1 := by
  unfold cost
  rw [counted_opening]
  cases wanted <;> simp [keys, opening, ruleKeys]

theorem branchTaken_ends (env : Env) (wanted : Bool) (s : State) :
    Ends (fun _ t => s.Work 0 0 t) (Fails env s) (branchTaken wanted s) := by
  have top : Keeps env s 0 (need 1 >>= fun _ => pop >>= fun item =>
      pure (Truth.decode item == wanted)) fun _ => True :=
    (keeps_need 1).bind fun _ _ => keeps_pop.bind fun _ _ => keeps_pure trivial
  have skipped : Keeps env s 0 (pure false) fun _ => True := keeps_pure trivial
  show Ends _ _ ((if s.executing then _ else _ : Exec Bool) s)
  split
  · exact (top s (.refl s)).imp fun _ _ h => h.2
  · exact (skipped s (.refl s)).imp fun _ _ h => h.2

/-- An instruction that was counted and then followed its rule; branch bookkeeping replaces the
conditions. -/
theorem stepped_of_work {s t : State} {i : Instruction} (conditions : List Bool)
    (lawful : i.Lawful)
    (few : i.counted = false ∨ (afterCount i s).operations ≤ maxOperations)
    (work : (afterCount i s).Work (i.keys s) 3 t)
    (hnest : nest s.conditions.length i = some conditions.length) :
    s.Stepped i { t with conditions := conditions } where
  lawful := lawful
  nest := hnest
  script := work.script
  position := work.position
  operations := by
    rw [cost, ← Nat.add_assoc]
    exact work.operations
  limit hs := by
    rcases work.limit with hkeys | hlimit
    · have hops : t.operations = s.operations + i.counted.toNat := by
        rw [work.operations, hkeys]
        rfl
      show t.operations ≤ maxOperations
      rcases few with hi | hi
      · rw [hops, hi]
        exact hs
      · rw [hops]
        exact hi
    · exact hlimit
  height := work.height
  short := work.short

/-- A failure behind the count of an instruction. -/
theorem Fails.uncount {i : Instruction} {s t : State} {e : Error}
    (h : Fails env (afterCount i s) e t) : Fails env s e t :=
  ⟨h.1, { h.2 with }⟩

theorem Ends.uncount {α : Type} {Q : α → State → Prop} {i : Instruction} {s : State}
    {r : EStateM.Result Error State α} (h : Ends Q (Fails env (afterCount i s)) r) :
    Ends Q (Fails env s) r :=
  h.mono (fun _ _ h => h) fun _ _ h => h.uncount

theorem counted_ends (s : State) {i : Instruction} (hi : i.counted = true) :
    Ends (fun _ t => t = afterCount i s ∧ (i.counted = false ∨ t.operations ≤ maxOperations))
      (Fails env s) (countOperations 1 s) := by
  have := count_ends env i s
  rwa [count, if_pos hi] at this

/-- A change of the open branches, which is refused if none is open. -/
theorem apply_turn_ends (s : State) {i : Instruction} {x : Exec Unit} (hcounted : i.counted = true)
    (lawful : i.Lawful) (hkeys : i.keys s = 0)
    (hx : ∀ t : State, (∃ cause, x t = .error (.structural cause) t) ∨
      ∃ conditions, x t = .ok () { t with conditions := conditions } ∧
        nest t.conditions.length i = some conditions.length) :
    Ends (fun _ t => s.Stepped i t) (Fails env s) ((countOperations 1 >>= fun _ => x) s) := by
  refine (counted_ends s hcounted).bind ?_
  rintro _ _ ⟨rfl, few⟩
  have start := State.Work.refl (afterCount i s)
  rcases hx (afterCount i s) with ⟨cause, h⟩ | ⟨conditions, h, hnest⟩
  · rw [h]
    exact Fails.uncount ⟨Env.mayRaise_structural _, start.toKept⟩
  · rw [h]
    exact stepped_of_work conditions lawful few (hkeys ▸ start.mono (by decide)) hnest

theorem apply_branch_ends (s : State) {i : Instruction} (hi : ¬ i.Plain) :
    Ends (fun _ t => s.Stepped i t) (Fails env s) (apply env s.executing i s) := by
  rcases plain_or_branch i with h | ⟨wanted, rfl⟩ | rfl | rfl
  · exact absurd h hi
  · rw [apply_opening]
    refine (counted_ends s (counted_opening wanted)).bind ?_
    rintro _ _ ⟨rfl, few⟩
    refine (branchTaken_ends env wanted _).uncount.bind fun taken t work => ?_
    have hkeys : (opening wanted).keys s = 0 := by
      have := cost_opening wanted s
      rw [cost, counted_opening] at this
      simpa using this
    refine stepped_of_work (taken :: t.conditions) (lawful_opening wanted) few
      (hkeys ▸ work.mono (by decide)) ?_
    rw [nest_opening, List.length_cons, work.conditions]
    rfl
  · rw [apply_orElse]
    refine apply_turn_ends s (by decide) rfl (by simp [keys, orElse, ruleKeys]) fun t => ?_
    unfold flipBranch
    cases hs : t.conditions with
    | nil => exact .inl ⟨_, rfl⟩
    | cons taken rest => exact .inr ⟨_, rfl, rfl⟩
  · rw [apply_endIf]
    refine apply_turn_ends s (by decide) rfl (by simp [keys, endIf, ruleKeys]) fun t => ?_
    unfold closeBranch
    cases hs : t.conditions with
    | nil => exact .inl ⟨_, rfl⟩
    | cons taken rest => exact .inr ⟨_, rfl, rfl⟩

/-! ## One instruction -/

theorem flow_of_plain {op : FlowOp} (h : (Instruction.op (.flow op)).Plain) :
    op = .verify ∨ op = .giveUp := by
  cases op with
  | ifTrue => exact absurd rfl (h.1 true)
  | ifFalse => exact absurd rfl (h.1 false)
  | orElse => exact absurd rfl h.2.1
  | endIf => exact absurd rfl h.2.2
  | verify => exact .inl rfl
  | giveUp => exact .inr rfl

theorem execute_alwaysFails (env : Env) {op : Opcode} (h : op.alwaysFails = true) :
    ∃ cause, op.execute env = throw (.structural cause) := by
  unfold Opcode.alwaysFails at h
  split at h
  · exact ⟨_, rfl⟩
  · exact ⟨_, rfl⟩
  · exact ⟨_, rfl⟩
  · cases h

theorem isConditional_of_plain {op : Opcode} (h : (Instruction.op op).Plain)
    (hfails : op.alwaysFails = false) : op.isConditional = false := by
  unfold Opcode.isConditional
  split
  · exact absurd rfl (h.1 true)
  · exact absurd rfl (h.1 false)
  · exact absurd rfl h.2.1
  · exact absurd rfl h.2.2
  · cases hfails
  · cases hfails
  · rfl

theorem apply_op_ends (s : State) {op : Opcode} (hop : (Instruction.op op).Plain) :
    Ends (fun _ t => s.Stepped (.op op) t) (Fails env s) (apply env s.executing (.op op) s) := by
  rw [apply_op]
  refine (count_ends env (.op op) s).bind ?_
  rintro _ _ ⟨rfl, few⟩
  have start := State.Work.refl (afterCount (.op op) s)
  cases hfails : op.alwaysFails with
  | true =>
    obtain ⟨cause, hcause⟩ := execute_alwaysFails env hfails
    rw [Bool.or_true, if_pos rfl, hcause]
    exact Fails.uncount ⟨Env.mayRaise_structural _, start.toKept⟩
  | false =>
    rw [isConditional_of_plain hop hfails, Bool.or_false, Bool.or_false]
    cases hexec : s.executing with
    | true =>
      refine (execute_work env _ fun flow hflow => flow_of_plain (hflow ▸ hop)).uncount.imp
        fun _ t work => ?_
      have hkeys : (Instruction.op op).keys s = ruleKeys op (afterCount (.op op) s) := by
        rw [keys, hexec]
        rfl
      refine stepped_of_work t.conditions hfails few (hkeys ▸ work) ?_
      rw [nest_plain hop, work.conditions]
      rfl
    | false =>
      have hkeys : (Instruction.op op).keys s = 0 := by
        rw [keys, hexec]
        rfl
      exact stepped_of_work (i := .op op) s.conditions hfails few
        (hkeys ▸ start.mono (by decide)) (nest_plain hop _)

theorem apply_push_ends (s : State) (data : Bytes) :
    Ends (fun _ t => s.Stepped (.push data) t) (Fails env s)
      (apply env s.executing (.push data) s) := by
  have start := State.Work.refl s
  unfold apply
  dsimp only
  split
  · exact ⟨Env.mayRaise_structural _, start.toKept⟩
  · next long =>
    have pushed : Closes env s 0 (if s.executing then push data else pure ()) :=
      (closes_push fun _ => Nat.le_of_not_lt long).ite closes_pure
    refine (pushed s start).imp fun _ t work => ?_
    refine stepped_of_work (i := .push data) t.conditions (Nat.le_of_not_lt long)
      (.inl rfl) work ?_
    rw [work.conditions]
    rfl

theorem apply_unknown_ends (s : State) (code : UInt8) :
    Ends (fun _ t => s.Stepped (.unknown code) t) (Fails env s)
      (apply env s.executing (.unknown code) s) := by
  have start := State.Work.refl (afterCount (.unknown code) s)
  refine (count_ends env (.unknown code) s).bind ?_
  rintro _ _ ⟨rfl, few⟩
  cases s.executing with
  | true => exact Fails.uncount ⟨Env.mayRaise_structural _, start.toKept⟩
  | false =>
    exact stepped_of_work (i := .unknown code) s.conditions trivial few
      (start.mono (by decide)) rfl

theorem apply_ends (env : Env) (s : State) (i : Instruction) :
    Ends (fun _ t => s.Stepped i t) (Fails env s) (apply env s.executing i s) := by
  by_cases hi : i.Plain
  · cases i with
    | push data => exact apply_push_ends s data
    | op op => exact apply_op_ends s hi
    | unknown code => exact apply_unknown_ends s code
  · exact apply_branch_ends s hi

/-- What holds behind an instruction: if it succeeded, it has done what instructions do and the
stacks are within their limit; if it failed, the stacks have at most three items more. -/
theorem step_ends (env : Env) (index : Nat) (i : Instruction) (s : State) :
    Ends (fun _ t => State.Stepped { s with position := index } i t ∧ t.height ≤ maxStackSize)
      (fun e t => env.MayRaise e ∧ t.height ≤ s.height + 3 ∧ (s.Tidy → t.Short))
      (step env index i s) := by
  rw [step_eq]
  have applied := (apply_ends env { s with position := index } i).mono (fun _ _ h => h)
    fun e t (h : Fails env { s with position := index } e t) =>
      (⟨h.1, Nat.le_trans h.2.height (Nat.le_add_right _ 3), h.2.short⟩ :
        env.MayRaise e ∧ t.height ≤ s.height + 3 ∧ (s.Tidy → t.Short))
  refine Ends.bind (s := { s with position := index }) applied fun _ t stepped => ?_
  -- The log is written in between; nothing that is looked at here changes.
  have logged : Ends (fun _ u => State.Stepped { s with position := index } i u)
      (fun e t => env.MayRaise e ∧ t.height ≤ s.height + 3 ∧ (s.Tidy → t.Short))
      ((if env.verbose && ({ s with position := index } : State).executing then
        traceInstruction index i else pure () : Exec Unit) t) := by
    split
    · exact { stepped with }
    · exact stepped
  refine Ends.bind logged fun _ u stepped => ?_
  unfold checkStackSize
  split
  · exact ⟨Env.mayRaise_structural _, stepped.height, stepped.short⟩
  · next few => exact ⟨stepped, Nat.le_of_not_lt few⟩

end Exec
end CoinScript
