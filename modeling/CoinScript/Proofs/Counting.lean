import CoinScript.Proofs.Preservation
/-!
# What a run counts

Operations are counted in two places: an instruction counts itself, and a multisignature check
counts its keys. So the operations that an instruction uses up can be told from the state in front
of it, also where the instruction fails.

* `step_operations`: one instruction, wherever it stops;
* `steps_operations_le`: a row uses up no more than its own instructions and the keys of its checks;
* `operations_le_steps`: the count never goes down.
-/

namespace CoinScript

open Instruction

/-- The number of keys on top of the stack, if a multisignature check allows it. -/
def State.allowedCount (s : State) : Nat :=
  match s.stack with
  | [] => 0
  | item :: _ =>
    if item.length ≤ maxNumberSize ∧ 0 ≤ Number.value item ∧
        Number.value item ≤ maxMultisigKeys then (Number.value item).toNat
    else 0

namespace Exec

/-- The keys that the rule of an opcode counts. -/
def countedKeys (op : Opcode) (s : State) : Nat :=
  match op with
  | .signature .checkMultisig | .signature .checkMultisigVerify => s.allowedCount
  | _ => 0

end Exec

namespace Instruction

/-- The keys that an instruction counts in the state. It has to be executed, and there has to be
room for the instruction itself. -/
def countedKeys (i : Instruction) (s : State) : Nat :=
  match i with
  | .op o => if s.executing ∧ s.operations < maxOperations then Exec.countedKeys o s else 0
  | _ => 0

/-- The operations that an instruction uses up in the state. -/
def tally (i : Instruction) (s : State) : Nat :=
  i.counted.toNat + i.countedKeys s

end Instruction

namespace Exec

variable {env : Env}

/-! ## One instruction -/

theorem blind_operations : StackBlind State.operations where
  stack _ _ := rfl
  alt _ _ := rfl
  conditions _ _ := rfl
  log _ _ := rfl

theorem keyCount_operations (s : State) :
    Ends (fun n t => t = s ∧ n = s.allowedCount) (fun _ t => t = s ∧ s.allowedCount = 0)
      (keyCount s) := by
  cases hs : s.stack with
  | nil =>
    have failed : keyCount s = .error (.stackUnderflow 1) s :=
      bind_of_error (if_pos (by simp [hs]))
    rw [failed]
    exact ⟨rfl, by rw [State.allowedCount, hs]⟩
  | cons item rest =>
    have needed : need 1 s = .ok () s := need_ok_iff.mpr ⟨by simp [hs], rfl⟩
    have unfolded : keyCount s = _ := bind_of_ok needed
    rw [unfolded]
    by_cases short : item.length ≤ maxNumberSize
    · have peeked : peekNumber (-1) maxNumberSize s = .ok (Number.value item) s := by
        rw [peekNumber_top hs, Number.decode, if_neg (Nat.not_lt.mpr short)]
        rfl
      rw [bind_of_ok peeked]
      by_cases allowed : 0 ≤ Number.value item ∧ Number.value item ≤ maxMultisigKeys
      · rw [if_neg (not_or.mpr ⟨Int.not_lt.mpr allowed.1, Int.not_lt.mpr allowed.2⟩)]
        refine ⟨rfl, ?_⟩
        rw [State.allowedCount, hs]
        exact (if_pos ⟨short, allowed⟩).symm
      · have refused : Number.value item < 0 ∨ Number.value item > maxMultisigKeys := by
          rw [not_and_or, Int.not_le, Int.not_le] at allowed
          exact allowed
        rw [if_pos refused]
        refine ⟨rfl, ?_⟩
        rw [State.allowedCount, hs]
        exact if_neg fun h => allowed h.2
    · have peeked : ∃ e, peekNumber (-1) maxNumberSize s = .error e s := by
        rw [peekNumber_top hs, Number.decode, if_pos (Nat.lt_of_not_le short)]
        exact ⟨_, rfl⟩
      obtain ⟨e, peeked⟩ := peeked
      rw [bind_of_error peeked]
      refine ⟨rfl, ?_⟩
      rw [State.allowedCount, hs]
      exact if_neg fun h => short h.1

theorem countOperations_operations (count : Nat) (s : State) :
    Always (·.operations = s.operations + count) (countOperations count s) := by
  unfold countOperations
  dsimp only
  split
  · rfl
  · rfl

theorem checkMultisig_operations (env : Env) (s : State) :
    Always (·.operations = s.operations + s.allowedCount) (checkMultisig env s) := by
  rw [checkMultisig_counts]
  refine Ends.bind ((keyCount_operations s).mono (fun _ _ h => h) ?_) ?_
  · rintro _ _ ⟨rfl, none⟩
    rw [none]
    rfl
  · rintro _ _ ⟨rfl, rfl⟩
    refine Ends.bind (countOperations_operations _ _) fun _ t ht => ?_
    exact (blind_operations.matchOperands env (fun _ _ => rfl) _ t).mono fun _ h => h.trans ht

/-- A rule counts the keys of a multisignature check, and nothing else. -/
theorem execute_operations (env : Env) (op : Opcode) (s : State) :
    Always (·.operations = s.operations + countedKeys op s) (op.execute env s) := by
  have multi (rule : SignatureOp) (push : Bool) :
      Always (·.operations = s.operations + s.allowedCount)
        ((checkMultisig env >>= settle rule push) s) :=
    Ends.bind (checkMultisig_operations env s) fun outcome t ht =>
      (blind_operations.settle rule push outcome t).mono fun _ h => h.trans ht
  have single (rule : SignatureOp) (push : Bool) :
      Preserves State.operations (checkSingle env >>= settle rule push) :=
    (blind_operations.checkSingle env fun _ _ => rfl).bind fun _ => blind_operations.settle _ _ _
  unfold countedKeys
  split
  · exact multi _ _
  · exact multi _ _
  · next rest rest' =>
    refine blind_operations.execute (fun rule hrule => ?_) s
    cases rule with
    | codeSeparator => exact .modify fun _ => rfl
    | checkSig => exact single _ _
    | checkSigVerify => exact single _ _
    | checkMultisig => exact absurd hrule rest
    | checkMultisigVerify => exact absurd hrule rest'

/-- An opcode that counts keys counts itself, and in a skipped branch it is not looked at. -/
theorem countedKeys_cases (op : Opcode) : (∀ s, countedKeys op s = 0) ∨
    ((Instruction.op op).counted = true ∧ op.isConditional = false ∧ op.alwaysFails = false) := by
  cases op with
  | signature rule =>
    cases rule with
    | checkMultisig => exact .inr ⟨by decide, rfl, rfl⟩
    | checkMultisigVerify => exact .inr ⟨by decide, rfl, rfl⟩
    | _ => exact .inl fun _ => rfl
  | _ => exact .inl fun _ => rfl

/-- Keys are counted if the rule of the opcode is followed and there is room for the opcode. -/
theorem apply_operations (env : Env) (i : Instruction) (s : State) :
    Always (·.operations = s.operations + i.tally s) (apply env s.executing i s) := by
  cases i with
  | push data =>
    have pushed : Preserves State.operations (if s.executing then push data else pure ()) :=
      (blind_operations.push data).ite (.pure _)
    exact (((Preserves.throw _).bind fun _ => pushed).ite pushed : Preserves _ _) s
  | unknown code =>
    have rest : Preserves State.operations
        (if s.executing then throw (.structural (.unknownOpcode code)) else pure () : Exec Unit) :=
      (Preserves.throw _).ite (.pure _)
    exact Ends.bind (countOperations_operations 1 s) fun _ t ht =>
      (rest t).mono fun _ h => h.trans ht
  | op op =>
    rw [apply_op, tally, Instruction.countedKeys]
    rcases count_cases (.op op) s with ⟨counted, room⟩ | ⟨⟨e, full⟩, _, many⟩
    · rw [bind_of_ok counted]
      have executed := execute_operations env op (afterCount (.op op) s)
      rcases countedKeys_cases op with none | ⟨counts, conditional, fails⟩
      · rw [none, ite_self]
        rw [none] at executed
        split
        · exact executed
        · rfl
      · rw [conditional, fails, Bool.or_false, Bool.or_false]
        by_cases executing : s.executing = true
        · rw [if_pos executing, if_pos ⟨executing, room counts⟩, ← Nat.add_assoc]
          exact executed
        · rw [if_neg executing, if_neg fun h => executing h.1]
          rfl
    · rw [bind_of_error full, if_neg fun h => absurd h.2 (Nat.not_lt.mpr many)]
      rfl

/-- An instruction uses up what it counts, whether it succeeds or fails. -/
theorem step_operations (env : Env) (index : Nat) (i : Instruction) (s : State) :
    Always (·.operations = s.operations + i.tally s) (step env index i s) :=
  Always.finish (P := (· = s.operations + i.tally s)) blind_operations
    (apply_operations env i { s with position := index })

/-! ## A row of instructions -/

/-- What holds wherever a row stops holds of the state in which it ends. -/
theorem endState_of_always {P : State → Prop} {r : EStateM.Result Error State Unit}
    (h : Always P r) : P (endState r) := by
  cases r with
  | ok _ s => exact h
  | error _ s => exact h

/-- Wherever a row stops, it has not taken back any count. -/
theorem operations_le_steps (env : Env) (index : Nat) (row : List Instruction) (s : State) :
    Always (s.operations ≤ ·.operations) (steps env index row s) := by
  induction row generalizing index s with
  | nil => exact Nat.le_refl _
  | cons i row ih =>
    have first := (step_operations env index i s).mono fun t ht =>
      (ht ▸ Nat.le_add_right _ _ : s.operations ≤ t.operations)
    exact Ends.bind first fun _ t ht => (ih (index + 1) t).mono fun _ h => Nat.le_trans ht h

/-- Wherever a row stops, it has counted its first instruction. -/
theorem tally_le_steps (env : Env) (index : Nat) (i : Instruction) (row : List Instruction)
    (s : State) :
    Always (s.operations + i.tally s ≤ ·.operations) (steps env index (i :: row) s) := by
  have first := (step_operations env index i s).mono fun _ ht => Nat.le_of_eq ht.symm
  exact Ends.bind first fun _ t ht =>
    (operations_le_steps env (index + 1) row t).mono fun _ h => Nat.le_trans ht h

/-- The keys that are counted when instructions run from a state. -/
def checkedKeys (env : Env) : Nat → List Instruction → State → Nat
  | _, [], _ => 0
  | index, i :: row, s =>
    i.countedKeys s +
      match step env index i s with
      | .ok _ t => checkedKeys env (index + 1) row t
      | .error _ _ => 0

/-- A row counts its own instructions and keys, and if it stops early, no more than these. -/
theorem steps_operations_le (env : Env) (index : Nat) (row : List Instruction) (s : State) :
    Always (·.operations ≤ s.operations + (row.countP counted + checkedKeys env index row s))
      (steps env index row s) := by
  induction row generalizing index s with
  | nil => exact Nat.le_refl _
  | cons i row ih =>
    have counts : (i :: row).countP counted = i.counted.toNat + row.countP counted := by
      rw [List.countP_cons, Nat.add_comm]
      cases i.counted <;> rfl
    have first := step_operations env index i s
    rw [steps, checkedKeys, counts]
    cases hstep : step env index i s with
    | error e t =>
      rw [hstep] at first
      rw [bind_of_error hstep]
      have stopped : t.operations = s.operations + (i.counted.toNat + i.countedKeys s) := first
      show t.operations ≤ _
      omega
    | ok _ t =>
      rw [hstep] at first
      rw [bind_of_ok hstep]
      have stepped : t.operations = s.operations + (i.counted.toNat + i.countedKeys s) := first
      refine (ih (index + 1) t).mono fun u hu => ?_
      dsimp only
      omega

/-! ## Whole scripts -/

theorem run_of_short (env : Env) {script : Script} (short : script.size ≤ maxScriptSize)
    (start : State) : run env script start =
      (steps env 0 script.instructions >>= fun _ => checkClosed) (start.started script) := by
  unfold run
  dsimp only
  rw [if_neg (Nat.not_lt.mpr short)]
  rfl

/-- A script of allowed size ends in the state in which its instructions end. -/
theorem endState_run (env : Env) {script : Script} (short : script.size ≤ maxScriptSize)
    (start : State) :
    endState (run env script start) =
      endState (steps env 0 script.instructions (start.started script)) := by
  rw [run_of_short env short]
  cases h : steps env 0 script.instructions (start.started script) with
  | ok _ s =>
    rw [bind_of_ok h]
    unfold checkClosed
    split <;> rfl
  | error e s => rw [bind_of_error h]

end Exec
end CoinScript
