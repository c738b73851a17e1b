import CoinScript.Proofs.Built
import CoinScript.Proofs.Phases
import CoinScript.Proofs.Stepping
/-!
# Invariants of whole runs

What one instruction preserves, a run preserves, and so does a verification with its two or
three runs.

* `Machine.resources_bounded`: how long items and stacks can get, in success and in failure;
* `Machine.run_only_valid`: a run that succeeds has met every rule for the form of a script, also
  in branches that it skipped.
-/

namespace CoinScript

open Instruction

/-- The state in which the instructions of a script start. -/
def State.started (s : State) (script : Script) : State :=
  { s with alt := [], conditions := [], script := script, codeStart := 0, position := 0,
           operations := 0 }

theorem State.tidy_started {s : State} (script : Script) (count : s.stack.length ≤ maxStackSize)
    (short : ∀ item ∈ s.stack, item.length ≤ maxItemSize) : (s.started script).Tidy := by
  refine ⟨?_, count⟩
  rintro item (hitem | hitem)
  · exact short item hitem
  · cases hitem

theorem State.Tidy.started {s : State} (tidy : s.Tidy) (script : Script) :
    (s.started script).Tidy :=
  tidy_started script (Nat.le_trans (Nat.le_add_right _ _) tidy.2)
    fun item hitem => tidy.1 item (.inl hitem)

namespace Exec

/-! ## Resources -/

/-- A run has failed with `e` in the state `t`. -/
def Halts (env : Env) (e : Error) (t : State) : Prop :=
  env.MayRaise e ∧ t.Short ∧ t.height ≤ maxStackSize + 3

theorem Halts.of_tidy {env : Env} {e : Error} {s : State} (h : env.MayRaise e) (tidy : s.Tidy) :
    Halts env e s :=
  ⟨h, tidy.1, Nat.le_trans tidy.2 (Nat.le_add_right _ 3)⟩

variable (env : Env)

theorem step_tidy (index : Nat) (i : Instruction) {s : State} (tidy : s.Tidy) :
    Ends (fun _ t => t.Tidy) (Halts env) (step env index i s) := by
  refine (step_ends env index i s).mono ?_ ?_
  · rintro _ t ⟨stepped, few⟩
    exact ⟨stepped.short tidy, few⟩
  · rintro e t ⟨raised, height, short⟩
    exact ⟨raised, short tidy, Nat.le_trans height (Nat.add_le_add_right tidy.2 3)⟩

theorem steps_tidy (index : Nat) (row : List Instruction) {s : State} (tidy : s.Tidy) :
    Ends (fun _ t => t.Tidy) (Halts env) (steps env index row s) := by
  induction row generalizing index s with
  | nil => exact tidy
  | cons i row ih => exact (step_tidy env index i tidy).bind fun _ t ht => ih (index + 1) ht

theorem run_tidy {script : Script} {s : State} (size : script.size ≤ maxScriptSize)
    (tidy : (s.started script).Tidy) :
    Ends (fun _ t => t.Tidy) (Halts env) (run env script s) := by
  unfold run
  dsimp only
  rw [if_neg (Nat.not_lt.mpr size)]
  have began : Ends (fun _ t => t.Tidy) (Halts env) (begin script s) := tidy
  refine began.bind fun _ t ht => (steps_tidy env 0 script.instructions ht).bind fun _ u hu => ?_
  unfold checkClosed
  split
  · exact hu
  · exact .of_tidy (Env.mayRaise_structural _) hu

theorem redeemScript_cases (stack : List Bytes) (lock : Script) :
    (∃ redeem, redeemScript stack lock = .ok redeem ∧ redeem.Valid) ∨
      ∃ e, redeemScript stack lock = .error e ∧ env.MayRaise e := by
  unfold redeemScript
  cases stack with
  | nil => exact .inr ⟨_, rfl, Env.mayRaise_structural _⟩
  | cons item rest =>
    dsimp only
    cases hparse : Script.parse item with
    | error e =>
      obtain ⟨cause, rfl⟩ := Script.structural_of_parse hparse
      exact .inr ⟨_, rfl, Env.mayRaise_structural _⟩
    | ok redeem =>
      cases lock.hash160? with
      | none => exact .inr ⟨_, rfl, Env.mayRaise_structural _⟩
      | some expected =>
        by_cases h : Hash.hash160 item = expected
        · exact .inl ⟨redeem, if_pos h, (Script.valid_of_parse hparse).1⟩
        · exact .inr ⟨_, if_neg h, Env.mayRaise_negativeVerdict _⟩

theorem requireTrue_tidy {s : State} (tidy : s.Tidy) :
    Ends (fun _ t => t.Tidy) (Halts env) (requireTrue s) := by
  unfold requireTrue
  split
  · exact .of_tidy (Env.mayRaise_negativeVerdict _) tidy
  · split
    · exact tidy
    · exact .of_tidy (Env.mayRaise_negativeVerdict _) tidy

theorem announce_tidy (which : String) (script : Script) {s : State} (tidy : s.Tidy) :
    Ends (fun _ t => t.Tidy) (Halts env) (announce which script s) :=
  tidy

/-- The third phase runs on the items that the first one left, less the topmost. -/
theorem runRedeem_tidy {stack : List Bytes} (lock unlock : Script) {s : State} (tidy : s.Tidy)
    (count : stack.length ≤ maxStackSize) (short : ∀ item ∈ stack, item.length ≤ maxItemSize) :
    Ends (fun _ t => t.Tidy) (Halts env) (runRedeem env stack lock unlock s) := by
  unfold runRedeem
  dsimp only
  split
  · exact .of_tidy (Env.mayRaise_structural _) tidy
  rcases redeemScript_cases env stack lock with ⟨redeem, h, valid⟩ | ⟨e, h, raised⟩
  · rw [h]
    -- What the second phase left on the alternate stack goes when the redeem script begins.
    have placed : Ends (fun _ t => (t.started redeem).Tidy) (Halts env)
        ((modify fun st : State => { st with stack := stack.tail } : Exec Unit) s) :=
      State.tidy_started redeem (by simpa using Nat.le_trans (Nat.sub_le _ 1) count)
        fun item hitem => short item (List.mem_of_mem_tail hitem)
    have announced (t : State) (ht : (t.started redeem).Tidy) :
        Ends (fun _ t => (t.started redeem).Tidy) (Halts env) (announce "P2SH redeem" redeem t) :=
      ht
    exact placed.bind fun _ t ht => (announced t ht).bind fun _ t ht =>
      (run_tidy env valid.size_le ht).bind fun _ t ht => requireTrue_tidy env ht
  · rw [h]
    exact .of_tidy raised tidy

theorem verify_tidy {lock unlock : Script} {s : State} (hlock : lock.size ≤ maxScriptSize)
    (hunlock : unlock.size ≤ maxScriptSize) (tidy : (s.started unlock).Tidy) :
    Ends (fun answer t => answer = true ∧ t.Tidy) (Halts env) (verify env lock unlock s) := by
  rw [verify_eq]
  have announced : Ends (fun _ t => (t.started unlock).Tidy) (Halts env)
      (announce "unlock" unlock s) := tidy
  refine announced.bind fun _ t ht => (run_tidy env hunlock ht).bind fun _ t ht => ?_
  refine Ends.bind (Q := fun st u => st = t ∧ u.Tidy) ⟨rfl, ht⟩ ?_
  rintro _ u ⟨rfl, hu⟩
  refine (announce_tidy env "lock" lock hu).bind fun _ u hu =>
    (run_tidy env hlock (hu.started lock)).bind fun _ u hu =>
      (requireTrue_tidy env hu).bind fun _ u hu => ?_
  refine Ends.bind (Q := fun _ v => v.Tidy) ?_ fun _ v hv => ⟨rfl, hv⟩
  split
  · exact runRedeem_tidy env lock unlock hu (Nat.le_trans (Nat.le_add_right _ _) ht.2)
      fun item hitem => ht.1 item (.inl hitem)
  · split
    · exact hu
    · exact hu

/-! ## The form of a script -/

/-- The keys of the multisignature checks that are executed when instructions run from a state. -/
def executedKeys (env : Env) : Nat → List Instruction → State → Nat
  | _, [], _ => 0
  | index, i :: row, s =>
    i.keys s +
      match step env index i s with
      | .ok _ t => executedKeys env (index + 1) row t
      | .error _ _ => 0

/-- What a row of instructions that succeeded has done between `s` and `t`. -/
structure Passed (env : Env) (index : Nat) (row : List Instruction) (s t : State) : Prop where
  lawful : ∀ i ∈ row, i.Lawful
  nest : depthAfter s.conditions.length row = some t.conditions.length
  operations : t.operations =
    s.operations + row.countP Instruction.counted + executedKeys env index row s
  limit : s.operations ≤ maxOperations → t.operations ≤ maxOperations

theorem steps_passed {index : Nat} {row : List Instruction} {s t : State}
    (h : steps env index row s = .ok () t) : Passed env index row s t := by
  induction row generalizing index s with
  | nil =>
    cases h
    exact ⟨nofun, rfl, rfl, id⟩
  | cons i row ih =>
    obtain ⟨u, hstep, hrest⟩ := steps_cons_ok_iff.mp h
    have stepped : State.Stepped { s with position := index } i u := by
      have := step_ends env index i s
      rw [hstep] at this
      exact this.1
    have rest := ih hrest
    refine ⟨?_, ?_, ?_, fun hs => rest.limit (stepped.limit hs)⟩
    · rintro j (_ | ⟨_, hj⟩)
      · exact stepped.lawful
      · exact rest.lawful j hj
    · have hnest : Instruction.nest s.conditions.length i = some u.conditions.length :=
        stepped.nest
      rw [depthAfter_cons, hnest]
      exact rest.nest
    · have hcost : u.operations = s.operations + (i.counted.toNat + i.keys s) := stepped.operations
      have hkeys : executedKeys env index (i :: row) s =
          i.keys s + executedKeys env (index + 1) row u := by
        rw [executedKeys, hstep]
      have hcount : (i :: row).countP counted = row.countP counted + i.counted.toNat := by
        rw [List.countP_cons]
        cases i.counted <;> rfl
      rw [rest.operations, hcost, hkeys, hcount]
      omega

end Exec

/-! ## The machine -/

theorem Context.perform_ends {α : Type} {c : Context} (step : Env → Exec α)
    {Q : α → State → Prop} {E : Error → State → Prop}
    (h : Exec.Ends Q E (step c.env c.state)) :
    (∃ a, (c.perform step).1 = .ok a ∧ Q a (c.perform step).2.state) ∨
      ∃ e, (c.perform step).1 = .error e ∧ E e (c.perform step).2.state := by
  unfold perform
  cases hstep : step c.env c.state with
  | ok a t =>
    rw [hstep] at h
    exact .inl ⟨a, rfl, h⟩
  | error e t =>
    rw [hstep] at h
    exact .inr ⟨e, rfl, h⟩

namespace Machine

/-- What holds after a step that keeps the stacks within their limits. -/
theorem bounded_of_tidy {α : Type} {m : Machine} {c : Context} (step : Env → Exec α) (answer : α)
    (h : Exec.Ends (fun _ t => t.Tidy) (Exec.Halts (m.configure c.env))
      (step (m.configure c.env) c.state)) :
    let after := (m.perform c step).2.state
    (∀ item ∈ after.stack ++ after.alt, item.length ≤ 520) ∧
      after.stack.length + after.alt.length ≤ 1003 ∧
      ((m.perform c step).1 = .ok answer → after.stack.length + after.alt.length ≤ 1000) := by
  have items {s : State} (h : s.Short) : ∀ item ∈ s.stack ++ s.alt, item.length ≤ 520 :=
    fun item hitem => h item (List.mem_append.mp hitem)
  intro after
  rcases Context.perform_ends (c := { c with env := m.configure c.env }) step h with
    ⟨_, _, tidy⟩ | ⟨e, herror, halts⟩
  · exact ⟨items tidy.1, Nat.le_trans tidy.2 (by decide), fun _ => tidy.2⟩
  · refine ⟨items halts.2.1, halts.2.2, fun hok => ?_⟩
    cases herror.symm.trans hok

/-- Items and stacks are bounded throughout. From a main stack within the limits, a script leaves no
item on either stack that is too long, whether it succeeds or fails; it leaves at most 1000 items if
it succeeds and at most 1003 if it fails. A verification with all its phases keeps the same
limits. -/
theorem resources_bounded {m : Machine} {c : Context} (count : c.state.stack.length ≤ 1000)
    (short : ∀ item ∈ c.state.stack, item.length ≤ 520) :
    (∀ script : Script, script.Built →
      let after := (m.run script c).2.state
      (∀ item ∈ after.stack ++ after.alt, item.length ≤ 520) ∧
        after.stack.length + after.alt.length ≤ 1003 ∧
        ((m.run script c).1 = .ok () → after.stack.length + after.alt.length ≤ 1000)) ∧
    ∀ lock unlock : Script, lock.Built → unlock.Built →
      let after := (m.verify lock unlock c).2.state
      (∀ item ∈ after.stack ++ after.alt, item.length ≤ 520) ∧
        after.stack.length + after.alt.length ≤ 1003 ∧
        ((m.verify lock unlock c).1 = .ok true → after.stack.length + after.alt.length ≤ 1000) := by
  refine ⟨fun script built => ?_, fun lock unlock hlock hunlock => ?_⟩
  · exact bounded_of_tidy (fun env => Exec.run env script) () (Exec.run_tidy _
      built.valid.size_le (State.tidy_started script count short))
  · have verified := Exec.verify_tidy (m.configure c.env) hlock.valid.size_le
      hunlock.valid.size_le (State.tidy_started unlock count short)
    exact bounded_of_tidy (fun env => Exec.verify env lock unlock) true
      (verified.imp fun _ _ h => h.2)

theorem resources_bounded_dup :
    let script : Script := ⟨[.op (.stack (.shuffle .dup))]⟩
    let after := (run {} script { state := { stack := [[1], [2]] } }).2.state
    after.stack.length + after.alt.length ≤ 1003 := by
  intro script
  have built : script.Built :=
    .append .empty (show Script.empty.append (.stack (.shuffle .dup)) = _ from rfl)
  exact ((resources_bounded (c := { state := { stack := [[1], [2]] } }) (by decide)
    (by decide)).1 script built).2.1

/-- A run can succeed only on a script that has the form of one, whichever branches it takes. -/
theorem run_only_valid (m : Machine) (script : Script) (c : Context) :
    ((m.run script c).1 = .ok () →
      ((∀ op, .op (.disabled op) ∉ script.instructions) ∧
        .op (.reserved .verIf) ∉ script.instructions ∧
        .op (.reserved .verNotIf) ∉ script.instructions) ∧
      (∀ data, .push data ∈ script.instructions → data.length ≤ 520) ∧
      script.instructions.countP counted +
        Exec.executedKeys (m.configure c.env) 0 script.instructions (c.state.started script) ≤ 201 ∧
      Balanced script.instructions) ∧
    ∀ done rest s, script.instructions = done ++ rest →
      Exec.steps (m.configure c.env) 0 done (c.state.started script) = .ok () s →
      depthAfter 0 done = some s.conditions.length := by
  refine ⟨?_, fun done rest s _ hsteps => (Exec.steps_passed _ hsteps).nest⟩
  intro hok
  obtain ⟨s, hrun⟩ := Context.perform_eq_ok_iff.mp hok
  obtain ⟨_, ⟨_, hbegin, hsteps⟩, closed⟩ := Exec.run_ok_iff.mp hrun
  cases hbegin
  have passed := Exec.steps_passed _ hsteps
  refine ⟨⟨?_, ?_, ?_⟩, ?_, ?_, ?_⟩
  · intro op hop
    cases passed.lawful _ hop
  · intro hop
    cases passed.lawful _ hop
  · intro hop
    cases passed.lawful _ hop
  · exact fun data hdata => passed.lawful _ hdata
  · have hops : s.operations = 0 + script.instructions.countP counted +
        Exec.executedKeys (m.configure c.env) 0 script.instructions (c.state.started script) :=
      passed.operations
    have few : s.operations ≤ 201 := passed.limit (Nat.zero_le _)
    omega
  · have hnest := passed.nest
    rw [closed] at hnest
    exact balanced_iff_depthAfter.mpr hnest

theorem run_only_valid_skipped :
    let script : Script := ⟨[.push .direct [], .op (.flow .ifTrue), .op (.flow .giveUp),
      .op (.flow .orElse), .op (.noOp .plain), .op (.flow .endIf)]⟩
    (run {} script {}).1 = .ok () ∧ Balanced script.instructions := by
  intro script
  have ok : (run {} script {}).1 = .ok () := by decide +kernel
  exact ⟨ok, ((run_only_valid {} script {}).1 ok).2.2.2⟩

end Machine
end CoinScript
