import CoinScript.Proofs.Counting
/-!
# A script inside another one

A script may stand inside another one, behind instructions and inside branches that the other one
has opened. As long as the branches around it are taken, it does there what it does alone: the
stacks stay the same, and so do its own branches. The two differ in the operations that were
counted before, and in what signatures hash, which a checker may ignore.

* `steps_inside`: a row of instructions inside another script, compared with the row alone;
* `steps_operations_inside`: the operations that are counted in both places;
* `run_behind`: a whole script that stands behind some instructions.
-/

namespace CoinScript

open Instruction

/-- The answers of a checker do not depend on the digest that a signature commits to. -/
def Checker.IgnoresDigest (checker : Checker) : Prop :=
  ∀ digest digest' signature key flags,
    checker digest signature key flags = checker digest' signature key flags

theorem Env.signatureAnswer_of_ignores {env : Env} (ignores : env.checker.IgnoresDigest)
    (signature key : Bytes) (code code' : Script) :
    env.signatureAnswer signature key code = env.signatureAnswer signature key code' := by
  unfold signatureAnswer
  cases signature.getLast? with
  | none => rfl
  | some hashType =>
    cases env.spend with
    | none => rfl
    | some spend =>
      dsimp only
      rw [ignores (spend.signatureHash code hashType.toUInt32)
        (spend.signatureHash code' hashType.toUInt32)]

namespace Exec

/-- `s` is a place in a script with another one inside, and `t` is the same place in the inner
script alone. The branches in `opened` are those around the inner script. -/
structure Inside (opened : List Bool) (s t : State) : Prop where
  stack : t.stack = s.stack
  alt : t.alt = s.alt
  conditions : s.conditions = t.conditions ++ opened
  operations : t.operations ≤ s.operations

/-- The row leaves the branches around it alone, if there are any. -/
def Stays (opened : List Bool) (t : State) (row : List Instruction) : Prop :=
  opened = [] ∨ (depthAfter t.conditions.length row).isSome

theorem stays_of_balanced {opened : List Bool} {t : State} {row : List Instruction}
    (balanced : Balanced row) (closed : t.conditions = []) : Stays opened t row := by
  refine .inr ?_
  rw [closed, List.length_nil, balanced_iff_depthAfter.mp balanced]
  rfl

/-! ## Results that follow each other -/

section Mirrors

variable {α β : Type} {R : State → State → Prop}

/-- The second result is what the first one is, unless the limit of operations stopped the first. -/
def Mirrors (R : State → State → Prop) (r r' : EStateM.Result Error State α) : Prop :=
  Ends (fun a s => ∃ t, r' = .ok a t ∧ R s t)
    (fun e s => s.operations ≤ maxOperations → ∃ t, r' = .error e t ∧ R s t) r

theorem Sim.mirrors {x y : Exec α} (h : Sim WithinLimit R x y) {s t : State} (hR : R s t) :
    Mirrors R (x s) (y t) := by
  have results := h hR
  cases hx : x s with
  | ok a s' =>
    rw [hx] at results
    exact results
  | error e s' =>
    rw [hx] at results
    exact results

theorem Mirrors.bind {x y : Exec α} {f g : α → Exec β} {s t : State} (h : Mirrors R (x s) (y t))
    (hf : ∀ a s' t', y t = .ok a t' → R s' t' → Mirrors R (f a s') (g a t')) :
    Mirrors R ((x >>= f) s) ((y >>= g) t) := by
  cases hx : x s with
  | ok a s' =>
    rw [hx] at h
    obtain ⟨t', hy, hR⟩ := h
    rw [bind_of_ok hx, bind_of_ok hy]
    exact hf a s' t' hy hR
  | error e s' =>
    rw [hx] at h
    rw [bind_of_error hx]
    intro few
    obtain ⟨t', hy, hR⟩ := h few
    exact ⟨t', bind_of_error hy, hR⟩

/-- Two results are both answers or both errors, and the same ones. -/
inductive Alike (R : State → State → Prop) : (r r' : EStateM.Result Error State α) → Prop
  | ok {a : α} {s t : State} : R s t → Alike R (.ok a s) (.ok a t)
  | error {e : Error} {s t : State} : R s t → Alike R (.error e s) (.error e t)

theorem Mirrors.alike {r r' : EStateM.Result Error State Unit} (h : Mirrors R r r')
    (few : (endState r).operations ≤ maxOperations) : Alike R r r' := by
  cases r with
  | ok a s =>
    obtain ⟨t, rfl, hR⟩ := h
    exact .ok hR
  | error e s =>
    obtain ⟨t, rfl, hR⟩ := h few
    exact .error hR

end Mirrors

/-! ## One instruction -/

theorem inside_transparent (opened : List Bool) : StackTransparent (Inside opened) where
  stack _ _ h := h.stack
  alt _ _ h := h.alt
  setStack _ _ _ h := { h with stack := rfl }
  setAlt _ _ _ h := { h with alt := rfl }
  mark _ _ h := { h with }
  setPosition _ _ _ h := { h with }
  record _ _ _ _ _ _ h := { h with }

section Inside

variable {env : Env} {opened : List Bool} {s t : State}

theorem Inside.executing (h : Inside opened s t) (taken : opened.all id = true) :
    s.executing = t.executing := by
  rw [State.executing, h.conditions, List.all_append, taken, Bool.and_true]
  rfl

theorem Inside.height (h : Inside opened s t) : t.height = s.height := by
  rw [State.height, h.stack, h.alt]
  rfl

theorem countOperations_inside (opened : List Bool) (count : Nat) :
    Sim WithinLimit (Inside opened) (countOperations count) (countOperations count) := by
  intro s t h
  have fewer : t.operations + count ≤ s.operations + count := Nat.add_le_add_right h.operations _
  unfold countOperations
  dsimp only
  by_cases many : s.operations + count > maxOperations
  · rw [if_pos many]
    exact fun few => absurd many (Nat.not_lt.mpr few)
  · rw [if_neg many, if_neg fun more => many (Nat.lt_of_lt_of_le more fewer)]
    exact ⟨_, rfl, { h with operations := fewer }⟩

/-- Where the answers do not depend on the digest, it does not matter which code is hashed. -/
theorem checkSignature_anywhere {strict : Error → State → Prop} {R : State → State → Prop}
    (p : StackTransparent R) (ignores : env.checker.IgnoresDigest) (signature key : Bytes)
    (code code' : Script) :
    Sim strict R (checkSignature env signature key code)
      (checkSignature env signature key code') := by
  intro s t hR
  obtain ⟨calls, hs⟩ := checkSignature_eq env signature key code s
  obtain ⟨calls', ht⟩ := checkSignature_eq env signature key code' t
  rw [hs, ht, Env.signatureAnswer_of_ignores ignores signature key code code']
  exact sim_lift _ (p.record calls calls' s.log t.log hR)

/-- The inner script finds a branch that it needs: its own, or none where there are none around. -/
theorem flipBranch_inside (h : Inside opened s t) (found : opened = [] ∨ t.conditions ≠ []) :
    Mirrors (Inside opened) (flipBranch s) (flipBranch t) := by
  unfold flipBranch
  rw [h.conditions]
  cases ht : t.conditions with
  | nil =>
    rcases found with rfl | found
    · exact fun _ => ⟨t, rfl, h⟩
    · exact absurd ht found
  | cons taken rest => exact ⟨_, rfl, { h with conditions := rfl }⟩

theorem closeBranch_inside (h : Inside opened s t) (found : opened = [] ∨ t.conditions ≠ []) :
    Mirrors (Inside opened) (closeBranch s) (closeBranch t) := by
  unfold closeBranch
  rw [h.conditions]
  cases ht : t.conditions with
  | nil =>
    rcases found with rfl | found
    · exact fun _ => ⟨t, rfl, h⟩
    · exact absurd ht found
  | cons taken rest => exact ⟨_, rfl, { h with conditions := rfl }⟩

/-- An instruction that counts itself and then changes a branch. -/
theorem turn_inside {i : Instruction} {x : Exec Unit} (h : Inside opened s t)
    (hx : ∀ ⦃s t⦄, Inside opened s t → opened = [] ∨ t.conditions ≠ [] →
      Mirrors (Inside opened) (x s) (x t))
    (needs : nest 0 i = none) (found : opened = [] ∨ (nest t.conditions.length i).isSome) :
    Mirrors (Inside opened) ((countOperations 1 >>= fun _ => x) s)
      ((countOperations 1 >>= fun _ => x) t) := by
  refine ((countOperations_inside opened 1).mirrors h).bind fun _ s' t' ht' h' => hx h' ?_
  obtain ⟨_, rfl⟩ := countOperations_ok_iff.mp ht'
  rcases found with none | found
  · exact .inl none
  · refine .inr fun closed => ?_
    rw [show t.conditions = [] from closed, List.length_nil, needs] at found
    cases found

variable (ignores : env.checker.IgnoresDigest)
include ignores

theorem inside_rules (opened : List Bool) : RuleCongruence WithinLimit (Inside opened) env env :=
  ruleCongruence_of_checks (inside_transparent opened) (countOperations_inside opened)
    (fun _ _ _ _ signature key =>
      checkSignature_anywhere (inside_transparent opened) ignores signature key _ _)
    id (fun _ _ _ => rfl)
    (lockTime_sim (Env.Relaxes.refl env) (fun _ _ _ => rfl) (inside_transparent opened))

variable (taken : opened.all id = true)
include taken

/-- An instruction does the same inside, if it finds the branch that it needs there, or if there
are no branches around. -/
theorem apply_inside {i : Instruction} (h : Inside opened s t)
    (found : opened = [] ∨ (nest t.conditions.length i).isSome) (executing : Bool) :
    Mirrors (Inside opened) (apply env executing i s) (apply env executing i t) := by
  have p := inside_transparent opened
  have rules := inside_rules ignores opened
  have counts := (countOperations_inside opened 1).mirrors h
  rcases plain_or_branch i with hi | ⟨wanted, rfl⟩ | rfl | rfl
  · refine (rules.apply (fun op hop => rules.execute ?_ ?_) executing).mirrors h
    · rintro flow rfl
      exact flow_of_plain (hop ▸ hi)
    · exact fun _ s t hR => by rw [p.stack hR]
  · have opens (answer : Bool) : Sim WithinLimit (Inside opened) (openBranch answer)
        (openBranch answer) :=
      sim_modify fun _ _ h => { h with conditions := congrArg (answer :: ·) h.conditions }
    have taking := rules.branchTaken (fun _ _ h => h.executing taken) wanted
    rw [apply_opening]
    exact ((rules.countOperations 1).bind fun _ => taking.bind opens).mirrors h
  · rw [apply_orElse]
    exact turn_inside h (fun _ _ => flipBranch_inside) rfl found
  · rw [apply_endIf]
    exact turn_inside h (fun _ _ => closeBranch_inside) rfl found

theorem step_inside {i : Instruction} (h : Inside opened s t)
    (found : opened = [] ∨ (nest t.conditions.length i).isSome) (index index' : Nat) :
    Mirrors (Inside opened) (step env index i s) (step env index' i t) := by
  have p := inside_transparent opened
  have moved : Inside opened { s with position := index } { t with position := index' } :=
    { h with }
  have executing := moved.executing taken
  rw [step_eq, step_eq]
  show Mirrors (Inside opened)
    ((apply env _ i >>= fun _ => _ >>= fun _ => checkStackSize) { s with position := index })
    ((apply env _ i >>= fun _ => _ >>= fun _ => checkStackSize) { t with position := index' })
  rw [executing]
  refine (apply_inside ignores taken moved found _).bind fun _ s' t' _ h' => ?_
  exact ((p.log_sim env env _ index index' i).bind fun _ => p.checkStackSize_sim).mirrors h'

/-! ## A row of instructions -/

omit ignores taken in
theorem Stays.cons {i : Instruction} {row : List Instruction} (stays : Stays opened t (i :: row)) :
    (opened = [] ∨ (nest t.conditions.length i).isSome) ∧
      ∀ {index : Nat} {t' : State}, step env index i t = .ok () t' → Stays opened t' row := by
  unfold Stays at stays
  rw [depthAfter_cons] at stays
  refine ⟨stays.imp_right Option.isSome_of_isSome_bind, fun {index t'} hstep => ?_⟩
  have ends := step_ends env index i t
  rw [hstep] at ends
  have hnest : nest t.conditions.length i = some t'.conditions.length := ends.1.nest
  rwa [hnest] at stays

/-- A row does the same inside as alone, if it stays within its own branches. It may start at
another place in the script around it. -/
theorem steps_inside {row : List Instruction} (h : Inside opened s t)
    (stays : Stays opened t row) (index index' : Nat) :
    Mirrors (Inside opened) (steps env index row s) (steps env index' row t) := by
  induction row generalizing index index' s t with
  | nil => exact ⟨t, rfl, h⟩
  | cons i row ih =>
    obtain ⟨first, rest⟩ := stays.cons
    refine (step_inside ignores taken h first index index').bind fun _ s' t' ht' h' => ?_
    exact ih h' (rest ht') (index + 1) (index' + 1)

omit ignores in
theorem tally_inside (h : Inside opened s t) (i : Instruction) : i.tally s ≤ i.tally t := by
  refine Nat.add_le_add_left ?_ _
  unfold Instruction.countedKeys
  cases i with
  | push data => exact Nat.le_refl 0
  | unknown code => exact Nat.le_refl 0
  | op o =>
    have keys : Exec.countedKeys o s = Exec.countedKeys o t := by
      unfold Exec.countedKeys State.allowedCount
      rw [h.stack]
    dsimp only
    split
    · next room =>
      rw [if_pos ⟨h.executing taken ▸ room.1, Nat.lt_of_le_of_lt h.operations room.2⟩, keys]
    · exact Nat.zero_le _

/-- A row counts as many operations alone as it does inside, so there are no more than those counted
in front of it in addition. -/
theorem steps_operations_inside {row : List Instruction} {more : Nat} (h : Inside opened s t)
    (stays : Stays opened t row) (few : s.operations ≤ t.operations + more) (index index' : Nat) :
    (endState (steps env index row s)).operations ≤
      (endState (steps env index' row t)).operations + more := by
  induction row generalizing index index' s t with
  | nil => exact few
  | cons i row ih =>
    obtain ⟨first, rest⟩ := stays.cons
    have counts := endState_of_always (step_operations env index i s)
    have inner := endState_of_always (step_operations env index' i t)
    have both : s.operations + i.tally s ≤ t.operations + i.tally t + more := by
      rw [Nat.add_right_comm]
      exact Nat.add_le_add few (tally_inside taken h i)
    have mirrored := step_inside ignores taken h first index index'
    cases hs : step env index i s with
    | error e s' =>
      rw [hs] at counts
      rw [steps_cons_error hs]
      calc
        s'.operations = s.operations + i.tally s := counts
        _ ≤ t.operations + i.tally t + more := both
        _ ≤ _ := Nat.add_le_add_right (endState_of_always (tally_le_steps env index' i row t)) more
    | ok _ s' =>
      rw [hs] at mirrored counts
      obtain ⟨t', ht, h'⟩ := mirrored
      rw [ht] at inner
      rw [steps, steps, bind_of_ok hs, bind_of_ok ht]
      have fewer : s'.operations ≤ t'.operations + more := calc
        s'.operations = s.operations + i.tally s := counts
        _ ≤ t.operations + i.tally t + more := both
        _ = t'.operations + more := congrArg (· + more) (Eq.symm inner)
      exact ih h' (rest ht) fewer (index + 1) (index' + 1)

end Inside

/-! ## A script behind a row of instructions -/

section Behind

variable {env : Env} {s : State}

/-- A script does the same behind a row that leaves nothing but the operations that it has counted,
if there is room for both. -/
theorem run_behind {script whole : Script} {front : List Instruction} {start : State}
    (ignores : env.checker.IgnoresDigest) (size : whole.size ≤ maxScriptSize)
    (size' : script.size ≤ maxScriptSize)
    (split : whole.instructions = front ++ script.instructions)
    (passed : steps env 0 front (start.started whole) = .ok () s)
    (inside : Inside [] s (start.started script))
    (few : (endState (run env script start)).operations + s.operations ≤ maxOperations) :
    Alike (Inside []) (run env whole start) (run env script start) := by
  have closed : Sim WithinLimit (Inside []) checkClosed checkClosed := by
    intro s t h
    have conditions : s.conditions = t.conditions := by
      rw [h.conditions, List.append_nil]
    unfold checkClosed
    rw [conditions]
    by_cases none : t.conditions.isEmpty
    · rw [if_pos none, if_pos none]
      exact ⟨t, rfl, h⟩
    · rw [if_neg none, if_neg none]
      exact fun _ => ⟨t, rfl, h⟩
  have behind : run env whole start =
      (steps env front.length script.instructions >>= fun _ => checkClosed) s := by
    rw [run_of_short env size, split, steps_append, bind_assoc, bind_of_ok passed, Nat.zero_add]
  have fewer : s.operations ≤ (start.started script).operations + s.operations :=
    Nat.le_add_left _ _
  have counted : (endState (run env whole start)).operations ≤ maxOperations := by
    rw [endState_run env size'] at few
    rw [endState_run env size, split, steps_append, bind_of_ok passed, Nat.zero_add]
    exact Nat.le_trans
      (steps_operations_inside ignores rfl inside (.inl rfl) fewer front.length 0) few
  refine Mirrors.alike ?_ counted
  rw [behind, run_of_short env size']
  exact (steps_inside ignores rfl inside (.inl rfl) front.length 0).bind fun _ _ _ _ h =>
    closed.mirrors h

end Behind

end Exec

namespace Machine

theorem state_run (m : Machine) (script : Script) (c : Context) :
    (m.run script c).2.state = Exec.endState (Exec.run (m.configure c.env) script c.state) := by
  unfold run perform Context.perform
  dsimp only
  cases Exec.run (m.configure c.env) script c.state <;> rfl

theorem run_alike {m : Machine} {script script' : Script} {c c' : Context}
    {R : State → State → Prop}
    (h : Exec.Alike R (Exec.run (m.configure c.env) script c.state)
      (Exec.run (m.configure c'.env) script' c'.state)) :
    (m.run script c).1 = (m.run script' c').1 ∧
      R (m.run script c).2.state (m.run script' c').2.state := by
  unfold run perform Context.perform
  dsimp only
  generalize Exec.run (m.configure c.env) script c.state = r at h ⊢
  generalize Exec.run (m.configure c'.env) script' c'.state = r' at h ⊢
  cases h with
  | ok hR => exact ⟨rfl, hR⟩
  | error hR => exact ⟨rfl, hR⟩

end Machine

end CoinScript
