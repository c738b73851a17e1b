import CoinScript.Proofs.Relaxation
import CoinScript.Proofs.Runs
/-!
# What lies below the stack

A script reaches the main stack from its top. What succeeds on a stack succeeds in the same way
with more items below it and leaves these items alone, as far as the stacks stay within their
limit. One opcode alone can tell the difference, the one that asks for the height of the stack.

* `liftedCongruence`: all primitive steps leave items below alone;
* `step_lifted`, `steps_lifted`: one instruction and a row of them, up to the limit;
* `Machine.run_local`: a whole script.
-/

namespace CoinScript

/-- `t` is the state `s` with the items `base` below its main stack. The log may tell the height of
a stack, so it is not compared. -/
def State.Lifted (base : List Bytes) (s t : State) : Prop :=
  ∃ log, t = { s with stack := s.stack ++ base, log := log }

theorem ShuffleOp.shuffle?_append {op : ShuffleOp} {stack after : List Bytes} (base : List Bytes)
    (h : op.shuffle? stack = some after) : op.shuffle? (stack ++ base) = some (after ++ base) := by
  unfold shuffle? at h
  split at h
  all_goals
    cases h
    try rfl

namespace Exec

open State (Lifted)

/-- What the step does on a stack it does in the same way with `base` below the stack. -/
abbrev Lifts {α : Type} (base : List Bytes) (x : Exec α) : Prop :=
  Sim (fun _ _ => False) (Lifted base) x x

variable {α : Type} {base : List Bytes}

/-! ## Primitive steps -/

theorem lifts_push (item : Bytes) : Lifts base (push item) := by
  rintro s _ ⟨log, rfl⟩
  exact ⟨_, rfl, log, rfl⟩

theorem lifts_pop : Lifts base pop := by
  rintro s _ ⟨log, rfl⟩
  unfold pop
  cases hs : s.stack with
  | nil => exact False.elim
  | cons item rest => exact ⟨_, rfl, log, rfl⟩

theorem lifts_need (count : Nat) : Lifts base (need count) := by
  rintro s _ ⟨log, rfl⟩
  unfold need
  by_cases few : s.stack.length < count
  · rw [if_pos few]
    exact False.elim
  · have enough : ¬ (s.stack ++ base).length < count := by
      rw [List.length_append]
      omega
    rw [if_neg few]
    exact ⟨_, if_neg enough, log, rfl⟩

theorem lifts_itemAt (depth : Nat) : Lifts base (itemAt depth) := by
  rintro s _ ⟨log, rfl⟩
  unfold itemAt
  dsimp only
  cases hs : s.stack[depth]? with
  | none => exact False.elim
  | some item =>
    obtain ⟨inside, -⟩ := List.getElem?_eq_some_iff.mp hs
    rw [List.getElem?_append_left inside, hs]
    exact ⟨_, rfl, log, rfl⟩

theorem lifts_removeAt (depth : Nat) : Lifts base (removeAt depth) := by
  rintro s _ ⟨log, rfl⟩
  unfold removeAt
  dsimp only
  cases hs : s.stack[depth]? with
  | none => exact False.elim
  | some item =>
    obtain ⟨inside, -⟩ := List.getElem?_eq_some_iff.mp hs
    rw [List.getElem?_append_left inside, hs, List.eraseIdx_append_of_lt_length inside]
    exact ⟨_, rfl, log, rfl⟩

theorem lifts_shuffle (op : ShuffleOp) : Lifts base op.execute := by
  rintro s _ ⟨log, rfl⟩
  unfold ShuffleOp.execute
  dsimp only
  cases hs : op.shuffle? s.stack with
  | none => exact False.elim
  | some after =>
    rw [op.shuffle?_append base hs]
    exact ⟨_, rfl, log, rfl⟩

theorem lifts_pushAlt (item : Bytes) : Lifts base (pushAlt item) := by
  rintro s _ ⟨log, rfl⟩
  exact ⟨_, rfl, log, rfl⟩

theorem lifts_popAlt : Lifts base popAlt := by
  rintro s _ ⟨log, rfl⟩
  unfold popAlt
  cases hs : s.alt with
  | nil => exact False.elim
  | cons item rest => exact ⟨_, rfl, log, rfl⟩

theorem lifts_markSeparator : Lifts base markSeparator := by
  rintro s _ ⟨log, rfl⟩
  exact ⟨_, rfl, log, rfl⟩

theorem lifts_countOperations (count : Nat) : Lifts base (countOperations count) := by
  rintro s _ ⟨log, rfl⟩
  unfold countOperations
  dsimp only
  by_cases many : s.operations + count > maxOperations
  · rw [if_pos many]
    exact False.elim
  · rw [if_neg many, if_neg many]
    exact ⟨_, rfl, log, rfl⟩

/-- An index from the top means the same item. -/
theorem lifts_peekNumber (depth limit : Nat) :
    Lifts base (peekNumber (.negSucc depth) limit) := by
  refine Sim.bind (Sim.get_bind ?_) fun _ => sim_lift _
  rintro s _ ⟨log, rfl⟩
  refine (sim_lift_of_ok ?_ fun _ _ => False.elim).bind fun depth => lifts_itemAt depth
  intro found h
  unfold depthOf at h ⊢
  dsimp only at h ⊢
  split at h
  · next inside =>
    rw [if_pos (by rw [List.length_append]; omega)]
    exact h
  · cases h

/-! ## Signatures and lock times -/

theorem lifts_checkSignature (env : Env) (signature key : Bytes) (code : Script) :
    Lifts base (checkSignature env signature key code) := by
  refine (sim_lift _).bind fun _ => (sim_lift _).bind fun _ => ?_
  cases signature.getLast? with
  | none => exact sim_pure false
  | some hashType =>
    refine (spend_sim rfl).bind fun spend => Sim.bind (sim_modify ?_) fun _ => sim_lift _
    rintro s _ ⟨log, rfl⟩
    exact ⟨log, rfl⟩

theorem lifts_checkSingle (env : Env) : Lifts base (checkSingle env) := by
  refine (lifts_need 2).bind fun _ => lifts_pop.bind fun key => lifts_pop.bind fun signature =>
    Sim.get_bind ?_
  rintro s _ ⟨log, rfl⟩
  exact lifts_checkSignature env signature key _

theorem lifts_keyCount : Lifts base keyCount :=
  (lifts_need 1).bind fun _ => (lifts_peekNumber 0 _).bind fun _ =>
    ((sim_throw _).bind fun _ => sim_pure _).ite (sim_pure _)

theorem lifts_signatureCount (keys : Nat) : Lifts base (signatureCount keys) :=
  (lifts_need _).bind fun _ => (lifts_peekNumber (keys + 1) _).bind fun _ =>
    ((sim_throw _).bind fun _ => sim_pure _).ite (sim_pure _)

/-- Behind a check of the height, the items down to that height may be looked at. -/
theorem lifts_need_get {count : Nat} {f : State → Exec α}
    (h : ∀ ⦃s t⦄, Lifted base s t → count ≤ s.stack.length →
      Sim (fun _ _ => False) (Lifted base) (f s) (f t)) :
    Lifts base (need count >>= fun _ => get >>= f) := by
  refine sim_of_ok fun s t s' a hR hx => ?_
  obtain ⟨_, _, hneed, hrest⟩ := bind_ok_iff.mp hx
  obtain ⟨_, hneed', _⟩ := (lifts_need count).ok hR hneed
  obtain ⟨_, rfl⟩ := need_ok_iff.mp hneed'
  obtain ⟨enough, rfl⟩ := need_ok_iff.mp hneed
  obtain ⟨t', hrest', hR'⟩ := (h hR enough).ok hR hrest
  exact ⟨t', bind_ok_iff.mpr ⟨(), _, hneed', hrest'⟩, hR'⟩

/-- An item that is there shows that all items above it may be taken off with it. -/
theorem lifts_itemAt_drop {depth : Nat} {f : Bytes → Exec α} (h : ∀ item, Lifts base (f item)) :
    Lifts base (itemAt depth >>= fun item =>
      modify (fun st => { st with stack := st.stack.drop (depth + 1) }) >>= fun _ => f item) := by
  refine sim_of_ok fun s t s' a hR hx => ?_
  obtain ⟨item, s₁, hitem, hrest⟩ := bind_ok_iff.mp hx
  obtain ⟨t₁, hitem', hR₁⟩ := (lifts_itemAt depth).ok hR hitem
  obtain ⟨hs, rfl⟩ := itemAt_ok_iff.mp hitem
  obtain ⟨inside, -⟩ := List.getElem?_eq_some_iff.mp hs
  have dropped : Lifted base { s₁ with stack := s₁.stack.drop (depth + 1) }
      { t₁ with stack := t₁.stack.drop (depth + 1) } := by
    obtain ⟨log, rfl⟩ := hR₁
    refine ⟨log, ?_⟩
    rw [← List.drop_append_of_le_length (Nat.succ_le_of_lt inside)]
  obtain ⟨t', hrest', hR'⟩ := (h item).ok dropped hrest
  exact ⟨t', bind_ok_iff.mpr ⟨item, t₁, hitem', hrest'⟩, hR'⟩

theorem lifts_checkMultisig (env : Env) : Lifts base (checkMultisig env) := by
  refine lifts_keyCount.bind fun keys => (lifts_countOperations keys).bind fun _ =>
    (lifts_signatureCount keys).bind fun signatures => lifts_need_get ?_
  rintro s _ ⟨log, rfl⟩ enough
  -- Keys and signatures lie within the operands, and these have been asked for.
  have window (start count : Nat) (inside : start + count ≤ s.stack.length) :
      ((s.stack ++ base).drop start).take count = (s.stack.drop start).take count := by
    rw [List.drop_append_of_le_length (by omega), List.take_append_of_le_length (by simp; omega)]
  dsimp only
  rw [window 1 keys (by omega), window (keys + 2) signatures (by omega)]
  exact (matchKeys_sim (fun signature key => lifts_checkSignature env signature key _) _ _).bind
    fun success => lifts_itemAt_drop fun dummy =>
      ((sim_throw _).bind fun _ => sim_pure _).ite (sim_pure success)

theorem lifts_lockTime (env : Env) (op : LockTimeOp) : Lifts base (op.execute env) := by
  refine Sim.ite ?_ (sim_pure ())
  refine (lifts_need 1).bind fun _ => (lifts_peekNumber 0 _).bind fun value => ?_
  refine Sim.guard id (fun _ _ _ => id) ?_
  cases op with
  | absolute => exact (spend_sim rfl).bind fun _ => sim_lift _
  | relative => exact (sim_pure ()).ite ((spend_sim rfl).bind fun _ => sim_lift _)

theorem lifted_executing {s t : State} (h : Lifted base s t) : s.executing = t.executing := by
  obtain ⟨log, rfl⟩ := h
  rfl

theorem lifts_openBranch (taken : Bool) : Lifts base (openBranch taken) := by
  rintro s _ ⟨log, rfl⟩
  exact ⟨_, rfl, log, rfl⟩

theorem lifts_flipBranch : Lifts base flipBranch := by
  rintro s _ ⟨log, rfl⟩
  unfold flipBranch
  cases s.conditions with
  | nil => exact False.elim
  | cons taken rest => exact ⟨_, rfl, log, rfl⟩

theorem lifts_closeBranch : Lifts base closeBranch := by
  rintro s _ ⟨log, rfl⟩
  unfold closeBranch
  cases s.conditions with
  | nil => exact False.elim
  | cons taken rest => exact ⟨_, rfl, log, rfl⟩

/-- All primitive steps leave the items below the stack alone. -/
theorem liftedCongruence (base : List Bytes) (env : Env) :
    Congruence (fun _ _ => False) (Lifted base) env env where
  push := lifts_push
  pop := lifts_pop
  need := lifts_need
  itemAt := lifts_itemAt
  removeAt := lifts_removeAt
  shuffle := lifts_shuffle
  pushAlt := lifts_pushAlt
  popAlt := lifts_popAlt
  markSeparator := lifts_markSeparator
  countOperations := lifts_countOperations
  checkSingle := lifts_checkSingle env
  checkMultisig := lifts_checkMultisig env
  lockTime := lifts_lockTime env
  executing := fun _ _ => lifted_executing
  openBranch := lifts_openBranch
  flipBranch := lifts_flipBranch
  closeBranch := lifts_closeBranch

/-! ## Instructions -/

/-- An instruction without the size check behind it. -/
def work (env : Env) (index : Nat) (instruction : Instruction) : Exec Unit := do
  goTo index
  let executing := (← get).executing
  apply env executing instruction
  if env.verbose && executing then traceInstruction index instruction

theorem step_eq_work (env : Env) (index : Nat) (instruction : Instruction) :
    step env index instruction = work env index instruction >>= fun _ => checkStackSize := by
  rw [step_eq, work]
  simp only [bind_assoc]

theorem lifts_work (env : Env) (index : Nat) {instruction : Instruction}
    (noDepth : instruction ≠ .op (.stack .depth)) :
    Lifts base (work env index instruction) := by
  have gone : Lifts base (goTo index) := by
    refine sim_modify ?_
    rintro s _ ⟨log, rfl⟩
    exact ⟨log, rfl⟩
  have logged : Lifts base (traceInstruction index instruction) := by
    rintro s _ ⟨log, rfl⟩
    exact ⟨_, rfl, _, rfl⟩
  have congruence := liftedCongruence base env
  refine gone.bind fun _ => Sim.get_bind fun s t hR => ?_
  rw [lifted_executing hR]
  refine (congruence.toRuleCongruence.apply ?_ _).bind fun _ => logged.ite (sim_pure ())
  rintro op rfl
  exact congruence.execute fun depth => absurd (congrArg _ depth) noDepth

theorem height_of_lifted {s t : State} (h : Lifted base s t) :
    t.height = base.length + s.height := by
  obtain ⟨log, rfl⟩ := h
  show (s.stack ++ base).length + s.alt.length = base.length + (s.stack.length + s.alt.length)
  rw [List.length_append]
  omega

/-- An instruction that succeeds does the same with `base` below the stack, unless the stacks get
too large with it. -/
theorem step_lifted {env : Env} {index : Nat} {instruction : Instruction} {s s' t : State}
    (noDepth : instruction ≠ .op (.stack .depth)) (hR : Lifted base s t)
    (h : step env index instruction s = .ok () s') :
    (base.length + s'.height ≤ maxStackSize ∧
      ∃ t', step env index instruction t = .ok () t' ∧ Lifted base s' t') ∨
    (maxStackSize < base.length + s'.height ∧
      ∃ t', step env index instruction t = .error (.structural .stackTooLarge) t') := by
  rw [step_eq_work] at h ⊢
  obtain ⟨_, _, hwork, hsize⟩ := bind_ok_iff.mp h
  obtain ⟨_, rfl⟩ := checkStackSize_ok_iff.mp hsize
  obtain ⟨t', hwork', hR'⟩ := (lifts_work env index noDepth).ok hR hwork
  rw [← height_of_lifted hR']
  by_cases fits : t'.height ≤ maxStackSize
  · exact .inl ⟨fits, t', bind_ok_iff.mpr ⟨(), t', hwork', checkStackSize_ok_iff.mpr ⟨fits, rfl⟩⟩,
      hR'⟩
  · have large : t'.stack.length + t'.alt.length > maxStackSize := Nat.lt_of_not_le fits
    refine .inr ⟨large, t', ?_⟩
    rw [bind_of_ok hwork', checkStackSize, if_pos large]

/-- Behind some instruction of a row that runs from `s`, the stacks have more items than the limit
allows, if `more` is added to their number. -/
def Outgrows (env : Env) (more index : Nat) (row : List Instruction) (s : State) : Prop :=
  ∃ done rest u, row = done ++ rest ∧ done ≠ [] ∧ steps env index done s = .ok () u ∧
    maxStackSize < more + u.height

theorem outgrows_cons_iff {env : Env} {more index : Nat} {i : Instruction} {row : List Instruction}
    {s s₁ : State} (h : step env index i s = .ok () s₁) :
    Outgrows env more index (i :: row) s ↔
      maxStackSize < more + s₁.height ∨ Outgrows env more (index + 1) row s₁ := by
  constructor
  · rintro ⟨done, rest, u, hrow, some, hsteps, large⟩
    obtain ⟨j, done, rfl⟩ := List.exists_cons_of_ne_nil some
    obtain ⟨rfl, rfl⟩ := List.cons.inj hrow
    obtain ⟨s₁', hstep, hdone⟩ := steps_cons_ok_iff.mp hsteps
    cases h.symm.trans hstep
    cases done with
    | nil =>
      cases hdone
      exact .inl large
    | cons j done => exact .inr ⟨j :: done, rest, u, rfl, nofun, hdone, large⟩
  · rintro (large | ⟨done, rest, u, rfl, _, hdone, large⟩)
    · exact ⟨[i], row, s₁, rfl, nofun, steps_cons_ok_iff.mpr ⟨s₁, h, rfl⟩, large⟩
    · exact ⟨i :: done, rest, u, rfl, nofun, steps_cons_ok_iff.mpr ⟨s₁, h, hdone⟩, large⟩

/-- A row of instructions that succeeds does the same with `base` below the stack, or stops at the
first instruction behind which the stacks are too large with it. -/
theorem steps_lifted {env : Env} {index : Nat} {row : List Instruction} {s s' t : State}
    (noDepth : .op (.stack .depth) ∉ row) (hR : Lifted base s t)
    (h : steps env index row s = .ok () s') :
    (¬ Outgrows env base.length index row s ∧
      ∃ t', steps env index row t = .ok () t' ∧ Lifted base s' t') ∨
    (Outgrows env base.length index row s ∧
      ∃ t', steps env index row t = .error (.structural .stackTooLarge) t') := by
  induction row generalizing index s t with
  | nil =>
    cases h
    refine .inl ⟨?_, t, rfl, hR⟩
    rintro ⟨done, rest, u, hrow, some, _⟩
    exact some (List.append_eq_nil_iff.mp hrow.symm).1
  | cons i row ih =>
    obtain ⟨s₁, hstep, hrest⟩ := steps_cons_ok_iff.mp h
    obtain ⟨first, later⟩ := List.ne_and_not_mem_of_not_mem_cons noDepth
    rw [outgrows_cons_iff hstep, steps]
    rcases step_lifted first.symm hR hstep with ⟨fits, t₁, hstep', hR₁⟩ | ⟨large, t₁, hstep'⟩
    · rw [bind_of_ok hstep', or_iff_right (Nat.not_lt.mpr fits)]
      exact ih later hR₁ hrest
    · exact .inr ⟨.inl large, t₁, bind_of_error hstep'⟩

/-- The same for a whole script, from states that agree but for `base`. -/
theorem run_lifted {env : Env} {script : Script} {s s' : State} (base : List Bytes)
    (noDepth : .op (.stack .depth) ∉ script.instructions) (h : run env script s = .ok () s') :
    (¬ Outgrows env base.length 0 script.instructions (s.started script) ∧
      ∃ t', run env script { s with stack := s.stack ++ base } = .ok () t' ∧ Lifted base s' t') ∨
    (Outgrows env base.length 0 script.instructions (s.started script) ∧
      ∃ t', run env script { s with stack := s.stack ++ base } =
        .error (.structural .stackTooLarge) t') := by
  obtain ⟨short, ⟨_, hbegin, hsteps⟩, closed⟩ := run_ok_iff.mp h
  cases hbegin
  have start : Lifted base (s.started script)
      (State.started { s with stack := s.stack ++ base } script) := ⟨s.log, rfl⟩
  rcases steps_lifted noDepth start hsteps with ⟨fits, t', hsteps', hR⟩ | ⟨large, t', hsteps'⟩
  · refine .inl ⟨fits, t', run_ok_iff.mpr ⟨short, ⟨_, rfl, hsteps'⟩, ?_⟩, hR⟩
    obtain ⟨log, rfl⟩ := hR
    exact closed
  · refine .inr ⟨large, t', ?_⟩
    unfold run
    dsimp only
    rw [if_neg (Nat.not_lt.mpr short), bind_of_ok (show begin script _ = .ok () _ from rfl)]
    exact bind_of_error hsteps'

end Exec

/-! ## The machine -/

namespace Machine

/-- A script that does not ask for the height of the stack works on the top of the stack alone. If
it succeeds, then with the items `base` below the stack it leaves the same items above `base` and
the same alternate stack, or it fails because the stacks get too large. It fails exactly if behind
some instruction of the run without `base` the stacks and `base` together are over the limit. -/
theorem run_local (m : Machine) {script : Script} {c : Context} (base : List Bytes)
    (noDepth : .op (.stack .depth) ∉ script.instructions) (ok : (m.run script c).1 = .ok ()) :
    let plain := (m.run script c).2.state
    let deep := m.run script { c with state := { c.state with stack := c.state.stack ++ base } }
    let outgrows := Exec.Outgrows (m.configure c.env) base.length 0 script.instructions
      (c.state.started script)
    (¬ outgrows ∧ deep.1 = .ok () ∧ deep.2.state.stack = plain.stack ++ base ∧
      deep.2.state.alt = plain.alt) ∨
    (outgrows ∧ deep.1 = .error (.structural .stackTooLarge)) := by
  intro plain deep outgrows
  obtain ⟨s, hrun⟩ := Context.perform_eq_ok_iff.mp ok
  have hplain : plain = s := Context.perform_state hrun
  rcases Exec.run_lifted base noDepth hrun with ⟨fits, t, hdeep, hR⟩ | ⟨large, t, hdeep⟩
  · have hstate : deep.2.state = t := Context.perform_state hdeep
    obtain ⟨log, rfl⟩ := hR
    rw [hstate, hplain]
    exact .inl ⟨fits, Context.perform_eq_ok_iff.mpr ⟨_, hdeep⟩, rfl, rfl⟩
  · have hfailed : deep.1 = .error (.structural .stackTooLarge) := by
      show (Context.perform _ _).1 = _
      unfold Context.perform
      dsimp only at hdeep ⊢
      rw [hdeep]
    exact .inr ⟨large, hfailed⟩

theorem run_local_pick :
    let script : Script := ⟨[.op (.push (.smallInt 1)), .op (.stack .pick), .op (.stack .toAlt)]⟩
    let plain := run {} script { state := { stack := [[7], [8]] } }
    let deep := run {} script { state := { stack := [[7], [8], [9]] } }
    plain.1 = .ok () ∧ deep.2.state.stack = plain.2.state.stack ++ [[9]] ∧
      deep.2.state.alt = plain.2.state.alt := by
  intro script plain deep
  have ok : plain.1 = .ok () := by decide +kernel
  have fine : deep.1 = .ok () := by decide +kernel
  rcases run_local {} [[9]] (by decide) ok with ⟨_, _, stack, alt⟩ | ⟨_, failed⟩
  · exact ⟨ok, stack, alt⟩
  · cases fine.symm.trans failed

end Machine

end CoinScript
