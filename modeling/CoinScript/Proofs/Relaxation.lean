import CoinScript.Proofs.Simulation
/-!
# Relaxing the rules

An environment relaxes another one if it asks for less: fewer optional rules are on, and
everything else that a script can see is the same. What succeeds under the stricter
environment then succeeds under the relaxed one and leaves the same stacks.

Records of what happened, the log and the questions to the signature checker, are written
and never read, so states are compared without them.

* `congruence`: all primitive steps respect what is compared;
* `Env.Relaxes.run`: a run that succeeds still succeeds under relaxed rules, from every
  state with the same main stack.
-/

namespace CoinScript

/-! ## What is compared -/

/-- The states agree in everything but the records of what happened. -/
def State.SameWork (s t : State) : Prop :=
  ∃ calls log, t = { s with calls := calls, log := log }

/-- The answers of a checker do not depend on the rules that are on. -/
def Checker.IgnoresFlags (checker : Checker) : Prop :=
  ∀ digest signature key f g, checker digest signature key f = checker digest signature key g

/-- `env'` asks for no more than `env`. -/
structure Env.Relaxes (env env' : Env) : Prop where
  flags : env'.flags.Within env.flags
  blockTime : env'.blockTime = env.blockTime
  spend : env'.spend = env.spend
  checker : ∀ digest signature key,
    env'.checker digest signature key env'.flags = env.checker digest signature key env.flags

theorem State.SameWork.refl (s : State) : s.SameWork s :=
  ⟨s.calls, s.log, rfl⟩

theorem State.SameWork.symm {s t : State} (h : s.SameWork t) : t.SameWork s := by
  obtain ⟨calls, log, rfl⟩ := h
  exact ⟨s.calls, s.log, rfl⟩

theorem State.SameWork.trans {s t u : State} (h : s.SameWork t) (h' : t.SameWork u) :
    s.SameWork u := by
  obtain ⟨calls, log, rfl⟩ := h
  obtain ⟨calls', log', rfl⟩ := h'
  exact ⟨calls', log', rfl⟩

theorem Flags.Within.refl (f : Flags) : f.Within f := by
  simp [Within]

theorem Env.Relaxes.refl (env : Env) : env.Relaxes env :=
  ⟨Flags.Within.refl env.flags, rfl, rfl, fun _ _ _ => rfl⟩

/-! ## Encoding rules -/

namespace SignatureEncoding

theorem checkSignature_eq_ok_iff {f : Flags} {sig : Bytes} :
    checkSignature f sig = .ok () ↔ sig = [] ∨
      ((f.strictEncoding ∨ f.lowS → isStrictDer sig) ∧ (f.lowS → isLowDer sig.dropLast) ∧
        (f.strictEncoding → isDefinedHashType sig)) := by
  unfold checkSignature
  by_cases hsig : sig = []
  · simp [hsig]
  · cases f.strictEncoding <;> cases f.lowS <;> cases isStrictDer sig <;>
      cases isLowDer sig.dropLast <;> cases isDefinedHashType sig <;> simp [hsig]

theorem checkPublicKey_eq_ok_iff {f : Flags} {key : Bytes} :
    checkPublicKey f key = .ok () ↔ (f.strictEncoding → isStandardKey key) := by
  unfold checkPublicKey
  cases f.strictEncoding <;> cases isStandardKey key <;> simp

theorem checkSignature_of_within {f g : Flags} (h : f.Within g) {sig : Bytes}
    (hg : checkSignature g sig = .ok ()) : checkSignature f sig = .ok () := by
  obtain ⟨hstrict, hlow, -⟩ := h
  rw [checkSignature_eq_ok_iff] at hg ⊢
  rcases hg with hg | ⟨hder, hs, htype⟩
  · exact .inl hg
  · exact .inr ⟨fun hf => hder (hf.imp hstrict hlow), fun hf => hs (hlow hf),
      fun hf => htype (hstrict hf)⟩

theorem checkPublicKey_of_within {f g : Flags} (h : f.Within g) {key : Bytes}
    (hg : checkPublicKey g key = .ok ()) : checkPublicKey f key = .ok () := by
  rw [checkPublicKey_eq_ok_iff] at hg ⊢
  exact fun hf => hg (h.1 hf)

end SignatureEncoding

/-! ## Relations that rules cannot see through -/

namespace Exec

variable {α β : Type} {strict : Error → State → Prop} {R : State → State → Prop}

/-- Related states look the same to a rule that checks no signatures, and stay related when it
changes both in the same way. -/
structure StackTransparent (R : State → State → Prop) : Prop where
  stack : ∀ ⦃s t⦄, R s t → t.stack = s.stack
  alt : ∀ ⦃s t⦄, R s t → t.alt = s.alt
  setStack : ∀ stack ⦃s t⦄, R s t → R { s with stack := stack } { t with stack := stack }
  setAlt : ∀ alt ⦃s t⦄, R s t → R { s with alt := alt } { t with alt := alt }
  mark : ∀ ⦃s t⦄, R s t →
    R { s with codeStart := s.position + 1 } { t with codeStart := t.position + 1 }
  setPosition : ∀ index ⦃s t⦄, R s t → R { s with position := index } { t with position := index }
  record : ∀ calls calls' log log' ⦃s t⦄, R s t →
    R { s with calls := calls, log := log } { t with calls := calls', log := log' }

/-- Related states look the same to the rule of an opcode, also in what signatures commit to. -/
structure Transparent (R : State → State → Prop) : Prop extends StackTransparent R where
  code : ∀ ⦃s t⦄, R s t → t.scriptCode = s.scriptCode

theorem sameWork_transparent : Transparent State.SameWork where
  stack := by
    rintro s _ ⟨calls, log, rfl⟩
    rfl
  alt := by
    rintro s _ ⟨calls, log, rfl⟩
    rfl
  code := by
    rintro s _ ⟨calls, log, rfl⟩
    rfl
  setStack := by
    rintro stack s _ ⟨calls, log, rfl⟩
    exact ⟨calls, log, rfl⟩
  setAlt := by
    rintro alt s _ ⟨calls, log, rfl⟩
    exact ⟨calls, log, rfl⟩
  mark := by
    rintro s _ ⟨calls, log, rfl⟩
    exact ⟨calls, log, rfl⟩
  setPosition := by
    rintro index s _ ⟨calls, log, rfl⟩
    exact ⟨calls, log, rfl⟩
  record := by
    rintro _ calls' _ log' s _ ⟨calls, log, rfl⟩
    exact ⟨calls', log', rfl⟩

/-- An instruction is logged or not, and nothing else happens. -/
theorem log_eq (env : Env) (executing : Bool) (index : Nat) (instruction : Instruction)
    (s : State) : ∃ log,
      (if env.verbose && executing then traceInstruction index instruction else pure () : Exec Unit)
        s = .ok () { s with log := log } := by
  split
  · exact ⟨_, rfl⟩
  · exact ⟨s.log, rfl⟩

namespace StackTransparent

variable (p : StackTransparent R)
include p

theorem push_sim (item : Bytes) : Sim strict R (push item) (push item) := by
  intro s t hR
  refine ⟨_, rfl, ?_⟩
  dsimp only
  rw [p.stack hR]
  exact p.setStack _ hR

theorem pop_sim : Sim strict R pop pop := by
  intro s t hR
  unfold pop
  rw [p.stack hR]
  cases s.stack with
  | nil => exact fun _ => ⟨t, rfl, hR⟩
  | cons item rest => exact ⟨_, rfl, p.setStack rest hR⟩

theorem need_sim (count : Nat) : Sim strict R (need count) (need count) := by
  intro s t hR
  unfold need
  rw [p.stack hR]
  by_cases few : s.stack.length < count
  · simp only [if_pos few]
    exact fun _ => ⟨t, rfl, hR⟩
  · simp only [if_neg few]
    exact ⟨t, rfl, hR⟩

theorem itemAt_sim (depth : Nat) : Sim strict R (itemAt depth) (itemAt depth) := by
  intro s t hR
  unfold itemAt
  rw [p.stack hR]
  cases s.stack[depth]? with
  | none => exact fun _ => ⟨t, rfl, hR⟩
  | some item => exact ⟨t, rfl, hR⟩

theorem removeAt_sim (depth : Nat) : Sim strict R (removeAt depth) (removeAt depth) := by
  intro s t hR
  unfold removeAt
  rw [p.stack hR]
  cases s.stack[depth]? with
  | none => exact fun _ => ⟨t, rfl, hR⟩
  | some item => exact ⟨_, rfl, p.setStack _ hR⟩

theorem shuffle_sim (op : ShuffleOp) : Sim strict R op.execute op.execute := by
  intro s t hR
  unfold ShuffleOp.execute
  rw [p.stack hR]
  cases op.shuffle? s.stack with
  | none => exact fun _ => ⟨t, rfl, hR⟩
  | some stack => exact ⟨_, rfl, p.setStack stack hR⟩

theorem pushAlt_sim (item : Bytes) : Sim strict R (pushAlt item) (pushAlt item) := by
  intro s t hR
  refine ⟨_, rfl, ?_⟩
  dsimp only
  rw [p.alt hR]
  exact p.setAlt _ hR

theorem popAlt_sim : Sim strict R popAlt popAlt := by
  intro s t hR
  unfold popAlt
  rw [p.alt hR]
  cases s.alt with
  | nil => exact fun _ => ⟨t, rfl, hR⟩
  | cons item rest => exact ⟨_, rfl, p.setAlt rest hR⟩

theorem markSeparator_sim : Sim strict R markSeparator markSeparator := by
  intro s t hR
  exact ⟨_, rfl, p.mark hR⟩

theorem goTo_sim (index : Nat) : Sim strict R (goTo index) (goTo index) :=
  fun _ _ hR => ⟨_, rfl, p.setPosition index hR⟩

theorem checkStackSize_sim : Sim strict R checkStackSize checkStackSize := by
  intro s t hR
  unfold checkStackSize
  rw [p.stack hR, p.alt hR]
  by_cases large : s.stack.length + s.alt.length > maxStackSize
  · simp only [if_pos large]
    exact fun _ => ⟨t, rfl, hR⟩
  · simp only [if_neg large]
    exact ⟨t, rfl, hR⟩

/-- Whether and where an instruction is logged does not matter. -/
theorem log_sim (env env' : Env) (executing : Bool) (index index' : Nat)
    (instruction : Instruction) :
    Sim strict R
      (if env.verbose && executing then traceInstruction index instruction else pure ())
      (if env'.verbose && executing then traceInstruction index' instruction else pure ()) := by
  intro s t hR
  obtain ⟨log, hs⟩ := log_eq env executing index instruction s
  obtain ⟨log', ht⟩ := log_eq env' executing index' instruction t
  rw [hs]
  exact ⟨_, ht, p.record s.calls t.calls log log' hR⟩

theorem peekNumber_sim (index : Int) (limit : Nat) :
    Sim strict R (peekNumber index limit) (peekNumber index limit) := by
  refine Sim.bind (Sim.get_bind fun s t hR => ?_) fun _ => sim_lift _
  rw [p.stack hR]
  exact (sim_lift _).bind fun _ => p.itemAt_sim _

theorem keyCount_sim : Sim strict R keyCount keyCount :=
  (p.need_sim 1).bind fun _ => (p.peekNumber_sim _ _).bind fun _ =>
    ((sim_throw _).bind fun _ => sim_pure _).ite (sim_pure _)

theorem signatureCount_sim (keys : Nat) :
    Sim strict R (signatureCount keys) (signatureCount keys) :=
  (p.need_sim _).bind fun _ => (p.peekNumber_sim _ _).bind fun _ =>
    ((sim_throw _).bind fun _ => sim_pure _).ite (sim_pure _)

end StackTransparent

theorem matchKeys_sim {check check' : Bytes → Bytes → Exec Bool}
    (h : ∀ signature key, Sim strict R (check signature key) (check' signature key))
    (signatures keys : List Bytes) :
    Sim strict R (matchKeys check signatures keys) (matchKeys check' signatures keys) := by
  fun_induction matchKeys check signatures keys with
  | case1 keys =>
    rw [matchKeys]
    exact sim_pure true
  | case2 signature signatures =>
    rw [matchKeys]
    exact sim_pure false
  | case3 signature signatures key keys fewer =>
    rw [matchKeys, if_pos fewer]
    exact sim_pure false
  | case4 signature signatures key keys enough found passed =>
    rw [matchKeys, if_neg enough]
    refine (h signature key).bind fun answer => ?_
    cases answer with
    | true => exact found
    | false => exact passed

/-- The spend is the same in both environments, and asking for it leaves the state alone. -/
theorem spend_sim {env env' : Env} (h : env'.spend = env.spend) :
    Sim strict R (spend env) (spend env') := by
  unfold spend
  rw [h]
  cases env.spend with
  | some spend => exact sim_pure spend
  | none => exact sim_throw _

/-! ## Lock times -/

theorem unchanged_of_peekNumber {index : Int} {limit : Nat} {s s' : State} {n : Int}
    (h : peekNumber index limit s = .ok n s') : s' = s := by
  obtain ⟨item, s₁, hpeek, h⟩ := bind_ok_iff.mp h
  obtain ⟨_, rfl⟩ := lift_ok_iff.mp h
  obtain ⟨_, s₂, hget, hpeek⟩ := bind_ok_iff.mp hpeek
  cases hget
  obtain ⟨depth, s₃, hdepth, hitem⟩ := bind_ok_iff.mp hpeek
  obtain ⟨_, rfl⟩ := lift_ok_iff.mp hdepth
  exact (itemAt_ok_iff.mp hitem).2

theorem unchanged_of_spend {env : Env} {f : Spend → Except Error Unit} {s s' : State}
    (h : (spend env >>= fun spend => lift (f spend)) s = .ok () s') : s' = s := by
  obtain ⟨found, s₁, hspend, hlift⟩ := bind_ok_iff.mp h
  obtain ⟨_, rfl⟩ := lift_ok_iff.mp hlift
  unfold spend at hspend
  cases he : env.spend with
  | some spend =>
    rw [he] at hspend
    cases hspend
    rfl
  | none =>
    rw [he] at hspend
    cases hspend

/-- A lock-time rule that is met leaves no trace. -/
theorem unchanged_of_lockTime {env : Env} {op : LockTimeOp} {s s' : State}
    (h : op.execute env s = .ok () s') : s' = s := by
  unfold LockTimeOp.execute at h
  split at h
  · obtain ⟨_, s₁, hneed, hrest⟩ := bind_ok_iff.mp h
    obtain ⟨_, rfl⟩ := need_ok_iff.mp hneed
    obtain ⟨value, s₂, hpeek, hcheck⟩ := bind_ok_iff.mp hrest
    obtain rfl := unchanged_of_peekNumber hpeek
    dsimp only at hcheck
    split at hcheck
    · cases hcheck
    · cases op with
      | absolute => exact unchanged_of_spend hcheck
      | relative =>
        dsimp only at hcheck
        split at hcheck
        · cases hcheck
          rfl
        · exact unchanged_of_spend hcheck
  · cases h
    rfl

/-! ## Rules -/

section Checks

variable {env env' : Env} (p : StackTransparent R)
  (count : ∀ count, Sim strict R (countOperations count) (countOperations count))
  (checks : ∀ ⦃s t⦄, R s t → ∀ signatures signature key,
    Sim strict R (checkSignature env signature key (codeWithout s.scriptCode signatures))
      (checkSignature env' signature key (codeWithout t.scriptCode signatures)))
include p checks

theorem checkSingle_sim : Sim strict R (checkSingle env) (checkSingle env') :=
  (p.need_sim 2).bind fun _ => p.pop_sim.bind fun key => p.pop_sim.bind fun signature =>
    Sim.get_bind fun _ _ hR => checks hR [signature] signature key

include count in
theorem checkMultisig_sim (dummy : env'.flags.nullDummy = true → env.flags.nullDummy = true)
    (same : ∀ e s, strict e s → env'.flags = env.flags) :
    Sim strict R (checkMultisig env) (checkMultisig env') := by
  refine p.keyCount_sim.bind fun keys => (count keys).bind fun _ =>
    (p.signatureCount_sim keys).bind fun signatures => (p.need_sim _).bind fun _ =>
      Sim.get_bind fun s t hR => ?_
  rw [p.stack hR]
  refine (matchKeys_sim (checks hR _) _ _).bind fun success => (p.itemAt_sim _).bind fun _ =>
    Sim.bind (sim_modify ?_) fun _ => ?_
  · intro s t hR
    rw [p.stack hR]
    exact p.setStack _ hR
  · -- The extra item is looked at only under the rule for it.
    refine Sim.guard ?_ ?_ (sim_pure success)
    · intro hc
      rw [Bool.and_eq_true] at hc ⊢
      exact ⟨dummy hc.1, hc.2⟩
    · intro e s hs hc
      rw [same e s hs]
      exact hc

include count in
/-- Opcodes respect every relation that they cannot see through, if the checks of signatures and
the lock times do. -/
theorem ruleCongruence_of_checks
    (dummy : env'.flags.nullDummy = true → env.flags.nullDummy = true)
    (same : ∀ e s, strict e s → env'.flags = env.flags)
    (times : ∀ op : LockTimeOp, Sim strict R (op.execute env) (op.execute env')) :
    RuleCongruence strict R env env' where
  push := p.push_sim
  pop := p.pop_sim
  need := p.need_sim
  itemAt := p.itemAt_sim
  removeAt := p.removeAt_sim
  shuffle := p.shuffle_sim
  pushAlt := p.pushAlt_sim
  popAlt := p.popAlt_sim
  markSeparator := p.markSeparator_sim
  countOperations := count
  checkSingle := checkSingle_sim p checks
  checkMultisig := checkMultisig_sim p count checks dummy same
  lockTime := times

end Checks

/-! ## Relaxed rules -/

section Relaxes

variable {env env' : Env} (h : env.Relaxes env')
  (same : ∀ e s, strict e s → env'.flags = env.flags)
include h same

theorem checkSignature_sim (p : StackTransparent R) (signature key : Bytes) (code : Script) :
    Sim strict R (checkSignature env signature key code)
      (checkSignature env' signature key code) := by
  refine (sim_lift_of_ok ?_ ?_).bind fun _ => (sim_lift_of_ok ?_ ?_).bind fun _ => ?_
  · exact fun _ => SignatureEncoding.checkSignature_of_within h.flags
  · exact fun e s hs => by rw [same e s hs]
  · exact fun _ => SignatureEncoding.checkPublicKey_of_within h.flags
  · exact fun e s hs => by rw [same e s hs]
  · cases signature.getLast? with
    | none => exact sim_pure false
    | some hashType =>
      -- The question is recorded on both sides, and the answer does not depend on the rules.
      refine (spend_sim h.spend).bind fun spend => Sim.bind (sim_modify ?_) fun _ => ?_
      · exact fun s t hR => p.record _ _ s.log t.log hR
      · rw [h.checker]
        exact sim_lift _

theorem lockTime_sim (p : StackTransparent R) (op : LockTimeOp) :
    Sim strict R (op.execute env) (op.execute env') := by
  by_cases on' : op.isEnabled env'.flags
  · have on : op.isEnabled env.flags := by
      cases op with
      | absolute => exact h.flags.2.2.2.1 on'
      | relative => exact h.flags.2.2.2.2.1 on'
    unfold LockTimeOp.execute
    rw [if_pos on, if_pos on']
    refine (p.need_sim 1).bind fun _ => (p.peekNumber_sim _ _).bind fun value =>
      Sim.guard id (fun _ _ _ => id) ?_
    cases op with
    | absolute =>
      refine (spend_sim h.spend).bind fun spend => ?_
      rw [h.blockTime]
      exact sim_lift _
    | relative => exact (sim_pure ()).ite ((spend_sim h.spend).bind fun _ => sim_lift _)
  · -- The rule is off on the right, where nothing happens; on the left it changes nothing.
    have skipped : op.execute env' = pure () := by
      unfold LockTimeOp.execute
      rw [if_neg on']
    rw [skipped]
    intro s t hR
    cases hx : op.execute env s with
    | ok a s' =>
      obtain rfl := unchanged_of_lockTime hx
      exact ⟨t, rfl, hR⟩
    | error e s' =>
      intro hs
      rw [same e s' hs] at on'
      unfold LockTimeOp.execute at hx
      rw [if_neg on'] at hx
      cases hx

/-- Under relaxed rules, opcodes respect every relation that they cannot see through. -/
theorem ruleCongruence (p : Transparent R)
    (count : ∀ count, Sim strict R (countOperations count) (countOperations count)) :
    RuleCongruence strict R env env' := by
  have checks ⦃s t : State⦄ (hR : R s t) (signatures : List Bytes) (signature key : Bytes) :
      Sim strict R (checkSignature env signature key (codeWithout s.scriptCode signatures))
        (checkSignature env' signature key (codeWithout t.scriptCode signatures)) := by
    rw [p.code hR]
    exact checkSignature_sim h same p.toStackTransparent signature key _
  exact ruleCongruence_of_checks p.toStackTransparent count checks h.flags.2.2.2.2.2 same
    (lockTime_sim h same p.toStackTransparent)

end Relaxes

/-! ## Whole scripts -/

section SameWork

theorem sim_of_ignores_records {x : Exec α}
    (h : ∀ s calls log, x { s with calls := calls, log := log } =
      match x s with
      | .ok a s' => .ok a { s' with calls := calls, log := log }
      | .error e s' => .error e { s' with calls := calls, log := log }) :
    Sim strict State.SameWork x x := by
  rintro s _ ⟨calls, log, rfl⟩
  have hx := h s calls log
  cases hs : x s with
  | ok a s' =>
    rw [hs] at hx
    exact ⟨_, hx, calls, log, rfl⟩
  | error e s' =>
    rw [hs] at hx
    exact fun _ => ⟨_, hx, calls, log, rfl⟩

theorem flipBranch_sim : Sim strict State.SameWork flipBranch flipBranch := by
  refine sim_of_ignores_records ?_
  rintro ⟨_, _, conditions⟩ calls log
  cases conditions <;> rfl

theorem closeBranch_sim : Sim strict State.SameWork closeBranch closeBranch := by
  refine sim_of_ignores_records ?_
  rintro ⟨_, _, conditions⟩ calls log
  cases conditions <;> rfl

theorem countOperations_sim (count : Nat) :
    Sim strict State.SameWork (countOperations count) (countOperations count) := by
  refine sim_of_ignores_records fun s calls log => ?_
  simp only [countOperations]
  split <;> rfl

theorem checkClosed_sim : Sim strict State.SameWork checkClosed checkClosed := by
  refine sim_of_ignores_records fun s calls log => ?_
  simp only [checkClosed]
  split <;> rfl

variable {env env' : Env} (h : env.Relaxes env')
  (same : ∀ e s, strict e s → env'.flags = env.flags)
include h same

/-- Relaxed rules respect the work of a state. -/
theorem congruence : Congruence strict State.SameWork env env' where
  toRuleCongruence := ruleCongruence h same sameWork_transparent countOperations_sim
  executing := by
    rintro s _ ⟨calls, log, rfl⟩
    rfl
  openBranch taken := sim_of_ignores_records fun _ _ _ => rfl
  flipBranch := flipBranch_sim
  closeBranch := closeBranch_sim

/-- The instructions of a script and the check behind them respect the work of a state. -/
theorem body_sim (instructions : List Instruction) :
    Sim strict State.SameWork (steps env 0 instructions >>= fun _ => checkClosed)
      (steps env' 0 instructions >>= fun _ => checkClosed) := by
  have p := sameWork_transparent
  refine Sim.bind ((congruence h same).steps ?_ p.goTo_sim
    (fun executing index => p.log_sim env env' executing index index) p.checkStackSize_sim 0
    instructions) fun _ => checkClosed_sim
  rintro s _ ⟨calls, log, rfl⟩
  rfl

end SameWork

end Exec

/-- A script starts in the same way whatever an earlier one left behind, apart from the main
stack. -/
theorem begin_sameWork (script : Script) {s t : State} (stack : s.stack = t.stack) :
    ∃ s₁ t₁, Exec.begin script s = .ok () s₁ ∧ Exec.begin script t = .ok () t₁ ∧
      s₁.SameWork t₁ := by
  refine ⟨_, _, rfl, rfl, t.calls, t.log, ?_⟩
  rw [stack]

/-- A run that succeeds still succeeds under relaxed rules. It may start in another state, as long
as the main stack is the same. -/
theorem Env.Relaxes.run {env env' : Env} (h : env.Relaxes env') {script : Script} {s t s' : State}
    (hrun : Exec.run env script s = .ok () s') (stack : s.stack = t.stack) :
    ∃ t', Exec.run env' script t = .ok () t' ∧ s'.SameWork t' := by
  unfold Exec.run at hrun ⊢
  dsimp only at hrun ⊢
  split at hrun
  · cases hrun
  · next short =>
    rw [if_neg short]
    obtain ⟨s₁, t₁, hs, ht, started⟩ := begin_sameWork script stack
    obtain ⟨_, s₁', hbegin, hbody⟩ := Exec.bind_ok_iff.mp hrun
    rw [hs] at hbegin
    cases hbegin
    have body : Exec.Sim (fun _ _ => False) State.SameWork _ _ :=
      Exec.body_sim h (fun _ _ => False.elim) script.instructions
    obtain ⟨t', htail, work⟩ := body.ok started hbody
    exact ⟨t', Exec.bind_ok_iff.mpr ⟨(), t₁, ht, htail⟩, work⟩

end CoinScript
