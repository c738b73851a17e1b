import CoinScript.Proofs.Independence
/-!
# What passes between phases

A script starts with the main stack that an earlier one left, and with nothing else of it: open
branches, the alternate stack, the place of a separator and the count of operations are gone. So
two verifications with the same locking script come to the same end as soon as their unlocking
scripts leave the same main stack, however these did it and whatever their contexts carried before.

* `run_sim`: a whole script, compared by the main stack alone;
* `settled_sim`: what a verification does behind its unlocking script;
* `Machine.phases_share_only_stack`: two verifications.
-/

namespace CoinScript

/-- The states agree in the main stack. -/
def State.SameStack (s t : State) : Prop :=
  t.stack = s.stack

theorem State.SameWork.sameStack {s t : State} (h : s.SameWork t) : s.SameStack t := by
  obtain ⟨calls, log, rfl⟩ := h
  rfl

/-- The environments are bound to the same input of the same transaction, at the same time and with
the same checker. -/
structure Env.SameBinding (env env' : Env) : Prop where
  spend : env'.spend.map (fun spend => (spend.transaction, spend.index.val)) =
    env.spend.map fun spend => (spend.transaction, spend.index.val)
  blockTime : env'.blockTime = env.blockTime
  checker : env'.checker = env.checker

namespace Exec

variable {α : Type}

/-! ## One script -/

/-- From states with the same main stack, the steps answer the same or fail with the same error, and
they leave the same main stack. -/
def SameFromStack (x y : Exec α) : Prop :=
  Sim (fun _ _ => True) State.SameStack x y

/-- The results agree in the answer or the error, and in the main stack. -/
inductive Agree : (r r' : EStateM.Result Error State α) → Prop
  | ok {a : α} {s t : State} : s.SameStack t → Agree (.ok a s) (.ok a t)
  | error {e : Error} {s t : State} : s.SameStack t → Agree (.error e s) (.error e t)

theorem SameFromStack.agree {x y : Exec α} (h : SameFromStack x y) {s t : State}
    (stack : s.SameStack t) : Agree (x s) (y t) := by
  have results := h stack
  cases hx : x s with
  | ok a u =>
    rw [hx] at results
    obtain ⟨v, hy, left⟩ := results
    rw [hy]
    exact .ok left
  | error e u =>
    rw [hx] at results
    obtain ⟨v, hy, left⟩ := results trivial
    rw [hy]
    exact .error left

theorem sameFromStack_emit (level : LogLevel) (message message' : String) :
    SameFromStack (emit level message) (emit level message') :=
  sim_modify fun _ _ h => h

/-- What is noted in the log may depend on the context. -/
theorem sameFromStack_note {c c' : Prop} [Decidable c] [Decidable c'] (level : LogLevel)
    (message : String) :
    SameFromStack (if c then emit level message else pure ())
      (if c' then emit level message else pure ()) := by
  have noted {c : Prop} [Decidable c] (s : State) : ∃ s',
      (if c then emit level message else pure () : Exec Unit) s = .ok () s' ∧ s.SameStack s' := by
    split
    · exact ⟨_, rfl, rfl⟩
    · exact ⟨s, rfl, rfl⟩
  intro s t hR
  obtain ⟨s', hs, left⟩ := noted (c := c) s
  obtain ⟨t', ht, right⟩ := noted (c := c') t
  rw [hs]
  exact ⟨t', ht, right.trans (hR.trans left.symm)⟩

theorem requireTrue_sim : SameFromStack requireTrue requireTrue := by
  intro s t hR
  have stack : t.stack = s.stack := hR
  unfold requireTrue
  rw [stack]
  cases s.stack with
  | nil => exact fun _ => ⟨t, rfl, hR⟩
  | cons item rest =>
    by_cases top : Truth.decode item
    · simp only [if_pos top]
      exact ⟨t, rfl, hR⟩
    · simp only [if_neg top]
      exact fun _ => ⟨t, rfl, hR⟩

/-- What a verification does when its unlocking script has succeeded. -/
def settled (env : Env) (lock unlock : Script) : Exec Bool :=
  get >>= fun st => announce "lock" lock >>= fun _ => run env lock >>= fun _ =>
    requireTrue >>= fun _ =>
      (if env.flags.p2sh && lock.isPayToScriptHash then runRedeem env st.stack lock unlock
      else if env.verbose then
        emit .trace ("P2SH not evaluated: enabled=" ++ boolText env.flags.p2sh ++
          " pay_to_script_hash=" ++ boolText lock.isPayToScriptHash)
      else pure ()) >>= fun _ => emit .debug "Spend authorized" >>= fun _ => pure true

theorem verify_eq_settled (env : Env) (lock unlock : Script) :
    verify env lock unlock =
      announce "unlock" unlock >>= fun _ => run env unlock >>= fun _ => settled env lock unlock :=
  verify_eq env lock unlock

variable {env env' : Env} (h : env.Relaxes env') (same : env'.flags = env.flags)
include h same

/-- Of the state in which a script starts only the main stack matters. -/
theorem run_sim (script : Script) : SameFromStack (run env script) (run env' script) := by
  have body : SameFromStack
      (begin script >>= fun _ => steps env 0 script.instructions >>= fun _ => checkClosed)
      (begin script >>= fun _ => steps env' 0 script.instructions >>= fun _ => checkClosed) := by
    intro s t hR
    obtain ⟨s₁, t₁, hs, ht, started⟩ := begin_sameWork script hR.symm
    have work := body_sim h (fun _ _ (_ : True) => same) script.instructions started
    rw [bind_of_ok hs]
    cases hx : (steps env 0 script.instructions >>= fun _ => checkClosed) s₁ with
    | ok a s' =>
      rw [hx] at work
      obtain ⟨t', hy, work⟩ := work
      exact ⟨t', (bind_of_ok ht).trans hy, work.sameStack⟩
    | error e s' =>
      rw [hx] at work
      intro _
      obtain ⟨t', hy, work⟩ := work trivial
      exact ⟨t', (bind_of_ok ht).trans hy, work.sameStack⟩
  exact ((sim_throw _).bind fun _ => body).ite body

/-! ## Behind the unlocking script -/

theorem runRedeem_sim (stack : List Bytes) (lock : Script) {unlock unlock' : Script}
    (data : unlock'.isDataOnly = unlock.isDataOnly) :
    SameFromStack (runRedeem env stack lock unlock) (runRedeem env' stack lock unlock') := by
  have redeemed : SameFromStack
      (lift (redeemScript stack lock) >>= fun redeem =>
        modify (fun st : State => { st with stack := stack.tail }) >>= fun _ =>
          announce "P2SH redeem" redeem >>= fun _ => run env redeem >>= fun _ => requireTrue)
      (lift (redeemScript stack lock) >>= fun redeem =>
        modify (fun st : State => { st with stack := stack.tail }) >>= fun _ =>
          announce "P2SH redeem" redeem >>= fun _ => run env' redeem >>= fun _ => requireTrue) :=
    (sim_lift _).bind fun redeem =>
      Sim.bind (sim_modify (R := State.SameStack) fun _ _ _ => rfl) fun _ =>
        (sameFromStack_emit _ _ _).bind fun _ => (run_sim h same redeem).bind fun _ =>
          requireTrue_sim
  unfold runRedeem
  rw [data]
  exact ((sim_throw _).bind fun _ => redeemed).ite redeemed

/-- Of the unlocking script only two things matter when it has succeeded: the main stack that it
left, and whether it pushes only. -/
theorem settled_sim (lock : Script) {unlock unlock' : Script}
    (data : unlock'.isDataOnly = unlock.isDataOnly) :
    SameFromStack (settled env lock unlock) (settled env' lock unlock') := by
  refine Sim.get_bind fun s t hR => ?_
  have stack : t.stack = s.stack := hR
  rw [stack]
  refine (sameFromStack_emit _ _ _).bind fun _ => (run_sim h same lock).bind fun _ =>
    requireTrue_sim.bind fun _ => Sim.bind ?_ fun _ =>
      (sameFromStack_emit _ _ _).bind fun _ => sim_pure true
  rw [same]
  exact (runRedeem_sim h same s.stack lock data).ite (sameFromStack_note _ _)

omit h same in
/-- Where the unlocking script succeeds on its own, a verification goes on from the same main
stack. -/
theorem verify_of_run (lock : Script) {unlock : Script} {s s' : State}
    (hrun : run env unlock s = .ok () s') :
    ∃ t, verify env lock unlock s = settled env lock unlock t ∧ s'.SameStack t := by
  obtain ⟨s₀, hlog, stack⟩ : ∃ s₀, announce "unlock" unlock s = .ok () s₀ ∧ s.SameStack s₀ :=
    ⟨_, rfl, rfl⟩
  obtain ⟨t, ht, left⟩ := (run_sim (.refl env) rfl unlock).ok stack hrun
  refine ⟨t, ?_, left⟩
  rw [verify_eq_settled, bind_of_ok hlog, bind_of_ok ht]

/-- Unlocking scripts that leave the same main stack are as good as each other. -/
theorem verify_agree {lock unlock unlock' : Script} (data : unlock'.isDataOnly = unlock.isDataOnly)
    {s s' t t' : State} (hs : run env unlock s = .ok () s') (ht : run env' unlock' t = .ok () t')
    (stack : s'.SameStack t') :
    Agree (verify env lock unlock s) (verify env' lock unlock' t) := by
  obtain ⟨s₁, hverify, left⟩ := verify_of_run lock hs
  obtain ⟨t₁, hverify', right⟩ := verify_of_run lock ht
  have started : s₁.SameStack t₁ := right.trans (stack.trans left.symm)
  rw [hverify, hverify']
  exact (settled_sim h same lock data).agree started

end Exec

/-! ## The machine -/

/-- No answer about a spend depends on the output that is spent. -/
theorem Spend.Alike.of_output (tx : Transaction) (index : Fin tx.inputs.length)
    (prevOutput prevOutput' : TxOut) : Alike ⟨tx, index, prevOutput⟩ ⟨tx, index, prevOutput'⟩ :=
  ⟨fun _ _ => rfl, fun _ _ => rfl, fun _ => rfl⟩

theorem Env.Alike.refl (env : Env) : env.Alike env :=
  ⟨rfl, rfl, fun _ _ _ => rfl, fun _ => rfl, fun _ => rfl⟩

/-- Under the rules of one machine, contexts of the same input differ in what is logged only. -/
theorem Env.SameBinding.alike {env env' : Env} (h : env.SameBinding env') (m : Machine) :
    Env.Alike { m.configure env with verbose := (m.configure env').verbose }
      (m.configure env') := by
  obtain ⟨flags, verbose, blockTime, spent, checker⟩ := env
  obtain ⟨flags', verbose', blockTime', spent', checker'⟩ := env'
  obtain ⟨hspend, rfl, rfl⟩ := h
  match spent, spent' with
  | none, none => exact .refl _
  | some ⟨tx, index, prevOutput⟩, some ⟨tx', index', prevOutput'⟩ =>
    simp only [Option.map_some, Option.some.injEq, Prod.mk.injEq] at hspend
    obtain ⟨rfl, hindex⟩ := hspend
    obtain rfl := Fin.ext hindex
    exact (Spend.Alike.of_output tx' index' prevOutput prevOutput').env
      (m.configure ⟨flags', verbose', blockTime', none, checker'⟩)

theorem Context.perform_agree {α : Type} {c c' : Context} {step step' : Env → Exec α}
    (h : Exec.Agree (step c.env c.state) (step' c'.env c'.state)) :
    (c'.perform step').1 = (c.perform step).1 ∧
      (c'.perform step').2.state.stack = (c.perform step).2.state.stack := by
  unfold perform
  generalize step c.env c.state = r at h ⊢
  generalize step' c'.env c'.state = r' at h ⊢
  cases h with
  | ok stack => exact ⟨rfl, stack⟩
  | error stack => exact ⟨rfl, stack⟩

namespace Machine

/-- Phases share the main stack and nothing else. If two unlocking scripts succeed from contexts of
the same input and leave the same main stack, and both or neither of them push only, then
verifications with them give the same result and leave the same main stack, whatever else the
scripts left behind and the contexts carried before. -/
theorem phases_share_only_stack {m : Machine} (lock : Script) {unlock unlock' : Script}
    {c c' : Context} (binding : c.env.SameBinding c'.env)
    (ok : (m.run unlock c).1 = .ok ()) (ok' : (m.run unlock' c').1 = .ok ())
    (stack : (m.run unlock' c').2.state.stack = (m.run unlock c).2.state.stack)
    (data : unlock'.isDataOnly = unlock.isDataOnly) :
    (m.verify lock unlock' c').1 = (m.verify lock unlock c).1 ∧
      (m.verify lock unlock' c').2.state.stack = (m.verify lock unlock c).2.state.stack := by
  obtain ⟨s, hs⟩ := Context.perform_eq_ok_iff.mp ok
  obtain ⟨t, ht⟩ := Context.perform_eq_ok_iff.mp ok'
  have same : s.SameStack t := by
    have left : (m.run unlock c).2.state = s := Context.perform_state hs
    have right : (m.run unlock' c').2.state = t := Context.perform_state ht
    rwa [left, right] at stack
  -- The contexts may differ in the spent output, which is not seen, and in what is logged.
  let env : Env := { m.configure c.env with verbose := (m.configure c'.env).verbose }
  have alike : env.Alike (m.configure c'.env) := binding.alike m
  have relaxes : (m.configure c.env).Relaxes env := ⟨.refl _, rfl, rfl, fun _ _ _ => rfl⟩
  have ht : Exec.run (m.configure c'.env) unlock' c'.state = .ok () t := ht
  rw [Exec.run_congr alike] at ht
  refine Context.perform_agree ?_
  show Exec.Agree (Exec.verify (m.configure c.env) lock unlock c.state)
    (Exec.verify (m.configure c'.env) lock unlock' c'.state)
  rw [Exec.verify_congr alike]
  exact Exec.verify_agree relaxes rfl data hs ht same

/-- The second script leaves an item on the alternate stack and comes from a context that is midway
in another script; the locking script sees nothing of it. -/
theorem phases_share_only_stack_alt :
    let lock : Script := ⟨[.op (.stack .fromAlt)]⟩
    let unlock : Script := ⟨[.op (.push (.smallInt 1)), .op (.noOp .plain)]⟩
    let unlock' : Script := ⟨[.op (.push (.smallInt 1)), .op (.stack (.shuffle .dup)),
      .op (.stack .toAlt)]⟩
    let c' : Context :=
      { env := { flags := .none }
        state := { alt := [[5]], conditions := [false], codeStart := 3, operations := 200 } }
    (run {} unlock' c').2.state.alt = [[1]] ∧
      (verify {} lock unlock' c').1 = (verify {} lock unlock {}).1 ∧
      (verify {} lock unlock {}).1 = .error (.structural .emptyAltStack) := by
  intro lock unlock unlock' c'
  have binding : ({} : Context).env.SameBinding c'.env := ⟨rfl, rfl, rfl⟩
  refine ⟨by decide +kernel, ?_, by decide +kernel⟩
  have ok : (run {} unlock {}).1 = .ok () := by decide +kernel
  have ok' : (run {} unlock' c').1 = .ok () := by decide +kernel
  have stack : (run {} unlock' c').2.state.stack = (run {} unlock {}).2.state.stack := by
    decide +kernel
  exact (phases_share_only_stack lock binding ok ok' stack rfl).1

end Machine

end CoinScript
