import CoinScript.Proofs.Relaxation
/-!
# Phases of a verification

A verification runs two or three scripts one after the other. Of what one of them leaves
behind the next one sees the main stack only, so each phase is described by the stack that
it starts from and the stack that it leaves.

* `verify_ok_iff_phases`: a spend is authorized exactly if every phase succeeds and leaves a
  true item on top;
* `flags_only_restrict`: switching optional rules off rejects nothing that was accepted, and
  a run that succeeds ends with the same stacks.
-/

namespace CoinScript

/-- The stack has a top item, and it is true. -/
def TopTrue (stack : List Bytes) : Prop :=
  ∃ item rest, stack = item :: rest ∧ Truth.decode item = true

namespace Exec

/-! ## One phase -/

/-- Run on the main stack `before`, the script succeeds and leaves the main stack `after`. -/
def Leaves (env : Env) (script : Script) (before after : List Bytes) : Prop :=
  ∃ s, run env script { stack := before } = .ok () s ∧ s.stack = after

theorem Leaves.relax {env env' : Env} {script : Script} {before after : List Bytes}
    (h : env.Relaxes env') (leaves : Leaves env script before after) :
    Leaves env' script before after := by
  obtain ⟨s, hrun, rfl⟩ := leaves
  obtain ⟨t, hrun', calls, log, rfl⟩ := h.run hrun rfl
  exact ⟨_, hrun', rfl⟩

/-- It does not matter in which state a phase starts, apart from the main stack. -/
theorem leaves_iff_run {env : Env} {script : Script} {s : State} {after : List Bytes} :
    Leaves env script s.stack after ↔ ∃ s', run env script s = .ok () s' ∧ s'.stack = after := by
  constructor
  · rintro ⟨s', hrun, rfl⟩
    obtain ⟨t, hrun', calls, log, rfl⟩ := (Env.Relaxes.refl env).run (t := s) hrun rfl
    exact ⟨_, hrun', rfl⟩
  · rintro ⟨s', hrun, rfl⟩
    obtain ⟨t, hrun', calls, log, rfl⟩ :=
      (Env.Relaxes.refl env).run (t := { stack := s.stack }) hrun rfl
    exact ⟨_, hrun', rfl⟩

/-- The same for a script that is announced before it runs. -/
theorem leaves_iff_announced {env : Env} {script : Script} {s : State} {after : List Bytes}
    (which : String) :
    Leaves env script s.stack after ↔ ∃ s₀ s₁, announce which script s = .ok () s₀ ∧
      run env script s₀ = .ok () s₁ ∧ s₁.stack = after := by
  obtain ⟨s₀, hlog, hstack⟩ : ∃ s₀, announce which script s = .ok () s₀ ∧ s₀.stack = s.stack :=
    ⟨_, rfl, rfl⟩
  rw [← hstack, leaves_iff_run]
  constructor
  · rintro ⟨s₁, hrun, hafter⟩
    exact ⟨s₀, s₁, hlog, hrun, hafter⟩
  · rintro ⟨s₀', s₁, hlog', hrun, hafter⟩
    rw [hlog] at hlog'
    cases hlog'
    exact ⟨s₁, hrun, hafter⟩

theorem requireTrue_ok_iff {s s' : State} :
    requireTrue s = .ok () s' ↔ TopTrue s.stack ∧ s' = s := by
  unfold requireTrue
  constructor
  · intro h
    split at h
    · cases h
    · next item rest hs =>
      split at h
      · next top =>
        cases h
        exact ⟨⟨item, rest, hs, top⟩, rfl⟩
      · cases h
  · rintro ⟨⟨item, rest, hs, top⟩, rfl⟩
    rw [hs]
    simp only [top, if_true]

/-! ## All phases -/

/-- The condition of the third phase: `stack` is what the unlocking script left. -/
def Redeems (env : Env) (stack : List Bytes) (lock unlock : Script) : Prop :=
  unlock.isDataOnly = true ∧
    ∃ redeem after, redeemScript stack lock = .ok redeem ∧
      Leaves env redeem stack.tail after ∧ TopTrue after

theorem redeems_iff_runRedeem {env : Env} {stack : List Bytes} {lock unlock : Script}
    {s : State} :
    Redeems env stack lock unlock ↔ ∃ s', runRedeem env stack lock unlock s = .ok () s' := by
  unfold Redeems runRedeem
  dsimp only
  constructor
  · rintro ⟨dataOnly, redeem, after, hredeem, leaves, top⟩
    rw [if_neg (by rw [dataOnly]; decide)]
    obtain ⟨s₁, s₂, hlog, hrun, rfl⟩ :=
      (leaves_iff_announced (s := { s with stack := stack.tail }) "P2SH redeem").mp leaves
    exact ⟨s₂, bind_ok_iff.mpr ⟨redeem, s, lift_ok_iff.mpr ⟨hredeem, rfl⟩,
      bind_ok_iff.mpr ⟨(), { s with stack := stack.tail }, rfl, bind_ok_iff.mpr ⟨(), s₁, hlog,
        bind_ok_iff.mpr ⟨(), s₂, hrun, requireTrue_ok_iff.mpr ⟨top, rfl⟩⟩⟩⟩⟩⟩
  · rintro ⟨s', h⟩
    split at h
    · cases h
    · next dataOnly =>
      obtain ⟨redeem, s₁, hlift, h₁⟩ := bind_ok_iff.mp h
      obtain ⟨hredeem, rfl⟩ := lift_ok_iff.mp hlift
      obtain ⟨_, s₂, hmodify, h₂⟩ := bind_ok_iff.mp h₁
      cases hmodify
      obtain ⟨_, s₃, hlog, h₃⟩ := bind_ok_iff.mp h₂
      obtain ⟨_, s₄, hrun, hreq⟩ := bind_ok_iff.mp h₃
      obtain ⟨top, rfl⟩ := requireTrue_ok_iff.mp hreq
      exact ⟨by simpa using dataOnly, redeem, s'.stack, hredeem,
        (leaves_iff_announced _).mpr ⟨s₃, s', hlog, hrun, rfl⟩, top⟩

/-- What is done with the result of the locking script. -/
theorem verify_eq (env : Env) (lock unlock : Script) :
    verify env lock unlock = announce "unlock" unlock >>= fun _ => run env unlock >>= fun _ =>
      get >>= fun st => announce "lock" lock >>= fun _ => run env lock >>= fun _ =>
        requireTrue >>= fun _ =>
          (if env.flags.p2sh && lock.isPayToScriptHash then runRedeem env st.stack lock unlock
          else if env.verbose then
            emit .trace ("P2SH not evaluated: enabled=" ++ boolText env.flags.p2sh ++
              " pay_to_script_hash=" ++ boolText lock.isPayToScriptHash)
          else pure ()) >>= fun _ => emit .debug "Spend authorized" >>= fun _ => pure true := by
  unfold verify
  dsimp only
  refine bind_congr fun _ => bind_congr fun _ => bind_congr fun st => bind_congr fun _ =>
    bind_congr fun _ => bind_congr fun _ => ?_
  split
  · rfl
  · split <;> rfl

/-- A spend is authorized exactly if every phase succeeds and leaves a true item on top. The third
phase takes place for pay-to-script-hash scripts, if it is on. -/
theorem verify_ok_iff_phases {env : Env} {lock unlock : Script} {s : State} :
    (∃ s', verify env lock unlock s = .ok true s') ↔
      ∃ unlocked locked, Leaves env unlock s.stack unlocked ∧ Leaves env lock unlocked locked ∧
        TopTrue locked ∧
        (env.flags.p2sh = true → lock.isPayToScriptHash = true →
          Redeems env unlocked lock unlock) := by
  rw [verify_eq]
  constructor
  · rintro ⟨s', h⟩
    obtain ⟨_, s₀, hlog, h₀⟩ := bind_ok_iff.mp h
    obtain ⟨_, s₁, hunlock, h₁⟩ := bind_ok_iff.mp h₀
    -- The stack between the first two phases is remembered for the third one.
    obtain ⟨_, _, hget, h₂⟩ := bind_ok_iff.mp h₁
    cases hget
    obtain ⟨_, s₂, hlog', h₃⟩ := bind_ok_iff.mp h₂
    obtain ⟨_, s₃, hlock, h₄⟩ := bind_ok_iff.mp h₃
    obtain ⟨_, _, hreq, h₅⟩ := bind_ok_iff.mp h₄
    obtain ⟨top, rfl⟩ := requireTrue_ok_iff.mp hreq
    obtain ⟨_, s₄, hredeem, _⟩ := bind_ok_iff.mp h₅
    refine ⟨s₁.stack, _, (leaves_iff_announced _).mpr ⟨s₀, s₁, hlog, hunlock, rfl⟩,
      (leaves_iff_announced _).mpr ⟨s₂, _, hlog', hlock, rfl⟩, top, ?_⟩
    intro on shape
    rw [if_pos (by rw [on, shape]; rfl)] at hredeem
    exact redeems_iff_runRedeem.mpr ⟨s₄, hredeem⟩
  · rintro ⟨unlocked, locked, hunlock, hlock, top, redeems⟩
    obtain ⟨s₀, s₁, hlog, hrun₁, rfl⟩ := (leaves_iff_announced "unlock").mp hunlock
    obtain ⟨s₂, s₃, hlog', hrun₃, rfl⟩ := (leaves_iff_announced "lock").mp hlock
    obtain ⟨s₄, hredeem⟩ : ∃ s₄,
        (if env.flags.p2sh && lock.isPayToScriptHash then runRedeem env s₁.stack lock unlock
        else if env.verbose then
          emit .trace ("P2SH not evaluated: enabled=" ++ boolText env.flags.p2sh ++
            " pay_to_script_hash=" ++ boolText lock.isPayToScriptHash)
        else pure () : Exec Unit) s₃ = .ok () s₄ := by
      split
      · next both =>
        rw [Bool.and_eq_true] at both
        exact redeems_iff_runRedeem.mp (redeems both.1 both.2)
      · split
        · exact ⟨_, rfl⟩
        · exact ⟨_, rfl⟩
    exact ⟨_, bind_ok_iff.mpr ⟨(), s₀, hlog, bind_ok_iff.mpr ⟨(), s₁, hrun₁,
      bind_ok_iff.mpr ⟨s₁, s₁, rfl, bind_ok_iff.mpr ⟨(), s₂, hlog', bind_ok_iff.mpr ⟨(), s₃, hrun₃,
        bind_ok_iff.mpr ⟨(), s₃, requireTrue_ok_iff.mpr ⟨top, rfl⟩,
          bind_ok_iff.mpr ⟨(), s₄, hredeem, rfl⟩⟩⟩⟩⟩⟩⟩⟩

/-- The answer is never false: a spend that is not authorized is an error. -/
theorem eq_true_of_verify {env : Env} {lock unlock : Script} {s s' : State} {answer : Bool}
    (h : verify env lock unlock s = .ok answer s') : answer = true := by
  rw [verify_eq] at h
  obtain ⟨_, _, _, h₀⟩ := bind_ok_iff.mp h
  obtain ⟨_, _, _, h₁⟩ := bind_ok_iff.mp h₀
  obtain ⟨_, _, _, h₂⟩ := bind_ok_iff.mp h₁
  obtain ⟨_, _, _, h₃⟩ := bind_ok_iff.mp h₂
  obtain ⟨_, _, _, h₄⟩ := bind_ok_iff.mp h₃
  obtain ⟨_, _, _, h₅⟩ := bind_ok_iff.mp h₄
  obtain ⟨_, _, _, h₆⟩ := bind_ok_iff.mp h₅
  cases h₆
  rfl

end Exec

/-! ## The machine -/

theorem Context.perform_eq_ok_iff {α : Type} {c : Context} {step : Env → Exec α} {a : α} :
    (c.perform step).1 = .ok a ↔ ∃ s, step c.env c.state = .ok a s := by
  unfold perform
  cases step c.env c.state with
  | ok b s =>
    constructor
    · intro h
      cases h
      exact ⟨s, rfl⟩
    · rintro ⟨s', h⟩
      cases h
      rfl
  | error e s =>
    constructor
    · intro h
      cases h
    · rintro ⟨s', h⟩
      cases h

theorem Context.perform_state {α : Type} {c : Context} {step : Env → Exec α} {a : α} {s : State}
    (h : step c.env c.state = .ok a s) : (c.perform step).2.state = s := by
  unfold perform
  rw [h]

namespace Machine

/-- In the context, the machine runs the script with success and leaves the main stack `after`. -/
def Leaves (m : Machine) (script : Script) (c : Context) (after : List Bytes) : Prop :=
  (m.run script c).1 = .ok () ∧ (m.run script c).2.state.stack = after

theorem leaves_iff {m : Machine} {script : Script} {c : Context} {after : List Bytes} :
    m.Leaves script c after ↔ Exec.Leaves (m.configure c.env) script c.state.stack after := by
  rw [Exec.leaves_iff_run]
  unfold Leaves run perform
  constructor
  · rintro ⟨hok, hstack⟩
    obtain ⟨s, hrun⟩ := Context.perform_eq_ok_iff.mp hok
    rw [Context.perform_state hrun] at hstack
    exact ⟨s, hrun, hstack⟩
  · rintro ⟨s, hrun, hstack⟩
    refine ⟨Context.perform_eq_ok_iff.mpr ⟨s, hrun⟩, ?_⟩
    rw [Context.perform_state hrun]
    exact hstack

theorem verify_eq_ok_iff {m : Machine} {lock unlock : Script} {c : Context} {answer : Bool} :
    (m.verify lock unlock c).1 = .ok answer ↔
      ∃ s, Exec.verify (m.configure c.env) lock unlock c.state = .ok answer s :=
  Context.perform_eq_ok_iff

/-- Fewer rules, with a checker that does not look at them, are relaxed rules. -/
theorem relaxes_of_within {m m' : Machine} {env : Env} (h : m.flags.Within m'.flags)
    (hc : env.checker.IgnoresFlags) : (m'.configure env).Relaxes (m.configure env) :=
  ⟨h, rfl, rfl, fun digest signature key => hc digest signature key _ _⟩

/-- Optional rules only restrict. If a machine has no rule that another one does not have, it
authorizes every spend that the other one authorizes, and every run that succeeds on the other
machine succeeds on it and ends with the same stacks. -/
theorem flags_only_restrict {m m' : Machine} {c : Context} (h : m.flags.Within m'.flags)
    (hc : c.env.checker.IgnoresFlags) :
    (∀ lock unlock : Script, (m'.verify lock unlock c).1 = .ok true →
      (m.verify lock unlock c).1 = .ok true) ∧
    ∀ script : Script, (m'.run script c).1 = .ok () → (m.run script c).1 = .ok () ∧
      (m.run script c).2.state.stack = (m'.run script c).2.state.stack ∧
      (m.run script c).2.state.alt = (m'.run script c).2.state.alt ∧
      (m.run script c).2.state.conditions = (m'.run script c).2.state.conditions := by
  have relaxes := relaxes_of_within h hc
  refine ⟨?_, ?_⟩
  · intro lock unlock hverify
    obtain ⟨unlocked, locked, hunlock, hlock, top, redeems⟩ :=
      Exec.verify_ok_iff_phases.mp (verify_eq_ok_iff.mp hverify)
    refine verify_eq_ok_iff.mpr (Exec.verify_ok_iff_phases.mpr
      ⟨unlocked, locked, hunlock.relax relaxes, hlock.relax relaxes, top, ?_⟩)
    -- The third phase may take place under the stricter rules only, never the other way round.
    intro on shape
    obtain ⟨dataOnly, redeem, after, hredeem, leaves, top'⟩ := redeems (h.2.2.1 on) shape
    exact ⟨dataOnly, redeem, after, hredeem, leaves.relax relaxes, top'⟩
  · intro script hrun
    obtain ⟨s, hs⟩ := Context.perform_eq_ok_iff.mp hrun
    obtain ⟨t, ht, calls, log, rfl⟩ := relaxes.run (t := c.state) hs rfl
    unfold run perform
    rw [Context.perform_state ht, Context.perform_state hs]
    exact ⟨Context.perform_eq_ok_iff.mpr ⟨_, ht⟩, rfl, rfl, rfl⟩

/-- A check of no signatures, whose extra item is subject to a rule, passes without the rule. -/
theorem flags_only_restrict_dummy :
    let lock : Script := ⟨[.push .direct [], .push .direct [], .op (.signature .checkMultisig)]⟩
    let unlock : Script := ⟨[.push .direct []]⟩
    (verify { flags := .standard } lock unlock {}).1 = .ok true ∧
      (verify { flags := .none } lock unlock {}).1 = .ok true := by
  intro lock unlock
  have strict : (verify { flags := .standard } lock unlock {}).1 = .ok true := rfl
  have fewer : Flags.none.Within Flags.standard := by
    unfold Flags.Within
    decide
  exact ⟨strict, (flags_only_restrict fewer fun _ _ _ _ _ => rfl).1 lock unlock strict⟩

end Machine

end CoinScript
