import CoinScript.Proofs.Contract
import CoinScript.Proofs.Embedding
/-!
# Lock times

A script can be held back until a lock time of the transaction, or until the input that it spends
is old enough. The absolute rule stands in front of other scripts as a gate, which nothing but the
spend can open and which leaves no trace for the script behind it. The relative rule compares single
bits of its operand with those of the input.

* `Spend.checkLockTime_eq_ok_iff`, `Spend.checkSequence_eq_ok_iff`: what the rules ask for;
* `Machine.lock_time_gates`: a script behind a gate;
* `Context.sequence_rule`: the opcode for relative lock times.
-/

namespace CoinScript

open Instruction

/-- A check in front of others. -/
theorem guard_eq_ok_iff {α : Type} {bad : Prop} [Decidable bad] {e : Error} {r : Except Error α}
    {a : α} : (if bad then .error e else r) = .ok a ↔ ¬ bad ∧ r = .ok a := by
  split
  · next h =>
    constructor
    · intro hr
      cases hr
    · rintro ⟨hn, _⟩
      exact absurd h hn
  · next h => exact ⟨fun hr => ⟨h, hr⟩, fun hr => hr.2⟩

theorem Number.decode_eq_ok_iff {limit : Nat} {item : Bytes} {value : Int} :
    decode limit item = .ok value ↔ item.length ≤ limit ∧ value = Number.value item := by
  unfold decode
  rw [guard_eq_ok_iff, gt_iff_lt, Nat.not_lt, Except.ok.injEq, eq_comm]

namespace Spend

/-- The lock time of the transaction has the same unit as `lockTime`, blocks or seconds, and is not
earlier; the input is not final; and the block is not older than a lock time in seconds. -/
structure LateEnough (spend : Spend) (blockTime : Option UInt32) (lockTime : UInt32) : Prop where
  unit : spend.transaction.lockTime < 500000000 ↔ lockTime < 500000000
  late : lockTime ≤ spend.transaction.lockTime
  pending : spend.input.sequence ≠ 0xffffffff
  block : 500000000 ≤ lockTime → ∀ time, blockTime = some time → spend.transaction.lockTime ≤ time

/-- The transaction has version 2 or higher and the input a sequence that is a relative lock time,
of the same unit as `wanted` and not shorter. -/
structure OldEnough (spend : Spend) (wanted : Nat) : Prop where
  version : 2 ≤ spend.transaction.version.toUInt32
  relative : spend.input.sequence.toNat.testBit 31 = false
  unit : (wanted &&& 0x0040ffff).testBit 22 = (spend.input.sequence.toNat &&& 0x0040ffff).testBit 22
  late : wanted &&& 0x0040ffff ≤ spend.input.sequence.toNat &&& 0x0040ffff

/-! ## What the rules ask for -/

theorem isHeight_bne_iff {a b : UInt32} :
    ¬ (isHeight a != isHeight b) = true ↔ (a < 500000000 ↔ b < 500000000) := by
  rw [bne_iff_ne, not_not]
  exact decide_eq_decide

/-- A lock time in seconds is compared with the time of the block, if there is one. -/
theorem blockTime_eq_ok_iff {own wanted : UInt32} {blockTime : Option UInt32} :
    (match blockTime with
      | some time =>
        if !isHeight wanted && own > time then .error (.negativeVerdict .afterBlockTime) else .ok ()
      | none => .ok () : Except Error Unit) = .ok () ↔
      (500000000 ≤ wanted → ∀ time, blockTime = some time → own ≤ time) := by
  cases blockTime with
  | none => simp
  | some time =>
    have seconds : isHeight wanted = false ↔ 500000000 ≤ wanted := by
      rw [isHeight, decide_eq_false_iff_not, UInt32.not_lt]
      rfl
    simp [seconds]

theorem checkLockTime_eq_ok_iff {spend : Spend} {blockTime : Option UInt32} {lockTime : UInt32} :
    spend.checkLockTime blockTime lockTime.toNat = .ok () ↔
      spend.LateEnough blockTime lockTime := by
  have wanted : UInt32.ofNat (lockTime.toNat : Int).toNat = lockTime := by
    rw [Int.toNat_natCast, UInt32.ofNat_toNat]
  have small : ¬ (lockTime.toNat : Int) > 0xffffffff := by
    have := lockTime.toNat_lt
    omega
  unfold checkLockTime
  dsimp only
  rw [wanted, if_neg (Int.not_lt.mpr (Int.natCast_nonneg _)), if_neg small, guard_eq_ok_iff,
    guard_eq_ok_iff, guard_eq_ok_iff, isHeight_bne_iff, UInt32.not_lt]
  refine (and_congr_right fun _ => and_congr_right fun _ => and_congr_right fun _ =>
    blockTime_eq_ok_iff).trans ?_
  constructor
  · rintro ⟨unit, late, pending, block⟩
    exact ⟨unit, late, pending, block⟩
  · rintro ⟨unit, late, pending, block⟩
    exact ⟨unit, late, pending, block⟩

/-- The bit behind a mask. -/
theorem and_bit_inj {m n i : Nat} : m &&& 2 ^ i = n &&& 2 ^ i ↔ m.testBit i = n.testBit i := by
  have positive : 2 ^ i ≠ 0 := Nat.ne_of_gt (Nat.two_pow_pos i)
  rw [Nat.and_two_pow, Nat.and_two_pow, Nat.mul_left_inj positive]
  cases m.testBit i <;> cases n.testBit i <;> decide

/-- Read without a sign, a version that is not negative stays as it is. -/
theorem two_le_toUInt32 {version : Int32} (h : ¬ version < 2) : 2 ≤ version.toUInt32 := by
  rw [Int32.lt_iff_toInt_lt] at h
  have signed : version.toInt = version.toBitVec.toInt := rfl
  have unsigned : version.toUInt32.toNat = version.toBitVec.toNat := rfl
  rw [signed, BitVec.toInt_eq_toNat_cond] at h
  rw [UInt32.le_iff_toNat_le, unsigned]
  simp only [Int32.reduceToInt, UInt32.reduceToNat] at h ⊢
  omega

theorem not_lt_two_of_toUInt32 {version : Int32} (h : 2 ≤ version.toUInt32)
    (positive : 0 ≤ version) : ¬ version < 2 := by
  rw [Int32.le_iff_toInt_le] at positive
  rw [Int32.lt_iff_toInt_lt]
  have signed : version.toInt = version.toBitVec.toInt := rfl
  have unsigned : version.toUInt32.toNat = version.toBitVec.toNat := rfl
  rw [UInt32.le_iff_toNat_le, unsigned] at h
  rw [signed, BitVec.toInt_eq_toNat_cond] at positive ⊢
  simp only [Int32.reduceToInt, UInt32.reduceToNat] at h positive ⊢
  omega

theorem checkSequence_eq_ok_iff {spend : Spend} {wanted : Nat} :
    spend.checkSequence wanted = .ok () ↔
      wanted ≤ 0xffffffff ∧ ¬ spend.transaction.version < 2 ∧
        spend.input.sequence.toNat.testBit 31 = false ∧
        (wanted &&& 0x0040ffff).testBit 22 =
          (spend.input.sequence.toNat &&& 0x0040ffff).testBit 22 ∧
        wanted &&& 0x0040ffff ≤ spend.input.sequence.toNat &&& 0x0040ffff := by
  unfold checkSequence
  dsimp only
  rw [if_neg (Int.not_lt.mpr (Int.natCast_nonneg _)), guard_eq_ok_iff, guard_eq_ok_iff,
    guard_eq_ok_iff, guard_eq_ok_iff, guard_eq_ok_iff, Int.toNat_natCast]
  have fits : ¬ (wanted : Int) > 0xffffffff ↔ wanted ≤ 0xffffffff := by omega
  rw [fits]
  refine and_congr_right fun small => and_congr_right fun _ => ?_
  have word : (UInt32.ofNat wanted).toNat = wanted := by
    rw [UInt32.toNat_ofNat', Nat.mod_eq_of_lt (Nat.lt_succ_of_le small)]
  have masked (sequence : UInt32) :
      (sequence &&& sequenceMask).toNat = sequence.toNat &&& 0x0040ffff :=
    UInt32.toNat_and ..
  have disabled : ¬ spend.input.sequence &&& sequenceDisableBit ≠ 0 ↔
      spend.input.sequence.toNat.testBit 31 = false := by
    rw [not_not, ← UInt32.toNat_inj, UInt32.toNat_and, UInt32.toNat_zero, ← Nat.zero_testBit 31,
      ← and_bit_inj, Nat.zero_and]
    rfl
  have kinds : ¬ UInt32.ofNat wanted &&& sequenceMask &&& sequenceKindBit ≠
      spend.input.sequence &&& sequenceMask &&& sequenceKindBit ↔
      (wanted &&& 0x0040ffff).testBit 22 =
        (spend.input.sequence.toNat &&& 0x0040ffff).testBit 22 := by
    rw [not_not, ← UInt32.toNat_inj, UInt32.toNat_and (_ &&& _), UInt32.toNat_and (_ &&& _), masked,
      masked, word, ← and_bit_inj]
    rfl
  have late : ¬ UInt32.ofNat wanted &&& sequenceMask > spend.input.sequence &&& sequenceMask ↔
      wanted &&& 0x0040ffff ≤ spend.input.sequence.toNat &&& 0x0040ffff := by
    rw [gt_iff_lt, UInt32.not_lt, UInt32.le_iff_toNat_le, masked, masked, word]
  rw [disabled, kinds, late, and_iff_left rfl]

theorem oldEnough_of_checkSequence {spend : Spend} {wanted : Nat}
    (h : spend.checkSequence wanted = .ok ()) : wanted ≤ 0xffffffff ∧ spend.OldEnough wanted := by
  obtain ⟨fits, version, relative, unit, late⟩ := checkSequence_eq_ok_iff.mp h
  exact ⟨fits, two_le_toUInt32 version, relative, unit, late⟩

theorem checkSequence_of_oldEnough {spend : Spend} {wanted : Nat} (fits : wanted ≤ 0xffffffff)
    (old : spend.OldEnough wanted) (signed : 0 ≤ spend.transaction.version) :
    spend.checkSequence wanted = .ok () :=
  checkSequence_eq_ok_iff.mpr
    ⟨fits, not_lt_two_of_toUInt32 old.version signed, old.relative, old.unit, old.late⟩

end Spend

/-! ## Behind a gate -/

namespace Template

theorem tokens_of_lockTime {script lock : Script} {time : UInt32}
    (h : lockTime script time = .ok lock) :
    lock.tokens = [Token.ofNumber time.toNat, .op (.lockTime .absolute),
      .op (.stack (.shuffle .drop))] ++ script.tokens := by
  rw [tokens_of_build h, List.flatMap_append, List.flatMap_singleton]
  rfl

end Template

namespace Exec

section Gate

variable {env : Env} {spend : Spend} {time : UInt32} {i : Instruction}

/-- The three instructions of a gate, of which the first one pushes the lock time. -/
def gate (i : Instruction) : List Instruction :=
  [i, .op (.lockTime .absolute), .op (.stack (.shuffle .drop))]

/-- An opcode that acts on the main stack alone, from a state in which it is executed. -/
theorem apply_acts {op : Opcode} {act : List Bytes → List Bytes → Prop} (acts : Acts env op act)
    {s : State} (next : List Bytes) (executing : s.executing = true)
    (few : s.operations + (Instruction.op op).counted.toNat ≤ maxOperations)
    (hact : act s.stack next) :
    apply env s.executing (.op op) s =
      .ok () { afterCount (.op op) s with stack := next } := by
  rw [apply_op, executing]
  exact (bind_of_ok (count_of_le few)).trans ((acts _ _).mpr ⟨next, hact, rfl⟩)

/-- From a state with room for one more item and two more operations, a gate that is open leaves
everything as it is, apart from the count. -/
theorem steps_gate (on : env.flags.checkLockTimeVerify = true) (bound : env.spend = some spend)
    (hi : i.pushed? = some (Number.encode time.toNat))
    (late : spend.LateEnough env.blockTime time) {s : State} (executing : s.executing = true)
    (few : s.operations + 2 ≤ maxOperations) (room : s.height < maxStackSize) :
    ∃ t, steps env 0 (gate i) s = .ok () t ∧ t.stack = s.stack ∧ t.alt = s.alt ∧
      t.conditions = s.conditions ∧ t.operations = s.operations + 2 := by
  have short := Number.length_encode_le (natAbs_lockTime_lt time)
  have tall : s.height + 1 ≤ maxStackSize := room
  have higher : (Number.encode time.toNat :: s.stack).length + s.alt.length = s.height + 1 :=
    Nat.add_right_comm _ _ _
  have pushed : apply env s.executing i { s with position := 0 } =
      .ok () { s with position := 0, stack := Number.encode time.toNat :: s.stack } := by
    rw [executing]
    exact apply_pushed hi (Nat.le_trans short (by decide)) _
  obtain ⟨s₁, h₁, calls₁, log₁, rfl⟩ := step_of_apply pushed (higher.trans_le tall)
  have checked := apply_acts (acts_lockTime on bound)
    (s := { s with
      position := 1
      stack := Number.encode time.toNat :: s.stack
      calls := calls₁
      log := log₁ }) (Number.encode time.toNat :: s.stack) executing (Nat.le_of_succ_le few)
    ⟨rfl, _, _, time.toNat, rfl, Number.decode_encode (natAbs_lockTime_lt time),
      Int.natCast_nonneg _, Spend.checkLockTime_eq_ok_iff.mpr late⟩
  obtain ⟨s₂, h₂, calls₂, log₂, rfl⟩ := step_of_apply checked (higher.trans_le tall)
  have dropped := apply_acts (acts_shuffle env .drop)
    (s := { s with
      position := 2
      operations := s.operations + 1
      stack := Number.encode time.toNat :: s.stack
      calls := calls₂
      log := log₂ }) s.stack executing few rfl
  obtain ⟨s₃, h₃, calls₃, log₃, rfl⟩ := step_of_apply dropped (Nat.le_of_lt room)
  exact ⟨_, steps_cons_ok_iff.mpr ⟨_, h₁, steps_cons_ok_iff.mpr ⟨_, h₂, steps_cons_ok_iff.mpr
    ⟨_, h₃, rfl⟩⟩⟩, rfl, rfl, rfl, rfl⟩

theorem exists_spend_of_lockTime (on : env.flags.checkLockTimeVerify = true) {s s' : State}
    (h : (Opcode.lockTime .absolute).execute env s = .ok () s') :
    ∃ spend, env.spend = some spend := by
  have enabled : LockTimeOp.isEnabled env.flags .absolute = true := on
  obtain ⟨_, _, lockTime, _, _, _, demanded⟩ := (lockTimeOp_ok_iff enabled).mp h
  obtain ⟨spend, _, hspend, _⟩ := bind_ok_iff.mp demanded
  unfold Exec.spend at hspend
  cases bound : env.spend with
  | none =>
    rw [bound] at hspend
    cases hspend
  | some spend => exact ⟨spend, rfl⟩

/-- Nothing gets past a gate but a spend that is late enough. -/
theorem lateEnough_of_reaches (on : env.flags.checkLockTimeVerify = true)
    (hi : i.pushed? = some (Number.encode time.toNat)) {script : Script} {row : List Instruction}
    {stack : List Bytes} {Q : List Bytes → Prop}
    (h : Reaches env script 0 (gate i ++ row) [] 0 stack Q) :
    ∃ spend, env.spend = some spend ∧ spend.LateEnough env.blockTime time := by
  obtain ⟨s, hsteps, _⟩ := h
  obtain ⟨s₁, hpush, hrest⟩ := steps_cons_ok_iff.mp hsteps
  obtain ⟨s₂, hlock, _⟩ := steps_cons_ok_iff.mp hrest
  have fits := natAbs_lockTime_lt time
  have short : (Number.encode time.toNat).length ≤ maxItemSize :=
    Nat.le_trans (Number.length_encode_le fits) (by decide)
  obtain ⟨hpush, _⟩ := step_quiet_ok_iff.mp hpush
  cases (apply_pushed hi short _).symm.trans hpush
  obtain ⟨_, hlock, _⟩ := (step_op_ok_iff rfl rfl (by decide)).mp hlock
  obtain ⟨spend, bound⟩ := exists_spend_of_lockTime on hlock
  obtain ⟨_, ⟨_, item, rest, lockTime, hs, hdecode, _, passed⟩, _⟩ :=
    (acts_lockTime on bound _ _).mp hlock
  cases hs
  cases (Number.decode_encode fits).symm.trans hdecode
  exact ⟨spend, bound, Spend.checkLockTime_eq_ok_iff.mp passed⟩

end Gate

end Exec

namespace Machine

/-- A gate cannot be bypassed and adds nothing else. Whatever the script behind it is, a
verification succeeds only for a spend that is late enough; and for such a spend, the script does
what it does without the gate, on every stack with room for the lock time, if it leaves room for the two
operations of the gate. -/
theorem lock_time_gates {m : Machine} {script lock : Script} {time : UInt32}
    (h : Template.lockTime script time = .ok lock) (on : m.flags.checkLockTimeVerify = true) :
    (∀ (unlock : Script) (c : Context), (m.verify lock unlock c).1 = .ok true →
      ∃ spend, c.env.spend = some spend ∧ spend.LateEnough c.env.blockTime time) ∧
    ∀ (c : Context) (spend : Spend) (stack : List Bytes), c.env.spend = some spend →
      spend.LateEnough c.env.blockTime time → c.env.checker.IgnoresDigest → stack.length ≤ 999 →
      let gated := m.run lock (c.withStack stack)
      let alone := m.run script (c.withStack stack)
      alone.2.state.operations ≤ 199 →
      gated.1 = alone.1 ∧ gated.2.state.stack = alone.2.state.stack ∧
        gated.2.state.alt = alone.2.state.alt := by
  have tokens := Template.tokens_of_lockTime h
  have hi := pushed?_ofNumber time.toNat
  have size := Template.size_of_build h
  have size' : script.size ≤ maxScriptSize :=
    Nat.le_trans (Script.size_le_of_infix (tokens ▸ List.suffix_append _ _).isInfix) size
  have split : lock.instructions =
      Exec.gate (Token.ofNumber time.toNat).instruction ++ script.instructions := by
    rw [Script.instructions, tokens, List.map_append]
    rfl
  refine ⟨fun unlock c spent => ?_, fun c spend stack bound late ignores room => ?_⟩
  · obtain ⟨unlocked, locked, _, hlock, _⟩ :=
      Exec.verify_ok_iff_phases.mp (verify_eq_ok_iff.mp spent)
    have reached := (Exec.leaves_and_iff_reaches size (Q := fun _ => True)).mp ⟨_, hlock, trivial⟩
    rw [split] at reached
    have on : (m.configure c.env).flags.checkLockTimeVerify = true := on
    obtain ⟨spend, bound, late⟩ := Exec.lateEnough_of_reaches on hi reached
    exact ⟨spend, bound, late⟩
  · intro gated alone few
    let start := (c.withStack stack).state
    obtain ⟨s, passed, hstack, halt, hconditions, operations⟩ :=
      @Exec.steps_gate (m.configure c.env) spend time _ on bound hi late (start.started lock) rfl
        (Nat.le_add_left 2 199) (Nat.lt_succ_of_le room)
    have inside : Exec.Inside [] s (start.started script) := by
      refine ⟨hstack.symm, halt.symm, ?_, Nat.zero_le _⟩
      rw [hconditions]
      rfl
    have ended : alone.2.state = Exec.endState (Exec.run (m.configure c.env) script start) :=
      state_run m script (c.withStack stack)
    have room : (Exec.endState (Exec.run (m.configure c.env) script start)).operations +
        s.operations ≤ maxOperations := by
      rw [operations, ← ended]
      exact Nat.add_le_add_right few 2
    have agree : gated.1 = alone.1 ∧ Exec.Inside [] gated.2.state alone.2.state :=
      run_alike (Exec.run_behind ignores size size' split passed inside room)
    exact ⟨agree.1, agree.2.stack.symm, agree.2.alt.symm⟩

/-- A lock time in seconds whose top bit is set, so that its push has a fifth byte. -/
theorem lock_time_gates_seconds :
    let script : Script := ⟨[.op (.stack .depth), .op (.stack (.shuffle .dup))]⟩
    let lock : Script := ⟨[.minimalPush [0, 0, 0, 0x80, 0], .op (.lockTime .absolute),
      .op (.stack (.shuffle .drop)), .op (.stack .depth), .op (.stack (.shuffle .dup))]⟩
    let tx : Transaction := ⟨1, 0x80000001, [⟨⟨.replicate 32 1, 0⟩, [], 0⟩], []⟩
    let spend : Spend := ⟨tx, ⟨0, by decide⟩, .ofScript 1 lock⟩
    let m : Machine := { flags := { Flags.none with checkLockTimeVerify := true } }
    let c : Context := .ofSpend spend .none fun _ _ _ _ => .ok true
    let stack : List Bytes := [[7], [8]]
    Template.lockTime script 0x80000000 = .ok lock ∧
      (m.verify lock ⟨[.minimalPush [1]]⟩ c).1 = .ok true ∧
      spend.LateEnough none 0x80000000 ∧
      (m.run lock (c.withStack stack)).2.state.stack =
        (m.run script (c.withStack stack)).2.state.stack := by
  intro script lock tx spend m c stack
  have built : Template.lockTime script 0x80000000 = .ok lock := by decide +kernel
  have spent : (m.verify lock ⟨[.minimalPush [1]]⟩ c).1 = .ok true := by decide +kernel
  have gates := lock_time_gates built (m := m) rfl
  obtain ⟨_, bound, late⟩ := gates.1 _ c spent
  cases bound
  exact ⟨built, spent, late, (gates.2 c spend stack rfl late (fun _ _ _ _ _ => rfl) (by decide)
    (by decide +kernel)).2.1⟩

end Machine

/-! ## Relative lock times -/

namespace Exec

/-- With its rule on, the opcode leaves everything as it is where it succeeds. -/
theorem relative_ok_iff {env : Env} {spend : Spend} (on : env.flags.checkSequenceVerify = true)
    (bound : env.spend = some spend) {s s' : State} :
    (Opcode.lockTime .relative).execute env s = .ok () s' ↔ s' = s ∧ ∃ item rest,
      s.stack = item :: rest ∧ item.length ≤ maxLockTimeSize ∧ 0 ≤ Number.value item ∧
        ((Number.value item).toNat.testBit 31 = true ∨
          spend.checkSequence (Number.value item).toNat = .ok ()) := by
  have enabled : LockTimeOp.isEnabled env.flags .relative = true := on
  have demanded (value : Int) : demand env .relative value s = .ok () s' ↔
      s' = s ∧ (value.toNat.testBit 31 = true ∨ spend.checkSequence value = .ok ()) := by
    unfold demand
    dsimp only
    by_cases off : value.toNat.testBit 31 = true
    · rw [if_pos off, and_iff_left (.inl off)]
      exact lift_ok_iff.trans (and_iff_right rfl)
    · rw [if_neg off, or_iff_right off, and_comm]
      exact checkSpend_ok_iff bound
  refine (lockTimeOp_ok_iff enabled).trans ?_
  simp only [Number.decode_eq_ok_iff, demanded]
  constructor
  · rintro ⟨item, rest, _, hs, ⟨short, rfl⟩, nonnegative, rfl, h⟩
    refine ⟨rfl, item, rest, hs, short, nonnegative, ?_⟩
    rwa [Int.toNat_of_nonneg nonnegative]
  · rintro ⟨rfl, item, rest, hs, short, nonnegative, h⟩
    rw [Int.toNat_of_nonneg nonnegative] at h
    exact ⟨item, rest, _, hs, ⟨short, rfl⟩, nonnegative, rfl, h⟩

end Exec

namespace Context

/-- The operand of a lock-time opcode: the top item, in at most five bytes and not negative. -/
def LockOperand (c : Context) (wanted : Int) : Prop :=
  ∃ item rest, c.state.stack = item :: rest ∧ item.length ≤ 5 ∧ Number.value item = wanted ∧
    0 ≤ wanted

/-- Where the rule for relative lock times is on and the context has a spend, the opcode succeeds
only for an operand that switches the rule off or for which the spend is old enough, and then it leaves
everything as it is; an operand that is compared has at most 32 bits. It does succeed for these
operands, if the version of the transaction is not negative. -/
theorem sequence_rule {c : Context} {spend : Spend} (on : c.env.flags.checkSequenceVerify = true)
    (bound : c.env.spend = some spend) :
    let executed := c.perform fun env => (Opcode.lockTime .relative).execute env
    (executed.1 = .ok () → executed.2 = c ∧ ∃ wanted, c.LockOperand wanted ∧
      (wanted.toNat.testBit 31 = true ∨ wanted ≤ 0xffffffff ∧ spend.OldEnough wanted.toNat)) ∧
    ∀ wanted, c.LockOperand wanted →
      (wanted.toNat.testBit 31 = true ∨ wanted ≤ 0xffffffff ∧ spend.OldEnough wanted.toNat ∧
        0 ≤ spend.transaction.version) →
      executed = (.ok (), c) := by
  intro executed
  have done {s : State}
      (h : (Opcode.lockTime .relative).execute c.env c.state = .ok () s) :
      executed = (.ok (), { c with state := s }) := by
    unfold executed perform
    dsimp only
    rw [h]
  refine ⟨fun ok => ?_, fun wanted operand asked => ?_⟩
  · obtain ⟨s, h⟩ := perform_eq_ok_iff.mp ok
    obtain ⟨rfl, item, rest, hs, short, nonnegative, asked⟩ :=
      (Exec.relative_ok_iff on bound).mp h
    refine ⟨congrArg Prod.snd (done h), _, ⟨item, rest, hs, short, rfl, nonnegative⟩, ?_⟩
    refine asked.imp_right fun passed => ?_
    obtain ⟨fits, old⟩ := Spend.oldEnough_of_checkSequence passed
    exact ⟨Int.toNat_le.mp fits, old⟩
  · obtain ⟨item, rest, hs, short, rfl, nonnegative⟩ := operand
    refine done ((Exec.relative_ok_iff on bound).mpr
      ⟨rfl, item, rest, hs, short, nonnegative, asked.imp_right ?_⟩)
    rintro ⟨fits, old, signed⟩
    exact Spend.checkSequence_of_oldEnough (Int.toNat_le.mpr fits) old signed

/-- Bits of the operand outside the mask do not matter. -/
theorem sequence_rule_masked :
    let tx : Transaction := ⟨2, 0, [⟨⟨.replicate 32 0x21, 0⟩, [], 10⟩], []⟩
    let c : Context :=
      { env := {
          flags := { Flags.none with checkSequenceVerify := true }
          spend := some ⟨tx, ⟨0, Nat.zero_lt_one⟩, ⟨1, []⟩⟩ }
        state := { stack := [[10, 0, 0x3f, 0x7f]] } }
    (c.perform fun env => (Opcode.lockTime .relative).execute env) = (.ok (), c) := by
  intro tx c
  have operand : c.LockOperand 0x7f3f000a :=
    ⟨[10, 0, 0x3f, 0x7f], [], rfl, by decide, by decide, by decide⟩
  exact (sequence_rule rfl rfl).2 0x7f3f000a operand
    (.inr ⟨by decide, ⟨by decide, by decide, by decide, by decide⟩, by decide⟩)

/-- The bits that are compared are not all that counts: an operand of more than 32 bits is refused,
and so is a negative version, which is large when it is read without a sign. -/
theorem sequence_refused_beyond_bits :
    let tx (version : Int32) : Transaction :=
      ⟨version, 0, [⟨⟨.replicate 32 0x21, 0⟩, [], 10⟩], []⟩
    let spend (version : Int32) : Spend := ⟨tx version, ⟨0, Nat.zero_lt_one⟩, ⟨1, []⟩⟩
    let c (version : Int32) (item : Bytes) : Context :=
      { env := {
          flags := { Flags.none with checkSequenceVerify := true }
          spend := some (spend version) }
        state := { stack := [item] } }
    let executed (c : Context) := (c.perform fun env => (Opcode.lockTime .relative).execute env).1
    ((c 2 [0, 0, 0, 0, 1]).LockOperand 0x100000000 ∧ (spend 2).OldEnough 0x100000000 ∧
      executed (c 2 [0, 0, 0, 0, 1]) = .error (.negativeVerdict .sequenceRange)) ∧
    ((c (-1) [5]).LockOperand 5 ∧ (spend (-1)).OldEnough 5 ∧
      executed (c (-1) [5]) = .error (.negativeVerdict .sequenceVersion)) := by
  intro tx spend c executed
  refine ⟨⟨⟨[0, 0, 0, 0, 1], [], rfl, by decide, by decide, by decide⟩, ?_, by decide⟩,
    ⟨[5], [], rfl, by decide, by decide, by decide⟩, ?_, by decide⟩
  · exact ⟨by decide, by decide, by decide, by decide⟩
  · exact ⟨by decide, by decide, by decide, by decide⟩

end Context

end CoinScript
