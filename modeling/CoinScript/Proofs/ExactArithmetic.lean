import CoinScript.Proofs.CheckedRules
import CoinScript.Proofs.Numerals
import Mathlib.Algebra.Order.Group.Abs
import Mathlib.Algebra.Order.Group.Unbundled.Int
/-!
# Exact arithmetic

An arithmetic opcode takes its operands from the top of the stack and leaves what its operation
gives for the integers that they stand for. Operands have at most four bytes, so no number on the
way is too large for a word, and the result has at most five.

* `Exec.popNumbers_ok_iff`: when there are operands, and which;
* `ArithmeticOp.execute_ok_iff`: when an operation succeeds, and what it leaves;
* `Opcode.arithmetic_exact`: the same with the bounds, and without a fault in words.
-/

namespace CoinScript

/-! ## Operations on integers -/

/-- The operation on an integer. -/
def UnaryOp.exact : UnaryOp → Int → Int
  | add1, a => a + 1
  | sub1, a => a - 1
  | negate, a => -a
  | abs, a => |a|
  | not, a => if a = 0 then 1 else 0
  | notZero, a => if a ≠ 0 then 1 else 0

/-- The operation on two integers, the lower one first. -/
def BinaryOp.exact : BinaryOp → Int → Int → Int
  | add, a, b => a + b
  | sub, a, b => a - b
  | boolAnd, a, b => if a ≠ 0 ∧ b ≠ 0 then 1 else 0
  | boolOr, a, b => if a ≠ 0 ∨ b ≠ 0 then 1 else 0
  | equal, a, b => if a = b then 1 else 0
  | notEqual, a, b => if a ≠ b then 1 else 0
  | less, a, b => if a < b then 1 else 0
  | greater, a, b => if a > b then 1 else 0
  | lessOrEqual, a, b => if a ≤ b then 1 else 0
  | greaterOrEqual, a, b => if a ≥ b then 1 else 0
  | min, a, b => a ⊓ b
  | max, a, b => a ⊔ b

/-- The number of operands. -/
def ArithmeticOp.arity : ArithmeticOp → Nat
  | unary _ => 1
  | binary _ | equalVerify => 2
  | within => 3

/-- The operands that the top of a stack stands for, from the lowest to the top one. -/
def ArithmeticOp.operands (op : ArithmeticOp) (stack : List Bytes) : List Int :=
  ((stack.take op.arity).map Number.value).reverse

/-- What an operation leaves for its operands. -/
def ArithmeticOp.exact : ArithmeticOp → List Int → List Int
  | unary op, [a] => [op.exact a]
  | binary op, [a, b] => [op.exact a b]
  | within, [value, lower, upper] => [if lower ≤ value ∧ value < upper then 1 else 0]
  | _, _ => []

theorem UnaryOp.eval_eq (op : UnaryOp) (a : Int) : op.eval a = op.exact a := by
  cases op with
  | abs => exact (Int.abs_eq_natAbs a).symm
  | _ => simp [eval, exact, Truth.toInt]

theorem BinaryOp.eval_eq (op : BinaryOp) (a b : Int) : op.eval a b = op.exact a b := by
  cases op with
  | min => exact (min_def a b).symm
  | max => exact (max_def a b).symm
  | _ => simp [eval, exact, Truth.toInt]

/-! ## Operands -/

namespace Exec

/-- Remove numbers from the top on. The answer has the lowest one first. -/
def popNumbers : Nat → Exec (List Int)
  | 0 => return []
  | count + 1 => do
    let top ← popNumber maxNumberSize
    let below ← popNumbers count
    return below ++ [top]

theorem popNumbers_ok_iff {count : Nat} {s t : State} {operands : List Int} :
    popNumbers count s = .ok operands t ↔ count ≤ s.stack.length ∧
      (∀ item ∈ s.stack.take count, item.length ≤ maxNumberSize) ∧
      operands = ((s.stack.take count).map Number.value).reverse ∧
      t = { s with stack := s.stack.drop count } := by
  induction count generalizing s t operands with
  | zero =>
    show EStateM.Result.ok [] s = .ok operands t ↔ _
    constructor
    · rintro ⟨⟩
      exact ⟨Nat.zero_le _, by simp, rfl, rfl⟩
    · rintro ⟨-, -, rfl, rfl⟩
      rfl
  | succ count ih =>
    rw [popNumbers, bind_ok_iff]
    constructor
    · rintro ⟨top, _, hpop, h⟩
      obtain ⟨item, rest, hs, short, rfl, rfl⟩ := popNumber_ok_iff.mp hpop
      obtain ⟨below, _, hbelow, h'⟩ := bind_ok_iff.mp h
      obtain ⟨enough, allShort, rfl, rfl⟩ := ih.mp hbelow
      cases h'
      simp only [hs, List.take_succ_cons, List.drop_succ_cons, List.forall_mem_cons,
        List.length_cons, List.map_cons, List.reverse_cons, and_true]
      exact ⟨Nat.succ_le_succ enough, short, allShort⟩
    · rintro ⟨enough, allShort, rfl, rfl⟩
      obtain ⟨item, rest, hs⟩ :=
        List.exists_cons_of_length_pos (Nat.lt_of_lt_of_le count.succ_pos enough)
      rw [hs, List.length_cons] at enough
      rw [hs, List.take_succ_cons, List.forall_mem_cons] at allShort
      refine ⟨_, _, popNumber_ok_iff.mpr ⟨item, rest, hs, allShort.1, rfl, rfl⟩,
        bind_ok_iff.mpr ⟨_, _, ih.mpr ⟨Nat.le_of_succ_le_succ enough, allShort.2, rfl, rfl⟩, ?_⟩⟩
      rw [hs, List.take_succ_cons, List.map_cons, List.reverse_cons, List.drop_succ_cons]
      rfl

end Exec

/-! ## Results -/

namespace ArithmeticOp

open Exec

/-- What an operation does when its operands are removed. -/
def conclude : ArithmeticOp → List Int → Exec Unit
  | equalVerify, [a, b] =>
    if a ≠ b then throw (.negativeVerdict (.checkFailed (.arithmetic .equalVerify))) else pure ()
  | op, operands => (op.exact operands).forM pushNumber

theorem execute_eq (op : ArithmeticOp) :
    op.execute = need op.arity >>= fun _ => popNumbers op.arity >>= op.conclude := by
  cases op with
  | unary op =>
    simp only [execute, arity, popNumbers, bind_assoc, pure_bind, op.eval_eq]
    rfl
  | binary op =>
    simp only [execute, arity, popNumbers, bind_assoc, pure_bind, op.eval_eq]
    rfl
  | equalVerify =>
    simp only [execute, arity, popNumbers, bind_assoc, pure_bind]
    rfl
  | within =>
    have pushed (value lower upper : Int) :
        pushBool (decide (lower ≤ value) && decide (value < upper)) =
          pushNumber (if lower ≤ value ∧ value < upper then 1 else 0) := by
      have zero : Number.encode 0 = [] := by simp [Number.encode, Bytes.minimalLE]
      have one : Number.encode 1 = [1] := by simp [Number.encode, Bytes.minimalLE]
      rw [← Bool.decide_and, pushBool, pushNumber, Truth.encode, apply_ite Number.encode, zero, one]
      simp only [decide_eq_true_eq]
    simp only [execute, arity, popNumbers, bind_assoc, pure_bind, pushed]
    rfl

theorem conclude_ok_iff {op : ArithmeticOp} {operands : List Int} {s t : State}
    (h : operands.length = op.arity) :
    op.conclude operands s = .ok () t ↔ (op = .equalVerify → ∃ a, operands = [a, a]) ∧
      t = { s with stack := (op.exact operands).map Number.encode ++ s.stack } := by
  cases op with
  | unary op =>
    obtain ⟨a, rfl⟩ := List.length_eq_one_iff.mp h
    show EStateM.Result.ok () _ = .ok () t ↔ _
    simp [exact, eq_comm]
  | binary op =>
    obtain ⟨a, b, rfl⟩ := List.length_eq_two.mp h
    show EStateM.Result.ok () _ = .ok () t ↔ _
    simp [exact, eq_comm]
  | within =>
    obtain ⟨value, lower, upper, rfl⟩ := List.length_eq_three.mp h
    show EStateM.Result.ok () _ = .ok () t ↔ _
    simp [exact, eq_comm]
  | equalVerify =>
    obtain ⟨a, b, rfl⟩ := List.length_eq_two.mp h
    by_cases same : a = b
    · subst same
      have concluded : conclude .equalVerify [a, a] = pure () := if_neg (not_not.mpr rfl)
      rw [concluded]
      constructor
      · rintro ⟨⟩
        exact ⟨fun _ => ⟨a, rfl⟩, rfl⟩
      · rintro ⟨-, rfl⟩
        rfl
    · have concluded : conclude .equalVerify [a, b] =
          throw (.negativeVerdict (.checkFailed (.arithmetic .equalVerify))) := if_pos same
      rw [concluded]
      constructor
      · nofun
      · rintro ⟨accepted, -⟩
        obtain ⟨c, hc⟩ := accepted rfl
        cases hc
        exact absurd rfl same

theorem length_operands {op : ArithmeticOp} {stack : List Bytes} (h : op.arity ≤ stack.length) :
    (op.operands stack).length = op.arity := by
  simpa [operands] using h

/-- When an operation succeeds, and what it leaves. -/
theorem execute_ok_iff {op : ArithmeticOp} {s t : State} :
    op.execute s = .ok () t ↔ (op.arity ≤ s.stack.length ∧
      (∀ item ∈ s.stack.take op.arity, item.length ≤ maxNumberSize) ∧
      (op = .equalVerify → ∃ a, op.operands s.stack = [a, a])) ∧
      t = { s with stack := (op.exact (op.operands s.stack)).map Number.encode ++
        s.stack.drop op.arity } := by
  rw [execute_eq]
  constructor
  · intro h
    obtain ⟨_, _, hneed, h₁⟩ := bind_ok_iff.mp h
    obtain ⟨enough, rfl⟩ := need_ok_iff.mp hneed
    obtain ⟨_, _, hpop, h₂⟩ := bind_ok_iff.mp h₁
    obtain ⟨-, short, rfl, rfl⟩ := popNumbers_ok_iff.mp hpop
    obtain ⟨accepted, rfl⟩ := (conclude_ok_iff (length_operands enough)).mp h₂
    exact ⟨⟨enough, short, accepted⟩, rfl⟩
  · rintro ⟨⟨enough, short, accepted⟩, rfl⟩
    exact bind_ok_iff.mpr ⟨(), s, need_ok_iff.mpr ⟨enough, rfl⟩, bind_ok_iff.mpr ⟨_, _,
      popNumbers_ok_iff.mpr ⟨enough, short, rfl, rfl⟩,
      (conclude_ok_iff (length_operands enough)).mpr ⟨accepted, rfl⟩⟩⟩

/-! ## Bounds -/

theorem length_exact {op : ArithmeticOp} {operands : List Int} (h : operands.length = op.arity) :
    (op.exact operands).length = if op = .equalVerify then 0 else 1 := by
  cases op with
  | unary op =>
    obtain ⟨a, rfl⟩ := List.length_eq_one_iff.mp h
    rfl
  | binary op =>
    obtain ⟨a, b, rfl⟩ := List.length_eq_two.mp h
    rfl
  | within =>
    obtain ⟨value, lower, upper, rfl⟩ := List.length_eq_three.mp h
    rfl
  | equalVerify => rfl

/-- A result is not much larger than the operands. -/
theorem natAbs_exact_lt {op : ArithmeticOp} {operands : List Int} {bound : Nat}
    (h : ∀ a ∈ operands, a.natAbs < bound) {result : Int} (mem : result ∈ op.exact operands) :
    result.natAbs < 2 * bound + 1 := by
  unfold exact at mem
  split at mem
  · next op a =>
    rw [List.mem_singleton] at mem
    have := op.natAbs_eval a
    have := h a (by simp)
    rw [mem, ← op.eval_eq]
    omega
  · next op a b =>
    rw [List.mem_singleton] at mem
    have := op.natAbs_eval a b
    have := h a (by simp)
    have := h b (by simp)
    rw [mem, ← op.eval_eq]
    omega
  · next value _ _ =>
    rw [List.mem_singleton] at mem
    have := h value (by simp)
    rw [mem]
    split <;> omega
  · cases mem

/-- The results for operands of at most four bytes have at most five. -/
theorem length_encode_exact_le {op : ArithmeticOp} {stack : List Bytes}
    (short : ∀ item ∈ stack.take op.arity, item.length ≤ maxNumberSize) {result : Int}
    (mem : result ∈ op.exact (op.operands stack)) : (Number.encode result).length ≤ 5 := by
  have small : ∀ a ∈ op.operands stack, a.natAbs < 2 ^ 31 := by
    intro a ha
    rw [operands, List.mem_reverse, List.mem_map] at ha
    obtain ⟨item, hitem, rfl⟩ := ha
    exact Number.natAbs_value_lt_two_pow (n := 3) (short item hitem)
  have bound := natAbs_exact_lt small mem
  refine (Number.length_encode_le_iff (by decide)).mpr (Nat.lt_trans bound (by decide))

end ArithmeticOp

/-- An arithmetic opcode succeeds exactly if its operands are there, have at most four bytes and,
where they have to be equal, are. In their place it leaves the minimal item of what the operation of
the integers gives for them, of at most five bytes, and nothing else changes. Done on words of 64
bits, the rule has no fault. -/
theorem Opcode.arithmetic_exact (env : Env) (op : ArithmeticOp) (s : State) :
    ((∃ t, Opcode.execute env (.arithmetic op) s = .ok () t) ↔ op.arity ≤ s.stack.length ∧
      (∀ item ∈ s.stack.take op.arity, item.length ≤ 4) ∧
      (op = .equalVerify → ∃ a, op.operands s.stack = [a, a])) ∧
    (∀ t, Opcode.execute env (.arithmetic op) s = .ok () t → ∃ results,
      t = { s with stack := results ++ s.stack.drop op.arity } ∧
      results = (op.exact (op.operands s.stack)).map Number.encode ∧
      results.map Number.value = op.exact (op.operands s.stack) ∧
      results.length = (if op = .equalVerify then 0 else 1) ∧
      ∀ item ∈ results, item.length ≤ 5 ∧ Number.Minimal item) ∧
    Guarded.arithmetic (.arithmetic op) s = Guarded.of (Opcode.execute env (.arithmetic op)) s := by
  refine ⟨⟨fun ⟨t, h⟩ => (ArithmeticOp.execute_ok_iff.mp h).1,
    fun h => ⟨_, ArithmeticOp.execute_ok_iff.mpr ⟨h, rfl⟩⟩⟩, fun t h => ?_,
    Guarded.within_arithmetic op s (State.Work.refl s)⟩
  obtain ⟨⟨enough, short, -⟩, ht⟩ := ArithmeticOp.execute_ok_iff.mp h
  refine ⟨_, ht, rfl, ?_, ?_, ?_⟩
  · rw [List.map_map]
    exact (List.map_congr_left fun v _ => Number.value_encode v).trans (List.map_id _)
  · rw [List.length_map]
    exact ArithmeticOp.length_exact (ArithmeticOp.length_operands enough)
  · intro item mem
    obtain ⟨result, hresult, rfl⟩ := List.mem_map.mp mem
    exact ⟨ArithmeticOp.length_encode_exact_le short hresult, Number.minimal_encode result⟩

end CoinScript
