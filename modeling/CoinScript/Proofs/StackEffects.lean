import CoinScript.Proofs.CheckedRules
import CoinScript.Proofs.Numerals
import Mathlib.Data.List.OfFn
import Mathlib.Data.List.Rotate
/-!
# Effects on the stack

Stack opcodes move items, whatever the items are and whatever lies below them. Some of them rotate
the items on top, so repeating them comes back to the start after as many rounds as the rotation
takes.

* `ShuffleOp.execute_withItems`, `ShuffleOp.execute_underflow`: fixed rearrangements;
* `StackOp.pick_withItems`, `StackOp.roll_withItems`: a depth given on the stack;
* `Exec.Rotates.hasOrder`: after how many rounds a rotation comes back to the start;
* `Opcode.standardEffects`: the effects, their laws, and the rules by places in a vector.
-/

namespace CoinScript

/-- The state with other items on the stack, the top one last. -/
def State.withItems (s : State) (items : List Bytes) : State :=
  { s with stack := items.reverse }

/-- Every state has some items above some others. -/
theorem State.exists_withItems {s : State} {count : Nat} (h : count ≤ s.stack.length) :
    ∃ base xs, xs.length = count ∧ s = s.withItems (base ++ xs) := by
  refine ⟨(s.stack.drop count).reverse, (s.stack.take count).reverse, by simp [h], ?_⟩
  rw [withItems, ← List.reverse_append, List.take_append_drop, List.reverse_reverse]

/-- A row of known length, given by its places. -/
theorem exists_eq_ofFn {n : Nat} {xs : List Bytes} (h : xs.length = n) :
    ∃ f : Fin n → Bytes, xs = List.ofFn f := by
  subst h
  exact ⟨xs.get, (List.ofFn_get xs).symm⟩

/-! ## Fixed rearrangements -/

namespace ShuffleOp

/-- Which of the items on top are there afterwards, the lowest one first. -/
def effect : (op : ShuffleOp) → List (Fin op.height)
  | .drop2 => []
  | .dup2 => ([0, 1, 0, 1] : List (Fin 2))
  | .dup3 => ([0, 1, 2, 0, 1, 2] : List (Fin 3))
  | .over2 => ([0, 1, 2, 3, 0, 1] : List (Fin 4))
  | .rot2 => ([2, 3, 4, 5, 0, 1] : List (Fin 6))
  | .swap2 => ([2, 3, 0, 1] : List (Fin 4))
  | .drop => []
  | .dup => ([0, 0] : List (Fin 1))
  | .nip => ([1] : List (Fin 2))
  | .over => ([0, 1, 0] : List (Fin 2))
  | .rot => ([1, 2, 0] : List (Fin 3))
  | .swap => ([1, 0] : List (Fin 2))
  | .tuck => ([1, 0, 1] : List (Fin 2))

theorem execute_withItems (op : ShuffleOp) (s : State) (base : List Bytes)
    (xs : Fin op.height → Bytes) :
    op.execute (s.withItems (base ++ List.ofFn xs)) =
      .ok () (s.withItems (base ++ op.effect.map xs)) := by
  unfold State.withItems
  rw [List.reverse_append, List.reverse_append]
  cases op <;> rfl

theorem execute_underflow {op : ShuffleOp} {s : State} (h : s.stack.length < op.height) :
    op.execute s = .error (.stackUnderflow op.height) s := by
  have none : op.shuffle? s.stack = none := by
    unfold shuffle?
    split
    case h_14 => rfl
    all_goals
      rename_i hs
      simp only [hs, height, List.length_cons] at h
      omega
  rw [execute, none]

theorem execute_tuck : execute .tuck = execute .swap >>= fun _ => execute .over := by
  funext s
  obtain ⟨stack⟩ := s
  rcases stack with _ | ⟨b, _ | ⟨a, rest⟩⟩ <;> rfl

theorem execute_nip : execute .nip = execute .swap >>= fun _ => execute .drop := by
  funext s
  obtain ⟨stack⟩ := s
  rcases stack with _ | ⟨b, _ | ⟨a, rest⟩⟩ <;> rfl

end ShuffleOp

/-! ## A depth given on the stack -/

namespace StackOp

open Exec

variable {s : State} {base xs : List Bytes} {x : Bytes}

theorem withItems_concat (s : State) (items : List Bytes) (x : Bytes) :
    s.withItems (items ++ [x]) = { s with stack := x :: items.reverse } := by
  rw [State.withItems, List.reverse_append]
  rfl

/-- A number in its shortest form is a depth operand, if it has at most four bytes in it. -/
theorem depthOperand_withItems (op : Opcode) (small : xs.length < 2 ^ 31) :
    depthOperand op (s.withItems (base ++ x :: xs ++ [Number.encode xs.length])) =
      .ok xs.length (s.withItems (base ++ x :: xs)) := by
  have short : (Number.encode xs.length).length ≤ maxNumberSize :=
    (Number.length_encode_le_iff (by decide)).mpr small
  have enough : need 2 (s.withItems (base ++ x :: xs ++ [Number.encode xs.length])) =
      .ok () (s.withItems (base ++ x :: xs ++ [Number.encode xs.length])) :=
    need_ok_iff.mpr ⟨by simp [State.withItems]; omega, rfl⟩
  have hpop : popNumber maxNumberSize
        (s.withItems (base ++ x :: xs ++ [Number.encode xs.length])) =
      .ok (xs.length : Int) (s.withItems (base ++ x :: xs)) := by
    rw [withItems_concat]
    exact popNumber_ok_iff.mpr ⟨_, _, rfl, short, (Number.value_encode _).symm, rfl⟩
  rw [depthOperand, bind_of_ok enough, bind_of_ok hpop, if_neg (Int.not_lt.mpr (by omega))]
  rfl

/-- The depth of an item is the number of items above it. -/
theorem getElem?_depth (base xs : List Bytes) (x : Bytes) :
    (base ++ x :: xs).reverse[xs.length]? = some x := by
  rw [List.reverse_append, List.reverse_cons, List.append_assoc,
    List.getElem?_append_right (by simp), List.length_reverse, Nat.sub_self]
  rfl

theorem eraseIdx_depth (base xs : List Bytes) (x : Bytes) :
    (base ++ x :: xs).reverse.eraseIdx xs.length = (base ++ xs).reverse := by
  rw [List.reverse_append, List.reverse_cons, List.append_assoc,
    List.eraseIdx_append_of_length_le (by simp), List.length_reverse, Nat.sub_self,
    List.reverse_append]
  rfl

theorem pick_withItems (small : xs.length < 2 ^ 31) :
    pick.execute (s.withItems (base ++ x :: xs ++ [Number.encode xs.length])) =
      .ok () (s.withItems (base ++ x :: xs ++ [x])) := by
  have found : itemAt xs.length (s.withItems (base ++ x :: xs)) =
      .ok x (s.withItems (base ++ x :: xs)) :=
    itemAt_ok_iff.mpr ⟨getElem?_depth base xs x, rfl⟩
  rw [execute, bind_of_ok (depthOperand_withItems _ small), bind_of_ok found, withItems_concat]
  rfl

theorem roll_withItems (small : xs.length < 2 ^ 31) :
    roll.execute (s.withItems (base ++ x :: xs ++ [Number.encode xs.length])) =
      .ok () (s.withItems (base ++ xs ++ [x])) := by
  have taken : removeAt xs.length (s.withItems (base ++ x :: xs)) =
      .ok x (s.withItems (base ++ xs)) := by
    unfold State.withItems removeAt
    dsimp only
    rw [getElem?_depth, eraseIdx_depth]
  rw [execute, bind_of_ok (depthOperand_withItems _ small), bind_of_ok taken, withItems_concat]
  rfl

/-- An item that goes to the alternate stack and comes back. -/
theorem toAlt_fromAlt (h : 1 ≤ s.stack.length) :
    (toAlt.execute >>= fun _ => fromAlt.execute) s = .ok () s := by
  obtain ⟨stack⟩ := s
  obtain ⟨item, rest, rfl⟩ := List.exists_cons_of_length_pos h
  rfl

end StackOp

/-! ## Rotations -/

namespace Exec

/-- A program a number of times. -/
def times : Nat → Exec Unit → Exec Unit
  | 0, _ => pure ()
  | count + 1, x => x >>= fun _ => times count x

/-- A program that moves the lowest `step` of the `height` items on top above the others. -/
def Rotates (x : Exec Unit) (height step : Nat) : Prop :=
  ∀ (s : State) (base xs : List Bytes), xs.length = height →
    x (s.withItems (base ++ xs)) = .ok () (s.withItems (base ++ xs.rotate step))

/-- On stacks of at least `height` items a program comes back to the start after `order` rounds,
after every multiple of them, and never between. -/
def HasOrder (x : Exec Unit) (height order : Nat) : Prop :=
  ∀ count, (∀ s : State, height ≤ s.stack.length → times count x s = .ok () s) ↔ order ∣ count

theorem Rotates.times {x : Exec Unit} {height step : Nat} (h : Rotates x height step)
    (count : Nat) : Rotates (times count x) height (step * count) := by
  induction count with
  | zero =>
    intro s base xs _
    rw [Nat.mul_zero, List.rotate_zero]
    rfl
  | succ count ih =>
    intro s base xs hlength
    rw [Exec.times, bind_of_ok (h s base xs hlength),
      ih s base (xs.rotate step) (by rw [List.length_rotate, hlength]), List.rotate_rotate,
      Nat.mul_succ, Nat.add_comm]

/-- A rotation leaves all items in their places exactly if it goes around as a whole. -/
theorem Rotates.fixes_iff {x : Exec Unit} {height step : Nat} (h : Rotates x height step)
    (positive : 0 < height) :
    (∀ s : State, height ≤ s.stack.length → x s = .ok () s) ↔ height ∣ step := by
  constructor
  · intro fixed
    -- Items that differ show where each of them has gone.
    obtain ⟨xs, hlength, distinct⟩ : ∃ xs : List Bytes, xs.length = height ∧ xs.Nodup :=
      ⟨(List.range height).map fun n => List.replicate n 0, by simp,
        List.nodup_range.map fun m n same => by simpa using congrArg List.length same⟩
    have same : ({} : State).withItems (xs.rotate step) = ({} : State).withItems xs := by
      have rotated := h {} [] xs hlength
      rw [fixed _ (by simp [State.withItems, hlength])] at rotated
      injection rotated with _ states
      exact states.symm
    have items : xs.rotate step = xs := List.reverse_injective (congrArg State.stack same)
    rcases distinct.rotate_eq_self_iff.mp items with whole | empty
    · exact Nat.dvd_of_mod_eq_zero (hlength ▸ whole)
    · rw [empty] at hlength
      exact absurd hlength (Nat.ne_of_lt positive)
  · intro whole s enough
    obtain ⟨base, xs, hlength, hs⟩ := State.exists_withItems enough
    have items : xs.rotate step = xs := by
      rw [← List.rotate_mod, hlength, Nat.mod_eq_zero_of_dvd whole, List.rotate_zero]
    rw [hs]
    conv_lhs => rw [h s base xs hlength, items]

theorem Rotates.hasOrder {x : Exec Unit} {height step order : Nat} (h : Rotates x height step)
    (positive : 0 < height) (whole : ∀ count, height ∣ step * count ↔ order ∣ count) :
    HasOrder x height order :=
  fun count => ((h.times count).fixes_iff positive).trans (whole count)

end Exec

/-- A rearrangement is a rotation if its effect on the places is one. -/
theorem ShuffleOp.rotates (op : ShuffleOp) (step : Nat)
    (h : op.effect = (List.ofFn id).rotate step) : Exec.Rotates op.execute op.height step := by
  intro s base xs hlength
  obtain ⟨f, rfl⟩ := exists_eq_ofFn hlength
  rw [op.execute_withItems, h, List.map_rotate, List.map_ofFn, Function.comp_id]

/-- Items come around if the lowest one is rolled to the top. -/
theorem StackOp.rotates_roll {n : Nat} (small : n < 2 ^ 31) :
    Exec.Rotates (Exec.pushNumber n >>= fun _ => roll.execute) (n + 1) 1 := by
  intro s base xs hlength
  obtain ⟨x, xs, rfl⟩ := List.exists_cons_of_length_eq_add_one hlength
  obtain rfl : xs.length = n := Nat.succ.inj hlength
  have pushed : Exec.pushNumber xs.length (s.withItems (base ++ x :: xs)) =
      .ok () (s.withItems (base ++ x :: xs ++ [Number.encode xs.length])) := by
    rw [withItems_concat]
    rfl
  rw [Exec.bind_of_ok pushed, roll_withItems small, List.rotate_cons_succ, List.rotate_zero,
    List.append_assoc]

/-! ## The stack opcodes -/

namespace Opcode

/-- What the stack opcodes do to every stack: what they leave of the items on top, with all that
lies below and the other parts of the state as they were, and what they do one after the other. -/
structure StandardEffects (env : Env) : Prop where
  rearranged (op : ShuffleOp) (s : State) (base : List Bytes) (xs : Fin op.height → Bytes) :
    execute env (.stack (.shuffle op)) (s.withItems (base ++ List.ofFn xs)) =
      .ok () (s.withItems (base ++ op.effect.map xs))
  underflow (op : ShuffleOp) (s : State) : s.stack.length < op.height →
    execute env (.stack (.shuffle op)) s = .error (.stackUnderflow op.height) s
  picked (s : State) (base : List Bytes) (x : Bytes) (xs : List Bytes) : xs.length < 2 ^ 31 →
    execute env (.stack .pick) (s.withItems (base ++ x :: xs ++ [Number.encode xs.length])) =
      .ok () (s.withItems (base ++ x :: xs ++ [x]))
  rolled (s : State) (base : List Bytes) (x : Bytes) (xs : List Bytes) : xs.length < 2 ^ 31 →
    execute env (.stack .roll) (s.withItems (base ++ x :: xs ++ [Number.encode xs.length])) =
      .ok () (s.withItems (base ++ xs ++ [x]))
  /-- Rolling the lowest of `n + 1` items comes back to the start after `n + 1` rounds. -/
  rolled_around (n : Nat) : n < 2 ^ 31 →
    Exec.HasOrder (Exec.pushNumber n >>= fun _ => execute env (.stack .roll)) (n + 1) (n + 1)
  order_rot : Exec.HasOrder (execute env (.stack (.shuffle .rot))) 3 3
  order_rot2 : Exec.HasOrder (execute env (.stack (.shuffle .rot2))) 6 3
  order_swap : Exec.HasOrder (execute env (.stack (.shuffle .swap))) 2 2
  order_swap2 : Exec.HasOrder (execute env (.stack (.shuffle .swap2))) 4 2
  tuck_eq : execute env (.stack (.shuffle .tuck)) =
    execute env (.stack (.shuffle .swap)) >>= fun _ => execute env (.stack (.shuffle .over))
  nip_eq : execute env (.stack (.shuffle .nip)) =
    execute env (.stack (.shuffle .swap)) >>= fun _ => execute env (.stack (.shuffle .drop))
  there_and_back (s : State) : 1 ≤ s.stack.length →
    (execute env (.stack .toAlt) >>= fun _ => execute env (.stack .fromAlt)) s = .ok () s
  /-- The rules by places in a vector, counted from its end, do the same without a fault. -/
  by_places (op : StackOp) (s : State) : s.height < 2 ^ 62 →
    Guarded.stackManipulation (.stack op) s = Guarded.of (execute env (.stack op)) s

/-- The stack opcodes have their standard effects in every environment. -/
theorem standardEffects (env : Env) : StandardEffects env where
  rearranged op s base xs := op.execute_withItems s base xs
  underflow _ _ few := ShuffleOp.execute_underflow few
  picked _ _ _ _ small := StackOp.pick_withItems small
  rolled _ _ _ _ small := StackOp.roll_withItems small
  rolled_around n small :=
    (StackOp.rotates_roll small).hasOrder n.succ_pos fun count => by rw [Nat.one_mul]
  order_rot := (ShuffleOp.rotates .rot 1 (by decide)).hasOrder (by decide)
    fun count => by rw [Nat.one_mul]; rfl
  order_rot2 := (ShuffleOp.rotates .rot2 2 (by decide)).hasOrder (by decide)
    fun count => by show 6 ∣ _ ↔ _; omega
  order_swap := (ShuffleOp.rotates .swap 1 (by decide)).hasOrder (by decide)
    fun count => by rw [Nat.one_mul]; rfl
  order_swap2 := (ShuffleOp.rotates .swap2 2 (by decide)).hasOrder (by decide)
    fun count => by show 4 ∣ _ ↔ _; omega
  tuck_eq := ShuffleOp.execute_tuck
  nip_eq := ShuffleOp.execute_nip
  there_and_back _ h := StackOp.toAlt_fromAlt h
  by_places op s low := Guarded.within_stackOp (Nat.le_of_lt_succ low) op s (.refl s)

end Opcode

end CoinScript
