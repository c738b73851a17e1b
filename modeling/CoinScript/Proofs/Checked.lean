import CoinScript.Proofs.Runs
/-!
# Words and vectors

The rules of the machine are functions on numbers and lists, and an answer always comes out.
On words and vectors the same rules look at places that may lie outside a vector, take
differences that may be negative, add numbers whose sum may not fit into a word, and leave out
cases that should not come up. A `Checked` computation stops at the first such fault, and a
`Guarded` step is a step of the machine that does.

`Within` says that a guarded step has no fault and does what a step of the machine does,
wherever the rule of an opcode has got to. It is put together along the rule as `Keeps` is, which
says what such a step leaves alone.
-/

namespace CoinScript

/-- What a computation on words and vectors can go wrong in. -/
inductive Fault where
  /-- A case that was left out has come up. -/
  | unreachable
  /-- A place lies outside a vector. -/
  | outOfRange
  /-- A difference of sizes is negative. -/
  | negative
  /-- A number does not fit into a word. -/
  | overflow
deriving DecidableEq, Repr

/-- The ways to stop without an answer: by a fault, or with an error that the machine reports. -/
inductive Stop where
  | fault (fault : Fault)
  | error (error : Error)
deriving DecidableEq

/-- A computation on words and vectors. -/
abbrev Checked := Except Stop

namespace Checked

variable {α β : Type}

/-- An answer that was got without operations that can go wrong. -/
def of (r : Except Error α) : Checked α :=
  r.mapError .error

def fail (fault : Fault) : Checked α :=
  .error (.fault fault)

def refuse (e : Error) : Checked α :=
  .error (.error e)

/-- A number of 64 bits. -/
def word (n : Nat) : Checked Nat :=
  if n < 0x10000000000000000 then .ok n else fail .overflow

/-- A number of 8 bits. -/
def byte (n : Nat) : Checked Nat :=
  if n < 0x100 then .ok n else fail .overflow

/-- A number of 64 bits with a sign. The least one, whose negation is too large, is left out. -/
def long (v : Int) : Checked Int :=
  if v.natAbs < 0x8000000000000000 then .ok v else fail .overflow

/-- A number of elements of a vector. It fits into a word because the length of a vector does. -/
def upTo (xs : List α) (n : Nat) : Checked Nat :=
  if n ≤ xs.length then .ok n else fail .overflow

/-- A difference of sizes. -/
def sub (a b : Nat) : Checked Nat :=
  if b ≤ a then .ok (a - b) else fail .negative

/-- A signed number as a size. -/
def size (v : Int) : Checked Nat :=
  if 0 ≤ v then .ok v.toNat else fail .negative

/-- A number of 63 bits moved to the left. -/
def shift (n amount : Nat) : Checked Nat :=
  if amount < 64 ∧ n <<< amount < 0x8000000000000000 then .ok (n <<< amount) else fail .overflow

/-- The element at a place. -/
def index (xs : List α) (i : Nat) : Checked α :=
  match xs[i]? with
  | some a => .ok a
  | none => fail .outOfRange

/-- A vector with another element at a place. -/
def update (xs : List α) (i : Nat) (a : α) : Checked (List α) :=
  if i < xs.length then .ok (xs.set i a) else fail .outOfRange

/-- The part of a vector between two places. -/
def slice (xs : List α) (start stop : Nat) : Checked (List α) :=
  if start ≤ stop ∧ stop ≤ xs.length then .ok ((xs.take stop).drop start) else fail .outOfRange

@[simp]
theorem of_ok (a : α) : of (.ok a) = .ok a :=
  rfl

@[simp]
theorem of_error (e : Error) : of (.error e : Except Error α) = refuse e :=
  rfl

theorem of_ne_fail (r : Except Error α) (fault : Fault) : of r ≠ fail fault := by
  cases r <;> nofun

@[simp]
theorem ok_bind (a : α) (f : α → Checked β) : ((.ok a : Checked α) >>= f) = f a :=
  rfl

/-- An answer that depends on another one. -/
theorem of_bind (r : Except Error α) (f : α → Except Error β) :
    of (r >>= f) = of r >>= fun a => of (f a) := by
  cases r <;> rfl

theorem word_eq {n : Nat} (h : n ≤ 0xffffffffffffffff) : word n = .ok n :=
  if_pos (Nat.lt_of_le_of_lt h (by decide))

theorem long_eq {v : Int} (h : v.natAbs ≤ 0x7fffffffffffffff) : long v = .ok v :=
  if_pos (Nat.lt_of_le_of_lt h (by decide))

theorem upTo_eq {xs : List α} {n : Nat} (h : n ≤ xs.length) : upTo xs n = .ok n :=
  if_pos h

theorem sub_eq {a b : Nat} (h : b ≤ a) : sub a b = .ok (a - b) :=
  if_pos h

theorem size_eq {v : Int} (h : 0 ≤ v) : size v = .ok v.toNat :=
  if_pos h

theorem index_eq {xs : List α} {i : Nat} {a : α} (h : xs[i]? = some a) : index xs i = .ok a := by
  rw [index, h]

theorem update_eq {xs : List α} {i : Nat} (h : i < xs.length) (a : α) :
    update xs i a = .ok (xs.set i a) :=
  if_pos h

theorem slice_eq {xs : List α} {start stop : Nat} (h : start ≤ stop) (h' : stop ≤ xs.length) :
    slice xs start stop = .ok ((xs.take stop).drop start) :=
  if_pos ⟨h, h'⟩

end Checked

/-! ## Guarded steps -/

/-- A step of the machine that may stop with a fault. -/
abbrev Guarded := EStateM Stop State

namespace Guarded

variable {α β : Type}

/-- A step without operations that can go wrong. -/
def of (x : Exec α) : Guarded α := fun s =>
  match x s with
  | .ok a t => .ok a t
  | .error e t => .error (.error e) t

/-- A computation that needs no state. -/
def check (r : Checked α) : Guarded α := fun s =>
  match r with
  | .ok a => .ok a s
  | .error e => .error e s

/-- A case that is left out. -/
def unreachable : Guarded α :=
  check (Checked.fail .unreachable)

theorem bind_of_ok {x : Guarded α} {f : α → Guarded β} {s t : State} {a : α}
    (h : x s = .ok a t) : (x >>= f) s = f a t := by
  show EStateM.bind x f s = _
  rw [EStateM.bind, h]

theorem bind_of_error {x : Guarded α} {f : α → Guarded β} {s t : State} {e : Stop}
    (h : x s = .error e t) : (x >>= f) s = .error e t := by
  show EStateM.bind x f s = _
  rw [EStateM.bind, h]

theorem get_bind (f : State → Guarded β) (s : State) : (get >>= f) s = f s s :=
  rfl

theorem check_bind {r : Checked α} {a : α} (h : r = .ok a) (f : α → Guarded β) :
    (check r >>= f) = f a := by
  rw [h]
  rfl

theorem of_of_ok {x : Exec α} {s t : State} {a : α} (h : x s = .ok a t) : of x s = .ok a t := by
  rw [of, h]

theorem of_of_error {x : Exec α} {s t : State} {e : Error} (h : x s = .error e t) :
    of x s = .error (.error e) t := by
  rw [of, h]

theorem of_bind (x : Exec α) (f : α → Exec β) : of (x >>= f) = of x >>= fun a => of (f a) := by
  funext s
  show of (EStateM.bind x f) s = _
  cases hx : x s with
  | ok a t => rw [bind_of_ok (of_of_ok hx), of, EStateM.bind, hx, of]
  | error e t => rw [bind_of_error (of_of_error hx), of, EStateM.bind, hx]

/-- Two steps one after the other, of which the second is compared where the first has got to. -/
theorem bind_eq {g : Guarded α} {x : Exec α} {f : α → Guarded β} {y : α → Exec β} {s : State}
    (h : g s = of x s) (hf : ∀ a t, x s = .ok a t → f a t = of (y a) t) :
    (g >>= f) s = of (x >>= y) s := by
  rw [of_bind]
  cases hx : x s with
  | ok a t =>
    have hof := of_of_ok hx
    rw [bind_of_ok hof, bind_of_ok (h.trans hof)]
    exact hf a t hx
  | error e t =>
    have hof := of_of_error hx
    rw [bind_of_error hof, bind_of_error (h.trans hof)]

theorem check_of (r : Except Error α) : check (Checked.of r) = of (Exec.lift r) := by
  cases r <;> rfl

/-! ## Steps on the way of a rule -/

open Exec

/-- Wherever the rule that started in `s` has got to with `keys` operations counted, the guarded
step `g` has no fault and does what `x` does. -/
def Within (s : State) (keys : Nat) (g : Guarded α) (x : Exec α) : Prop :=
  ∀ t, s.Work keys 0 t → g t = of x t

section Within

variable {env : Env} {s : State} {keys : Nat} {Q : α → Prop}

theorem within_of (x : Exec α) : Within s keys (of x) x :=
  fun _ _ => rfl

theorem Within.bind {g : Guarded α} {x : Exec α} {f : α → Guarded β} {y : α → Exec β}
    (h : Within s keys g x) (keeps : Keeps env s keys x Q)
    (hf : ∀ a, Q a → Within s keys (f a) (y a)) : Within s keys (g >>= f) (x >>= y) := by
  intro t ht
  refine bind_eq (h t ht) fun a t' hx => ?_
  have ends := keeps t ht
  rw [hx] at ends
  exact hf a ends.1 t' ends.2

theorem Within.of_bind {x : Exec α} {f : α → Guarded β} {y : α → Exec β}
    (keeps : Keeps env s keys x Q) (hf : ∀ a, Q a → Within s keys (f a) (y a)) :
    Within s keys (of x >>= f) (x >>= y) :=
  (within_of x).bind keeps hf

theorem Within.check_bind {r : Checked β} {b : β} {f : β → Guarded α} {x : Exec α} (h : r = .ok b)
    (hf : Within s keys (f b) x) : Within s keys (check r >>= f) x := by
  rw [Guarded.check_bind h]
  exact hf

theorem Within.ite {c : Prop} [Decidable c] {g g' : Guarded α} {x x' : Exec α}
    (h : c → Within s keys g x) (h' : ¬ c → Within s keys g' x') :
    Within s keys (if c then g else g') (if c then x else x') := by
  split
  · next hc => exact h hc
  · next hc => exact h' hc

end Within

end Guarded
end CoinScript
