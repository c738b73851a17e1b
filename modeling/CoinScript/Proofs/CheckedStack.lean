import CoinScript.Proofs.CheckedSpend
/-!
# The stack on words and vectors

A stack is a vector with the top at its end. Items are reached by an index that counts from the
bottom, or from the top if it is negative, and numbers are read from items and written to them.

* `peek_eq`, `remove_eq`, `swap_eq`, `insert_eq`: items by place;
* `popNumber_eq`, `peekNumber_eq`, `pushNumber_eq`: numbers.
-/

namespace CoinScript.Guarded

open Exec

/-! ## Items by place -/

/-- The place that an index means. An index counts from the bottom, a negative one from the top. -/
def resolveIndex (index : Int) : Guarded Nat := do
  let s ← get
  let height ← check (Checked.long s.stack.length)
  let resolved ← check (if index < 0 then Checked.long (height + index) else .ok index)
  if resolved < 0 ∨ resolved ≥ height then
    let required ← check (Checked.long (if index < 0 then -index else index + 1))
    let required ← check (Checked.size required)
    of (throw (.stackUnderflow required))
  else check (Checked.size resolved)

def peek (index : Int) : Guarded Bytes := do
  let i ← resolveIndex index
  let s ← get
  check (Checked.index s.stack.reverse i)

def remove (index : Int) : Guarded Bytes := do
  let i ← resolveIndex index
  let s ← get
  let item ← check (Checked.index s.stack.reverse i)
  set { s with stack := (s.stack.reverse.eraseIdx i).reverse }
  return item

def swap (i j : Nat) : Guarded Unit := do
  let s ← get
  let items := s.stack.reverse
  let a ← check (Checked.index items i)
  let b ← check (Checked.index items j)
  set { s with stack := ((items.set i b).set j a).reverse }

def insert (i : Nat) (item : Bytes) : Guarded Unit := do
  let s ← get
  let items := s.stack.reverse
  let front ← check (Checked.slice items 0 i)
  set { s with stack := (front ++ item :: items.drop i).reverse }

/-- The depth that an index means, by the place from the bottom. -/
theorem depthOf_eq (height : Nat) (index : Int) :
    depthOf height index =
      let resolved := if index < 0 then (height : Int) + index else index
      if resolved < 0 ∨ resolved ≥ height then
        .error (.stackUnderflow (if index < 0 then -index else index + 1).toNat)
      else .ok (height - 1 - resolved.toNat) := by
  cases index with
  | ofNat i =>
    have positive : ¬ (Int.ofNat i) < 0 := Int.not_lt.mpr (Int.natCast_nonneg i)
    simp only [if_neg positive, depthOf]
    split
    · next inside => rw [if_neg (by simp; omega)]; rfl
    · next outside => rw [if_pos (by simp; omega)]; rfl
  | negSucc k =>
    have negative : Int.negSucc k < 0 := Int.negSucc_lt_zero k
    simp only [if_pos negative, depthOf]
    split
    · next inside =>
      rw [if_neg (by omega)]
      congr 1
      omega
    · next outside =>
      rw [if_pos (by omega)]
      rfl

theorem resolveIndex_eq {s : State} {index : Int} (hs : s.stack.length ≤ 0x3fffffffffffffff)
    (hindex : index.natAbs ≤ 0x3fffffffffffffff) :
    resolveIndex index s =
      of (Exec.lift ((depthOf s.stack.length index).map (s.stack.length - 1 - ·))) s := by
  have hheight : Checked.long s.stack.length = .ok (s.stack.length : Int) :=
    Checked.long_eq (by omega)
  have hresolved : (if index < 0 then Checked.long ((s.stack.length : Int) + index)
      else .ok index) = .ok (if index < 0 then (s.stack.length : Int) + index else index) := by
    split
    · exact Checked.long_eq (by omega)
    · rfl
  have hrequired : Checked.long (if index < 0 then -index else index + 1) =
      .ok (if index < 0 then -index else index + 1) :=
    Checked.long_eq (by split <;> omega)
  show (check (Checked.long s.stack.length) >>= _) s = _
  rw [check_bind hheight, check_bind hresolved, check_bind hrequired,
    check_bind (Checked.size_eq (by split <;> omega)), depthOf_eq]
  dsimp only
  generalize (if index < 0 then (s.stack.length : Int) + index else index) = resolved
  split
  · rfl
  · next inside =>
    rw [Checked.size_eq (by omega)]
    show EStateM.Result.ok resolved.toNat s =
      EStateM.Result.ok (s.stack.length - 1 - (s.stack.length - 1 - resolved.toNat)) s
    congr 1
    omega

theorem depth_lt_of_depthOf {height depth : Nat} {index : Int}
    (h : depthOf height index = .ok depth) : depth < height := by
  unfold depthOf at h
  split at h
  all_goals
    split at h
    · cases h
      omega
    · cases h

/-- The item at a place from the bottom is the one at the depth that goes with it. -/
theorem index_reverse {items : List Bytes} {depth : Nat} (h : depth < items.length) :
    Checked.index items.reverse (items.length - 1 - depth) = .ok items[depth] := by
  refine Checked.index_eq ?_
  rw [List.getElem?_reverse (by omega), List.getElem?_eq_getElem (by omega)]
  congr 2
  omega

theorem eraseIdx_reverse {items : List Bytes} {depth : Nat} (h : depth < items.length) :
    (items.reverse.eraseIdx (items.length - 1 - depth)).reverse = items.eraseIdx depth := by
  rw [List.eraseIdx_eq_take_drop_succ, List.eraseIdx_eq_take_drop_succ, List.reverse_append,
    List.take_reverse, List.drop_reverse, List.reverse_reverse, List.reverse_reverse]
  congr 2 <;> omega

theorem set_reverse {items : List Bytes} {depth : Nat} (h : depth < items.length) (item : Bytes) :
    items.reverse.set (items.length - 1 - depth) item = (items.set depth item).reverse := by
  rw [List.set_eq_take_append_cons_drop, if_pos (by simp; omega), List.set_eq_take_append_cons_drop,
    if_pos h, List.reverse_append, List.reverse_cons, List.take_reverse, List.drop_reverse,
    List.append_assoc, Nat.sub_right_comm]
  have hfront : items.length - (items.length - depth - 1) = depth + 1 := by omega
  have hback : items.length - (items.length - depth - 1 + 1) = depth := by omega
  rw [hfront, hback]
  rfl

/-- A step at the depth that an index means, against the same step at the place from the bottom. -/
theorem resolveIndex_bind {α : Type} {s : State} {index : Int} {f : Nat → Guarded α}
    {y : Nat → Exec α} (hs : s.stack.length ≤ 0x3fffffffffffffff)
    (hindex : index.natAbs ≤ 0x3fffffffffffffff)
    (h : ∀ depth, depth < s.stack.length → f (s.stack.length - 1 - depth) s = of (y depth) s) :
    (resolveIndex index >>= f) s =
      of (get >>= fun t => Exec.lift (depthOf t.stack.length index) >>= y) s := by
  have hresolve := resolveIndex_eq hs hindex
  show _ = of (Exec.lift (depthOf s.stack.length index) >>= y) s
  cases hdepth : depthOf s.stack.length index with
  | error e =>
    rw [hdepth] at hresolve
    rw [bind_of_error hresolve]
    rfl
  | ok depth =>
    rw [hdepth] at hresolve
    rw [bind_of_ok hresolve]
    exact h depth (depth_lt_of_depthOf hdepth)

theorem peek_eq {s : State} {index : Int} (hs : s.stack.length ≤ 0x3fffffffffffffff)
    (hindex : index.natAbs ≤ 0x3fffffffffffffff) : peek index s = of (Exec.peek index) s := by
  refine resolveIndex_bind hs hindex fun depth inside => ?_
  show check (Checked.index s.stack.reverse _) s = _
  rw [index_reverse inside, of, itemAt, List.getElem?_eq_getElem inside]
  rfl

theorem remove_eq {s : State} {index : Int} (hs : s.stack.length ≤ 0x3fffffffffffffff)
    (hindex : index.natAbs ≤ 0x3fffffffffffffff) : remove index s = of (Exec.remove index) s := by
  refine resolveIndex_bind hs hindex fun depth inside => ?_
  show (check (Checked.index s.stack.reverse _) >>= _) s = _
  rw [check_bind (index_reverse inside), of, removeAt, List.getElem?_eq_getElem inside,
    eraseIdx_reverse inside]
  rfl

theorem swap_eq {s : State} {p q : Nat} (hp : p < s.stack.length) (hq : q < s.stack.length) :
    swap (s.stack.length - 1 - p) (s.stack.length - 1 - q) s =
      .ok () { s with stack := (s.stack.set p s.stack[q]).set q s.stack[p] } := by
  have hlength : (s.stack.set p s.stack[q]).length = s.stack.length := List.length_set
  have hset := set_reverse (by rwa [hlength]) s.stack[p]
  rw [hlength] at hset
  show (check (Checked.index s.stack.reverse _) >>= _) s = _
  rw [check_bind (index_reverse hp), check_bind (index_reverse hq), set_reverse hp, hset,
    List.reverse_reverse]
  rfl

theorem insert_eq {s : State} {depth : Nat} (h : depth ≤ s.stack.length) (item : Bytes) :
    insert (s.stack.length - depth) item s =
      .ok () { s with stack := s.stack.take depth ++ item :: s.stack.drop depth } := by
  show (check (Checked.slice s.stack.reverse 0 _) >>= _) s = _
  rw [check_bind (Checked.slice_eq (Nat.zero_le _) (by simp)), List.drop_zero, List.take_reverse,
    List.drop_reverse, List.reverse_append, List.reverse_cons, List.reverse_reverse,
    List.reverse_reverse, Nat.sub_sub_self h, List.append_assoc]
  rfl

/-! ## Numbers -/

def popNumber (limit : Nat) : Guarded Int := do
  let item ← of pop
  check (Checked.decodeNumber limit item)

def peekNumber (index : Int) (limit : Nat) : Guarded Int := do
  let item ← peek index
  check (Checked.decodeNumber limit item)

def peekBool (index : Int) : Guarded Bool := do
  let item ← peek index
  check (Checked.truth item)

def pushNumber (v : Int) : Guarded Unit := do
  let item ← check (Checked.encodeNumber v)
  of (push item)

theorem pushNumber_eq (v : Int) : pushNumber v = of (Exec.pushNumber v) :=
  check_bind (Checked.encodeNumber_eq v) _

theorem popNumber_eq {limit : Nat} (small : limit ≤ 5) :
    popNumber limit = of (Exec.popNumber limit) := by
  unfold popNumber Exec.popNumber
  rw [of_bind]
  refine bind_congr fun item => ?_
  rw [Checked.decodeNumber_eq item small, check_of]

theorem peekNumber_eq {s : State} {index : Int} {limit : Nat}
    (hs : s.stack.length ≤ 0x3fffffffffffffff) (hindex : index.natAbs ≤ 0x3fffffffffffffff)
    (small : limit ≤ 5) :
    peekNumber index limit s = of (Exec.peekNumber index limit) s := by
  refine bind_eq (peek_eq hs hindex) fun item t _ => ?_
  rw [Checked.decodeNumber_eq item small, check_of]

theorem peek_negSucc (n : Nat) : Exec.peek (Int.negSucc n) = itemAt n := by
  funext s
  show (Exec.lift (depthOf s.stack.length (Int.negSucc n)) >>= itemAt) s = _
  rw [depthOf]
  split
  · rfl
  · next outside =>
    rw [itemAt, List.getElem?_eq_none (Nat.le_of_not_lt outside)]
    rfl

theorem peek_top {s : State} {item : Bytes} {rest : List Bytes}
    (hs : s.stack.length ≤ 0x3fffffffffffffff)
    (htop : s.stack = item :: rest) : peek (-1) s = .ok item s := by
  have hitem : itemAt 0 s = .ok item s := by
    rw [itemAt, htop]
    rfl
  have hpeek := peek_eq hs (by decide : (Int.negSucc 0).natAbs ≤ 0x3fffffffffffffff)
  rw [peek_negSucc, of_of_ok hitem] at hpeek
  exact hpeek

theorem peekBool_top {s : State} {item : Bytes} {rest : List Bytes}
    (hs : s.stack.length ≤ 0x3fffffffffffffff) (htop : s.stack = item :: rest) :
    peekBool (-1) s = .ok (Truth.decode item) s := by
  rw [peekBool, bind_of_ok (peek_top hs htop), Checked.truth_eq]
  rfl

theorem remove_negSucc (n : Nat) : Exec.remove (Int.negSucc n) = removeAt n := by
  funext s
  show (Exec.lift (depthOf s.stack.length (Int.negSucc n)) >>= removeAt) s = _
  rw [depthOf]
  split
  · rfl
  · next outside =>
    rw [removeAt, List.getElem?_eq_none (Nat.le_of_not_lt outside)]
    rfl

section Within

variable {env : Env} {s : State} {keys : Nat}

/-- Where a rule has got to, the stack is no higher than both stacks were before. -/
theorem height_le_of_work {t : State} (low : s.height ≤ 0x3fffffffffffffff)
    (ht : s.Work keys 0 t) : t.stack.length ≤ 0x3fffffffffffffff :=
  Nat.le_trans (Nat.le_add_right _ _) (Nat.le_trans ht.height low)

theorem height_le_of_tidy (tidy : s.Tidy) : s.height ≤ 0x3fffffffffffffff :=
  Nat.le_trans tidy.2 (by decide)

theorem stack_le_of_tidy (tidy : s.Tidy) : s.stack.length ≤ 0x3fffffffffffffff :=
  height_le_of_work (height_le_of_tidy tidy) (.refl s)

theorem within_peek (low : s.height ≤ 0x3fffffffffffffff) {n : Nat}
    (small : n < 0x3fffffffffffffff) :
    Within s keys (peek (Int.negSucc n)) (itemAt n) := by
  rw [← peek_negSucc]
  exact fun _ ht => peek_eq (height_le_of_work low ht) small

theorem within_remove (low : s.height ≤ 0x3fffffffffffffff) {n : Nat}
    (small : n < 0x3fffffffffffffff) :
    Within s keys (remove (Int.negSucc n)) (removeAt n) := by
  rw [← remove_negSucc]
  exact fun _ ht => remove_eq (height_le_of_work low ht) small

theorem Within.peek_bind {α : Type} (low : s.height ≤ 0x3fffffffffffffff) {n : Nat}
    (small : n < 0x3fffffffffffffff) {f : Bytes → Guarded α} {y : Bytes → Exec α}
    (hf : ∀ item, (s.Tidy → item.length ≤ maxItemSize) → Within s keys (f item) (y item)) :
    Within s keys (peek (Int.negSucc n) >>= f) (itemAt n >>= y) :=
  (within_peek low small).bind (keeps_itemAt n : Keeps {} s keys _ _) hf

theorem Within.remove_bind {α : Type} (low : s.height ≤ 0x3fffffffffffffff) {n : Nat}
    (small : n < 0x3fffffffffffffff) {f : Bytes → Guarded α} {y : Bytes → Exec α}
    (hf : ∀ item, (s.Tidy → item.length ≤ maxItemSize) → Within s keys (f item) (y item)) :
    Within s keys (remove (Int.negSucc n) >>= f) (removeAt n >>= y) :=
  (within_remove low small).bind (keeps_removeAt n : Keeps {} s keys _ _) hf

theorem Within.need_bind {α : Type} (count : Nat) {f : Unit → Guarded α} {y : Unit → Exec α}
    (hf : Within s keys (f ()) (y ())) :
    Within s keys (of (need count) >>= f) (need count >>= y) :=
  .of_bind (keeps_need count : Keeps {} s keys _ _) fun _ _ => hf

theorem Within.popNumber_bind {α : Type} {f : Int → Guarded α} {y : Int → Exec α}
    (hf : ∀ v : Int, v.natAbs < 256 ^ maxNumberSize → Within s keys (f v) (y v)) :
    Within s keys (popNumber maxNumberSize >>= f) (Exec.popNumber maxNumberSize >>= y) := by
  rw [popNumber_eq (by decide)]
  exact .of_bind (keeps_popNumber _ : Keeps {} s keys _ _) hf

end Within

end CoinScript.Guarded
