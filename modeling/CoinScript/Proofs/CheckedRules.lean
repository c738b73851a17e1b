import CoinScript.Proofs.CheckedStack
/-!
# Rules on words and vectors

The rules of the opcodes as they are done on words and vectors: opcodes are told apart by their
family and then by name, with the other opcodes left out, and results have to fit into words.

* `within_stackOp`, `within_arithmetic`, `within_checkSingle`: in the course of a rule, from a state
  within the limits, there is no fault.
-/

namespace CoinScript.Guarded

open Exec
open Script (Rows)

/-! ## Families of opcodes -/

/-- The number of a constant. -/
def smallInt? (op : Opcode) : Checked (Option Nat) :=
  if op = .zero then .ok (some 0)
  else if 0x51 ≤ op.code ∧ op.code ≤ 0x60 then do
    let n ← Checked.byte ((← Checked.sub op.code.toNat 0x51) + 1)
    .ok (some n)
  else .ok none

def pushValue (op : Opcode) : Guarded Unit :=
  if op = .push .oneNegate then pushNumber (-1)
  else do
    match ← check (smallInt? op) with
    | some n => pushNumber n
    | none => of (throw (.structural (.missingPayload op)))

def branchTaken (op : Opcode) : Guarded Bool := do
  let s ← get
  if s.executing then
    of (need 1)
    let item ← of pop
    let truth ← check (Checked.truth item)
    return if op = .flow .ifFalse then !truth else truth
  else return false

def flowControl (op : Opcode) : Guarded Unit :=
  match op with
  | .flow .ifTrue | .flow .ifFalse => do
    let taken ← branchTaken op
    of (openBranch taken)
  | .flow .orElse => of flipBranch
  | .flow .endIf => of closeBranch
  | .flow .verify => do
    of (need 1)
    let item ← of pop
    let truth ← check (Checked.truth item)
    of (if !truth then throw (.negativeVerdict (.checkFailed op)) else pure ())
  | .flow .giveUp => of (throw (.negativeVerdict .gaveUp))
  | _ => unreachable

def stackManipulation (op : Opcode) : Guarded Unit :=
  match op with
  | .stack .toAlt => of do
    need 1
    let item ← pop
    pushAlt item
  | .stack .fromAlt => of do
    let item ← popAlt
    push item
  | .stack (.shuffle .drop2) => of do
    need 2
    let _ ← pop
    let _ ← pop
  | .stack (.shuffle .dup2) => do
    of (need 2)
    let a ← peek (-2)
    let b ← peek (-1)
    of do push a; push b
  | .stack (.shuffle .dup3) => do
    of (need 3)
    let a ← peek (-3)
    let b ← peek (-2)
    let c ← peek (-1)
    of do push a; push b; push c
  | .stack (.shuffle .over2) => do
    of (need 4)
    let a ← peek (-4)
    let b ← peek (-3)
    of do push a; push b
  | .stack (.shuffle .rot2) => do
    of (need 6)
    let a ← remove (-6)
    let b ← remove (-5)
    of do push a; push b
  | .stack (.shuffle .swap2) => do
    of (need 4)
    let height := (← get).stack.length
    swap (← check (Checked.sub height 4)) (← check (Checked.sub height 2))
    swap (← check (Checked.sub height 3)) (← check (Checked.sub height 1))
  | .stack .ifDup => do
    of (need 1)
    if ← peekBool (-1) then
      let item ← peek (-1)
      of (push item)
  | .stack .depth => do
    let height ← check (Checked.long (← get).stack.length)
    pushNumber height
  | .stack (.shuffle .drop) => of do
    need 1
    let _ ← pop
  | .stack (.shuffle .dup) => do
    of (need 1)
    let item ← peek (-1)
    of (push item)
  | .stack (.shuffle .nip) => do
    of (need 2)
    let _ ← remove (-2)
  | .stack (.shuffle .over) => do
    of (need 2)
    let item ← peek (-2)
    of (push item)
  | .stack .pick | .stack .roll => do
    of (need 2)
    let n ← popNumber maxNumberSize
    if n < 0 then of (throw (.structural (.negativeDepth op)))
    else
      let below ← check (Checked.long (-n))
      let index ← check (Checked.long (below - 1))
      let item ← if op = .stack .roll then remove index else peek index
      of (push item)
  | .stack (.shuffle .rot) => do
    of (need 3)
    let item ← remove (-3)
    of (push item)
  | .stack (.shuffle .swap) => do
    of (need 2)
    let height := (← get).stack.length
    swap (← check (Checked.sub height 2)) (← check (Checked.sub height 1))
  | .stack (.shuffle .tuck) => do
    of (need 2)
    let item ← peek (-1)
    let height := (← get).stack.length
    insert (← check (Checked.sub height 2)) item
  | _ => unreachable

theorem pushValue_eq (op : PushOp) : pushValue (.push op) = of op.execute := by
  cases op with
  | smallInt n =>
    have hsmall : ∀ n : Fin 17, smallInt? (.push (.smallInt n)) = .ok (some n.val) := by decide
    rw [pushValue, if_neg (by simp), check_bind (hsmall n)]
    exact pushNumber_eq n.val
  | oneNegate => exact pushNumber_eq (-1)
  | payload1 => rfl
  | payload2 => rfl
  | payload4 => rfl

theorem branchTaken_eq {op : Opcode} {wanted : Bool}
    (h : ∀ truth, (if op = .flow .ifFalse then !truth else truth) = (truth == wanted)) :
    branchTaken op = of (Exec.branchTaken wanted) := by
  unfold branchTaken Exec.branchTaken
  rw [of_bind]
  refine bind_congr fun s => ?_
  split
  · rw [of_bind]
    refine bind_congr fun _ => ?_
    rw [of_bind]
    refine bind_congr fun item => ?_
    rw [check_bind (Checked.truth_eq item), h]
    rfl
  · rfl

theorem flowControl_eq (op : FlowOp) : flowControl (.flow op) = of op.execute := by
  cases op with
  | ifTrue =>
    have taken : branchTaken (.flow .ifTrue) = of (Exec.branchTaken true) :=
      branchTaken_eq (by decide)
    rw [flowControl, taken, ← of_bind]
    rfl
  | ifFalse =>
    have taken : branchTaken (.flow .ifFalse) = of (Exec.branchTaken false) :=
      branchTaken_eq (by decide)
    rw [flowControl, taken, ← of_bind]
    rfl
  | orElse => rfl
  | endIf => rfl
  | verify =>
    rw [flowControl, FlowOp.execute, of_bind]
    refine bind_congr fun _ => ?_
    rw [of_bind]
    refine bind_congr fun item => ?_
    rw [check_bind (Checked.truth_eq item)]
  | giveUp => rfl

/-- The rearrangements that take items one by one. The others exchange items in their places. -/
def itemwise : ShuffleOp → Exec Unit
  | .drop2 => do
    need 2
    let _ ← pop
    let _ ← pop
  | .dup2 => do
    need 2
    let a ← itemAt 1
    let b ← itemAt 0
    push a
    push b
  | .dup3 => do
    need 3
    let a ← itemAt 2
    let b ← itemAt 1
    let c ← itemAt 0
    push a
    push b
    push c
  | .over2 => do
    need 4
    let a ← itemAt 3
    let b ← itemAt 2
    push a
    push b
  | .rot2 => do
    need 6
    let a ← removeAt 5
    let b ← removeAt 4
    push a
    push b
  | .drop => do
    need 1
    let _ ← pop
  | .dup => do
    need 1
    let a ← itemAt 0
    push a
  | .nip => do
    need 2
    let _ ← removeAt 1
  | .over => do
    need 2
    let a ← itemAt 1
    push a
  | .rot => do
    need 3
    let a ← removeAt 2
    push a
  | .swap2 => do
    need 4
    ShuffleOp.execute .swap2
  | .swap => do
    need 2
    ShuffleOp.execute .swap
  | .tuck => do
    need 2
    ShuffleOp.execute .tuck

theorem itemwise_eq (op : ShuffleOp) : itemwise op = op.execute := by
  funext t
  obtain ⟨stack⟩ := t
  cases op
  all_goals
    rcases stack with _ | ⟨a, _ | ⟨b, _ | ⟨c, _ | ⟨d, _ | ⟨e, _ | ⟨f, rest⟩⟩⟩⟩⟩⟩ <;> rfl

section Stack

variable {s : State} {keys : Nat}

theorem swap_rule (t : State) :
    stackManipulation (.stack (.shuffle .swap)) t = of (itemwise .swap) t := by
  refine bind_eq rfl fun _ u hneed => ?_
  obtain ⟨enough, rfl⟩ := need_ok_iff.mp hneed
  have hswap := swap_eq (s := u) (p := 1) (q := 0) (by omega) (by omega)
  rw [Nat.sub_sub, Nat.sub_zero] at hswap
  show (check (Checked.sub u.stack.length 2) >>= _) u = _
  rw [check_bind (Checked.sub_eq enough), check_bind (Checked.sub_eq (by omega)), hswap]
  obtain ⟨stack⟩ := u
  rcases stack with _ | ⟨b, _ | ⟨a, rest⟩⟩
  · cases enough
  · simp at enough
  · rfl

theorem swap2_rule (t : State) :
    stackManipulation (.stack (.shuffle .swap2)) t = of (itemwise .swap2) t := by
  refine bind_eq rfl fun _ u hneed => ?_
  obtain ⟨enough, rfl⟩ := need_ok_iff.mp hneed
  have hfirst := swap_eq (s := u) (p := 3) (q := 1) (by omega) (by omega)
  rw [Nat.sub_sub, Nat.sub_sub] at hfirst
  show (check (Checked.sub u.stack.length 4) >>= _) u = _
  rw [check_bind (Checked.sub_eq enough), check_bind (Checked.sub_eq (by omega)), bind_of_ok hfirst,
    check_bind (Checked.sub_eq (by omega)), check_bind (Checked.sub_eq (by omega))]
  have hsecond := swap_eq (s := { u with stack := (u.stack.set 3 u.stack[1]).set 1 u.stack[3] })
    (p := 2) (q := 0) (by simp; omega) (by simp; omega)
  simp only [List.length_set, Nat.sub_sub, Nat.sub_zero] at hsecond
  rw [hsecond]
  obtain ⟨stack⟩ := u
  rcases stack with _ | ⟨d, _ | ⟨c, _ | ⟨b, _ | ⟨a, rest⟩⟩⟩⟩
  · cases enough
  · simp at enough
  · simp at enough
  · simp at enough
  · rfl

theorem tuck_rule {t : State} (ht : t.stack.length ≤ 0x3fffffffffffffff) :
    stackManipulation (.stack (.shuffle .tuck)) t = of (itemwise .tuck) t := by
  refine bind_eq rfl fun _ u hneed => ?_
  obtain ⟨enough, rfl⟩ := need_ok_iff.mp hneed
  have hinsert := insert_eq enough
  obtain ⟨stack⟩ := u
  rcases stack with _ | ⟨b, _ | ⟨a, rest⟩⟩
  · cases enough
  · simp at enough
  · refine (bind_of_ok ((peek_eq ht (by decide)).trans rfl)).trans ?_
    rw [get_bind]
    dsimp only
    rw [check_bind (Checked.sub_eq enough)]
    exact hinsert b

theorem within_shuffle (low : s.height ≤ 0x3fffffffffffffff) (op : ShuffleOp) :
    Within s keys (stackManipulation (.stack (.shuffle op))) op.execute := by
  rw [← itemwise_eq]
  match op with
  | .drop2 => exact within_of _
  | .dup2 =>
    exact .need_bind 2 (.peek_bind (n := 1) low (by decide) fun a _ =>
      .peek_bind (n := 0) low (by decide) fun b _ => within_of _)
  | .dup3 =>
    exact .need_bind 3 (.peek_bind (n := 2) low (by decide) fun a _ =>
      .peek_bind (n := 1) low (by decide) fun b _ =>
        .peek_bind (n := 0) low (by decide) fun c _ => within_of _)
  | .over2 =>
    exact .need_bind 4 (.peek_bind (n := 3) low (by decide) fun a _ =>
      .peek_bind (n := 2) low (by decide) fun b _ => within_of _)
  | .rot2 =>
    exact .need_bind 6 (.remove_bind (n := 5) low (by decide) fun a _ =>
      .remove_bind (n := 4) low (by decide) fun b _ => within_of _)
  | .swap2 => exact fun t _ => swap2_rule t
  | .drop => exact within_of _
  | .dup => exact .need_bind 1 (.peek_bind (n := 0) low (by decide) fun a _ => within_of _)
  | .nip =>
    exact .need_bind 2 (.remove_bind (n := 1) low (by decide) fun a _ => within_of (pure ()))
  | .over => exact .need_bind 2 (.peek_bind (n := 1) low (by decide) fun a _ => within_of _)
  | .rot => exact .need_bind 3 (.remove_bind (n := 2) low (by decide) fun a _ => within_of _)
  | .swap => exact fun t _ => swap_rule t
  | .tuck => exact fun t ht => tuck_rule (height_le_of_work low ht)

theorem ifDup_rule {t : State} (ht : t.stack.length ≤ 0x3fffffffffffffff) :
    stackManipulation (.stack .ifDup) t = of (StackOp.execute .ifDup) t := by
  refine bind_eq rfl fun _ u hneed => ?_
  obtain ⟨enough, rfl⟩ := need_ok_iff.mp hneed
  obtain ⟨item, rest, hu⟩ := List.exists_cons_of_length_pos enough
  have hitem : itemAt 0 u = .ok item u := by
    rw [itemAt, hu]
    rfl
  rw [bind_of_ok (peekBool_top ht hu), of_bind, bind_of_ok (of_of_ok hitem)]
  split
  · rw [bind_of_ok (peek_top ht hu)]
  · rfl

theorem depthOperand_bind {α : Type} (op : Opcode) (f : Nat → Exec α) :
    (depthOperand op >>= f) = (need 2 >>= fun _ => Exec.popNumber maxNumberSize >>= fun n =>
      if n < 0 then throw (.structural (.negativeDepth op)) else f n.toNat) := by
  rw [depthOperand, bind_assoc]
  refine bind_congr fun _ => ?_
  rw [bind_assoc]
  refine bind_congr fun n => ?_
  split <;> rfl

/-- The rule of an opcode that takes an item from a depth given on the stack. -/
theorem within_depth (op : Opcode) {take : Int → Guarded Bytes} {item : Nat → Exec Bytes}
    (h : ∀ n < 256 ^ 4, Within s keys (take (Int.negSucc n) >>= fun item => of (push item))
      (item n >>= push)) :
    Within s keys (of (need 2) >>= fun _ => popNumber maxNumberSize >>= fun n =>
        if n < 0 then of (throw (.structural (.negativeDepth op)))
        else check (Checked.long (-n)) >>= fun below => check (Checked.long (below - 1)) >>=
          fun index => take index >>= fun item => of (push item))
      (depthOperand op >>= fun n => item n >>= push) := by
  rw [depthOperand_bind]
  refine .need_bind 2 (.popNumber_bind fun n hn => .ite (fun _ => within_of _) fun positive => ?_)
  simp only [maxNumberSize] at hn
  have hindex : -n - 1 = Int.negSucc n.toNat := by omega
  refine .check_bind (Checked.long_eq (by omega)) (.check_bind (Checked.long_eq (by omega)) ?_)
  rw [hindex]
  exact h n.toNat (by omega)

theorem within_stackOp (low : s.height ≤ 0x3fffffffffffffff) (op : StackOp) :
    Within s keys (stackManipulation (.stack op)) op.execute := by
  cases op with
  | toAlt => exact within_of _
  | fromAlt => exact within_of _
  | shuffle op => exact within_shuffle low op
  | ifDup => exact fun t ht => ifDup_rule (height_le_of_work low ht)
  | depth =>
    intro t ht
    have hheight := height_le_of_work low ht
    show (check (Checked.long t.stack.length) >>= pushNumber) t = _
    rw [check_bind (Checked.long_eq (by omega)), pushNumber_eq]
    rfl
  | pick =>
    exact within_depth (.stack .pick) fun n hn =>
      .peek_bind low (by omega) fun item _ => within_of _
  | roll =>
    exact within_depth (.stack .roll) fun n hn =>
      .remove_bind low (by omega) fun item _ => within_of _

end Stack

/-! ## Sizes, comparisons and numbers -/

def splice (op : Opcode) : Guarded Unit :=
  if op = .size then do
    of (need 1)
    let item ← peek (-1)
    let size ← check (Checked.long item.length)
    pushNumber size
  else unreachable

def bitwise (op : Opcode) : Guarded Unit := do
  of (need 2)
  let b ← of pop
  let a ← of pop
  match op with
  | .equal => of (pushBool (a == b))
  | .equalVerify => of (if !(a == b) then throw (.negativeVerdict (.checkFailed op)) else pure ())
  | _ => unreachable

def unaryResult (op : UnaryOp) (a : Int) : Checked Int :=
  match op with
  | .add1 => Checked.long (a + 1)
  | .sub1 => Checked.long (a - 1)
  | .negate => Checked.long (-a)
  | .abs => Checked.long a.natAbs
  | .not => .ok (Truth.toInt (a == 0))
  | .notZero => .ok (Truth.toInt (a != 0))

def binaryResult (op : Opcode) (a b : Int) : Checked Int :=
  match op with
  | .arithmetic (.binary .add) => Checked.long (a + b)
  | .arithmetic (.binary .sub) => Checked.long (a - b)
  | .arithmetic (.binary op) => .ok (op.eval a b)
  | .arithmetic .equalVerify => .ok (Truth.toInt (a == b))
  | _ => Checked.fail .unreachable

def arithmetic (op : Opcode) : Guarded Unit :=
  match op with
  | .arithmetic (.unary unary) => do
    of (need 1)
    let a ← popNumber maxNumberSize
    let result ← check (unaryResult unary a)
    pushNumber result
  | .arithmetic .within => do
    of (need 3)
    let upper ← popNumber maxNumberSize
    let lower ← popNumber maxNumberSize
    let value ← popNumber maxNumberSize
    of (pushBool (decide (lower ≤ value) && decide (value < upper)))
  | op => do
    of (need 2)
    let b ← popNumber maxNumberSize
    let a ← popNumber maxNumberSize
    let result ← check (binaryResult op a b)
    if op = .arithmetic .equalVerify then
      of (if result = 0 then throw (.negativeVerdict (.checkFailed op)) else pure ())
    else pushNumber result

def cryptoHash (op : Opcode) : Guarded Unit := do
  of (need 1)
  let data ← of pop
  match op with
  | .hash op => of (push (op.digest data))
  | _ => unreachable

section

variable {s : State} {keys : Nat}

theorem within_size (tidy : s.Tidy) : Within s keys (splice .size) (Opcode.execute {} .size) := by
  refine .need_bind 1
    (.peek_bind (n := 0) (height_le_of_tidy tidy) (by decide) fun item short => ?_)
  have hsize := short tidy
  simp only [maxItemSize] at hsize
  refine .check_bind (Checked.long_eq (by omega)) ?_
  rw [pushNumber_eq]
  exact within_of _

theorem bitwise_equal (env : Env) : bitwise .equal = of (Opcode.execute env .equal) := by
  have hrule : Opcode.execute env .equal =
      (need 2 >>= fun _ => pop >>= fun b => pop >>= fun a => pushBool (a == b)) := by
    simp only [Opcode.execute, popEqual, bind_assoc, pure_bind]
  rw [hrule, of_bind]
  refine bind_congr fun _ => ?_
  rw [of_bind]
  refine bind_congr fun b => ?_
  rw [of_bind]

theorem bitwise_equalVerify (env : Env) :
    bitwise .equalVerify = of (Opcode.execute env .equalVerify) := by
  have hrule : Opcode.execute env .equalVerify = (need 2 >>= fun _ => pop >>= fun b => pop >>=
      fun a => if !(a == b) then throw (.negativeVerdict (.checkFailed .equalVerify))
        else pure ()) := by
    simp only [Opcode.execute, popEqual, bind_assoc, pure_bind]
  rw [hrule, of_bind]
  refine bind_congr fun _ => ?_
  rw [of_bind]
  refine bind_congr fun b => ?_
  rw [of_bind]

theorem cryptoHash_eq (op : HashOp) : cryptoHash (.hash op) = of op.execute := by
  unfold cryptoHash HashOp.execute
  rw [of_bind]
  refine bind_congr fun _ => ?_
  rw [of_bind]

theorem unaryResult_eq (op : UnaryOp) {a : Int} (ha : a.natAbs < 256 ^ maxNumberSize) :
    unaryResult op a = .ok (op.eval a) := by
  have hresult := op.natAbs_eval a
  simp only [maxNumberSize] at ha
  cases op with
  | not => rfl
  | notZero => rfl
  | _ => exact Checked.long_eq (Nat.le_trans hresult (by omega))

theorem binaryResult_eq (op : BinaryOp) {a b : Int} (ha : a.natAbs < 256 ^ maxNumberSize)
    (hb : b.natAbs < 256 ^ maxNumberSize) :
    binaryResult (.arithmetic (.binary op)) a b = .ok (op.eval a b) := by
  have hresult := op.natAbs_eval a b
  simp only [maxNumberSize] at ha hb
  cases op with
  | add => exact Checked.long_eq (Nat.le_trans hresult (by omega))
  | sub => exact Checked.long_eq (Nat.le_trans hresult (by omega))
  | _ => rfl

theorem within_arithmetic (op : ArithmeticOp) :
    Within s keys (arithmetic (.arithmetic op)) op.execute := by
  cases op with
  | unary op =>
    refine .need_bind 1 (.popNumber_bind fun a ha => .check_bind (unaryResult_eq op ha) ?_)
    rw [pushNumber_eq]
    exact within_of _
  | binary op =>
    refine .need_bind 2 (.popNumber_bind fun b hb => .popNumber_bind fun a ha =>
      .check_bind (binaryResult_eq op ha hb) ?_)
    rw [if_neg (by simp), pushNumber_eq]
    exact within_of _
  | equalVerify =>
    refine .need_bind 2 (.popNumber_bind fun b hb => .popNumber_bind fun a ha =>
      .check_bind rfl ?_)
    rw [if_pos rfl]
    have hresult : Truth.toInt (a == b) = 0 ↔ a ≠ b := by
      by_cases h : a = b <;> simp [Truth.toInt, h]
    simp only [hresult]
    exact within_of _
  | within =>
    exact .need_bind 3 (.popNumber_bind fun upper _ => .popNumber_bind fun lower _ =>
      .popNumber_bind fun value _ => within_of _)

end

/-! ## Signatures -/

def checkSignature (env : Env) (signature key : Bytes) (code : Rows) : Guarded Bool := do
  check (Checked.checkSignature env.flags signature)
  of (Exec.lift (SignatureEncoding.checkPublicKey env.flags key))
  if signature = [] then return false
  else
    let spend ← of (spend env)
    let cut ← check (Checked.sub signature.length 1)
    let der ← check (Checked.slice signature 0 cut)
    let tail ← check (Checked.slice signature cut signature.length)
    let hashType ← check (Checked.index tail 0)
    let digest ← check
      (Checked.signatureHash spend.transaction spend.index code hashType.toUInt32)
    of (ask env ⟨digest, der, key⟩)

def markSeparator : Guarded Unit := do
  let s ← get
  let next ← check (Checked.word (s.position + 1))
  set { s with codeStart := next }

def countOperations (count : Nat) : Guarded Unit := do
  let s ← get
  let total ← check (Checked.word (s.operations + count))
  set { s with operations := total }
  of (if total > maxOperations then throw (.structural .tooManyOperations) else pure ())

def checkSingle (env : Env) : Guarded Bool := do
  of (need 2)
  let key ← of pop
  let signature ← of pop
  let s ← get
  let code ← check (Checked.subscript s.script.rows s.codeStart)
  let code ← check (Checked.deletePush code signature)
  checkSignature env signature key code

theorem checkSignature_eq (env : Env) (signature key : Bytes) (code : Script) :
    checkSignature env signature key code.rows =
      of (Exec.checkSignature env signature key code) := by
  unfold checkSignature Exec.checkSignature
  rw [Checked.checkSignature_eq, check_of, of_bind]
  refine bind_congr fun _ => ?_
  rw [of_bind]
  refine bind_congr fun _ => ?_
  by_cases empty : signature = []
  · rw [if_pos empty, empty]
    rfl
  rw [if_neg empty]
  obtain ⟨front, last, rfl⟩ := List.eq_nil_or_concat signature |>.resolve_left empty
  rw [List.concat_eq_append, List.getLast?_concat, List.dropLast_concat]
  dsimp only
  rw [of_bind]
  refine bind_congr fun spend => ?_
  have hlength : (front ++ [last]).length = front.length + 1 := by simp
  have htail : ((front ++ [last]).take (front.length + 1)).drop front.length = [last] := by
    rw [← hlength, List.take_length, List.drop_left]
  rw [hlength, check_bind (Checked.sub_eq (Nat.le_add_left _ _)), Nat.add_sub_cancel,
    check_bind (Checked.slice_eq (Nat.zero_le _) (by simp)),
    check_bind (Checked.slice_eq (by omega) (by simp)), List.drop_zero, List.take_left, htail,
    check_bind (Checked.index_eq rfl),
    check_bind (Checked.signatureHash_eq spend.index.isLt code last.toUInt32)]
  rfl

theorem markSeparator_eq {s : State} (hs : s.position ≤ 0xffff) :
    markSeparator s = of Exec.markSeparator s := by
  rw [markSeparator, get_bind, check_bind (Checked.word_eq (by omega))]
  rfl

theorem countOperations_eq {s : State} {count : Nat} (hs : s.operations ≤ 0xffff)
    (hcount : count ≤ 0xffff) : countOperations count s = of (Exec.countOperations count) s := by
  rw [countOperations, get_bind, check_bind (Checked.word_eq (by omega)), of, Exec.countOperations]
  show (of (if s.operations + count > maxOperations then _ else _ : Exec Unit))
    { s with operations := s.operations + count } = _
  dsimp only
  split
  · rfl
  · rfl

theorem within_checkSingle {s : State} {keys : Nat} (env : Env) (tidy : s.Tidy) :
    Within s keys (checkSingle env) (Exec.checkSingle env) := by
  refine .need_bind 2 (.of_bind (keeps_pop : Keeps {} s keys _ _) fun key _ =>
    .of_bind (keeps_pop : Keeps {} s keys _ _) fun signature short => ?_)
  refine .of_bind (keeps_get : Keeps {} s keys _ _) fun t _ => ?_
  refine .check_bind (Checked.subscript_eq t.script t.codeStart) ?_
  refine .check_bind (Checked.deletePush_eq _ (short tidy)) ?_
  rw [checkSignature_eq]
  exact within_of _

end CoinScript.Guarded
