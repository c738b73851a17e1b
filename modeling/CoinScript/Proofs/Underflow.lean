import CoinScript.Proofs.Preservation
import CoinScript.Proofs.StackEffects
/-!
# Stacks that are too low

An opcode that finds fewer items than it needs leaves the stacks as they were, and says how many
items would have been enough. A rule sees to this by asking for all its operands before it takes the
first one off. Two opcodes cannot do so, those with a depth on top of the stack: how many items they
need is known only when the depth has been taken off.

A step is `Intact` if it reports an underflow only on the stacks that it found, and `Supplied count`
if it reports none on a stack of at least `count` items.

* `Intact.need`, `Intact.bind`: a rule that asks first, and one that asks more than once;
* `intact_execute`: all opcodes but the two;
* `TakesAt.execute_of_tooLarge`, `TakesAt.cases_of_underflow`: the two;
* `Opcode.underflow_leaves_stacks`: every opcode in every state.
-/

namespace CoinScript

/-- The main stack, the alternate stack and the open branches. -/
def State.allStacks (s : State) : List Bytes × List Bytes × List Bool :=
  (s.stack, s.alt, s.conditions)

/-- An underflow among the errors `e` comes up with the stacks of `s` in place, and they hold fewer
items than it asks for. -/
def State.TooLow (s : State) (e : Error) (t : State) : Prop :=
  ∀ required, e = .stackUnderflow required → t.allStacks = s.allStacks ∧ s.stack.length < required

theorem State.tooLow_of_kind {s t : State} {e : Error} (h : e.kind ≠ .stackUnderflow) :
    s.TooLow e t := by
  rintro required rfl
  exact absurd rfl h

/-- The signature checker reports no underflow of its own. -/
def Env.QuietChecker (env : Env) : Prop :=
  ∀ digest signature key required,
    env.checker digest signature key env.flags ≠ .error (.stackUnderflow required)

/-- A depth lies on top of the stack, with other items below it, and the items below it are so few
that there is none at this depth. -/
structure State.DepthTooLarge (s : State) (operand : Bytes) (below : List Bytes) (n : Nat) :
    Prop where
  stack : s.stack = operand :: below
  some : below ≠ []
  decode : Number.decode maxNumberSize operand = .ok (n : Int)
  few : below.length ≤ n

/-! ## Errors of checks -/

theorem Number.kind_of_decode {limit : Nat} {item : Bytes} {e : Error}
    (h : decode limit item = .error e) : e.kind ≠ .stackUnderflow := by
  unfold decode at h
  split at h
  · cases h
    nofun
  · cases h

theorem Spend.kind_of_checkLockTime {spend : Spend} {time : Option UInt32} {n : Int} {e : Error}
    (h : spend.checkLockTime time n = .error e) : e.kind ≠ .stackUnderflow := by
  unfold checkLockTime at h
  dsimp only at h
  repeat' split at h
  all_goals cases h
  all_goals nofun

theorem Spend.kind_of_checkSequence {spend : Spend} {n : Int} {e : Error}
    (h : spend.checkSequence n = .error e) : e.kind ≠ .stackUnderflow := by
  unfold checkSequence at h
  dsimp only at h
  repeat' split at h
  all_goals cases h
  all_goals nofun

namespace SignatureEncoding

theorem kind_of_checkSignature {flags : Flags} {sig : Bytes} {e : Error}
    (h : checkSignature flags sig = .error e) : e.kind ≠ .stackUnderflow := by
  unfold checkSignature at h
  repeat' split at h
  all_goals cases h
  all_goals nofun

theorem kind_of_checkPublicKey {flags : Flags} {key : Bytes} {e : Error}
    (h : checkPublicKey flags key = .error e) : e.kind ≠ .stackUnderflow := by
  unfold checkPublicKey at h
  split at h
  · cases h
    nofun
  · cases h

end SignatureEncoding

namespace Exec

variable {α β : Type}

/-- Underflows that the step reports leave the stacks as the step found them. -/
def Intact (x : Exec α) : Prop :=
  ∀ s, Ends (fun _ _ => True) s.TooLow (x s)

/-- On a stack of at least `count` items the step reports no underflow. -/
def Supplied (count : Nat) (x : Exec α) : Prop :=
  ∀ s, count ≤ s.stack.length → Ends (fun _ _ => True) (fun e _ => e.kind ≠ .stackUnderflow) (x s)

/-! ## Steps that have their operands -/

namespace Supplied

variable {count : Nat}

theorem pure (a : α) : Supplied count (pure a : Exec α) :=
  fun _ _ => trivial

theorem throw {e : Error} (h : e.kind ≠ .stackUnderflow) : Supplied count (throw e : Exec α) :=
  fun _ _ => h

theorem lift {r : Except Error α} (h : ∀ e, r = .error e → e.kind ≠ .stackUnderflow) :
    Supplied count (lift r) := by
  cases r with
  | ok a => exact pure a
  | error e => exact throw (h e rfl)

theorem modify (f : State → State) : Supplied count (modify f : Exec Unit) :=
  fun _ _ => trivial

theorem ite {c : Prop} [Decidable c] {x y : Exec α} (hx : Supplied count x)
    (hy : Supplied count y) : Supplied count (if c then x else y) := by
  split
  · exact hx
  · exact hy

theorem get_bind {f : State → Exec α} (h : ∀ s, Supplied count (f s)) :
    Supplied count (get >>= f) :=
  fun s enough => h s s enough

theorem bind {x : Exec α} {f : α → Exec β} (hx : Supplied count x)
    (hf : ∀ a, Supplied 0 (f a)) : Supplied count (x >>= f) :=
  fun s enough => (hx s enough).bind fun a t _ => hf a t (Nat.zero_le _)

/-- Taking an item off needs one more. -/
theorem pop {f : Bytes → Exec α} (h : ∀ item, Supplied count (f item)) :
    Supplied (count + 1) (pop >>= f) := by
  intro s enough
  obtain ⟨item, rest, hs⟩ := List.exists_cons_of_length_pos (Nat.zero_lt_of_lt enough)
  rw [hs, List.length_cons] at enough
  rw [bind_of_ok (pop_ok_iff.mpr ⟨rest, hs, rfl⟩)]
  exact h item _ (Nat.le_of_succ_le_succ enough)

theorem popNumber {limit : Nat} {f : Int → Exec α} (h : ∀ n, Supplied count (f n)) :
    Supplied (count + 1) (popNumber limit >>= f) := by
  rw [Exec.popNumber, bind_assoc]
  refine pop fun item s enough => ?_
  cases hdecode : Number.decode limit item with
  | error e => exact Number.kind_of_decode hdecode
  | ok n => exact h n s enough

end Supplied

/-! ## Rules that ask first -/

namespace Intact

theorem of_supplied {x : Exec α} (h : Supplied 0 x) : Intact x :=
  fun s => (h s (Nat.zero_le _)).mono (fun _ _ => id) fun _ _ => State.tooLow_of_kind

theorem ite {c : Prop} [Decidable c] {x y : Exec α} (hx : Intact x) (hy : Intact y) :
    Intact (if c then x else y) := by
  split
  · exact hx
  · exact hy

theorem get_bind {f : State → Exec α} (h : ∀ s, Intact (f s)) : Intact (get >>= f) :=
  fun s => h s s

/-- A rule that asks for its operands before it takes them off. -/
theorem need {count : Nat} {f : Unit → Exec α} (h : Supplied count (f ())) :
    Intact (need count >>= f) := by
  intro s
  by_cases few : s.stack.length < count
  · have failed : Exec.need count s = .error (.stackUnderflow count) s := if_pos few
    rw [bind_of_error failed]
    rintro required ⟨⟩
    exact ⟨rfl, few⟩
  · have enough := Nat.le_of_not_lt few
    rw [bind_of_ok (need_ok_iff.mpr ⟨enough, rfl⟩)]
    exact (h s enough).mono (fun _ _ => id) fun _ _ => State.tooLow_of_kind

/-- What comes behind a step may ask again, as long as the stacks are still the same. -/
theorem bind {x : Exec α} {f : α → Exec β} (hx : Intact x) (kept : Preserves State.allStacks x)
    (hf : ∀ a, Intact (f a)) : Intact (x >>= f) := by
  intro s
  have intact := hx s
  have same := kept s
  cases hresult : x s with
  | error e t =>
    rw [bind_of_error hresult]
    rwa [hresult] at intact
  | ok a t =>
    rw [bind_of_ok hresult]
    rw [hresult] at same
    have same : t.allStacks = s.allStacks := same
    have stack : t.stack = s.stack := congrArg Prod.fst same
    refine (hf a t).mono (fun _ _ => id) fun e u low required he => ?_
    obtain ⟨unchanged, few⟩ := low required he
    exact ⟨unchanged.trans same, stack ▸ few⟩

/-- Nothing is asked for any more behind the step. -/
theorem followed {x : Exec α} {f : α → Exec β} (hx : Intact x) (hf : ∀ a, Supplied 0 (f a)) :
    Intact (x >>= f) :=
  fun s => (hx s).bind fun a t _ =>
    (hf a t (Nat.zero_le _)).mono (fun _ _ => id) fun _ _ => State.tooLow_of_kind

end Intact

/-! ## Primitive steps -/

theorem intact_need (count : Nat) : Intact (need count) := by
  have ended : Intact (need count >>= fun _ => pure ()) := .need (.pure ())
  rwa [bind_pure] at ended

theorem intact_itemAt (depth : Nat) : Intact (itemAt depth) := by
  intro s
  unfold itemAt
  cases hs : s.stack[depth]? with
  | some item => exact trivial
  | none =>
    rintro required ⟨⟩
    exact ⟨rfl, Nat.lt_succ_of_le (List.getElem?_eq_none_iff.mp hs)⟩

theorem lt_of_depthOf {height required : Nat} {index : Int}
    (h : depthOf height index = .error (.stackUnderflow required)) : height < required := by
  unfold depthOf at h
  split at h
  all_goals
    split at h
    · cases h
    · next outside =>
      cases h
      exact Nat.lt_succ_of_le (Nat.le_of_not_lt outside)

theorem intact_peekNumber (index : Int) (limit : Nat) : Intact (peekNumber index limit) := by
  have located (s : State) : Ends (fun _ t => t = s) s.TooLow
      (lift (depthOf s.stack.length index) s) := by
    cases hdepth : depthOf s.stack.length index with
    | ok depth => rfl
    | error e =>
      rintro required rfl
      exact ⟨rfl, lt_of_depthOf hdepth⟩
  have peeked : Intact (peek index) := by
    intro s
    refine Ends.bind (Q := fun _ t => t = s) (x := lift _) (located s) fun depth t ht => ?_
    rw [ht]
    exact intact_itemAt depth s
  exact peeked.followed fun item => .lift fun _ => Number.kind_of_decode

theorem preserves_countOperations (count : Nat) :
    Preserves State.allStacks (countOperations count) := by
  intro s
  unfold countOperations
  dsimp only
  split <;> rfl

theorem intact_countOperations (count : Nat) : Intact (countOperations count) := by
  refine .of_supplied fun s _ => ?_
  unfold countOperations
  dsimp only
  split
  · exact nofun
  · exact trivial

theorem supplied_popAlt : Supplied 0 popAlt := by
  intro s _
  unfold popAlt
  split
  · exact nofun
  · exact trivial

theorem supplied_flipBranch : Supplied 0 flipBranch := by
  intro s _
  unfold flipBranch
  split
  · exact nofun
  · exact trivial

theorem supplied_closeBranch : Supplied 0 closeBranch := by
  intro s _
  unfold closeBranch
  split
  · exact nofun
  · exact trivial

theorem supplied_itemAt_top {f : Bytes → Exec α} (h : ∀ item, Supplied 0 (f item)) :
    Supplied 1 (itemAt 0 >>= f) := by
  intro s enough
  rw [bind_of_ok (itemAt_ok_iff.mpr ⟨List.getElem?_eq_getElem enough, rfl⟩)]
  exact h _ s (Nat.zero_le _)

theorem supplied_spend (env : Env) : Supplied 0 (spend env) := by
  unfold spend
  cases env.spend with
  | some spend => exact .pure spend
  | none => exact .throw nofun

theorem intact_shuffle (op : ShuffleOp) : Intact op.execute := by
  intro s
  by_cases few : s.stack.length < op.height
  · rw [ShuffleOp.execute_underflow few]
    rintro required ⟨⟩
    exact ⟨rfl, few⟩
  · obtain ⟨base, xs, hlength, hs⟩ := State.exists_withItems (Nat.le_of_not_lt few)
    obtain ⟨f, rfl⟩ := exists_eq_ofFn hlength
    rw [hs, op.execute_withItems]
    exact trivial

/-! ## Signatures -/

variable {env : Env}

/-- Whether a signature is checked at all is decided before the checker is asked. -/
theorem kind_of_signatureAnswer (quiet : env.QuietChecker) {signature key : Bytes} {code : Script}
    {e : Error} (h : env.signatureAnswer signature key code = .error e) :
    e.kind ≠ .stackUnderflow := by
  unfold Env.signatureAnswer at h
  cases hsignature : SignatureEncoding.checkSignature env.flags signature with
  | error e' =>
    rw [hsignature] at h
    cases h
    exact SignatureEncoding.kind_of_checkSignature hsignature
  | ok _ =>
    cases hkey : SignatureEncoding.checkPublicKey env.flags key with
    | error e' =>
      rw [hsignature, hkey] at h
      cases h
      exact SignatureEncoding.kind_of_checkPublicKey hkey
    | ok _ =>
      rw [hsignature, hkey] at h
      cases hlast : signature.getLast? with
      | none =>
        rw [hlast] at h
        cases h
      | some hashType =>
        cases hspend : env.spend with
        | none =>
          rw [hlast, hspend] at h
          cases h
          nofun
        | some spend =>
          rw [hlast, hspend] at h
          cases e with
          | stackUnderflow required => exact absurd h (quiet _ _ _ required)
          | _ => nofun

theorem supplied_checkSignature (quiet : env.QuietChecker) (signature key : Bytes)
    (code : Script) : Supplied 0 (checkSignature env signature key code) := by
  intro s enough
  obtain ⟨calls, h⟩ := checkSignature_eq env signature key code s
  rw [h]
  exact Supplied.lift (fun _ => kind_of_signatureAnswer quiet) { s with calls := calls } enough

theorem supplied_matchKeys (quiet : env.QuietChecker) {code : Script}
    (signatures keys : List Bytes) :
    Supplied 0 (matchKeys (fun signature key => checkSignature env signature key code)
      signatures keys) := by
  fun_induction matchKeys (fun signature key => checkSignature env signature key code)
    signatures keys with
  | case1 => exact .pure _
  | case2 => exact .pure _
  | case3 => exact .pure _
  | case4 signature signatures key keys enough found passed =>
    refine (supplied_checkSignature quiet signature key code).bind fun answer => ?_
    cases answer with
    | true => exact found
    | false => exact passed

theorem intact_checkSingle (quiet : env.QuietChecker) : Intact (checkSingle env) :=
  .need (.pop fun key => .pop fun signature => .get_bind fun _ =>
    supplied_checkSignature quiet signature key _)

/-- A number of operands on the stack, which has to be allowed. -/
theorem supplied_operandCount (n : Int) (limit : Nat) (cause : Malformation) :
    Supplied 0 (do
      if n < 0 ∨ n > limit then throw (.structural cause)
      return n.toNat) :=
  .ite (.bind (.throw nofun) fun _ => .pure _) (.pure _)

theorem intact_keyCount : Intact keyCount :=
  (intact_need 1).bind (.need 1) fun _ =>
    (intact_peekNumber _ _).followed fun n => supplied_operandCount n maxMultisigKeys _

theorem intact_signatureCount (keys : Nat) : Intact (signatureCount keys) :=
  (intact_need _).bind (.need _) fun _ =>
    (intact_peekNumber _ _).followed fun n => supplied_operandCount n keys _

/-- The operands of a multisignature check are asked for three times, and before the last time
nothing is taken off. -/
theorem intact_checkMultisig (quiet : env.QuietChecker) : Intact (checkMultisig env) := by
  have unrecorded (s : State) (calls : List Call) :
      State.allStacks { s with calls := calls } = s.allStacks := rfl
  rw [checkMultisig_counts]
  refine intact_keyCount.bind .keyCount fun keys =>
    (intact_countOperations keys).bind (preserves_countOperations keys) fun _ =>
    (intact_signatureCount keys).bind (.signatureCount keys) fun signatures =>
    (intact_need _).bind (.need _) fun _ => .get_bind fun st =>
    (Intact.of_supplied (supplied_matchKeys quiet _ _)).bind (.matchKeys env unrecorded _ _)
      fun success => (intact_itemAt _).followed fun dummy => .bind (.modify _) fun _ => ?_
  exact .ite (.bind (.throw nofun) fun _ => .pure success) (.pure success)

theorem supplied_settle (op : SignatureOp) (push outcome : Bool) :
    Supplied 0 (settle op push outcome) :=
  .ite (.modify _) (.ite (.pure ()) (.throw nofun))

/-! ## Rules of the families -/

theorem intact_pushOp (op : PushOp) : Intact op.execute := by
  cases op with
  | smallInt n => exact .of_supplied (.modify _)
  | oneNegate => exact .of_supplied (.modify _)
  | payload1 => exact .of_supplied (.throw nofun)
  | payload2 => exact .of_supplied (.throw nofun)
  | payload4 => exact .of_supplied (.throw nofun)

theorem intact_branchTaken (wanted : Bool) : Intact (branchTaken wanted) :=
  .get_bind fun _ => .ite (.need (.pop fun _ => .pure _)) (.of_supplied (.pure _))

theorem intact_flowOp (op : FlowOp) : Intact op.execute := by
  cases op with
  | ifTrue => exact (intact_branchTaken true).followed fun _ => .modify _
  | ifFalse => exact (intact_branchTaken false).followed fun _ => .modify _
  | orElse => exact .of_supplied supplied_flipBranch
  | endIf => exact .of_supplied supplied_closeBranch
  | verify => exact .need (.pop fun _ => .ite (.throw nofun) (.pure ()))
  | giveUp => exact .of_supplied (.throw nofun)

/-- The stack opcodes but the two that take an item from a depth. -/
theorem intact_stackOp {op : StackOp} (noDepth : op ≠ .pick ∧ op ≠ .roll) : Intact op.execute := by
  cases op with
  | toAlt => exact .need (.pop fun _ => .modify _)
  | fromAlt => exact .of_supplied (supplied_popAlt.bind fun _ => .modify _)
  | shuffle op => exact intact_shuffle op
  | ifDup => exact .need (supplied_itemAt_top fun _ => .ite (.modify _) (.pure ()))
  | depth => exact .of_supplied (.get_bind fun _ => .modify _)
  | pick => exact absurd rfl noDepth.1
  | roll => exact absurd rfl noDepth.2

theorem intact_popEqual : Intact popEqual :=
  .need (.pop fun _ => .pop fun _ => .pure _)

theorem intact_arithmeticOp (op : ArithmeticOp) : Intact op.execute := by
  cases op with
  | unary op => exact .need (.popNumber fun _ => .modify _)
  | binary op => exact .need (.popNumber fun _ => .popNumber fun _ => .modify _)
  | equalVerify =>
    exact .need (.popNumber fun _ => .popNumber fun _ => .ite (.throw nofun) (.pure ()))
  | within => exact .need (.popNumber fun _ => .popNumber fun _ => .popNumber fun _ => .modify _)

theorem intact_signatureOp (quiet : env.QuietChecker) (op : SignatureOp) :
    Intact (op.execute env) := by
  cases op with
  | codeSeparator => exact .of_supplied (.modify _)
  | checkSig => exact (intact_checkSingle quiet).followed fun _ => supplied_settle _ _ _
  | checkSigVerify => exact (intact_checkSingle quiet).followed fun _ => supplied_settle _ _ _
  | checkMultisig => exact (intact_checkMultisig quiet).followed fun _ => supplied_settle _ _ _
  | checkMultisigVerify =>
    exact (intact_checkMultisig quiet).followed fun _ => supplied_settle _ _ _

theorem intact_lockTimeOp (env : Env) (op : LockTimeOp) : Intact (op.execute env) := by
  unfold LockTimeOp.execute
  refine .ite ((intact_need 1).bind (.need 1) fun _ =>
    (intact_peekNumber _ _).followed fun value => .ite (.throw nofun) ?_) (.of_supplied (.pure ()))
  cases op with
  | absolute => exact (supplied_spend env).bind fun _ => .lift fun _ => Spend.kind_of_checkLockTime
  | relative =>
    exact .ite (.pure ())
      ((supplied_spend env).bind fun _ => .lift fun _ => Spend.kind_of_checkSequence)

/-- Every opcode but the two that take an item from a depth. -/
theorem intact_execute (quiet : env.QuietChecker) {op : Opcode}
    (noDepth : op ≠ .stack .pick ∧ op ≠ .stack .roll) : Intact (op.execute env) := by
  cases op with
  | push op => exact intact_pushOp op
  | flow op => exact intact_flowOp op
  | stack op =>
    exact intact_stackOp ⟨fun h => noDepth.1 (congrArg _ h), fun h => noDepth.2 (congrArg _ h)⟩
  | size => exact .need (supplied_itemAt_top fun _ => .modify _)
  | equal => exact intact_popEqual.followed fun _ => .modify _
  | equalVerify => exact intact_popEqual.followed fun _ => .ite (.throw nofun) (.pure ())
  | arithmetic op => exact intact_arithmeticOp op
  | hash op => exact .need (.pop fun _ => .modify _)
  | signature op => exact intact_signatureOp quiet op
  | lockTime op => exact intact_lockTimeOp env op
  | noOp op => exact .of_supplied (.pure ())
  | disabled op => exact .of_supplied (.throw nofun)
  | reserved op => exact .of_supplied (.throw nofun)

/-! ## Depths on the stack -/

/-- The step takes the item at a depth, or reports that there is none. -/
structure TakesAt (take : Nat → Exec Bytes) : Prop where
  outside : ∀ n s, s.stack.length ≤ n → take n s = .error (.stackUnderflow (n + 1)) s
  inside : ∀ n s, n < s.stack.length → ∃ item t, take n s = .ok item t

theorem takesAt_itemAt : TakesAt itemAt where
  outside n s few := by
    unfold itemAt
    rw [List.getElem?_eq_none few]
  inside n s enough := ⟨_, s, itemAt_ok_iff.mpr ⟨List.getElem?_eq_getElem enough, rfl⟩⟩

theorem takesAt_removeAt : TakesAt removeAt where
  outside n s few := by
    unfold removeAt
    rw [List.getElem?_eq_none few]
  inside n s enough := by
    unfold removeAt
    rw [List.getElem?_eq_getElem enough]
    exact ⟨_, _, rfl⟩

/-- The two opcodes with a depth on the stack differ in how they take the item. -/
theorem exists_takesAt {op : Opcode} (h : op = .stack .pick ∨ op = .stack .roll) (env : Env) :
    ∃ take, TakesAt take ∧ op.execute env = (depthOperand op >>= fun n => take n >>= push) := by
  rcases h with rfl | rfl
  · exact ⟨itemAt, takesAt_itemAt, rfl⟩
  · exact ⟨removeAt, takesAt_removeAt, rfl⟩

namespace TakesAt

variable {take : Nat → Exec Bytes} (h : TakesAt take) (op : Opcode)
include h

/-- A depth that is too large is gone when this comes out. -/
theorem execute_of_tooLarge {s : State} {operand : Bytes} {below : List Bytes} {n : Nat}
    (deep : s.DepthTooLarge operand below n) :
    (depthOperand op >>= fun n => take n >>= push) s =
      .error (.stackUnderflow (n + 1)) { s with stack := below } := by
  have enough : 2 ≤ s.stack.length := by
    rw [deep.stack, List.length_cons]
    exact Nat.succ_le_succ (List.length_pos_iff.mpr deep.some)
  have hpop : popNumber maxNumberSize s = .ok (n : Int) { s with stack := below } := by
    rw [popNumber, bind_of_ok (pop_ok_iff.mpr ⟨below, deep.stack, rfl⟩), deep.decode]
    rfl
  rw [Guarded.depthOperand_bind, bind_of_ok (need_ok_iff.mpr ⟨enough, rfl⟩), bind_of_ok hpop,
    if_neg (Int.not_lt.mpr (Int.natCast_nonneg n)), Int.toNat_natCast]
  exact bind_of_error (h.outside n _ deep.few)

/-- The ways in which an underflow comes up: without two items on the stack, which stay there, and
with a depth that is too large. -/
theorem cases_of_underflow {s t : State} {required : Nat}
    (failed : (depthOperand op >>= fun n => take n >>= push) s =
      .error (.stackUnderflow required) t) :
    (t = s ∧ s.stack.length < required) ∨
      ∃ operand below n, s.DepthTooLarge operand below n ∧ t = { s with stack := below } ∧
        required = n + 1 := by
  rw [Guarded.depthOperand_bind] at failed
  by_cases few : s.stack.length < 2
  · have missing : need 2 s = .error (.stackUnderflow 2) s := if_pos few
    rw [bind_of_error missing] at failed
    cases failed
    exact .inl ⟨rfl, few⟩
  · refine .inr ?_
    have enough := Nat.le_of_not_lt few
    obtain ⟨operand, below, hs⟩ := List.exists_cons_of_length_pos (Nat.zero_lt_of_lt enough)
    have some : below ≠ [] := by
      rintro rfl
      simp [hs] at enough
    rw [bind_of_ok (need_ok_iff.mpr ⟨enough, rfl⟩), popNumber, bind_assoc,
      bind_of_ok (pop_ok_iff.mpr ⟨below, hs, rfl⟩)] at failed
    cases hdecode : Number.decode maxNumberSize operand with
    | error e =>
      rw [hdecode] at failed
      cases failed
      exact absurd rfl (Number.kind_of_decode hdecode)
    | ok v =>
      rw [hdecode] at failed
      replace failed : (if v < 0 then throw (.structural (.negativeDepth op))
          else take v.toNat >>= push : Exec Unit) { s with stack := below } =
        .error (.stackUnderflow required) t := failed
      split at failed
      · cases failed
      next nonnegative =>
      obtain ⟨n, rfl⟩ := Int.eq_ofNat_of_zero_le (Int.not_lt.mp nonnegative)
      rw [Int.toNat_natCast] at failed
      rcases Nat.lt_or_ge n below.length with inside | outside
      · obtain ⟨item, u, taken⟩ := h.inside n { s with stack := below } inside
        rw [bind_of_ok taken] at failed
        cases failed
      · rw [bind_of_error (h.outside n { s with stack := below } outside)] at failed
        cases failed
        exact ⟨operand, below, n, ⟨hs, some, hdecode, outside⟩, rfl, rfl⟩

end TakesAt

end Exec

/-! ## All opcodes -/

open Exec in
/-- An opcode that reports an underflow has left the three stacks as they were, and asks for more
items than there are. The exception are the two opcodes with a depth on the stack: if on two items
or more the depth is too large, then it has been taken off, nothing else has happened, and what is
asked for is the item at this depth, which the rest of the stack does not have. -/
theorem Opcode.underflow_leaves_stacks {env : Env} (quiet : env.QuietChecker) (op : Opcode)
    (s : State) :
    (∀ required t, op.execute env s = .error (.stackUnderflow required) t →
      (t.stack = s.stack ∧ t.alt = s.alt ∧ t.conditions = s.conditions ∧
        s.stack.length < required) ∨
      ((op = .stack .pick ∨ op = .stack .roll) ∧ ∃ operand below n,
        s.DepthTooLarge operand below n ∧ t = { s with stack := below } ∧ required = n + 1 ∧
          t.stack.length < required)) ∧
    (op = .stack .pick ∨ op = .stack .roll → ∀ operand below n,
      s.DepthTooLarge operand below n →
        op.execute env s = .error (.stackUnderflow (n + 1)) { s with stack := below }) := by
  by_cases depth : op = .stack .pick ∨ op = .stack .roll
  · obtain ⟨take, takes, rule⟩ := exists_takesAt depth env
    rw [rule]
    refine ⟨fun required t failed => ?_, fun _ _ _ _ deep => takes.execute_of_tooLarge op deep⟩
    rcases takes.cases_of_underflow op failed with ⟨rfl, few⟩ | ⟨operand, below, n, deep, rfl, rfl⟩
    · exact .inl ⟨rfl, rfl, rfl, few⟩
    · exact .inr ⟨depth, operand, below, n, deep, rfl, rfl, Nat.lt_succ_of_le deep.few⟩
  · refine ⟨fun required t failed => .inl ?_, fun h => absurd h depth⟩
    have intact := intact_execute quiet (not_or.mp depth) s
    rw [failed] at intact
    obtain ⟨same, few⟩ := intact required rfl
    obtain ⟨stack, alt, conditions⟩ : t.stack = s.stack ∧ t.alt = s.alt ∧
        t.conditions = s.conditions := by simpa [State.allStacks] using same
    exact ⟨stack, alt, conditions, few⟩

/-- A check of signatures that counts two keys needs four items and leaves the two that are there. A
depth of five is taken off, and the two items below it stay. -/
theorem Opcode.underflow_leaves_stacks_twice :
    let env : Env := {}
    let low : State := { stack := [[2], [9]], alt := [[1]], conditions := [true] }
    let deep : State := { stack := [[5], [7], [8]], alt := [[1]], conditions := [true] }
    env.QuietChecker ∧
      (∃ t, execute env (.signature .checkMultisig) low = .error (.stackUnderflow 4) t ∧
        t.stack = low.stack ∧ t.alt = low.alt ∧ t.conditions = low.conditions) ∧
      deep.DepthTooLarge [5] [[7], [8]] 5 ∧
      execute env (.stack .roll) deep =
        .error (.stackUnderflow 6) { deep with stack := [[7], [8]] } := by
  intro env low deep
  have quiet : env.QuietChecker := nofun
  have tooLarge : deep.DepthTooLarge [5] [[7], [8]] 5 := ⟨rfl, by decide, rfl, by decide⟩
  refine ⟨quiet, ?_, tooLarge, ?_⟩
  · have failed : execute env (.signature .checkMultisig) low =
        .error (.stackUnderflow 4) { low with operations := 2 } := rfl
    obtain ⟨stack, alt, conditions, -⟩ | ⟨depth, -⟩ :=
      (underflow_leaves_stacks quiet (.signature .checkMultisig) low).1 4 _ failed
    · exact ⟨_, failed, stack, alt, conditions⟩
    · exact absurd depth (by decide)
  · exact (underflow_leaves_stacks quiet (.stack .roll) deep).2 (.inr rfl) _ _ _ tooLarge

end CoinScript
