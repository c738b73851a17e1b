import CoinScript.Proofs.Authorization
import CoinScript.Proofs.Branches
import CoinScript.Proofs.Numerals
/-!
# Tracing a script

The scripts of templates use the main stack, branches and nothing else, so a place in a run of
such a script is given by the instructions that are left, the open branches, the operations
counted so far and the main stack. `Reaches` says that the run succeeds from there and which stack
it leaves. Every lemma takes some instructions off the front, both ways, so that a chain of them
describes a whole script without a look at its runs.

* `reaches_pushes`, `reaches_act`, `reaches_checkSig`: executed instructions;
* `reaches_ifTrue`, `reaches_orElse`, `reaches_endIf`, `reaches_skipped`: branches;
* `reaches_identify`, `reaches_settle`, `reaches_reveal`, `reaches_gate`: pieces of templates;
* `satisfies_iff_reaches`: a whole script;
* `run_pushes`: a script of pushes.
-/

namespace CoinScript

/-! ## Answers about signatures -/

/-- What the check of a signature with its hash type against a key answers. -/
def Env.signatureAnswer (env : Env) (signature key : Bytes) (code : Script) :
    Except Error Bool := do
  SignatureEncoding.checkSignature env.flags signature
  SignatureEncoding.checkPublicKey env.flags key
  match signature.getLast? with
  | none => .ok false
  | some hashType =>
    match env.spend with
    | none => .error (.invalidInput .noTransaction)
    | some spend =>
      env.checker (spend.signatureHash code hashType.toUInt32) signature.dropLast key env.flags

/-- Where the encoding rules pass, the checker answers. -/
theorem Env.signatureAnswer_concat {env : Env} {spend : Spend} {der key : Bytes} {hashType : UInt8}
    (bound : env.spend = some spend)
    (hsignature : SignatureEncoding.checkSignature env.flags (der ++ [hashType]) = .ok ())
    (hkey : SignatureEncoding.checkPublicKey env.flags key = .ok ()) (code : Script) :
    env.signatureAnswer (der ++ [hashType]) key code =
      env.checker (spend.signatureHash code hashType.toUInt32) der key env.flags := by
  unfold signatureAnswer
  rw [hsignature, hkey, List.getLast?_concat, List.dropLast_concat, bound]
  rfl

namespace Exec

/-- The check of a signature records its question, and nothing else comes of it but the answer. -/
theorem checkSignature_eq (env : Env) (signature key : Bytes) (code : Script) (s : State) :
    ∃ calls, checkSignature env signature key code s =
      lift (env.signatureAnswer signature key code) { s with calls := calls } := by
  unfold checkSignature Env.signatureAnswer
  cases SignatureEncoding.checkSignature env.flags signature with
  | error e => exact ⟨s.calls, rfl⟩
  | ok _ =>
    cases SignatureEncoding.checkPublicKey env.flags key with
    | error e => exact ⟨s.calls, rfl⟩
    | ok _ =>
      cases signature.getLast? with
      | none => exact ⟨s.calls, rfl⟩
      | some hashType =>
        unfold Exec.spend
        cases env.spend with
        | none => exact ⟨s.calls, rfl⟩
        | some spend => exact ⟨_ :: s.calls, rfl⟩

theorem checkSignature_ok_iff {env : Env} {signature key : Bytes} {code : Script} {s : State}
    {answer : Bool} :
    (∃ s', checkSignature env signature key code s = .ok answer s') ↔
      env.signatureAnswer signature key code = .ok answer := by
  obtain ⟨calls, h⟩ := checkSignature_eq env signature key code s
  rw [h]
  constructor
  · rintro ⟨s', hlift⟩
    exact (lift_ok_iff.mp hlift).1
  · intro hanswer
    exact ⟨_, lift_ok_iff.mpr ⟨hanswer, rfl⟩⟩

/-- One signature is checked against one key: both are taken from the stack, and the rest is the
check itself. -/
theorem checkSingle_ok_iff {env : Env} {s s' : State} {answer : Bool} :
    checkSingle env s = .ok answer s' ↔ ∃ key signature rest, s.stack = key :: signature :: rest ∧
      checkSignature env signature key (s.scriptCode.deletePush signature)
        { s with stack := rest } = .ok answer s' := by
  unfold checkSingle
  constructor
  · intro h
    obtain ⟨_, _, hneed, h₁⟩ := bind_ok_iff.mp h
    obtain ⟨_, rfl⟩ := need_ok_iff.mp hneed
    obtain ⟨key, _, hpop, h₂⟩ := bind_ok_iff.mp h₁
    obtain ⟨below, hs, rfl⟩ := pop_ok_iff.mp hpop
    obtain ⟨signature, _, hpop', h₃⟩ := bind_ok_iff.mp h₂
    obtain ⟨rest, hs', rfl⟩ := pop_ok_iff.mp hpop'
    obtain rfl : below = signature :: rest := hs'
    exact ⟨key, signature, rest, hs, h₃⟩
  · rintro ⟨key, signature, rest, hs, hcheck⟩
    exact bind_ok_iff.mpr ⟨(), s, need_ok_iff.mpr ⟨by simp [hs], rfl⟩,
      bind_ok_iff.mpr ⟨key, _, pop_ok_iff.mpr ⟨_, hs, rfl⟩,
        bind_ok_iff.mpr ⟨signature, _, pop_ok_iff.mpr ⟨rest, rfl, rfl⟩, hcheck⟩⟩⟩

end Exec

/-! ## Places in a run -/

/-- The environment without a log of its instructions. -/
def Env.quiet (env : Env) : Env :=
  { env with verbose := false }

/-- A run of a script in front of the instruction at `index`. -/
def State.midway (script : Script) (index : Nat) (conditions : List Bool) (operations : Nat)
    (stack : List Bytes) : State :=
  { stack := stack
    conditions := conditions
    script := script
    position := index - 1
    operations := operations }

namespace Exec

/-- From this place on, the row succeeds, closes all branches and leaves a main stack with `Q`. -/
def Reaches (env : Env) (script : Script) (index : Nat) (row : List Instruction)
    (conditions : List Bool) (operations : Nat) (stack : List Bytes) (Q : List Bytes → Prop) :
    Prop :=
  ∃ s, steps env.quiet index row (.midway script index conditions operations stack) = .ok () s ∧
    s.conditions = [] ∧ Q s.stack

section Reaches

variable {env : Env} {script : Script} {index : Nat} {row : List Instruction} {outer : List Bool}
  {operations : Nat} {stack : List Bytes} {Q : List Bytes → Prop}

/-- What the next instruction can do says what the rest has to do. -/
theorem reaches_cons_iff {α : Type} {i : Instruction} {P : α → Prop} {conditions : α → List Bool}
    {count : α → Nat} {next : α → List Bytes}
    (h : ∀ s, step env.quiet index i (.midway script index outer operations stack) = .ok () s ↔
      ∃ a, P a ∧ s = .midway script (index + 1) (conditions a) (count a) (next a)) :
    Reaches env script index (i :: row) outer operations stack Q ↔
      ∃ a, P a ∧ Reaches env script (index + 1) row (conditions a) (count a) (next a) Q := by
  constructor
  · rintro ⟨s, hsteps, hs⟩
    obtain ⟨s₁, hstep, hrest⟩ := steps_cons_ok_iff.mp hsteps
    obtain ⟨a, ha, rfl⟩ := (h s₁).mp hstep
    exact ⟨a, ha, s, hrest, hs⟩
  · rintro ⟨a, ha, s, hrest, hs⟩
    exact ⟨s, steps_cons_ok_iff.mpr ⟨_, (h _).mpr ⟨a, ha, rfl⟩, hrest⟩, hs⟩

/-- The same for an instruction that can do one thing only. -/
theorem reaches_cons {i : Instruction} {conditions : List Bool} {count : Nat} {next : List Bytes}
    (h : step env.quiet index i (.midway script index outer operations stack) =
      .ok () (.midway script (index + 1) conditions count next)) :
    Reaches env script index (i :: row) outer operations stack Q ↔
      Reaches env script (index + 1) row conditions count next Q := by
  constructor
  · rintro ⟨s, hsteps, hs⟩
    obtain ⟨s₁, hstep, hrest⟩ := steps_cons_ok_iff.mp hsteps
    cases h.symm.trans hstep
    exact ⟨s, hrest, hs⟩
  · rintro ⟨s, hrest, hs⟩
    exact ⟨s, steps_cons_ok_iff.mpr ⟨_, h, hrest⟩, hs⟩

/-- The last instruction. It may also have asked the checker of signatures. -/
theorem reaches_last {i : Instruction} :
    Reaches env script index [i] outer operations stack Q ↔
      ∃ s, step env.quiet index i (.midway script index outer operations stack) = .ok () s ∧
        s.conditions = [] ∧ Q s.stack := by
  constructor
  · rintro ⟨s, hsteps, hs⟩
    obtain ⟨s₁, hstep, hrest⟩ := steps_cons_ok_iff.mp hsteps
    cases hrest
    exact ⟨s, hstep, hs⟩
  · rintro ⟨s, hstep, hs⟩
    exact ⟨s, steps_cons_ok_iff.mpr ⟨s, hstep, rfl⟩, hs⟩

/-- An instruction without a log: what it does, and the size check behind it. -/
theorem step_quiet_ok_iff {i : Instruction} {s s' : State} :
    step env.quiet index i s = .ok () s' ↔
      apply env.quiet s.executing i { s with position := index } = .ok () s' ∧
        s'.stack.length + s'.alt.length ≤ maxStackSize := by
  rw [step_eq]
  show (apply env.quiet s.executing i >>= fun _ => checkStackSize) { s with position := index } =
    _ ↔ _
  rw [bind_ok_iff]
  constructor
  · rintro ⟨_, s₁, happly, hsize⟩
    obtain ⟨hle, rfl⟩ := checkStackSize_ok_iff.mp hsize
    exact ⟨happly, hle⟩
  · rintro ⟨happly, hle⟩
    exact ⟨(), s', happly, checkStackSize_ok_iff.mpr ⟨hle, rfl⟩⟩

end Reaches

end Exec

/-! ## Pushes -/

/-- What an instruction pushes, if it does nothing else. -/
def Instruction.pushed? : Instruction → Option Bytes
  | .push data => some data
  | .op (.push (.smallInt n)) => some (Number.encode n.val)
  | .op (.push .oneNegate) => some (Number.encode (-1))
  | _ => none

namespace Exec

section Reaches

variable {env : Env} {script : Script} {index : Nat} {row : List Instruction} {outer : List Bool}
  {operations : Nat} {stack : List Bytes} {Q : List Bytes → Prop}

theorem apply_pushed {i : Instruction} {data : Bytes} (h : i.pushed? = some data)
    (short : data.length ≤ maxItemSize) (s : State) :
    apply env true i s = .ok () { s with stack := data :: s.stack } := by
  unfold Instruction.pushed? at h
  split at h
  · cases h
    unfold apply
    dsimp only
    rw [if_neg (Nat.not_lt.mpr short)]
    rfl
  · next n =>
    cases h
    have uncounted : ∀ n : Fin 17, ¬ (Opcode.push (.smallInt n)).code > 0x60 := by decide
    unfold apply
    dsimp only
    rw [if_neg (uncounted n)]
    rfl
  · cases h
    rfl
  · cases h

theorem reaches_pushed {i : Instruction} {data : Bytes} (h : i.pushed? = some data)
    (executing : outer.all id = true) (short : data.length ≤ maxItemSize)
    (room : stack.length < maxStackSize) :
    Reaches env script index (i :: row) outer operations stack Q ↔
      Reaches env script (index + 1) row outer operations (data :: stack) Q := by
  refine reaches_cons (step_quiet_ok_iff.mpr ⟨?_, room⟩)
  rw [show State.executing (.midway script index outer operations stack) = true from executing]
  exact apply_pushed h short _

/-- A row of pushes puts its items on the stack, the last one on top. -/
theorem reaches_pushes {pushes : List Instruction} {items : List Bytes}
    (h : pushes.map Instruction.pushed? = items.map some) (executing : outer.all id = true)
    (short : ∀ item ∈ items, item.length ≤ maxItemSize)
    (room : stack.length + items.length ≤ maxStackSize) :
    Reaches env script index (pushes ++ row) outer operations stack Q ↔
      Reaches env script (index + items.length) row outer operations (items.reverse ++ stack)
        Q := by
  induction items generalizing pushes index stack with
  | nil =>
    rw [List.map_eq_nil_iff.mp h]
    rfl
  | cons item items ih =>
    obtain ⟨i, pushes, rfl, hi, hrest⟩ := List.map_eq_cons_iff.mp h
    rw [List.forall_mem_cons] at short
    rw [List.length_cons] at room
    rw [List.cons_append, reaches_pushed hi executing short.1 (by omega), ih hrest short.2
      (by rw [List.length_cons]; omega), List.reverse_cons, List.append_assoc, List.length_cons,
      Nat.add_right_comm, Nat.add_assoc]
    rfl

/-! ## Opcodes that act on the main stack -/

/-- The rule of an opcode changes the main stack alone, from `stack` to `next` if
`act stack next`. -/
def Acts (env : Env) (op : Opcode) (act : List Bytes → List Bytes → Prop) : Prop :=
  ∀ s s', op.execute env s = .ok () s' ↔ ∃ next, act s.stack next ∧ s' = { s with stack := next }

theorem reaches_act {op : Opcode} {act : List Bytes → List Bytes → Prop}
    (acts : Acts env.quiet op act) (executing : outer.all id = true) (counted : op.code > 0x60)
    (few : operations < maxOperations)
    (room : ∀ next, act stack next → next.length ≤ maxStackSize) :
    Reaches env script index (.op op :: row) outer operations stack Q ↔
      ∃ next, act stack next ∧
        Reaches env script (index + 1) row outer (operations + 1) next Q := by
  refine reaches_cons_iff fun s => ?_
  rw [step_op_ok_iff rfl (by exact executing) counted, acts]
  constructor
  · rintro ⟨_, ⟨next, hact, rfl⟩, _⟩
    exact ⟨next, hact, rfl⟩
  · rintro ⟨next, hact, rfl⟩
    exact ⟨few, ⟨next, hact, rfl⟩, room next hact⟩

/-- The same where there is one stack that the rule can leave. -/
theorem reaches_act_eq {op : Opcode} {act : List Bytes → List Bytes → Prop} {next : List Bytes}
    (acts : Acts env.quiet op act) (only : ∀ other, act stack other ↔ other = next)
    (executing : outer.all id = true) (counted : op.code > 0x60) (few : operations < maxOperations)
    (room : next.length ≤ maxStackSize) :
    Reaches env script index (.op op :: row) outer operations stack Q ↔
      Reaches env script (index + 1) row outer (operations + 1) next Q := by
  rw [reaches_act acts executing counted few fun other h => (only other).mp h ▸ room]
  simp only [only, exists_eq_left]

theorem acts_shuffle (env : Env) (op : ShuffleOp) :
    Acts env (.stack (.shuffle op)) fun stack next => op.shuffle? stack = some next := by
  intro s s'
  show op.execute s = _ ↔ ∃ next, op.shuffle? s.stack = some next ∧ _
  unfold ShuffleOp.execute
  cases op.shuffle? s.stack with
  | none =>
    constructor
    · intro h
      cases h
    · rintro ⟨_, h, _⟩
      cases h
  | some stack =>
    constructor
    · intro h
      cases h
      exact ⟨stack, rfl, rfl⟩
    · rintro ⟨_, h, rfl⟩
      cases h
      rfl

theorem acts_hash (env : Env) (op : HashOp) :
    Acts env (.hash op) fun stack next =>
      ∃ item rest, stack = item :: rest ∧ next = op.digest item :: rest := by
  intro s s'
  show op.execute s = _ ↔ _
  rw [hash_ok_iff]
  constructor
  · rintro ⟨item, rest, hs, rfl⟩
    exact ⟨_, ⟨item, rest, hs, rfl⟩, rfl⟩
  · rintro ⟨_, ⟨item, rest, hs, rfl⟩, rfl⟩
    exact ⟨item, rest, hs, rfl⟩

theorem acts_equalVerify (env : Env) :
    Acts env .equalVerify fun stack next => ∃ item, stack = item :: item :: next := by
  intro s s'
  constructor
  · intro h
    obtain ⟨same, s₁, hpop, h⟩ := bind_ok_iff.mp h
    obtain ⟨b, a, rest, hs, rfl, rfl⟩ := popEqual_ok_iff.mp hpop
    split at h
    · cases h
    · next equal =>
      cases h
      obtain rfl : a = b := by simpa using equal
      exact ⟨rest, ⟨a, hs⟩, rfl⟩
  · rintro ⟨rest, ⟨item, hs⟩, rfl⟩
    refine bind_ok_iff.mpr ⟨true, _, popEqual_ok_iff.mpr ⟨item, item, rest, hs, ?_, rfl⟩, rfl⟩
    rw [beq_self_eq_true]

theorem spend_ok_iff {env : Env} {spend : Spend} (bound : env.spend = some spend) {s s' : State}
    {found : Spend} : Exec.spend env s = .ok found s' ↔ found = spend ∧ s' = s := by
  unfold Exec.spend
  rw [bound]
  constructor
  · intro h
    cases h
    exact ⟨rfl, rfl⟩
  · rintro ⟨rfl, rfl⟩
    rfl

/-- A check of the spend alone. -/
theorem checkSpend_ok_iff {env : Env} {spend : Spend} (bound : env.spend = some spend)
    {check : Spend → Except Error Unit} {s s' : State} :
    (Exec.spend env >>= fun spend => lift (check spend)) s = .ok () s' ↔
      check spend = .ok () ∧ s' = s := by
  constructor
  · intro h
    obtain ⟨found, _, hspend, hlift⟩ := bind_ok_iff.mp h
    obtain ⟨rfl, rfl⟩ := (spend_ok_iff bound).mp hspend
    exact lift_ok_iff.mp hlift
  · rintro ⟨passed, rfl⟩
    exact bind_ok_iff.mpr ⟨spend, _, (spend_ok_iff bound).mpr ⟨rfl, rfl⟩,
      lift_ok_iff.mpr ⟨passed, rfl⟩⟩

theorem checkLockTime_ok_iff {env : Env} {spend : Spend} (bound : env.spend = some spend)
    {lockTime : Int} {s s' : State} :
    checkLockTime env lockTime s = .ok () s' ↔
      spend.checkLockTime env.blockTime lockTime = .ok () ∧ s' = s :=
  checkSpend_ok_iff bound

/-- What the rule of a lock-time opcode asks of its operand. -/
def demand (env : Env) (op : LockTimeOp) (value : Int) : Exec Unit :=
  match op with
  | .absolute => checkLockTime env value
  | .relative => if value.toNat.testBit 31 then pure () else checkSequence env value

/-- With its rule on, a lock-time opcode reads its operand and leaves it where it is. -/
theorem lockTimeOp_ok_iff {env : Env} {op : LockTimeOp} (on : op.isEnabled env.flags = true)
    {s s' : State} : op.execute env s = .ok () s' ↔ ∃ item rest value, s.stack = item :: rest ∧
      Number.decode maxLockTimeSize item = .ok value ∧ 0 ≤ value ∧
      demand env op value s = .ok () s' := by
  unfold LockTimeOp.execute
  rw [if_pos on]
  constructor
  · intro h
    obtain ⟨_, t, hneed, h₁⟩ := bind_ok_iff.mp h
    obtain ⟨high, rfl⟩ := need_ok_iff.mp hneed
    obtain ⟨value, u, hpeek, h₂⟩ := bind_ok_iff.mp h₁
    obtain ⟨item, rest, hs⟩ := List.exists_cons_of_length_pos high
    rw [peekNumber_top hs] at hpeek
    obtain ⟨hdecode, rfl⟩ := lift_ok_iff.mp hpeek
    dsimp only at h₂
    split at h₂
    · cases h₂
    · next nonnegative =>
      exact ⟨item, rest, value, hs, hdecode, Int.not_lt.mp nonnegative, h₂⟩
  · rintro ⟨item, rest, value, hs, hdecode, nonnegative, demanded⟩
    refine bind_ok_iff.mpr ⟨(), s, need_ok_iff.mpr ⟨by simp [hs], rfl⟩,
      bind_ok_iff.mpr ⟨value, s, ?_, ?_⟩⟩
    · rw [peekNumber_top hs]
      exact lift_ok_iff.mpr ⟨hdecode, rfl⟩
    · dsimp only
      rw [if_neg (Int.not_lt.mpr nonnegative)]
      exact demanded

theorem acts_lockTime {env : Env} {spend : Spend} (on : env.flags.checkLockTimeVerify = true)
    (bound : env.spend = some spend) :
    Acts env (.lockTime .absolute) fun stack next => next = stack ∧ ∃ item rest lockTime,
      stack = item :: rest ∧ Number.decode maxLockTimeSize item = .ok lockTime ∧ 0 ≤ lockTime ∧
      spend.checkLockTime env.blockTime lockTime = .ok () := by
  have enabled : LockTimeOp.isEnabled env.flags .absolute = true := on
  intro s s'
  refine (lockTimeOp_ok_iff enabled).trans ?_
  constructor
  · rintro ⟨item, rest, lockTime, hs, hdecode, nonnegative, demanded⟩
    obtain ⟨passed, rfl⟩ := (checkLockTime_ok_iff bound).mp demanded
    exact ⟨_, ⟨rfl, item, rest, lockTime, hs, hdecode, nonnegative, passed⟩, rfl⟩
  · rintro ⟨_, ⟨rfl, item, rest, lockTime, hs, hdecode, nonnegative, passed⟩, rfl⟩
    exact ⟨item, rest, lockTime, hs, hdecode, nonnegative,
      (checkLockTime_ok_iff bound).mpr ⟨passed, rfl⟩⟩

/-! ## Checks of signatures -/

theorem reaches_checkSig (few : operations < maxOperations) (room : stack.length ≤ maxStackSize) :
    Reaches env script index [.op (.signature .checkSig)] [] operations stack Q ↔
      ∃ key signature rest answer, stack = key :: signature :: rest ∧
        env.signatureAnswer signature key (script.deletePush signature) = .ok answer ∧
        Q (Truth.encode answer :: rest) := by
  rw [reaches_last]
  constructor
  · rintro ⟨s, hstep, _, hQ⟩
    obtain ⟨_, hexecute, _⟩ := (step_op_ok_iff rfl rfl (by decide)).mp hstep
    obtain ⟨answer, s₁, hsingle, hpush⟩ := bind_ok_iff.mp hexecute
    obtain ⟨key, signature, rest, hs, hcheck⟩ := checkSingle_ok_iff.mp hsingle
    obtain ⟨calls, heq⟩ := checkSignature_eq env.quiet signature key (script.deletePush signature)
      { State.midway script index [] operations stack with
        position := index, operations := operations + 1, stack := rest }
    obtain ⟨hanswer, rfl⟩ := lift_ok_iff.mp (heq.symm.trans hcheck)
    cases hpush
    exact ⟨key, signature, rest, answer, hs, hanswer, hQ⟩
  · rintro ⟨key, signature, rest, answer, rfl, hanswer, hQ⟩
    obtain ⟨calls, heq⟩ := checkSignature_eq env.quiet signature key (script.deletePush signature)
      { State.midway script index [] operations (key :: signature :: rest) with
        position := index, operations := operations + 1, stack := rest }
    rw [show env.quiet.signatureAnswer signature key (script.deletePush signature) = .ok answer
      from hanswer] at heq
    refine ⟨_, (step_op_ok_iff rfl rfl (by decide)).mpr ⟨few, bind_ok_iff.mpr
      ⟨answer, _, checkSingle_ok_iff.mpr ⟨key, signature, rest, rfl, heq⟩, rfl⟩, ?_⟩, rfl, hQ⟩
    simp only [List.length_cons] at room
    show rest.length + 1 + 0 ≤ maxStackSize
    omega

/-! ## Branches -/

theorem branchTaken_ok_iff {wanted taken : Bool} {s s' : State} (executing : s.executing = true) :
    branchTaken wanted s = .ok taken s' ↔ ∃ item rest, s.stack = item :: rest ∧
      taken = (Truth.decode item == wanted) ∧ s' = { s with stack := rest } := by
  show (if s.executing then _ else _ : Exec Bool) s = _ ↔ _
  rw [if_pos executing]
  constructor
  · intro h
    obtain ⟨_, t, hneed, h₁⟩ := bind_ok_iff.mp h
    obtain ⟨_, rfl⟩ := need_ok_iff.mp hneed
    obtain ⟨item, _, hpop, h₂⟩ := bind_ok_iff.mp h₁
    obtain ⟨rest, hs, rfl⟩ := pop_ok_iff.mp hpop
    cases h₂
    exact ⟨item, rest, hs, rfl, rfl⟩
  · rintro ⟨item, rest, hs, rfl, rfl⟩
    exact bind_ok_iff.mpr ⟨(), s, need_ok_iff.mpr ⟨by simp [hs], rfl⟩,
      bind_ok_iff.mpr ⟨item, _, pop_ok_iff.mpr ⟨rest, hs, rfl⟩, rfl⟩⟩

theorem reaches_ifTrue (executing : outer.all id = true) (few : operations < maxOperations)
    (room : stack.length ≤ maxStackSize) :
    Reaches env script index (.op (.flow .ifTrue) :: row) outer operations stack Q ↔
      ∃ item rest, stack = item :: rest ∧
        Reaches env script (index + 1) row (Truth.decode item :: outer) (operations + 1) rest
          Q := by
  have stepped (s : State) :
      step env.quiet index (.op (.flow .ifTrue)) (.midway script index outer operations stack) =
          .ok () s ↔
        ∃ top : Bytes × List Bytes, stack = top.1 :: top.2 ∧ s =
          .midway script (index + 1) (Truth.decode top.1 :: outer) (operations + 1) top.2 := by
    rw [step_quiet_ok_iff, show Instruction.op (.flow .ifTrue) = .opening true from rfl,
      apply_opening]
    constructor
    · rintro ⟨happly, _⟩
      obtain ⟨_, _, hcount, h₁⟩ := bind_ok_iff.mp happly
      obtain ⟨_, rfl⟩ := countOperations_ok_iff.mp hcount
      obtain ⟨_, _, htaken, hopen⟩ := bind_ok_iff.mp h₁
      obtain ⟨item, rest, hs, rfl, rfl⟩ := (branchTaken_ok_iff (by exact executing)).mp htaken
      cases hopen
      refine ⟨(item, rest), hs, ?_⟩
      rw [beq_true]
      rfl
    · rintro ⟨⟨item, rest⟩, rfl, rfl⟩
      refine ⟨bind_ok_iff.mpr ⟨(), _, countOperations_ok_iff.mpr ⟨few, rfl⟩, bind_ok_iff.mpr
        ⟨Truth.decode item, _, (branchTaken_ok_iff (by exact executing)).mpr
          ⟨item, rest, rfl, (beq_true _).symm, rfl⟩, rfl⟩⟩, ?_⟩
      rw [List.length_cons] at room
      exact Nat.le_of_succ_le room
  rw [reaches_cons_iff stepped, Prod.exists]

/-- The innermost branch is turned over to its other side. -/
theorem reaches_orElse {taken : Bool} (few : operations < maxOperations)
    (room : stack.length ≤ maxStackSize) :
    Reaches env script index (.op (.flow .orElse) :: row) (taken :: outer) operations stack Q ↔
      Reaches env script (index + 1) row ((!taken) :: outer) (operations + 1) stack Q := by
  refine reaches_cons (step_quiet_ok_iff.mpr ⟨?_, room⟩)
  rw [show Instruction.op (.flow .orElse) = .orElse from rfl, apply_orElse]
  exact bind_ok_iff.mpr ⟨(), _, countOperations_ok_iff.mpr ⟨few, rfl⟩, rfl⟩

theorem reaches_endIf {taken : Bool} (few : operations < maxOperations)
    (room : stack.length ≤ maxStackSize) :
    Reaches env script index (.op (.flow .endIf) :: row) (taken :: outer) operations stack Q ↔
      Reaches env script (index + 1) row outer (operations + 1) stack Q := by
  refine reaches_cons (step_quiet_ok_iff.mpr ⟨?_, room⟩)
  rw [show Instruction.op (.flow .endIf) = .endIf from rfl, apply_endIf]
  exact bind_ok_iff.mpr ⟨(), _, countOperations_ok_iff.mpr ⟨few, rfl⟩, rfl⟩

theorem count_of_le {i : Instruction} {s : State}
    (few : s.operations + i.counted.toNat ≤ maxOperations) :
    count i s = .ok () (afterCount i s) := by
  unfold count afterCount
  cases hi : i.counted with
  | false => rfl
  | true =>
    rw [hi] at few
    exact countOperations_ok_iff.mpr ⟨few, rfl⟩

/-- Opcodes that a skipped branch may hold anywhere. -/
theorem skippable_op {op : Opcode} (conditional : op.isConditional = false)
    (fails : op.alwaysFails = false) :
    (Instruction.op op).Plain ∧ (Instruction.op op).Lawful := by
  refine ⟨⟨fun wanted h => ?_, fun h => ?_, fun h => ?_⟩, fails⟩
  · cases wanted <;> cases h <;> cases conditional
  · cases h
    cases conditional
  · cases h
    cases conditional

theorem skippable_push {data : Bytes} (short : data.length ≤ maxItemSize) :
    (Instruction.push data).Plain ∧ (Instruction.push data).Lawful :=
  ⟨⟨fun wanted => by cases wanted <;> exact nofun, nofun, nofun⟩, short⟩

theorem skippable_pushed {i : Instruction} {data : Bytes} (h : i.pushed? = some data)
    (short : data.length ≤ maxItemSize) : (i.Plain ∧ i.Lawful) ∧ i.counted = false := by
  unfold Instruction.pushed? at h
  split at h
  · cases h
    exact ⟨skippable_push short, rfl⟩
  · next n =>
    have uncounted : ∀ n : Fin 17, (Instruction.op (.push (.smallInt n))).counted = false := by
      decide
    exact ⟨skippable_op rfl rfl, uncounted n⟩
  · exact ⟨skippable_op rfl rfl, rfl⟩
  · cases h

/-- In a branch that is skipped, instructions are counted and nothing else. -/
theorem reaches_skipped {skipped : List Instruction} (skip : outer.all id = false)
    (plain : ∀ i ∈ skipped, i.Plain ∧ i.Lawful)
    (few : operations + skipped.countP Instruction.counted ≤ maxOperations)
    (room : stack.length ≤ maxStackSize) :
    Reaches env script index (skipped ++ row) outer operations stack Q ↔
      Reaches env script (index + skipped.length) row outer
        (operations + skipped.countP Instruction.counted) stack Q := by
  induction skipped generalizing index operations with
  | nil => rfl
  | cons i skipped ih =>
    rw [List.forall_mem_cons] at plain
    obtain ⟨⟨hplain, lawful⟩, plain⟩ := plain
    have counts : (i :: skipped).countP Instruction.counted =
        i.counted.toNat + skipped.countP Instruction.counted := by
      rw [List.countP_cons, Nat.add_comm]
      cases i.counted <;> rfl
    rw [counts, ← Nat.add_assoc] at few ⊢
    have stepped : step env.quiet index i (.midway script index outer operations stack) =
        .ok () (.midway script (index + 1) outer (operations + i.counted.toNat) stack) := by
      refine step_quiet_ok_iff.mpr ⟨?_, room⟩
      rw [show State.executing (.midway script index outer operations stack) = false from skip]
      obtain ⟨x, inner, closed, happly, hx⟩ := @apply_skipped env.quiet
        { State.midway script index outer operations stack with position := index } i [] outer 0
        rfl skip lawful (Instruction.nest_plain hplain 0)
      obtain rfl := List.length_eq_zero_iff.mp closed
      rw [happly]
      exact bind_ok_iff.mpr ⟨(), _, count_of_le (Nat.le_trans (Nat.le_add_right _ _) few), hx⟩
    rw [List.cons_append, reaches_cons stepped, ih plain few, List.length_cons,
      Nat.add_right_comm, Nat.add_assoc]

/-! ## Pieces of templates -/

theorem reaches_dup {item : Bytes} (executing : outer.all id = true)
    (few : operations < maxOperations) (room : stack.length + 2 ≤ maxStackSize) :
    Reaches env script index (.op (.stack (.shuffle .dup)) :: row) outer operations (item :: stack)
        Q ↔
      Reaches env script (index + 1) row outer (operations + 1) (item :: item :: stack) Q := by
  refine reaches_act_eq (acts_shuffle env.quiet .dup) (fun other => ?_) executing (by decide) few
    room
  rw [ShuffleOp.shuffle?, Option.some_inj, eq_comm]

theorem reaches_drop {item : Bytes} (executing : outer.all id = true)
    (few : operations < maxOperations) (room : stack.length ≤ maxStackSize) :
    Reaches env script index (.op (.stack (.shuffle .drop)) :: row) outer operations (item :: stack)
        Q ↔
      Reaches env script (index + 1) row outer (operations + 1) stack Q := by
  refine reaches_act_eq (acts_shuffle env.quiet .drop) (fun other => ?_) executing (by decide) few
    room
  rw [ShuffleOp.shuffle?, Option.some_inj, eq_comm]

theorem reaches_hash {op : HashOp} {item : Bytes} (executing : outer.all id = true)
    (few : operations < maxOperations) (room : stack.length < maxStackSize) :
    Reaches env script index (.op (.hash op) :: row) outer operations (item :: stack) Q ↔
      Reaches env script (index + 1) row outer (operations + 1) (op.digest item :: stack) Q := by
  refine reaches_act_eq (acts_hash env.quiet op) (fun other => ?_) executing
    (by cases op <;> decide) few room
  constructor
  · rintro ⟨top, rest, h, rfl⟩
    cases h
    rfl
  · rintro rfl
    exact ⟨item, stack, rfl, rfl⟩

theorem reaches_equalVerify {a b : Bytes} (executing : outer.all id = true)
    (few : operations < maxOperations) (room : stack.length ≤ maxStackSize) :
    Reaches env script index (.op .equalVerify :: row) outer operations (b :: a :: stack) Q ↔
      a = b ∧ Reaches env script (index + 1) row outer (operations + 1) stack Q := by
  have next {other : List Bytes} (h : ∃ item, b :: a :: stack = item :: item :: other) :
      a = b ∧ other = stack := by
    obtain ⟨item, h⟩ := h
    cases h
    exact ⟨rfl, rfl⟩
  rw [reaches_act (acts_equalVerify env.quiet) executing (by decide) few
    fun other h => (next h).2 ▸ room]
  constructor
  · rintro ⟨other, h, hrest⟩
    obtain ⟨same, rfl⟩ := next h
    exact ⟨same, hrest⟩
  · rintro ⟨rfl, hrest⟩
    exact ⟨stack, ⟨a, rfl⟩, hrest⟩

/-- Put the hash of the key on top of the stack beside the hash that is asked for. -/
theorem reaches_identify {hash : Digest 20} (executing : outer.all id = true)
    (few : operations + 2 ≤ maxOperations) (room : stack.length + 2 ≤ maxStackSize) :
    Reaches env script index (.op (.stack (.shuffle .dup)) :: .op (.hash .hash160) ::
        .push hash.bytes :: row) outer operations stack Q ↔
      ∃ key rest, stack = key :: rest ∧ Reaches env script (index + 3) row outer (operations + 2)
        (hash.bytes :: (Hash.hash160 key).bytes :: key :: rest) Q := by
  cases stack with
  | nil =>
    rw [reaches_act (acts_shuffle env.quiet .dup) executing (by decide) (by omega)
      fun next h => by cases h]
    constructor
    · rintro ⟨_, h, _⟩
      cases h
    · rintro ⟨_, _, h, _⟩
      cases h
  | cons key rest =>
    rw [List.length_cons] at room
    have short : hash.bytes.length ≤ maxItemSize := by
      rw [hash.length_bytes]
      decide
    rw [reaches_dup executing (by omega) (by omega), reaches_hash executing (by omega)
      (by rw [List.length_cons]; omega), reaches_pushed rfl executing short
      (by simp only [List.length_cons]; omega)]
    simp only [List.cons.injEq, and_assoc, exists_and_left, exists_eq_left']
    rfl

/-- Compare the hash of a key with the hash that is asked for, and check a signature of the key. -/
theorem reaches_settle {hash hash' key : Bytes} (few : operations + 2 ≤ maxOperations)
    (room : stack.length < maxStackSize) :
    Reaches env script index [.op .equalVerify, .op (.signature .checkSig)] [] operations
        (hash' :: hash :: key :: stack) TopTrue ↔
      hash = hash' ∧ ∃ signature rest, stack = signature :: rest ∧
        env.signatureAnswer signature key (script.deletePush signature) = .ok true := by
  rw [reaches_equalVerify rfl (by omega) (by rw [List.length_cons]; omega),
    reaches_checkSig (by omega) (by rw [List.length_cons]; omega)]
  refine and_congr_right fun _ => ?_
  constructor
  · rintro ⟨_, signature, rest, answer, h, hanswer, top⟩
    cases h
    cases topTrue_encode_iff.mp top
    exact ⟨signature, rest, rfl, hanswer⟩
  · rintro ⟨signature, rest, rfl, hanswer⟩
    exact ⟨key, signature, rest, true, rfl, hanswer, topTrue_encode_iff.mpr rfl⟩

/-- The two pieces together, with instructions in between that only keep track of branches: the
spender has to show a key with the hash, and a signature of the key. -/
theorem reaches_owner {hash : Digest 20} {index' operations' : Nat}
    (executing : outer.all id = true) (few : operations + 2 ≤ maxOperations)
    (few' : operations' + 2 ≤ maxOperations) (room : stack.length + 2 ≤ maxStackSize)
    (between : ∀ items : List Bytes, items.length ≤ maxStackSize →
      (Reaches env script (index + 3) row outer (operations + 2) items TopTrue ↔
        Reaches env script index' [.op .equalVerify, .op (.signature .checkSig)] [] operations'
          items TopTrue)) :
    Reaches env script index (.op (.stack (.shuffle .dup)) :: .op (.hash .hash160) ::
        .push hash.bytes :: row) outer operations stack TopTrue ↔
      ∃ key signature rest, stack = key :: signature :: rest ∧ Hash.hash160 key = hash ∧
        env.signatureAnswer signature key (script.deletePush signature) = .ok true := by
  rw [reaches_identify executing few room]
  constructor
  · rintro ⟨key, rest, rfl, hrest⟩
    rw [List.length_cons] at room
    rw [between _ (by simp only [List.length_cons]; omega), reaches_settle few' (by omega)] at hrest
    obtain ⟨same, signature, below, rfl, hanswer⟩ := hrest
    exact ⟨key, signature, below, rfl, Digest.ext same, hanswer⟩
  · rintro ⟨key, signature, rest, rfl, rfl, hanswer⟩
    simp only [List.length_cons] at room
    refine ⟨key, signature :: rest, rfl, ?_⟩
    rw [between _ (by simp only [List.length_cons]; omega),
      reaches_settle few' (by rw [List.length_cons]; omega)]
    exact ⟨rfl, signature, rest, rfl, hanswer⟩

/-- Ask for the secret behind a digest. -/
theorem reaches_reveal {op : HashOp} {digest : Bytes} (executing : outer.all id = true)
    (few : operations + 2 ≤ maxOperations) (room : stack.length < maxStackSize)
    (short : digest.length ≤ maxItemSize) :
    Reaches env script index (.op (.hash op) :: .push digest :: .op .equalVerify :: row) outer
        operations stack Q ↔
      ∃ secret rest, stack = secret :: rest ∧ op.digest secret = digest ∧
        Reaches env script (index + 3) row outer (operations + 2) rest Q := by
  cases stack with
  | nil =>
    rw [reaches_act (acts_hash env.quiet op) executing (by cases op <;> decide) (by omega)
      fun next h => by obtain ⟨_, _, h, _⟩ := h; cases h]
    constructor
    · rintro ⟨_, ⟨_, _, h, _⟩, _⟩
      cases h
    · rintro ⟨_, _, h, _⟩
      cases h
  | cons secret rest =>
    rw [List.length_cons] at room
    rw [reaches_hash executing (by omega) (by omega), reaches_pushed rfl executing short
      (by rw [List.length_cons]; omega), reaches_equalVerify executing (by omega) (by omega)]
    simp only [List.cons.injEq, and_assoc, exists_and_left, exists_eq_left']

/-- Hold the script back until a lock time. -/
theorem reaches_gate {i : Instruction} {lockTime : Int} {spend : Spend}
    (hi : i.pushed? = some (Number.encode lockTime)) (nonnegative : 0 ≤ lockTime)
    (fits : lockTime.natAbs < 256 ^ 4) (on : env.flags.checkLockTimeVerify = true)
    (bound : env.spend = some spend) (executing : outer.all id = true)
    (few : operations + 2 ≤ maxOperations) (room : stack.length < maxStackSize) :
    Reaches env script index
        (i :: .op (.lockTime .absolute) :: .op (.stack (.shuffle .drop)) :: row) outer operations
        stack Q ↔
      spend.checkLockTime env.blockTime lockTime = .ok () ∧
        Reaches env script (index + 3) row outer (operations + 2) stack Q := by
  have short := Number.length_encode_le fits
  rw [reaches_pushed hi executing (Nat.le_trans short (by decide)) room,
    reaches_act (acts_lockTime on bound) executing (by decide) (by omega)
      fun next h => by rw [h.1]; exact room]
  constructor
  · rintro ⟨_, ⟨rfl, item, rest, time, hs, hdecode, _, passed⟩, hrest⟩
    cases hs
    cases (Number.decode_encode fits).symm.trans hdecode
    exact ⟨passed, (reaches_drop executing (by omega) (by omega)).mp hrest⟩
  · rintro ⟨passed, hrest⟩
    exact ⟨_, ⟨rfl, _, _, lockTime, rfl, Number.decode_encode fits, nonnegative, passed⟩,
      (reaches_drop executing (by omega) (by omega)).mpr hrest⟩

end Reaches

/-! ## Whole scripts -/

/-- The script succeeds on the stack and leaves a true item on top. -/
def Satisfies (env : Env) (script : Script) (stack : List Bytes) : Prop :=
  ∃ after, Leaves env script stack after ∧ TopTrue after

theorem leaves_and_iff_reaches {env : Env} {script : Script} {stack : List Bytes}
    {Q : List Bytes → Prop} (short : script.size ≤ maxScriptSize) :
    (∃ after, Leaves env script stack after ∧ Q after) ↔
      Reaches env script 0 script.instructions [] 0 stack Q := by
  -- A log of the instructions does not change what a run leaves.
  refine (exists_congr fun after => and_congr_left' leaves_quiet_iff).symm.trans ?_
  constructor
  · rintro ⟨_, ⟨s, hrun, rfl⟩, hQ⟩
    obtain ⟨_, ⟨s₀, hbegin, hsteps⟩, closed⟩ := run_ok_iff.mp hrun
    cases hbegin
    exact ⟨s, hsteps, closed, hQ⟩
  · rintro ⟨s, hsteps, closed, hQ⟩
    exact ⟨s.stack, ⟨s, run_ok_iff.mpr ⟨short, ⟨_, rfl, hsteps⟩, closed⟩, rfl⟩, hQ⟩

theorem satisfies_iff_reaches {env : Env} {script : Script} {stack : List Bytes}
    (short : script.size ≤ maxScriptSize) :
    Satisfies env script stack ↔ Reaches env script 0 script.instructions [] 0 stack TopTrue :=
  leaves_and_iff_reaches short

/-- An executed push puts its item on the stack, whether it is logged or not. -/
theorem step_pushed {env : Env} {index : Nat} {i : Instruction} {item : Bytes} {s : State}
    (h : i.pushed? = some item) (executing : s.executing = true)
    (short : item.length ≤ maxItemSize) (room : s.height < maxStackSize) :
    ∃ t, step env index i s = .ok () t ∧ t.stack = item :: s.stack ∧ t.alt = s.alt ∧
      t.conditions = s.conditions := by
  have applied : apply env s.executing i { s with position := index } =
      .ok () { s with position := index, stack := item :: s.stack } := by
    rw [executing]
    exact apply_pushed h short _
  have height : (item :: s.stack).length + s.alt.length ≤ maxStackSize := by
    rw [List.length_cons, Nat.add_right_comm]
    exact room
  obtain ⟨t, hstep, calls, log, rfl⟩ := step_of_apply applied height
  exact ⟨_, hstep, rfl, rfl, rfl⟩

/-- Executed pushes put their items on the stack, the last one on top. -/
theorem steps_pushed {env : Env} {index : Nat} {pushes : List Instruction} {items : List Bytes}
    {s : State} (h : pushes.map Instruction.pushed? = items.map some)
    (executing : s.executing = true) (short : ∀ item ∈ items, item.length ≤ maxItemSize)
    (room : s.height + items.length ≤ maxStackSize) :
    ∃ t, steps env index pushes s = .ok () t ∧ t.stack = items.reverse ++ s.stack ∧
      t.alt = s.alt ∧ t.conditions = s.conditions := by
  induction items generalizing pushes index s with
  | nil =>
    rw [List.map_eq_nil_iff.mp h]
    exact ⟨s, rfl, rfl, rfl, rfl⟩
  | cons item items ih =>
    obtain ⟨i, pushes, rfl, hi, hrest⟩ := List.map_eq_cons_iff.mp h
    rw [List.forall_mem_cons] at short
    rw [List.length_cons] at room
    obtain ⟨s₁, hstep, stack₁, alt₁, conditions₁⟩ :=
      @step_pushed env index i item s hi executing short.1 (by omega)
    have executing₁ : s₁.executing = true := by
      rw [State.executing, conditions₁]
      exact executing
    have height₁ : s₁.height = s.height + 1 := by
      rw [State.height, stack₁, alt₁, List.length_cons, Nat.add_right_comm]
      rfl
    obtain ⟨t, hsteps, stack, alt, conditions⟩ := ih hrest executing₁ short.2 (by omega)
    refine ⟨t, steps_cons_ok_iff.mpr ⟨s₁, hstep, hsteps⟩, ?_, alt.trans alt₁,
      conditions.trans conditions₁⟩
    rw [stack, stack₁, List.reverse_cons, List.append_assoc]
    rfl

/-- A script of pushes succeeds. It leaves its items on the main stack and nothing on the other
stacks. -/
theorem run_pushes {env : Env} {script : Script} {items : List Bytes} {s : State}
    (h : script.instructions.map Instruction.pushed? = items.map some)
    (size : script.size ≤ maxScriptSize) (short : ∀ item ∈ items, item.length ≤ maxItemSize)
    (room : s.stack.length + items.length ≤ maxStackSize) :
    ∃ t, run env script s = .ok () t ∧ t.stack = items.reverse ++ s.stack ∧ t.alt = [] ∧
      t.conditions = [] := by
  obtain ⟨t, hsteps, stack, alt, conditions⟩ :=
    @steps_pushed env 0 _ _ (s.started script) h rfl short room
  exact ⟨t, run_ok_iff.mpr ⟨size, ⟨_, rfl, hsteps⟩, conditions⟩, stack, alt, conditions⟩

theorem leaves_pushes {env : Env} {script : Script} {stack items : List Bytes}
    (h : script.instructions.map Instruction.pushed? = items.map some)
    (size : script.size ≤ maxScriptSize) (short : ∀ item ∈ items, item.length ≤ maxItemSize)
    (room : stack.length + items.length ≤ maxStackSize) :
    Leaves env script stack (items.reverse ++ stack) := by
  obtain ⟨t, hrun, after, -⟩ := @run_pushes env script items { stack := stack } h size short room
  exact ⟨t, hrun, after⟩

theorem Leaves.unique {env : Env} {script : Script} {before after after' : List Bytes}
    (h : Leaves env script before after) (h' : Leaves env script before after') :
    after = after' := by
  obtain ⟨s, hrun, rfl⟩ := h
  obtain ⟨s', hrun', rfl⟩ := h'
  cases hrun.symm.trans hrun'
  rfl

end Exec

namespace Machine

/-- A locking script of no special shape decides on the stack that the unlocking script leaves. -/
theorem verify_iff_satisfies {m : Machine} {c : Context} {lock unlock : Script}
    {stack : List Bytes} (shape : lock.isPayToScriptHash = false)
    (leaves : m.Leaves unlock c stack) :
    (m.verify lock unlock c).1 = .ok true ↔ Exec.Satisfies (m.configure c.env) lock stack := by
  rw [verify_eq_ok_iff, Exec.verify_ok_iff_phases]
  have leaves := leaves_iff.mp leaves
  constructor
  · rintro ⟨unlocked, locked, hunlock, hlock, top, _⟩
    cases leaves.unique hunlock
    exact ⟨locked, hlock, top⟩
  · rintro ⟨locked, hlock, top⟩
    refine ⟨stack, locked, leaves, hlock, top, fun _ special => ?_⟩
    rw [shape] at special
    cases special

theorem perform_checkSignature_iff {m : Machine} {c : Context} {signature key : Bytes}
    {code : Script} {answer : Bool} :
    (m.perform c fun env => Exec.checkSignature env signature key code).1 = .ok answer ↔
      (m.configure c.env).signatureAnswer signature key code = .ok answer :=
  Context.perform_eq_ok_iff.trans Exec.checkSignature_ok_iff

theorem perform_checkLockTime_iff {m : Machine} {c : Context} {spend : Spend} {lockTime : Int}
    (bound : c.env.spend = some spend) :
    (m.perform c fun env => Exec.checkLockTime env lockTime).1 = .ok () ↔
      spend.checkLockTime c.env.blockTime lockTime = .ok () := by
  have bound : (m.configure c.env).spend = some spend := bound
  refine Context.perform_eq_ok_iff.trans ?_
  constructor
  · rintro ⟨s, h⟩
    exact ((Exec.checkLockTime_ok_iff bound).mp h).1
  · intro passed
    exact ⟨_, (Exec.checkLockTime_ok_iff bound).mpr ⟨passed, rfl⟩⟩

end Machine

end CoinScript
