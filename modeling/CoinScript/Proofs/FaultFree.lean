import CoinScript.Proofs.CheckedSignatures
/-!
# Verification without faults

A verification on words and vectors from the first byte to the verdict: reading both scripts,
running two or three of them, and looking for the result. Between two instructions the stacks and
the count of operations are within their limits, and this is all that the next instruction needs.

* `Guarded.verify_eq`: the phases of a verification;
* `Machine.verification_never_faults`: the verification of any input of any transaction.
-/

namespace CoinScript

/-- Every instruction takes up at least one byte. -/
theorem Script.length_instructions_le (s : Script) : s.instructions.length ≤ s.size := by
  obtain ⟨tokens⟩ := s
  show (tokens.map Token.instruction).length ≤ (tokens.flatMap Token.bytes).length
  rw [List.length_map]
  induction tokens with
  | nil => exact Nat.le_refl 0
  | cons t tokens ih =>
    have hbytes : 0 < t.bytes.length := List.length_pos_iff.mpr t.bytes_ne_nil
    rw [List.flatMap_cons, List.length_append, List.length_cons, Nat.add_comm]
    exact Nat.add_le_add hbytes ih

namespace Guarded

open Exec

/-! ## One instruction -/

/-- Apply one instruction, knowing whether the current branch is executed. -/
def apply (env : Env) (executing : Bool) : Instruction → Guarded Unit
  | .push data => of (Exec.apply env executing (.push data))
  | .op op => do
    if op.code > 0x60 then countOperations 1
    if executing || op.isConditional || op.alwaysFails then execute env op
  | .unknown code => do
    countOperations 1
    of (if executing then throw (.structural (.unknownOpcode code)) else pure ())

def checkStackSize : Guarded Unit := do
  let s ← get
  let height ← check (Checked.word (s.stack.length + s.alt.length))
  of (if height > maxStackSize then throw (.structural .stackTooLarge) else pure ())

def step (env : Env) (index : Nat) (instruction : Instruction) : Guarded Unit := do
  of (goTo index)
  let executing := (← get).executing
  apply env executing instruction
  of (if env.verbose && executing then traceInstruction index instruction else pure ())
  checkStackSize

/-- What the next instruction needs: the stacks and the count of operations are within their
limits. -/
structure Ready (s : State) : Prop where
  tidy : s.Tidy
  few : s.operations ≤ maxOperations

theorem Ready.operations_le {s : State} (ready : Ready s) : s.operations ≤ 0xffff :=
  Nat.le_trans ready.few (by decide)

theorem apply_op (env : Env) (executing : Bool) (op : Opcode) :
    apply env executing (.op op) =
      (if op.code > 0x60 then countOperations 1 else pure ()) >>= fun _ =>
        if executing || op.isConditional || op.alwaysFails then execute env op else pure () := by
  unfold apply
  by_cases h : op.code > 0x60
  · simp only [h, if_true]
  · simp only [h, if_false]
    rfl

theorem count_eq {s : State} (hops : s.operations ≤ 0xffff) (op : Opcode) :
    (if op.code > 0x60 then countOperations 1 else pure () : Guarded Unit) s =
      of (count (.op op)) s := by
  unfold count Instruction.counted
  by_cases h : op.code > 0x60
  · simp only [h, if_true, decide_true]
    exact countOperations_eq hops (by decide)
  · simp only [h, if_false, decide_false]
    rfl

theorem apply_eq (env : Env) (executing : Bool) (i : Instruction) {s : State} (ready : Ready s)
    (hposition : s.position ≤ 0xffff) :
    apply env executing i s = of (Exec.apply env executing i) s := by
  cases i with
  | push data => rfl
  | op op =>
    rw [apply_op, Exec.apply_op]
    refine bind_eq (count_eq ready.operations_le op) fun _ t hcount => ?_
    have counted := count_ends env (.op op) s
    rw [hcount] at counted
    obtain ⟨rfl, _⟩ := counted
    have hops : (afterCount (.op op) s).operations ≤ 0xffff := by
      have htoNat := (Instruction.op op).counted.toNat_le
      have hfew := ready.few
      simp only [maxOperations] at hfew
      show s.operations + (Instruction.op op).counted.toNat ≤ 0xffff
      omega
    have hrule := execute_eq env op (s := afterCount (.op op) s) ready.tidy hops hposition
    split
    · exact hrule
    · rfl
  | unknown code =>
    refine bind_eq (countOperations_eq ready.operations_le (by decide)) fun _ t _ => ?_
    cases executing <;> rfl

theorem checkStackSize_eq {s : State} (h : s.height ≤ 0xffff) :
    checkStackSize s = of Exec.checkStackSize s := by
  have hword : Checked.word (s.stack.length + s.alt.length) = .ok s.height :=
    Checked.word_eq (Nat.le_trans h (by decide))
  have hrule : Exec.checkStackSize s = (if s.height > maxStackSize then
      throw (.structural .stackTooLarge) else pure () : Exec Unit) s := by
    unfold Exec.checkStackSize State.height
    split
    · rfl
    · rfl
  rw [checkStackSize, get_bind, check_bind hword, of, of, hrule]

theorem step_eq (env : Env) {index : Nat} (i : Instruction) {s : State} (ready : Ready s)
    (hindex : index ≤ 0xffff) : step env index i s = of (Exec.step env index i) s := by
  rw [Exec.step_eq]
  have moved : Ready { s with position := index } := ⟨ready.tidy, ready.few⟩
  show (apply env _ i >>= _) { s with position := index } =
    of (Exec.apply env ({ s with position := index } : State).executing i >>= _)
      { s with position := index }
  refine bind_eq (apply_eq env _ i moved hindex) fun _ t happly => ?_
  have stepped := apply_ends env { s with position := index } i
  rw [happly] at stepped
  have hheight : t.height ≤ 0xffff :=
    Nat.le_trans stepped.height (Nat.le_trans (Nat.add_le_add_right ready.tidy.2 3) (by decide))
  refine bind_eq rfl fun _ u hlog => checkStackSize_eq ?_
  split at hlog
  · cases hlog
    exact hheight
  · cases hlog
    exact hheight

/-! ## Runs -/

def steps (env : Env) : Nat → List Instruction → Guarded Unit
  | _, [] => return ()
  | index, instruction :: rest => do
    step env index instruction
    steps env (index + 1) rest

def run (env : Env) (script : Script) : Guarded Unit :=
  if script.size > maxScriptSize then of (throw (.structural .scriptRefused))
  else do
    of (begin script)
    steps env 0 script.instructions
    of checkClosed

theorem ready_of_step {env : Env} {index : Nat} {i : Instruction} {s t : State} (ready : Ready s)
    (h : Exec.step env index i s = .ok () t) : Ready t := by
  have ends := step_ends env index i s
  rw [h] at ends
  obtain ⟨stepped, low⟩ := ends
  exact ⟨⟨stepped.short ready.tidy, low⟩, stepped.limit ready.few⟩

theorem steps_eq (env : Env) (index : Nat) (row : List Instruction) {s : State} (ready : Ready s)
    (hindex : index + row.length ≤ 0xffff) :
    steps env index row s = of (Exec.steps env index row) s := by
  induction row generalizing index s with
  | nil => rfl
  | cons i row ih =>
    rw [List.length_cons] at hindex
    refine bind_eq (step_eq env i ready (by omega)) fun _ t hstep => ?_
    exact ih (index + 1) (ready_of_step ready hstep) (by omega)

theorem run_eq (env : Env) {script : Script} {s : State} (tidy : (s.started script).Tidy) :
    run env script s = of (Exec.run env script) s := by
  unfold run Exec.run
  dsimp only
  by_cases size : script.size > maxScriptSize
  · rw [if_pos size, if_pos size]
    rfl
  rw [if_neg size, if_neg size]
  have hlength : 0 + script.instructions.length ≤ 0xffff := by
    have := script.length_instructions_le
    simp only [maxScriptSize] at size
    omega
  refine bind_eq rfl fun _ t hbegin => ?_
  cases hbegin
  exact bind_eq (steps_eq env 0 script.instructions ⟨tidy, Nat.zero_le _⟩ hlength)
    fun _ _ _ => rfl

/-! ## Phases -/

def requireTrue : Guarded Unit := do
  let s ← get
  if s.stack.isEmpty then of (throw (.negativeVerdict .emptyStack))
  else
    let truth ← peekBool (-1)
    of (if !truth then throw (.negativeVerdict .falseResult) else pure ())

def runRedeem (env : Env) (stack : List Bytes) (lock unlock : Script) : Guarded Unit :=
  if !unlock.isDataOnly then of (throw (.structural .unlockNotDataOnly))
  else do
    let redeem ← check (Checked.redeemScript stack lock)
    of (modify fun s => { s with stack := stack.tail })
    of (announce "P2SH redeem" redeem)
    run env redeem
    requireTrue

def verify (env : Env) (lock unlock : Script) : Guarded Bool := do
  of (announce "unlock" unlock)
  run env unlock
  let unlocked := (← get).stack
  of (announce "lock" lock)
  run env lock
  requireTrue
  let scriptHash ← check (Checked.payToScriptHash lock.bytes)
  if env.flags.p2sh && scriptHash then runRedeem env unlocked lock unlock
  else of (if env.verbose then
      emit .trace ("P2SH not evaluated: enabled=" ++ boolText env.flags.p2sh ++
        " pay_to_script_hash=" ++ boolText scriptHash)
    else pure ())
  of (emit .debug "Spend authorized")
  return true

theorem requireTrue_eq {s : State} (tidy : s.Tidy) : requireTrue s = of Exec.requireTrue s := by
  rw [requireTrue, get_bind, of, Exec.requireTrue]
  cases hs : s.stack with
  | nil => rfl
  | cons item rest =>
    dsimp only
    rw [if_neg (by simp), bind_of_ok (peekBool_top (stack_le_of_tidy tidy) hs)]
    cases Truth.decode item <;> rfl

theorem tidy_of_run {env : Env} {script : Script} {s t : State} (tidy : (s.started script).Tidy)
    (h : Exec.run env script s = .ok () t) : t.Tidy := by
  have ends := run_tidy env (run_ok_iff.mp h).1 tidy
  rw [h] at ends
  exact ends

/-- A phase and what comes after it, which starts within the limits again. -/
theorem phase_eq {α : Type} (env : Env) (which : String) {script : Script} {s : State}
    (tidy : (s.started script).Tidy) {f : Unit → Guarded α} {y : Unit → Exec α}
    (h : ∀ t : State, t.Tidy → f () t = of (y ()) t) :
    (of (announce which script) >>= fun _ => run env script >>= f) s =
      of (announce which script >>= fun _ => Exec.run env script >>= y) s := by
  refine bind_eq rfl fun _ t hlog => ?_
  have announced : (t.started script).Tidy := by
    cases hlog
    exact tidy
  exact bind_eq (run_eq env announced) fun _ u hrun => h u (tidy_of_run announced hrun)

theorem runRedeem_eq (env : Env) {stack : List Bytes} (lock unlock : Script) {s : State}
    (count : stack.length ≤ maxStackSize) (short : ∀ item ∈ stack, item.length ≤ maxItemSize) :
    runRedeem env stack lock unlock s = of (Exec.runRedeem env stack lock unlock) s := by
  unfold runRedeem Exec.runRedeem
  dsimp only
  split
  · rfl
  rw [Checked.redeemScript_eq, check_of]
  refine bind_eq rfl fun redeem _ _ => bind_eq rfl fun _ t hplace => ?_
  have tidy : (t.started redeem).Tidy := by
    cases hplace
    refine State.tidy_started redeem ?_ fun item hitem => short item (List.mem_of_mem_tail hitem)
    simpa using Nat.le_trans (Nat.sub_le _ 1) count
  exact phase_eq env "P2SH redeem" tidy fun u hu => requireTrue_eq hu

theorem verify_eq (env : Env) (lock : Script) {unlock : Script} {s : State}
    (tidy : (s.started unlock).Tidy) :
    verify env lock unlock s = of (Exec.verify env lock unlock) s := by
  rw [Exec.verify_eq]
  refine phase_eq env "unlock" tidy fun t ht => bind_eq rfl fun _ _ hget => ?_
  cases hget
  refine phase_eq env "lock" (ht.started lock) fun u hu =>
    bind_eq (requireTrue_eq hu) fun _ v _ => ?_
  rw [check_bind (Checked.payToScriptHash_eq lock)]
  have redeemed := runRedeem_eq env lock unlock (s := v)
    (Nat.le_trans (Nat.le_add_right _ _) ht.2) fun item hitem => ht.1 item (.inl hitem)
  by_cases redeems : (env.flags.p2sh && lock.isPayToScriptHash) = true
  · simp only [redeems, if_true]
    exact bind_eq redeemed fun _ _ _ => rfl
  · simp only [redeems]
    exact bind_eq rfl fun _ _ _ => rfl

/-- The answer of a step. -/
def result {α : Type} (g : Guarded α) (s : State) : Checked α :=
  match g s with
  | .ok a _ => .ok a
  | .error stop _ => .error stop

theorem result_of_eq {α : Type} {m : Machine} {c : Context} {g : Guarded α} {x : Env → Exec α}
    (h : g c.state = of (x (m.configure c.env)) c.state) :
    result g c.state = Checked.of (m.perform c x).1 := by
  rw [result, h, of, Machine.perform, Context.perform]
  dsimp only
  cases x (m.configure c.env) c.state with
  | ok a t => rfl
  | error e t => rfl

end Guarded

/-! ## Verification of an input -/

/-- Verify input `index` of a transaction. -/
def Checked.verifyTransaction (m : Machine) (tx : Transaction) (index : Nat) (prevOutput : TxOut)
    (blockTime : UInt32) : Checked Bool := do
  let c ← Checked.of (m.context tx index prevOutput blockTime)
  let input ← Checked.index tx.inputs index
  let unlock ← Checked.parse input.scriptSig
  let lock ← Checked.parse prevOutput.scriptPubkey
  Guarded.result (Guarded.verify (m.configure c.env) lock unlock) c.state

namespace Machine

variable (m : Machine) {tx : Transaction} {index : Nat} (prevOutput : TxOut) (blockTime : UInt32)

/-- The context of an existing input. -/
def contextOf (spend : Spend) : Context :=
  { env := {
    flags := m.flags
    verbose := m.verbose
    blockTime := some blockTime
    spend := some spend
    checker := m.checker } }

theorem context_of_lt (h : index < tx.inputs.length) :
    m.context tx index prevOutput blockTime =
      .ok (m.contextOf blockTime ⟨tx, ⟨index, h⟩, prevOutput⟩) := by
  rw [context, Spend.ofIndex, dif_pos h]
  rfl

theorem context_of_ge (h : tx.inputs.length ≤ index) :
    m.context tx index prevOutput blockTime =
      .error (.invalidInput (.inputIndex index tx.inputs.length)) := by
  rw [context, Spend.ofIndex, dif_neg (Nat.not_lt.mpr h)]
  rfl

theorem result_of_ge (h : tx.inputs.length ≤ index) :
    (m.verifyTransaction tx index prevOutput blockTime).result =
      .error (.invalidInput (.inputIndex index tx.inputs.length)) := by
  rw [verifyTransaction, context_of_ge m prevOutput blockTime h]
  rfl

theorem result_of_lt (h : index < tx.inputs.length) :
    (m.verifyTransaction tx index prevOutput blockTime).result =
      Script.parse tx.inputs[index].scriptSig >>= fun unlock =>
        Script.parse prevOutput.scriptPubkey >>= fun lock =>
          (m.verify lock unlock (m.contextOf blockTime ⟨tx, ⟨index, h⟩, prevOutput⟩)).1 := by
  rw [verifyTransaction, context_of_lt m prevOutput blockTime h, List.getElem?_eq_getElem h,
    TxOut.lockScript]
  dsimp only [TxIn.unlockScript]
  cases Script.parse tx.inputs[index].scriptSig with
  | error e => rfl
  | ok unlock =>
    cases Script.parse prevOutput.scriptPubkey with
    | error e => rfl
    | ok lock => rfl

theorem checked_verifyTransaction_eq (tx : Transaction) (index : Nat) :
    Checked.verifyTransaction m tx index prevOutput blockTime =
      Checked.of (m.verifyTransaction tx index prevOutput blockTime).result := by
  rcases Nat.lt_or_ge index tx.inputs.length with inside | outside
  · rw [result_of_lt m prevOutput blockTime inside, Checked.verifyTransaction,
      context_of_lt m prevOutput blockTime inside, Checked.of_ok, Checked.ok_bind,
      Checked.index_eq (List.getElem?_eq_getElem inside), Checked.ok_bind, Checked.parse_eq,
      Checked.parse_eq, Checked.of_bind]
    refine bind_congr fun unlock => ?_
    rw [Checked.of_bind]
    refine bind_congr fun lock => ?_
    have tidy : (({} : State).started unlock).Tidy := State.tidy_started unlock (by decide) nofun
    exact Guarded.result_of_eq (x := fun env => Exec.verify env lock unlock)
      (Guarded.verify_eq _ lock tidy)
  · rw [result_of_ge m prevOutput blockTime outside, Checked.verifyTransaction,
      context_of_ge m prevOutput blockTime outside]
    rfl

end Machine

/-! ## Errors with a checker that always answers -/

/-- A checker that answers every question. -/
def Checker.total (answer : Digest 32 → Bytes → Bytes → Flags → Bool) : Checker :=
  fun digest signature key flags => .ok (answer digest signature key flags)

/-- An environment to verify a spend in, with a checker that answers every question. -/
structure Env.Answers (env : Env) (spend : Spend)
    (answer : Digest 32 → Bytes → Bytes → Flags → Bool) : Prop where
  spend : env.spend = some spend
  checker : env.checker = .total answer

section Answers

variable {env : Env} {spend : Spend} {answer : Digest 32 → Bytes → Bytes → Flags → Bool}

theorem Env.Answers.kind_of_mayRaise (h : env.Answers spend answer) {e : Error}
    (raised : env.MayRaise e) :
    e.kind ≠ .other ∧ e.kind ≠ .construction ∧
      (e.kind = .cryptoDelegate → env.flags.strictEncoding = true ∨ env.flags.lowS = true) := by
  rcases raised with ⟨digest, signature, key, hchecker⟩ | raised
  · rw [h.checker] at hchecker
    cases hchecker
  · refine ⟨?_, ?_, ?_⟩
    · intro hkind
      rw [hkind] at raised
      cases h.spend.symm.trans raised
    · intro hkind
      rw [hkind] at raised
      exact raised
    · intro hkind
      rw [hkind] at raised
      exact raised

namespace Exec

section Lax

variable (h : env.Answers spend answer) (strict : env.flags.strictEncoding = false)
  (low : env.flags.lowS = false)

include h strict low

/-- Without the rules for encodings, the check of a signature is what the checker answers, and false
without a signature. -/
theorem checkSignature_of_lax (key : Bytes) (code : Script) (s : State) :
    checkSignature env [] key code s = .ok false s ∧
      ∀ der hashType, ∃ t, checkSignature env (der ++ [hashType]) key code s =
        .ok (answer (spend.signatureHash code hashType.toUInt32) der key env.flags) t := by
  have hkey : SignatureEncoding.checkPublicKey env.flags key = .ok () := by
    rw [SignatureEncoding.checkPublicKey, strict]
    rfl
  have hsignature (sig : Bytes) : SignatureEncoding.checkSignature env.flags sig = .ok () := by
    rw [SignatureEncoding.checkSignature, strict, low]
    split
    · rfl
    · rfl
  refine ⟨?_, ?_⟩
  · unfold checkSignature
    rw [hsignature, hkey]
    rfl
  · intro der hashType
    unfold checkSignature Exec.spend ask
    rw [hsignature, hkey, List.getLast?_concat, List.dropLast_concat, h.spend, h.checker]
    exact ⟨_, rfl⟩

theorem checkSignature_total (signature key : Bytes) (code : Script) (s : State) :
    ∃ valid t, checkSignature env signature key code s = .ok valid t := by
  obtain ⟨empty, signed⟩ := checkSignature_of_lax h strict low key code s
  rcases List.eq_nil_or_concat signature with rfl | ⟨der, hashType, rfl⟩
  · exact ⟨_, _, empty⟩
  · obtain ⟨t, ht⟩ := signed der hashType
    rw [List.concat_eq_append]
    exact ⟨_, t, ht⟩

theorem checkSingle_total {key signature : Bytes} {rest : List Bytes} {s : State}
    (hs : s.stack = key :: signature :: rest) : ∃ valid t, checkSingle env s = .ok valid t := by
  obtain ⟨valid, t, ht⟩ := checkSignature_total h strict low signature key
    (codeWithout s.scriptCode [signature]) { s with stack := rest }
  obtain ⟨stack⟩ := s
  cases hs
  exact ⟨valid, t, ht⟩

end Lax

theorem matchKeys_total {check : Bytes → Bytes → Exec Bool}
    (h : ∀ signature key s, ∃ valid t, check signature key s = .ok valid t)
    (signatures keys : List Bytes) (s : State) :
    ∃ matched t, matchKeys check signatures keys s = .ok matched t := by
  fun_induction matchKeys check signatures keys generalizing s with
  | case1 => exact ⟨true, s, rfl⟩
  | case2 => exact ⟨false, s, rfl⟩
  | case3 => exact ⟨false, s, rfl⟩
  | case4 signature signatures key keys _ found passed =>
    obtain ⟨valid, t, hcheck⟩ := h signature key s
    cases valid with
    | true =>
      obtain ⟨matched, u, hrest⟩ := found t
      exact ⟨matched, u, bind_ok_iff.mpr ⟨true, t, hcheck, hrest⟩⟩
    | false =>
      obtain ⟨matched, u, hrest⟩ := passed t
      exact ⟨matched, u, bind_ok_iff.mpr ⟨false, t, hcheck, hrest⟩⟩

end Exec

end Answers

namespace Machine

theorem verify_cases {m : Machine} {lock unlock : Script} {c : Context}
    (hlock : lock.size ≤ maxScriptSize) (hunlock : unlock.size ≤ maxScriptSize)
    (tidy : (c.state.started unlock).Tidy) :
    (m.verify lock unlock c).1 = .ok true ∨
      ∃ e, (m.verify lock unlock c).1 = .error e ∧ (m.configure c.env).MayRaise e := by
  have verified := Exec.verify_tidy (m.configure c.env) hlock hunlock tidy
  rcases Context.perform_ends (c := { c with env := m.configure c.env })
    (fun env => Exec.verify env lock unlock) verified with ⟨_, hok, rfl, _⟩ | ⟨e, herror, halts⟩
  · exact .inl hok
  · exact .inr ⟨e, herror, halts.1⟩

section Total

variable {m : Machine} {answer : Digest 32 → Bytes → Bytes → Flags → Bool} {tx : Transaction}
  {index : Nat} {prevOutput : TxOut} {blockTime : UInt32}

theorem answers_contextOf (total : m.checker = .total answer) (blockTime : UInt32) (spend : Spend) :
    (m.configure (m.contextOf blockTime spend).env).Answers spend answer :=
  ⟨rfl, total⟩

/-- A context for an input is one in which there is a spend to verify. -/
theorem answers_of_context (total : m.checker = .total answer) {c : Context}
    (h : m.context tx index prevOutput blockTime = .ok c) :
    ∃ inside : index < tx.inputs.length,
      (m.configure c.env).Answers ⟨tx, ⟨index, inside⟩, prevOutput⟩ answer := by
  rcases Nat.lt_or_ge index tx.inputs.length with inside | outside
  · cases h.symm.trans (context_of_lt m prevOutput blockTime inside)
    exact ⟨inside, answers_contextOf total blockTime _⟩
  · cases h.symm.trans (context_of_ge m prevOutput blockTime outside)

/-- Whether there is such an input decides whether an error is of the kind `other`. -/
theorem result_cases (total : m.checker = .total answer) :
    (index < tx.inputs.length ∧
      (m.verifyTransaction tx index prevOutput blockTime).result = .ok true) ∨
    ∃ e, (m.verifyTransaction tx index prevOutput blockTime).result = .error e ∧
      (e.kind = .other ↔ tx.inputs.length ≤ index) ∧ e.kind ≠ .construction ∧
      (e.kind = .cryptoDelegate → m.flags.strictEncoding = true ∨ m.flags.lowS = true) := by
  rcases Nat.lt_or_ge index tx.inputs.length with inside | outside
  · have known {e : Error} (h : e.kind ≠ .other) : e.kind = .other ↔ tx.inputs.length ≤ index :=
      ⟨fun other => absurd other h, fun outside => absurd inside (Nat.not_lt.mpr outside)⟩
    rw [result_of_lt m prevOutput blockTime inside]
    cases hunlock : Script.parse tx.inputs[index].scriptSig with
    | error e =>
      obtain ⟨cause, rfl⟩ := Script.structural_of_parse hunlock
      exact .inr ⟨_, rfl, known nofun, nofun, nofun⟩
    | ok unlock =>
      cases hlock : Script.parse prevOutput.scriptPubkey with
      | error e =>
        obtain ⟨cause, rfl⟩ := Script.structural_of_parse hlock
        exact .inr ⟨_, rfl, known nofun, nofun, nofun⟩
      | ok lock =>
        have tidy : (({} : State).started unlock).Tidy :=
          State.tidy_started unlock (by decide) nofun
        have answers := answers_contextOf total blockTime ⟨tx, ⟨index, inside⟩, prevOutput⟩
        rcases verify_cases (c := m.contextOf blockTime ⟨tx, ⟨index, inside⟩, prevOutput⟩)
          (Script.valid_of_parse hlock).1.size_le (Script.valid_of_parse hunlock).1.size_le
          tidy with hok | ⟨e, herror, raised⟩
        · exact .inl ⟨inside, hok⟩
        · obtain ⟨hother, hrest⟩ := answers.kind_of_mayRaise raised
          exact .inr ⟨e, herror, known hother, hrest⟩
  · exact .inr ⟨_, result_of_ge m prevOutput blockTime outside, ⟨fun _ => outside, fun _ => rfl⟩,
      nofun, nofun⟩

end Total

/-- The verification of any input of any transaction, with both scripts arbitrary bytes and a
checker that answers every question, comes to an end without a fault. Its answer is true or an
error. The error is of the kind `other` exactly if there is no such input, never about the
construction of a script, and about an encoding only under a rule for encodings. Without these
rules, every check of a signature answers, whatever the bytes of the signature and the key. -/
theorem verification_never_faults (flags : Flags) (verbose : Bool)
    (answer : Digest 32 → Bytes → Bytes → Flags → Bool) (tx : Transaction) (index : Nat)
    (prevOutput : TxOut) (blockTime : UInt32) :
    let m : Machine := { flags := flags, verbose := verbose, checker := .total answer }
    let result := (m.verifyTransaction tx index prevOutput blockTime).result
    (∀ fault, Checked.verifyTransaction m tx index prevOutput blockTime ≠ Checked.fail fault) ∧
    Checked.verifyTransaction m tx index prevOutput blockTime = Checked.of result ∧
    (result = .ok true ∨ ∃ e, result = .error e) ∧
    ((∃ e, result = .error e ∧ e.kind = .other) ↔ tx.inputs.length ≤ index) ∧
    (∀ e, result = .error e → e.kind ≠ .construction ∧
      (e.kind = .cryptoDelegate → flags.strictEncoding = true ∨ flags.lowS = true)) ∧
    (flags.strictEncoding = false → flags.lowS = false →
      ∀ c, m.context tx index prevOutput blockTime = .ok c →
      ∀ code s,
        (∀ key, Exec.checkSignature (m.configure c.env) [] key code s = .ok false s) ∧
        (∀ der hashType key, ∃ t,
          Exec.checkSignature (m.configure c.env) (der ++ [hashType]) key code s =
            .ok (answer (SigHash.digest tx index code hashType.toUInt32) der key flags) t) ∧
        (∀ key signature rest, s.stack = key :: signature :: rest →
          ∃ valid t, Exec.checkSingle (m.configure c.env) s = .ok valid t) ∧
        (∀ signatures keys, ∃ matched t,
          Exec.matchKeys
            (fun signature key => Exec.checkSignature (m.configure c.env) signature key code)
            signatures keys s = .ok matched t)) := by
  intro m result
  have total : m.checker = .total answer := rfl
  have checked := checked_verifyTransaction_eq m prevOutput blockTime tx index
  refine ⟨?_, checked, ?_, ?_, ?_, ?_⟩
  · intro fault
    rw [checked]
    exact Checked.of_ne_fail result fault
  · rcases result_cases total with ⟨_, hok⟩ | ⟨e, herror, _⟩
    · exact .inl hok
    · exact .inr ⟨e, herror⟩
  · rcases result_cases total with ⟨inside, hok⟩ | ⟨e, herror, h, _⟩
    · constructor
      · rintro ⟨e, herror, _⟩
        cases hok.symm.trans herror
      · intro outside
        exact absurd inside (Nat.not_lt.mpr outside)
    · constructor
      · rintro ⟨e', herror', other⟩
        cases herror.symm.trans herror'
        exact h.mp other
      · intro outside
        exact ⟨e, herror, h.mpr outside⟩
  · intro e' herror'
    rcases result_cases total with ⟨_, hok⟩ | ⟨e, herror, _, hrest⟩
    · cases hok.symm.trans herror'
    · cases herror.symm.trans herror'
      exact hrest
  · intro strict low c hc code s
    obtain ⟨inside, answers⟩ := answers_of_context total hc
    refine ⟨fun key => (Exec.checkSignature_of_lax answers strict low key code s).1,
      fun der hashType key => (Exec.checkSignature_of_lax answers strict low key code s).2 _ _,
      fun key signature rest hs => Exec.checkSingle_total answers strict low hs, ?_⟩
    exact fun signatures keys => Exec.matchKeys_total
      (fun signature key => Exec.checkSignature_total answers strict low signature key code)
      signatures keys s

/-- A signature and a key that are no such things make a check false, which the script asks for. -/
theorem verification_never_faults_malformed :
    let m : Machine := { flags := .none, checker := .total fun _ _ _ _ => false }
    let input : TxIn := ⟨⟨⟨List.replicate 32 0, rfl⟩, 0⟩, [0x01, 0x03, 0x01, 0x55], 0xffffffff⟩
    let tx : Transaction := ⟨1, 0, [input], []⟩
    let prevOutput : TxOut := ⟨0, [0xac, 0x91]⟩
    Checked.verifyTransaction m tx 0 prevOutput 0 = .ok true ∧
      ∃ c, m.context tx 0 prevOutput 0 = .ok c ∧
        ∃ valid t, Exec.checkSingle (m.configure c.env) { stack := [[0x55], [0x03]] } =
          .ok valid t := by
  intro m input tx prevOutput
  obtain ⟨_, checked, _, _, _, lax⟩ :=
    verification_never_faults .none false (fun _ _ _ _ => false) tx 0 prevOutput 0
  have authorized : (m.verifyTransaction tx 0 prevOutput 0).result = .ok true := by
    decide +kernel
  have hcontext := context_of_lt m prevOutput 0 (show 0 < tx.inputs.length from Nat.one_pos)
  obtain ⟨_, _, single, _⟩ := lax rfl rfl _ hcontext .empty { stack := [[0x55], [0x03]] }
  exact ⟨checked.trans (congrArg Checked.of authorized), _, hcontext, single _ _ _ rfl⟩

end Machine

end CoinScript
