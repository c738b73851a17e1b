import CoinScript.Proofs.CheckedRules
/-!
# Multisignature checks and lock times on words and vectors

A multisignature check finds its operands by counting down from the top of the stack: the keys
from one place on, the signatures from another, and it takes as many items off as it has counted.
The counts are read from the stack, so the places lie on it only because they were compared with
its height before.

* `checkMultisig_eq`: a multisignature check has no fault;
* `execute_eq`: from a state within the limits, no rule has a fault, and each does what the rule
  of the machine does.
-/

namespace CoinScript.Guarded

open Exec
open Script (Rows)

/-! ## Operands by place -/

/-- The item at place `i` from the top, where the top is at place 1. -/
def peekBack (i : Nat) : Guarded Bytes := do
  let index ← check (Checked.long (-(i : Int)))
  peek index

/-- The number of operands that the item at place `i` gives. -/
def countAt (i most : Nat) (cause : Int → Malformation) : Guarded Nat := do
  of (need i)
  let index ← check (Checked.long (-(i : Int)))
  let n ← peekNumber index maxNumberSize
  if n < 0 ∨ n > most then of (throw (.structural (cause n)))
  else return n.toNat

/-- The code without the pushes of as many signatures as are left, the next of which is `k` places
behind the first one. -/
def deleteSignatures (first : Nat) : Nat → Nat → Rows → Guarded Rows
  | 0, _, code => return code
  | left + 1, k, code => do
    let i ← check (Checked.word (first + k))
    let signature ← peekBack i
    let code ← check (Checked.deletePush code signature)
    deleteSignatures first left (k + 1) code

/-- Match the signatures that are left with the keys that are left, from a place for each on. A key
that is gone before it was tried would make the number of keys negative. -/
def matchSignatures (env : Env) (code : Rows) : Nat → Nat → Nat → Nat → Guarded Bool
  | _, 0, _, _ => return true
  | 0, _ + 1, _, _ => check (Checked.fail .negative)
  | keysLeft + 1, signaturesLeft + 1, signatureAt, keyAt => do
    let signature ← peekBack signatureAt
    let key ← peekBack keyAt
    let valid ← checkSignature env signature key code
    let keyAt ← check (Checked.word (keyAt + 1))
    if valid then
      let signatureAt ← check (Checked.word (signatureAt + 1))
      if signaturesLeft > keysLeft then return false
      else matchSignatures env code keysLeft signaturesLeft signatureAt keyAt
    else
      if signaturesLeft + 1 > keysLeft then return false
      else matchSignatures env code keysLeft (signaturesLeft + 1) signatureAt keyAt

def popMany : Nat → Guarded Unit
  | 0 => return ()
  | count + 1 => do
    let _ ← of pop
    popMany count

/-- A multisignature check. The running count `i` of operands is the place of the next one. -/
def checkMultisig (env : Env) : Guarded Bool := do
  let keys ← countAt 1 maxMultisigKeys .keyCount
  countOperations keys
  let i ← check (Checked.word (1 + 1))
  let keyAt := i
  let i ← check (Checked.word (i + keys))
  let signatures ← countAt i keys .signatureCount
  let i ← check (Checked.word (i + 1))
  let signatureAt := i
  let i ← check (Checked.word (i + signatures))
  of (need i)
  let s ← get
  let code ← check (Checked.subscript s.script.rows s.codeStart)
  let code ← deleteSignatures signatureAt signatures 0 code
  let success ← matchSignatures env code keys signatures signatureAt keyAt
  let above ← check (Checked.sub i 1)
  popMany above
  let dummy ← of pop
  of (if env.flags.nullDummy && dummy ≠ [] then throw (.structural .dummyNotEmpty)
    else pure success)

theorem peekBack_eq {s : State} (hs : s.stack.length ≤ 0x3fffffffffffffff) {i : Nat}
    (hi : i < s.stack.length) : peekBack (i + 1) s = .ok s.stack[i] s := by
  have hitem : itemAt i s = .ok s.stack[i] s := by
    rw [itemAt, List.getElem?_eq_getElem hi]
  have hindex : (Int.negSucc i).natAbs ≤ 0x3fffffffffffffff := by
    rw [Int.natAbs_negSucc]
    omega
  rw [peekBack, check_bind (Checked.long_eq (by omega))]
  show peek (Int.negSucc i) s = _
  rw [peek_eq hs hindex, peek_negSucc, of_of_ok hitem]

theorem popMany_eq (count : Nat) {s : State} (enough : count ≤ s.stack.length) :
    popMany count s = .ok () { s with stack := s.stack.drop count } := by
  induction count generalizing s with
  | zero => rfl
  | succ count ih =>
    obtain ⟨item, rest, hs⟩ := List.exists_cons_of_length_pos (Nat.lt_of_lt_of_le (by omega) enough)
    have hpop : of pop s = .ok item { s with stack := rest } := by
      rw [of, pop, hs]
    rw [hs, List.length_cons] at enough
    rw [popMany, bind_of_ok hpop, ih (Nat.le_of_succ_le_succ enough), hs]
    rfl

theorem deleteSignatures_eq {s : State} (hs : s.stack.length ≤ 0x3fffffffffffffff) (short : s.Short)
    {first : Nat} (left k : Nat) (code : Script) (enough : first + k + left ≤ s.stack.length) :
    deleteSignatures (first + 1) left k code.rows s =
      .ok (codeWithout code ((s.stack.drop (first + k)).take left)).rows s := by
  induction left generalizing k code with
  | zero => rfl
  | succ left ih =>
    have inside : first + k < s.stack.length := by omega
    have hshort : s.stack[first + k].length ≤ maxItemSize :=
      short _ (.inl (List.getElem_mem inside))
    have hplace : first + 1 + k = first + k + 1 := by omega
    rw [deleteSignatures, check_bind (Checked.word_eq (by omega)), hplace,
      bind_of_ok (peekBack_eq hs inside), check_bind (Checked.deletePush_eq code hshort),
      ih (k + 1) _ (by omega), List.drop_eq_getElem_cons inside, List.take_succ_cons]
    rfl

/-! ## Matching -/

theorem checkSignature_stack (env : Env) (signature key : Bytes) (code : Script) (s : State) :
    Ends (fun _ t => t.stack = s.stack) (fun _ _ => True)
      (Exec.checkSignature env signature key code s) := by
  have lifted {α : Type} (r : Except Error α) :
      Ends (fun _ t => t = s) (fun _ _ => True) (Exec.lift r s) := by
    cases r with
    | ok a => exact rfl
    | error e => exact trivial
  have asked (call : Call) :
      Ends (fun _ t => t.stack = s.stack) (fun _ _ => True) (ask env call s) := by
    show Ends _ _ (Exec.lift (env.checker call.digest call.signature call.publicKey env.flags)
      { s with calls := call :: s.calls })
    cases env.checker call.digest call.signature call.publicKey env.flags with
    | ok answer => exact rfl
    | error e => exact trivial
  refine (lifted _).bind fun _ t ht => ?_
  rw [ht]
  refine (lifted _).bind fun _ t ht => ?_
  rw [ht]
  cases signature.getLast? with
  | none => exact rfl
  | some hashType =>
    unfold Exec.spend
    cases env.spend with
    | none => exact trivial
    | some spend => exact asked _

theorem matchKeys_stack {check : Bytes → Bytes → Exec Bool}
    (h : ∀ signature key s, Ends (fun _ t => t.stack = s.stack) (fun _ _ => True)
      (check signature key s)) (signatures keys : List Bytes) (s : State) :
    Ends (fun _ t => t.stack = s.stack) (fun _ _ => True) (matchKeys check signatures keys s) := by
  fun_induction matchKeys check signatures keys generalizing s with
  | case1 => exact rfl
  | case2 => exact rfl
  | case3 => exact rfl
  | case4 signature signatures key keys _ found passed =>
    refine (h signature key s).bind fun answer t ht => ?_
    cases answer with
    | true => exact (found t).imp fun _ _ hu => hu.trans ht
    | false => exact (passed t).imp fun _ _ hu => hu.trans ht

theorem matchKeys_of_fewer (check : Bytes → Bytes → Exec Bool) {signatures keys : List Bytes}
    (h : keys.length < signatures.length) : matchKeys check signatures keys = pure false := by
  rcases signatures with _ | ⟨signature, signatures⟩
  · cases h
  · rcases keys with _ | ⟨key, keys⟩
    · rw [matchKeys]
    · rw [matchKeys, if_pos h]

theorem matchSignatures_eq (env : Env) (code : Script) {stack : List Bytes}
    (hstack : stack.length ≤ 0x3fffffffffffffff) (keysLeft signaturesLeft signatureAt keyAt : Nat)
    (few : signaturesLeft ≤ keysLeft) (hsignatures : signatureAt + signaturesLeft ≤ stack.length)
    (hkeys : keyAt + keysLeft ≤ stack.length) {s : State} (hs : s.stack = stack) :
    matchSignatures env code.rows keysLeft signaturesLeft (signatureAt + 1) (keyAt + 1) s =
      of (matchKeys (fun signature key => Exec.checkSignature env signature key code)
        ((stack.drop signatureAt).take signaturesLeft) ((stack.drop keyAt).take keysLeft)) s := by
  induction keysLeft generalizing signaturesLeft signatureAt keyAt s with
  | zero =>
    obtain rfl : signaturesLeft = 0 := Nat.le_zero.mp few
    rfl
  | succ keysLeft ih =>
    cases signaturesLeft with
    | zero =>
      rw [List.take_zero, matchSignatures, matchKeys]
      rfl
    | succ signaturesLeft =>
      subst hs
      have hsignature : signatureAt < s.stack.length := by omega
      have hkey : keyAt < s.stack.length := by omega
      have hlengths : ¬ (s.stack[signatureAt] ::
          (s.stack.drop (signatureAt + 1)).take signaturesLeft).length >
          (s.stack[keyAt] :: (s.stack.drop (keyAt + 1)).take keysLeft).length := by
        simp only [List.length_cons, List.length_take, List.length_drop]
        omega
      rw [matchSignatures, bind_of_ok (peekBack_eq hstack hsignature),
        bind_of_ok (peekBack_eq hstack hkey), checkSignature_eq,
        List.drop_eq_getElem_cons hsignature, List.drop_eq_getElem_cons hkey, List.take_succ_cons,
        List.take_succ_cons, matchKeys, if_neg hlengths]
      refine bind_eq rfl fun valid t hvalid => ?_
      have ht := checkSignature_stack env s.stack[signatureAt] s.stack[keyAt] code s
      rw [hvalid] at ht
      -- One key is used up either way; the signature is only if the key fits.
      have rest (left place : Nat) (fits : place + left ≤ s.stack.length) :
          (if left > keysLeft then pure false
            else matchSignatures env code.rows keysLeft left (place + 1) (keyAt + 1 + 1) :
              Guarded Bool) t =
          of (matchKeys (fun signature key => Exec.checkSignature env signature key code)
            ((s.stack.drop place).take left) ((s.stack.drop (keyAt + 1)).take keysLeft)) t := by
        split
        · next fewer =>
          rw [matchKeys_of_fewer _ (by simp; omega)]
          rfl
        · next enough => exact ih left place (keyAt + 1) (by omega) fits (by omega) ht
      rw [check_bind (Checked.word_eq (by omega))]
      cases valid with
      | true =>
        rw [if_pos rfl, if_pos rfl, check_bind (Checked.word_eq (by omega))]
        exact rest signaturesLeft (signatureAt + 1) (by omega)
      | false =>
        rw [if_neg Bool.false_ne_true, if_neg Bool.false_ne_true, ← List.take_succ_cons,
          ← List.drop_eq_getElem_cons hsignature]
        exact rest (signaturesLeft + 1) signatureAt hsignatures

/-! ## Numbers of operands -/

/-- The number of operands that the item at place `i` gives, in the rule of the machine. -/
def operandCount (i most : Nat) (cause : Int → Malformation) : Exec Nat := do
  need i
  let n ← Exec.peekNumber (-i) maxNumberSize
  if n < 0 ∨ n > most then throw (.structural (cause n))
  return n.toNat

theorem operandCount_ok {i most : Nat} {cause : Int → Malformation} {s t : State} {n : Nat}
    (h : operandCount i most cause s = .ok n t) : n ≤ most ∧ t = s := by
  obtain ⟨_, _, hneed, h₁⟩ := bind_ok_iff.mp h
  obtain ⟨_, rfl⟩ := need_ok_iff.mp hneed
  obtain ⟨v, _, hpeek, h₂⟩ := bind_ok_iff.mp h₁
  obtain rfl := unchanged_of_peekNumber hpeek
  dsimp only at h₂
  split at h₂
  · cases h₂
  · next allowed =>
    cases h₂
    exact ⟨by omega, rfl⟩

theorem countAt_eq {s : State} (hs : s.stack.length ≤ 0x3fffffffffffffff) (i most : Nat)
    (cause : Int → Malformation) :
    countAt (i + 1) most cause s = of (operandCount (i + 1) most cause) s := by
  refine bind_eq rfl fun _ t hneed => ?_
  obtain ⟨inside, rfl⟩ := need_ok_iff.mp hneed
  rw [check_bind (Checked.long_eq (by omega))]
  refine bind_eq (peekNumber_eq hs (by omega) (by decide)) fun n u _ => ?_
  split
  · rfl
  · rfl

theorem keyCount_eq {s : State} (hs : s.stack.length ≤ 0x3fffffffffffffff) :
    countAt 1 maxMultisigKeys .keyCount s = of keyCount s :=
  countAt_eq hs 0 maxMultisigKeys .keyCount

theorem signatureCount_eq {s : State} (hs : s.stack.length ≤ 0x3fffffffffffffff) (keys : Nat) :
    countAt (keys + 2) keys .signatureCount s = of (signatureCount keys) s :=
  countAt_eq hs (keys + 1) keys .signatureCount

/-! ## The check as a whole -/

/-- The operands come off one by one, and the item below them after them. -/
theorem popMany_dummy {s : State} {above : Nat} (inside : above < s.stack.length)
    (refused : Bytes → Bool) (success : Bool) :
    (popMany above >>= fun _ => of pop >>= fun dummy =>
      of (if refused dummy then throw (.structural .dummyNotEmpty) else pure success)) s =
    of (itemAt above >>= fun dummy =>
      modify (fun st => { st with stack := st.stack.drop (above + 1) }) >>= fun _ =>
        if refused dummy then throw (.structural .dummyNotEmpty) else pure success) s := by
  have hpop : of pop { s with stack := s.stack.drop above } =
      .ok s.stack[above] { s with stack := s.stack.drop (above + 1) } := by
    rw [of, pop, List.drop_eq_getElem_cons inside]
  have hitem : itemAt above s = .ok s.stack[above] s := by
    rw [itemAt, List.getElem?_eq_getElem inside]
  rw [bind_of_ok (popMany_eq above (Nat.le_of_lt inside)), bind_of_ok hpop, of_bind,
    bind_of_ok (of_of_ok hitem)]
  rfl

theorem checkMultisig_eq (env : Env) {s : State} (tidy : s.Tidy) (hops : s.operations ≤ 0xffff) :
    checkMultisig env s = of (Exec.checkMultisig env) s := by
  have hheight := stack_le_of_tidy tidy
  refine bind_eq (keyCount_eq hheight) fun keys t hkeys => ?_
  obtain ⟨few, rfl⟩ := operandCount_ok hkeys
  simp only [maxMultisigKeys] at few
  refine bind_eq (countOperations_eq hops (by omega)) fun _ u hcount => ?_
  obtain ⟨_, hu⟩ := countOperations_ok_iff.mp hcount
  have short : u.Short := by
    rw [hu]
    exact tidy.1
  have hs : u.stack.length ≤ 0x3fffffffffffffff := by
    rw [hu]
    exact hheight
  have hplace : 1 + 1 + keys = keys + 2 := by omega
  rw [check_bind (Checked.word_eq (by decide)), check_bind (Checked.word_eq (by omega)), hplace]
  refine bind_eq (signatureCount_eq hs keys) fun signatures v hsignatures => ?_
  obtain ⟨fewer, rfl⟩ := operandCount_ok hsignatures
  have hoperands : keys + 2 + 1 + signatures = keys + signatures + 3 := by omega
  rw [check_bind (Checked.word_eq (by omega)), check_bind (Checked.word_eq (by omega)), hoperands]
  refine bind_eq rfl fun _ w hneed => ?_
  obtain ⟨enough, rfl⟩ := need_ok_iff.mp hneed
  refine bind_eq rfl fun st _ hget => ?_
  cases hget
  have hdeleted := deleteSignatures_eq hs short signatures 0 (w.script.dropFront w.codeStart)
    (show keys + 2 + 0 + signatures ≤ w.stack.length by omega)
  rw [check_bind (Checked.subscript_eq _ _), bind_of_ok hdeleted]
  refine bind_eq (matchSignatures_eq env _ hs keys signatures (keys + 2) 1 fewer (by omega)
    (by omega) rfl) fun success v hmatch => ?_
  have hstack := matchKeys_stack (fun signature key => checkSignature_stack env signature key
    (codeWithout w.scriptCode ((w.stack.drop (keys + 2)).take signatures)))
    ((w.stack.drop (keys + 2)).take signatures) ((w.stack.drop 1).take keys) w
  rw [hmatch] at hstack
  have inside : keys + signatures + 2 < v.stack.length := by
    rw [show v.stack = w.stack from hstack]
    exact enough
  rw [check_bind (Checked.sub_eq (by omega))]
  exact popMany_dummy inside (fun dummy => env.flags.nullDummy && decide (dummy ≠ [])) success

/-! ## All opcodes -/

def signatureCheck (env : Env) (op : Opcode) : Guarded Unit :=
  match op with
  | .signature .codeSeparator => markSeparator
  | .signature .checkSig => do
    let outcome ← checkSingle env
    of (settle .checkSig true outcome)
  | .signature .checkSigVerify => do
    let outcome ← checkSingle env
    of (settle .checkSigVerify false outcome)
  | .signature .checkMultisig => do
    let outcome ← checkMultisig env
    of (settle .checkMultisig true outcome)
  | .signature .checkMultisigVerify => do
    let outcome ← checkMultisig env
    of (settle .checkMultisigVerify false outcome)
  | _ => unreachable

/-- The rule of a lock-time opcode. All but one opcode are taken for the relative one. -/
def lockTime (env : Env) (op : Opcode) : Guarded Unit :=
  let absolute := op = .lockTime .absolute
  if (if absolute then env.flags.checkLockTimeVerify else env.flags.checkSequenceVerify) then do
    of (need 1)
    let value ← peekNumber (-1) maxLockTimeSize
    if value < 0 then of (throw (.structural (.negativeOperand op)))
    else if absolute then
      let spend ← of (spend env)
      check (Checked.checkLockTime spend env.blockTime value)
    else if value.toNat.testBit 31 then return ()
    else
      let spend ← of (spend env)
      check (Checked.checkSequence spend value)
  else return ()

/-- The rule of an opcode, found by the family first. -/
def execute (env : Env) (op : Opcode) : Guarded Unit :=
  match op.kind with
  | .pushData => pushValue op
  | .flowControl => flowControl op
  | .stack => stackManipulation op
  | .splice => splice op
  | .bitwise => bitwise op
  | .arithmetic => arithmetic op
  | .cryptoHash => cryptoHash op
  | .signatureCheck => signatureCheck env op
  | .lockTime => lockTime env op
  | .noOp => return ()
  | .disabled => of (throw (.structural (.disabledOpcode op)))
  | .invalid => of (throw (.structural (.reservedOpcode op)))

theorem signatureCheck_eq (env : Env) (op : SignatureOp) {s : State} (tidy : s.Tidy)
    (hops : s.operations ≤ 0xffff) (hposition : s.position ≤ 0xffff) :
    signatureCheck env (.signature op) s = of (op.execute env) s := by
  have within : Within s 0 (checkSingle env) (Exec.checkSingle env) := within_checkSingle env tidy
  have single := within s (.refl s)
  have multi := checkMultisig_eq env tidy hops
  cases op with
  | codeSeparator => exact markSeparator_eq hposition
  | checkSig => exact bind_eq single fun _ _ _ => rfl
  | checkSigVerify => exact bind_eq single fun _ _ _ => rfl
  | checkMultisig => exact bind_eq multi fun _ _ _ => rfl
  | checkMultisigVerify => exact bind_eq multi fun _ _ _ => rfl

/-- The part of the lock-time rules that comes before the comparison. -/
theorem lockOperand_eq {s : State} (tidy : s.Tidy) (enabled : Bool) (e : Error)
    {checked : Int → Guarded Unit} {rule : Int → Exec Unit}
    (h : ∀ value, checked value = of (rule value)) :
    (if enabled then of (need 1) >>= fun _ => peekNumber (-1) maxLockTimeSize >>= fun value =>
        if value < 0 then of (throw e) else checked value
      else pure () : Guarded Unit) s =
    of (if enabled then need 1 >>= fun _ => Exec.peekNumber (-1) maxLockTimeSize >>= fun value =>
        if value < 0 then throw e else rule value
      else pure ()) s := by
  cases enabled with
  | false => rfl
  | true =>
    refine bind_eq rfl fun _ t hneed => ?_
    obtain ⟨_, rfl⟩ := need_ok_iff.mp hneed
    have hheight := stack_le_of_tidy tidy
    refine bind_eq (peekNumber_eq hheight (by decide) (by decide)) fun value u _ => ?_
    rw [h]
    split
    · rfl
    · rfl

theorem spend_bind_eq (env : Env) {checked : Spend → Checked Unit}
    {rule : Spend → Except Error Unit} (h : ∀ spend, checked spend = Checked.of (rule spend)) :
    (of (spend env) >>= fun spend => check (checked spend)) =
      of (spend env >>= fun spend => Exec.lift (rule spend)) := by
  rw [of_bind]
  refine bind_congr fun spend => ?_
  rw [h, check_of]

theorem lockTime_eq (env : Env) (op : LockTimeOp) {s : State} (tidy : s.Tidy) :
    lockTime env (.lockTime op) s = of (op.execute env) s := by
  cases op with
  | absolute =>
    refine lockOperand_eq tidy env.flags.checkLockTimeVerify _ fun value => ?_
    rw [if_pos rfl]
    exact spend_bind_eq env fun spend => Checked.checkLockTime_eq spend env.blockTime value
  | relative =>
    refine lockOperand_eq tidy env.flags.checkSequenceVerify _ fun value => ?_
    rw [if_neg (by decide), apply_ite of]
    congr 1
    exact spend_bind_eq env fun spend => Checked.checkSequence_eq spend value

theorem execute_eq (env : Env) (op : Opcode) {s : State} (tidy : s.Tidy)
    (hops : s.operations ≤ 0xffff) (hposition : s.position ≤ 0xffff) :
    execute env op s = of (op.execute env) s := by
  have start : s.Work 0 0 s := .refl s
  cases op with
  | push op => exact congrFun (pushValue_eq op) s
  | flow op => exact congrFun (flowControl_eq op) s
  | stack op => exact within_stackOp (height_le_of_tidy tidy) op s start
  | size => exact within_size tidy s start
  | equal => exact congrFun (bitwise_equal env) s
  | equalVerify => exact congrFun (bitwise_equalVerify env) s
  | arithmetic op => exact within_arithmetic op s start
  | hash op => exact congrFun (cryptoHash_eq op) s
  | signature op => exact signatureCheck_eq env op tidy hops hposition
  | lockTime op => exact lockTime_eq env op tidy
  | noOp op => rfl
  | disabled op => rfl
  | reserved op => rfl

end CoinScript.Guarded
